import PascalTokens.LineSource
import PascalTokens.Read

/-! The lines of an input that comes by reads. -/
namespace PascalTokens

structure Source where
  name : String
  reads : List Read
  number : Nat

namespace Source

def ofReads (name : String) (reads : List Read) : Source := ⟨name,reads,0⟩

def ofBytes (name : String) (bytes : List UInt8) : Source := ofReads name [.data bytes]

def openFile (files : Files) (path : String) : Except Error Source :=
  match files path with
  | .ok reads => .ok (ofReads path reads)
  | .error f => .error ⟨.fileOpen f,⟨0,path⟩⟩

def decode (bs : List UInt8) : Option (List Char) :=
  (String.fromUTF8? bs.toByteArray).map String.toList

def invalidText : Failure := ⟨.invalidData,"stream did not contain valid UTF-8"⟩

def fail (s : Source) (f : Failure) : Error := ⟨.readLine f,⟨s.number + 1,s.name⟩⟩

/-- What stands before a `c` at the end of a line. -/
def beforeEnd? (c : Char) (l : Line) : Option Line :=
  if l.getLast? = some c then some l.dropLast else none

/-- A line without a newline at its end, and without a carriage return before the newline. -/
def stripped (l : Line) : Line :=
  match beforeEnd? '\n' l with
  | none => l
  | some m => (beforeEnd? '\r' m).getD m

/-- The next line. A line that cannot be read has no number. -/
def nextLine (s : Source) : Except Error (Option Line) × Source :=
  match Read.line [] s.reads with
  | (.error f,after) => (.error (s.fail f),{ s with reads := after })
  | (.ok [],after) => (.ok none,{ s with reads := after })
  | (.ok (b :: bs),after) =>
    match decode (b :: bs) with
    | none => (.error (s.fail invalidText),{ s with reads := after })
    | some t => (.ok (some (stripped t)),{ s with reads := after, number := s.number + 1 })

theorem byteCount_nextLine {s t : Source} {l : Line} (h : s.nextLine = (.ok (some l),t)) :
    Read.byteCount t.reads < Read.byteCount s.reads := by
  simp only [nextLine] at h
  split at h
  · simp at h
  · simp at h
  · rename_i b bs after hl
    have hc := Read.byteCount_line hl
    split at h
    · simp at h
    · simp only [Prod.mk.injEq] at h
      obtain ⟨-,rfl⟩ := h
      simp only [List.length_cons,List.length_nil] at hc
      simp only
      omega

instance : LineSource Source where
  next := nextLine
  number := number
  remaining s := Read.byteCount s.reads
  remaining_lt := byteCount_nextLine
  endRecords s := [.sourceEnded s.name s.number]

end Source

/-- The tokens of the file at a path, if it can be read to its end. -/
def Catalog.tokenizeFile (c : Catalog) (files : Files) (path : String) :
    Except Error (List Token) :=
  (Source.openFile files path).bind c.tokenizeWhole

end PascalTokens
