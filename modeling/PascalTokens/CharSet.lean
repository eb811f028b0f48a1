import PascalTokens.Unicode.CaseFolding
import PascalTokens.Unicode.DecimalDigit
import PascalTokens.Unicode.WhiteSpace
import PascalTokens.Unicode.WordCharacter

/-! Sets of characters as runs of consecutive characters. The runs are in ascending order; those of
a union have gaps between them. -/
namespace PascalTokens

/-- The characters with the numbers from `first` to `last`. -/
structure CharRun where
  first : Nat
  last : Nat
  deriving DecidableEq

structure CharSet where
  runs : List CharRun
  deriving DecidableEq

namespace CharRun

def contains (r : CharRun) (n : Nat) : Bool := r.first ≤ n && n ≤ r.last

/-- Adds a run to runs in ascending order, and joins it with those that it meets. -/
def insert (a : CharRun) : List CharRun → List CharRun
  | [] => [a]
  | b :: bs =>
    if a.last + 1 < b.first then a :: b :: bs
    else if b.last + 1 < a.first then b :: insert a bs
    else insert ⟨min a.first b.first,max a.last b.last⟩ bs

def lastCharacter : Nat := 0x10FFFF

/-- The number of the next character. Those of surrogates belong to none. -/
def succ (n : Nat) : Nat := if n = 0xD7FF then 0xE000 else n + 1

def pred (n : Nat) : Nat := if n = 0xE000 then 0xD7FF else n - 1

def between (m n : Nat) : CharRun := ⟨min m n,max m n⟩

/-- The gaps before and after runs in ascending order that follow the character `n`. A gap has its
ends next to the runs around it. So where only the surrogates lie between two runs, the gap is made
of the two characters around the surrogates, though they are in the runs. -/
def gapsAfter (n : Nat) : List CharRun → List CharRun
  | [] => if n < lastCharacter then [between (succ n) lastCharacter] else []
  | r :: rs => between (succ n) (pred r.first) :: gapsAfter r.last rs

def gaps : List CharRun → List CharRun
  | [] => [between 0 lastCharacter]
  | r :: rs =>
    if 0 < r.first then between 0 (pred r.first) :: gapsAfter r.last rs else gapsAfter r.last rs

theorem any_contains_insert (a : CharRun) (rs : List CharRun) (n : Nat) :
    (insert a rs).any (·.contains n) = (a.contains n || rs.any (·.contains n)) := by
  induction rs generalizing a with
  | nil => simp [insert]
  | cons b bs ih =>
    unfold insert
    split
    · simp
    · split
      · simp only [List.any_cons,ih]
        rw [Bool.or_left_comm]
      · rw [ih,List.any_cons,← Bool.or_assoc]
        congr 1
        rw [Bool.eq_iff_iff]
        simp only [contains,Bool.or_eq_true,Bool.and_eq_true,decide_eq_true_eq]
        omega

end CharRun

namespace CharSet

def contains (s : CharSet) (c : Char) : Bool := s.runs.any (·.contains c.toNat)

def empty : CharSet := ⟨[]⟩

def isEmpty (s : CharSet) : Bool := s.runs.isEmpty

def ofRuns (rs : List CharRun) : CharSet := ⟨rs.foldr CharRun.insert []⟩

def range (first last : Char) : CharSet := ⟨[⟨first.toNat,last.toNat⟩]⟩

def singleton (c : Char) : CharSet := range c c

def ofList (cs : List Char) : CharSet := ofRuns (cs.map fun c => ⟨c.toNat,c.toNat⟩)

def union (s t : CharSet) : CharSet := ofRuns (s.runs ++ t.runs)

def complement (s : CharSet) : CharSet := ⟨CharRun.gaps s.runs⟩

example : (ofRuns [⟨0x20,0x40⟩, ⟨0x50,0x10FFFF⟩]).complement = ⟨[⟨0,0x1F⟩, ⟨0x41,0x4F⟩]⟩ := by decide

example : (ofRuns [⟨0,0xD7FF⟩, ⟨0xE000,0x10FFFF⟩]).complement = ⟨[⟨0xD7FF,0xE000⟩]⟩ := by decide

def single? (s : CharSet) : Option Char :=
  match s.runs with
  | [r] => if r.first = r.last then some (Char.ofNat r.first) else none
  | _ => none

theorem contains_ofRuns (rs : List CharRun) (c : Char) :
    (ofRuns rs).contains c = rs.any (·.contains c.toNat) := by
  simp only [contains,ofRuns]
  induction rs with
  | nil => rfl
  | cons r rs ih => rw [List.foldr_cons,CharRun.any_contains_insert,ih,List.any_cons]

theorem contains_union (s t : CharSet) (c : Char) :
    (s.union t).contains c = (s.contains c || t.contains c) := by
  rw [union,contains_ofRuns,List.any_append]
  rfl

/-- The folded forms of the set's characters that are not folded themselves. -/
def foldedForms (s : CharSet) : List CharRun :=
  Unicode.foldings.flatMap fun f => f.sources.filterMap fun n =>
    if s.runs.any (·.contains n) then some ⟨f.target n,f.target n⟩ else none

/-- The characters whose folded form is another one in the set. -/
def unfoldedForms (s : CharSet) : List CharRun :=
  Unicode.foldings.flatMap fun f => f.sources.filterMap fun n =>
    if s.runs.any (·.contains (f.target n)) then some ⟨n,n⟩ else none

/-- With every character also those that differ from it in case only. -/
def caseless (s : CharSet) : CharSet :=
  let folded := union ⟨s.foldedForms⟩ s
  union ⟨folded.unfoldedForms⟩ folded

def decimalDigits : CharSet := ofRuns (Unicode.decimalZeros.map fun z => ⟨z,z + 9⟩)

theorem contains_decimalDigits (c : Char) :
    decimalDigits.contains c = Unicode.isDecimalDigit c := by
  rw [decimalDigits,contains_ofRuns,List.any_map,Unicode.isDecimalDigit]
  congr 1
  funext z
  rw [Bool.eq_iff_iff]
  simp only [Function.comp,CharRun.contains,Bool.and_eq_true,decide_eq_true_eq]
  omega

def wordCharacters : CharSet := ⟨Unicode.wordRanges.map fun r => ⟨r.1,r.2⟩⟩

def whiteSpace : CharSet :=
  ⟨[⟨0x09,0x0D⟩, ⟨0x20,0x20⟩, ⟨0x85,0x85⟩, ⟨0xA0,0xA0⟩, ⟨0x1680,0x1680⟩, ⟨0x2000,0x200A⟩,
    ⟨0x2028,0x2029⟩, ⟨0x202F,0x202F⟩, ⟨0x205F,0x205F⟩, ⟨0x3000,0x3000⟩]⟩

theorem contains_whiteSpace (c : Char) : whiteSpace.contains c = Unicode.isWhiteSpace c := by
  rw [Bool.eq_iff_iff]
  simp only [contains,whiteSpace,CharRun.contains,List.any_cons,List.any_nil,Unicode.isWhiteSpace,
    Bool.or_eq_true,Bool.and_eq_true,decide_eq_true_eq,beq_iff_eq,Bool.false_eq_true,or_false]
  omega

end CharSet
end PascalTokens
