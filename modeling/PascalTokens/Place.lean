import PascalTokens.Line
import PascalTokens.Unicode.WordCharacter

/-! Places in a line, where matches begin and end. -/
namespace PascalTokens

structure Place where
  offset : Nat
  /-- The character before the place. -/
  last : Option Char
  rest : Line
  deriving DecidableEq

namespace Place

/-- The place after `c`, which is the first character of `p.rest`; `l` is what follows it. -/
def past (p : Place) (c : Char) (l : Line) : Place := ⟨p.offset + c.utf8Size,some c,l⟩

def pastText (p : Place) : List Char → Option Place
  | [] => some p
  | c :: t =>
    match p.rest with
    | [] => none
    | d :: l => if c = d then (p.past d l).pastText t else none

def ofRest (offset : Nat) (last : Option Char) : Line → List Place
  | [] => [⟨offset,last,[]⟩]
  | c :: l => ⟨offset,last,c :: l⟩ :: ofRest (offset + c.utf8Size) (some c) l

def ofLine (l : Line) : List Place := ofRest 0 none l

/-- One reaches `q` from `p` by going on along the line. -/
inductive Reaches : Place → Place → Prop
  | refl (p : Place) : Reaches p p
  | past {p q : Place} {c : Char} {l : Line} : p.rest = c :: l → Reaches (p.past c l) q → Reaches p q

theorem Reaches.trans {p q r : Place} (h : p.Reaches q) (k : q.Reaches r) : p.Reaches r := by
  induction h with
  | refl => exact k
  | past e _ ih => exact .past e (ih k)

theorem Reaches.exists_text {p q : Place} (h : p.Reaches q) :
    ∃ t : Line, p.rest = t ++ q.rest ∧ q.offset = p.offset + t.bytes := by
  induction h with
  | refl => exact ⟨[],by simp⟩
  | @past p q c l e _ ih =>
    obtain ⟨t,h1,h2⟩ := ih
    refine ⟨c :: t,?_,?_⟩
    · rw [e,List.cons_append,← h1]; rfl
    · rw [h2,Line.bytes_cons,← Nat.add_assoc]; rfl

theorem reaches_pastText {p q : Place} {t : List Char} (h : p.pastText t = some q) :
    p.Reaches q := by
  induction t generalizing p with
  | nil => cases h; exact .refl _
  | cons c t ih =>
    unfold pastText at h
    split at h
    · cases h
    · rename_i d l e
      split at h
      · exact .past e (ih h)
      · cases h

def isAfterWord (p : Place) : Bool := p.last.any Unicode.isWordCharacter

def isBeforeWord (p : Place) : Bool := p.rest.head?.any Unicode.isWordCharacter

end Place

inductive Anchor
  | lineStart | lineEnd | wordBoundary | wordStart | wordEnd
  deriving DecidableEq

def Anchor.holds : Anchor → Place → Bool
  | lineStart, p => p.last.isNone
  | lineEnd, p => p.rest.isEmpty
  | wordBoundary, p => p.isAfterWord != p.isBeforeWord
  | wordStart, p => !p.isAfterWord && p.isBeforeWord
  | wordEnd, p => p.isAfterWord && !p.isBeforeWord

end PascalTokens
