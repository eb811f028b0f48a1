/-! Lines of text and byte offsets into them. An offset counts the bytes of the UTF-8 form of the
characters before it, so it need not lie between two characters. -/
namespace PascalTokens

/-- From the byte at `start` up to the byte before `stop`. -/
structure Span where
  start : Nat
  stop : Nat
  deriving DecidableEq

abbrev Line := List Char

namespace Line

def bytes (l : Line) : Nat := l.foldr (fun c n => c.utf8Size + n) 0

@[simp] theorem bytes_nil : bytes [] = 0 := rfl

@[simp] theorem bytes_cons (c : Char) (l : Line) : bytes (c :: l) = c.utf8Size + bytes l := rfl

@[simp] theorem bytes_append (l m : Line) : bytes (l ++ m) = bytes l + bytes m := by
  induction l with
  | nil => simp
  | cons c l ih => rw [List.cons_append,bytes_cons,bytes_cons,ih,Nat.add_assoc]

theorem utf8ByteSize_ofList (l : Line) : (String.ofList l).utf8ByteSize = l.bytes := by
  induction l with
  | nil => simp
  | cons c l ih =>
    have h : String.ofList (c :: l) = String.singleton c ++ String.ofList l := by
      rw [String.singleton_eq_ofList,← String.ofList_append]; rfl
    rw [h,String.utf8ByteSize_append,String.utf8ByteSize_singleton,ih,bytes_cons]

/-- Does offset `n` lie between two characters of the line, or at one of its ends? -/
def isBoundary : Line → Nat → Bool
  | _, 0 => true
  | [], _ + 1 => false
  | c :: l, n + 1 => c.utf8Size ≤ n + 1 && isBoundary l (n + 1 - c.utf8Size)

/-- The characters that end at or before offset `n`. -/
def before : Line → Nat → Line
  | [], _ => []
  | c :: l, n => if c.utf8Size ≤ n then c :: before l (n - c.utf8Size) else []

def after : Line → Nat → Line
  | [], _ => []
  | c :: l, n => if c.utf8Size ≤ n then after l (n - c.utf8Size) else c :: l

@[simp] theorem before_append_after (l : Line) (n : Nat) : l.before n ++ l.after n = l := by
  induction l generalizing n with
  | nil => rfl
  | cons c l ih =>
    by_cases h : c.utf8Size ≤ n
    · simp [before,after,h,ih]
    · simp [before,after,h]

theorem bytes_before {l : Line} {n : Nat} (h : l.isBoundary n) : (l.before n).bytes = n := by
  induction l generalizing n with
  | nil => cases n with
    | zero => rfl
    | succ n => simp [isBoundary] at h
  | cons c l ih =>
    cases n with
    | zero =>
      have hc : ¬c.utf8Size ≤ 0 := by have := c.utf8Size_pos; omega
      simp [before,hc]
    | succ n =>
      simp only [isBoundary,Bool.and_eq_true,decide_eq_true_eq] at h
      simp only [before,h.1,if_true,bytes_cons,ih h.2]
      omega

def fits (l : Line) (s : Span) : Bool :=
  s.start ≤ s.stop && l.isBoundary s.start && l.isBoundary s.stop

def slice (l : Line) (s : Span) : Line := (l.after s.start).before (s.stop - s.start)

end Line
end PascalTokens
