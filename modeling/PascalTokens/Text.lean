import PascalTokens.Line

/-! Texts as sequences of lines. A line ends with a newline, before which a carriage return may
stand; the last line of a text may lack its end. -/
namespace PascalTokens.Text

/-- The lines of a text with their terminators. -/
def terminated : List Char → List Line
  | [] => []
  | c :: t =>
    if c = '\n' then [c] :: terminated t
    else match terminated t with
      | [] => [[c]]
      | l :: ls => (c :: l) :: ls

@[simp] theorem terminated_flatten (t : List Char) : (terminated t).flatten = t := by
  induction t with
  | nil => rfl
  | cons c t ih =>
    unfold terminated
    split
    · simp [ih]
    · split <;> simp_all

/-- A line without its terminator. A carriage return is part of a terminator only before a
newline. -/
def unterminated (l : Line) : Line :=
  if l.getLast? = some '\n' then
    if l.dropLast.getLast? = some '\r' then l.dropLast.dropLast else l.dropLast
  else l

def lines (t : List Char) : List Line := (terminated t).map unterminated

example : lines ['a', '\r', '\n', '\n', 'b', '\r'] = [['a'], [], ['b', '\r']] := by decide

end PascalTokens.Text
