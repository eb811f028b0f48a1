import PascalTokens.Lexer

/-! Texts joined at a newline. The lines of the whole are those of its two parts, and nothing but the
count of lines goes over from the first part to the second. -/
namespace PascalTokens

namespace Text

theorem terminated_newline (a b : List Char) :
    terminated (a ++ '\n' :: b) = terminated (a ++ ['\n']) ++ terminated b := by
  induction a with
  | nil => simp [terminated]
  | cons c a ih =>
    have hne : terminated (a ++ ['\n']) ≠ [] := by
      intro hn
      have hf := terminated_flatten (a ++ ['\n'])
      rw [hn] at hf
      simp at hf
    rw [List.cons_append,List.cons_append,terminated,terminated,ih]
    by_cases hc : c = '\n'
    · rw [if_pos hc,if_pos hc,List.cons_append]
    · rw [if_neg hc,if_neg hc]
      obtain ⟨l,ls,hl⟩ := List.exists_cons_of_ne_nil hne
      rw [hl,List.cons_append,List.cons_append]

theorem length_terminated_newline (a : List Char) :
    (terminated (a ++ ['\n'])).length = a.count '\n' + 1 := by
  induction a with
  | nil => simp [terminated]
  | cons c a ih =>
    rw [List.cons_append,terminated]
    by_cases hc : c = '\n'
    · rw [if_pos hc,hc,List.length_cons,ih,List.count_cons_self]
    · rw [if_neg hc,List.count_cons_of_ne hc]
      cases hl : terminated (a ++ ['\n']) with
      | nil => simp [hl] at ih
      | cons l ls => rw [← ih,hl,List.length_cons,List.length_cons]

theorem lines_newline (a b : List Char) :
    lines (a ++ '\n' :: b) = lines (a ++ ['\n']) ++ lines b := by
  rw [lines,terminated_newline,List.map_append]
  rfl

theorem length_lines_newline (a : List Char) :
    (lines (a ++ ['\n'])).length = a.count '\n' + 1 := by
  rw [lines,List.length_map,length_terminated_newline]

end Text

/-- The token as it stands `n` lines further down. -/
def Token.down (t : Token) (n : Nat) : Token := { t with line := t.line + n }

namespace Catalog

variable (c : Catalog)

theorem tokenizeLine_add (text : Line) (line n : Nat) :
    c.tokenizeLine text (line + n) = (c.tokenizeLine text line).map (·.down n) := by
  rw [tokenizeLine,Resolution.tokens,tokenizeLine,Resolution.tokens,List.map_map]
  rfl

theorem tokenizeLines_append (ls ms : List Line) (number : Nat) :
    c.tokenizeLines (ls ++ ms) number =
      c.tokenizeLines ls number ++ c.tokenizeLines ms (number + ls.length) := by
  rw [tokenizeLines,List.zipIdx_append,List.flatMap_append]
  rfl

theorem tokenizeLines_add (ls : List Line) (number n : Nat) :
    c.tokenizeLines ls (number + n) = (c.tokenizeLines ls number).map (·.down n) := by
  induction ls generalizing number with
  | nil => rfl
  | cons l ls ih =>
    have hone := c.tokenizeLines_append [l] ls
    rw [List.singleton_append] at hone
    rw [hone,hone,List.map_append,List.length_singleton,Nat.add_right_comm,ih]
    simp [tokenizeLines,tokenizeLine_add]

/-- The tokens of two texts joined at a newline are those of the first with its newline, and then
those of the second, as many lines further down as the first has. -/
theorem tokenizeText_newline (a b : List Char) :
    c.tokenizeText (a ++ '\n' :: b) =
      c.tokenizeText (a ++ ['\n']) ++ (c.tokenizeText b).map (·.down (a.count '\n' + 1)) := by
  rw [tokenizeText,Text.lines_newline,tokenizeLines_append,Text.length_lines_newline,
    tokenizeLines_add]
  rfl

end Catalog
end PascalTokens
