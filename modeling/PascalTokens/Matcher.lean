import PascalTokens.Place

/-! Matchers, and the matches they find in a line. -/
namespace PascalTokens

/-- A way to match: at most one match begins at a place. -/
structure Matcher where
  endOf? : Place → Option Place
  reaches : ∀ p q, endOf? p = some q → p.Reaches q

namespace Matcher

/-- The first of the places where a match begins, its end, and the places that follow. -/
def search? (m : Matcher) : List Place → Option (Place × Place × List Place)
  | [] => none
  | p :: ps =>
    match m.endOf? p with
    | some q => some (p,q,ps)
    | none => m.search? ps

theorem search?_length {m : Matcher} {ps later : List Place} {p q : Place}
    (h : m.search? ps = some (p,q,later)) : later.length < ps.length := by
  induction ps with
  | nil => simp [search?] at h
  | cons p ps ih =>
    simp only [search?] at h
    split at h
    · cases h; simp
    · exact Nat.lt_succ_of_lt (ih h)

/-- Searches for a match, then goes on one place after its start, so a match that begins inside
another is found too. -/
def spansFrom (m : Matcher) (ps : List Place) : List Span :=
  match _h : m.search? ps with
  | none => []
  | some (p,q,later) =>
    if p.offset < q.offset then ⟨p.offset,q.offset⟩ :: m.spansFrom later else m.spansFrom later
  termination_by ps.length
  decreasing_by all_goals exact search?_length (by assumption)

def spans (m : Matcher) (l : Line) : List Span := m.spansFrom (Place.ofLine l)

end Matcher
end PascalTokens
