import PascalTokens.Matcher

/-! Patterns, and how they match: at a place of a line a pattern has at most one match, the first
that backtracking finds when it tries every choice in order of preference. -/
namespace PascalTokens

inductive Pattern
  | empty
  | one (set : Char → Bool)
  /-- One or more characters of a set, as many as possible if `greedy`, else as few. -/
  | many (greedy : Bool) (set : Char → Bool)
  | seq (first second : Pattern)
  | alt (first second : Pattern)
  | plus (body : Pattern)

namespace Pattern

def manyFrom (s : Char → Bool) (greedy : Bool) (k : Place → Option Place) :
    Nat → Line → Option Place
  | _, [] => none
  | offset, c :: l =>
    if s c then
      if greedy then (manyFrom s greedy k (offset + c.utf8Size) l).or
        (k ⟨offset + c.utf8Size,some c,l⟩)
      else (k ⟨offset + c.utf8Size,some c,l⟩).or
        (manyFrom s greedy k (offset + c.utf8Size) l)
    else none

/-- Matches `body` from `p`, and again while it consumes characters. The number bounds the
repetitions; no more than `p.rest.length` can consume any. -/
def iterate (body : (Place → Option Place) → Place → Option Place) (k : Place → Option Place) :
    Nat → Place → Option Place
  | 0, p => body k p
  | n + 1, p =>
    body (fun q => if p.offset < q.offset then (iterate body k n q).or (k q) else k q) p

/-- Matches from `p`, and goes on with `k` where a match ends; where `k` has no result the next
choice is tried. -/
def run : Pattern → (Place → Option Place) → Place → Option Place
  | empty, k, p => k p
  | one s, k, p =>
    match p.rest with
    | [] => none
    | c :: l => if s c then k (p.past c l) else none
  | many greedy s, k, p => manyFrom s greedy k p.offset p.rest
  | seq a b, k, p => a.run (b.run k) p
  | alt a b, k, p => (a.run k p).or (b.run k p)
  | plus a, k, p => iterate a.run k p.rest.length p

theorem reaches_manyFrom {s : Char → Bool} {greedy : Bool} {k : Place → Option Place}
    {p r : Place} (h : manyFrom s greedy k p.offset p.rest = some r) :
    ∃ q, p.Reaches q ∧ k q = some r := by
  suffices ∀ l (p : Place), p.rest = l → manyFrom s greedy k p.offset l = some r →
      ∃ q, p.Reaches q ∧ k q = some r from this p.rest p rfl h
  intro l
  induction l with
  | nil => intro p _ h; simp [manyFrom] at h
  | cons c l ih =>
    intro p e h
    have here : k (p.past c l) = some r → ∃ q, p.Reaches q ∧ k q = some r :=
      fun h => ⟨p.past c l,.past e (.refl _),h⟩
    have further : manyFrom s greedy k (p.offset + c.utf8Size) l = some r →
        ∃ q, p.Reaches q ∧ k q = some r := by
      intro h
      obtain ⟨q,hq,hk⟩ := ih (p.past c l) rfl h
      exact ⟨q,.past e hq,hk⟩
    simp only [manyFrom] at h
    split at h
    · split at h
      · rcases Option.or_eq_some_iff.1 h with h | ⟨_,h⟩
        · exact further h
        · exact here h
      · rcases Option.or_eq_some_iff.1 h with h | ⟨_,h⟩
        · exact here h
        · exact further h
    · cases h

theorem reaches_run {r : Pattern} {k : Place → Option Place} {p s : Place}
    (h : r.run k p = some s) : ∃ q, p.Reaches q ∧ k q = some s := by
  induction r generalizing k p with
  | empty => exact ⟨p,.refl p,h⟩
  | one set =>
    simp only [run] at h
    split at h
    · cases h
    · rename_i c l e
      split at h
      · exact ⟨_,.past e (.refl _),h⟩
      · cases h
  | many greedy set => exact reaches_manyFrom h
  | seq a b iha ihb =>
    obtain ⟨q,hq,h⟩ := iha h
    obtain ⟨q',hq',h⟩ := ihb h
    exact ⟨q',hq.trans hq',h⟩
  | alt a b iha ihb =>
    rcases Option.or_eq_some_iff.1 h with h | ⟨_,h⟩
    · exact iha h
    · exact ihb h
  | plus a ih =>
    suffices ∀ n p, iterate a.run k n p = some s → ∃ q, p.Reaches q ∧ k q = some s from this _ p h
    intro n
    induction n with
    | zero => intro p h; exact ih h
    | succ n ihn =>
      intro p h
      obtain ⟨q,hq,h⟩ := ih h
      split at h
      · rcases Option.or_eq_some_iff.1 h with h | ⟨_,h⟩
        · obtain ⟨q',hq',h⟩ := ihn q h
          exact ⟨q',hq.trans hq',h⟩
        · exact ⟨q,hq,h⟩
      · exact ⟨q,hq,h⟩

def matcher (r : Pattern) : Matcher where
  endOf? := r.run some
  reaches p q h := by
    obtain ⟨q',hq,h⟩ := reaches_run h
    cases h
    exact hq

end Pattern
end PascalTokens
