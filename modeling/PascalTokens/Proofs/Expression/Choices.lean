import Mathlib.Data.List.Nodup
import PascalTokens.Expression.Matching
import PascalTokens.Proofs.Places

/-! Backtracking as a search in a tree of choices. A search that makes no choice twice finds what a
search without a memory finds: a choice that is met again has failed, for otherwise it would be met
within itself, and no tree holds itself. -/
namespace PascalTokens

theorem Place.Reaches.eq_of_offset {p q r : Place} (hq : p.Reaches q) (hr : p.Reaches r)
    (h : q.offset = r.offset) : q = r := by
  have hnodup : (p.onward.map Place.offset).Nodup :=
    List.pairwise_map.2 ((Place.pairwise_onward p).imp Nat.ne_of_lt)
  exact List.inj_on_of_nodup_map hnodup (Place.mem_onward.2 hq) (Place.mem_onward.2 hr) h

namespace Expression

theorem contains_insert {made : Choices} {x y : Nat × Nat} :
    (made.insert x).contains y = true ↔ x = y ∨ made.contains y = true := by
  rw [Std.TreeSet.contains_insert,Bool.or_eq_true,beq_iff_eq,compareLex_eq_eq]
  simp only [compareOn,Std.LawfulEqCmp.compare_eq_iff_eq,Prod.ext_iff]

/-- What backtracking may try, in order of preference. -/
inductive Tree
  | fail
  | found (p : Place)
  | or (first second : Tree)
  | choice (label : Nat) (p : Place) (t : Tree)

namespace Tree

def size : Tree → Nat
  | fail | found _ => 1
  | or a b => a.size + b.size + 1
  | choice _ _ t => t.size + 1

def first? : Tree → Option Place
  | fail => none
  | found p => some p
  | or a b => a.first?.or b.first?
  | choice _ _ t => t.first?

/-- What a search finds that makes no choice twice, and the choices made. -/
def search : Tree → Choices → Option Place × Choices
  | fail, made => (none,made)
  | found p, made => (some p,made)
  | or a b, made =>
    match a.search made with
    | (none,made) => b.search made
    | result => result
  | choice label p t, made =>
    if made.contains (label,p.offset) then (none,made) else t.search (made.insert (label,p.offset))

section Search

variable (follow : Nat → Place → Tree) (start : Place)

/-- Does the same tree follow a choice wherever it is met, at places of one line? -/
def Follows : Tree → Prop
  | fail | found _ => True
  | or a b => a.Follows ∧ b.Follows
  | choice label p t => follow label p = t ∧ start.Reaches p ∧ t.Follows

/-- Have all choices made failed that could be met in a tree of this size? In a greater tree the search
may still be. -/
def Failed (size : Nat) (made : Choices) : Prop :=
  ∀ label p, start.Reaches p → made.contains (label,p.offset) = true →
    (follow label p).first? = none ∨ size ≤ (follow label p).size

variable {follow start} {t : Tree} {made : Choices}

theorem Failed.mono {m n : Nat} (h : Failed follow start n made) (hle : m ≤ n) :
    Failed follow start m made :=
  fun label p hp hmade => (h label p hp hmade).imp_right (Nat.le_trans hle)

theorem Failed.insert {label : Nat} {p : Place} (h : Failed follow start t.size made)
    (hfollow : follow label p = t) (hp : start.Reaches p) :
    Failed follow start t.size (made.insert (label,p.offset)) := by
  intro label' q hq hin
  rcases contains_insert.1 hin with he | hin
  · obtain ⟨rfl,ho⟩ := Prod.mk.inj he
    rw [← hp.eq_of_offset hq ho,hfollow]
    exact .inr (Nat.le_refl _)
  · exact h label' q hq hin

/-- The induction is on the tree. Only choices that fail are left behind, so what holds of the choices
made before the first part of a tree holds of those made before the second. -/
theorem search_of_failed (ht : t.Follows follow start) (hmade : Failed follow start t.size made) :
    (t.search made).1 = t.first? ∧ (t.first? = none → ∀ label p, start.Reaches p →
      (t.search made).2.contains (label,p.offset) = true →
        made.contains (label,p.offset) = true ∨ (follow label p).first? = none) := by
  induction t generalizing made with
  | fail => exact ⟨rfl,fun _ _ _ _ h => .inl h⟩
  | found p => exact ⟨rfl,fun h => nomatch h⟩
  | or a b iha ihb =>
    obtain ⟨ha,hb⟩ := ht
    have hle : a.size ≤ (or a b).size ∧ b.size ≤ (or a b).size := by
      simp only [size]
      omega
    obtain ⟨hfirst,hleft⟩ := iha ha (hmade.mono hle.1)
    rw [search,first?]
    rcases hsearch : a.search made with ⟨_ | q,made'⟩
    · rw [hsearch] at hfirst hleft
      have hnone : a.first? = none := hfirst.symm
      have hmade' : Failed follow start b.size made' := by
        intro label p hp hin
        rcases hleft hnone label p hp hin with hin | hfail
        · exact (hmade.mono hle.2) label p hp hin
        · exact .inl hfail
      obtain ⟨hsecond,hleft'⟩ := ihb hb hmade'
      rw [hnone,Option.none_or]
      refine ⟨hsecond,fun hn label p hp hin => ?_⟩
      rcases hleft' hn label p hp hin with hin | hfail
      · exact hleft hnone label p hp hin
      · exact .inr hfail
    · rw [hsearch] at hfirst
      have hsome : a.first? = some q := hfirst.symm
      rw [hsome,Option.some_or]
      exact ⟨rfl,fun h => nomatch h⟩
  | choice label p t ih =>
    obtain ⟨hfollow,hp,ht⟩ := ht
    have hlt : t.size < (choice label p t).size := Nat.lt_succ_self _
    rw [search,first?]
    cases hin : made.contains (label,p.offset) with
    | true =>
      -- the tree that follows is smaller than this one, so this one does not lie in it
      rcases hmade label p hp hin with hfail | hle
      · rw [hfollow] at hfail
        exact ⟨hfail.symm,fun _ _ _ _ h => .inl h⟩
      · rw [hfollow] at hle
        exact absurd hle (Nat.not_le_of_lt hlt)
    | false =>
      obtain ⟨hfirst,hleft⟩ := ih ht ((hmade.mono (Nat.le_of_lt hlt)).insert hfollow hp)
      refine ⟨hfirst,fun hn label' q hq hin' => ?_⟩
      rcases hleft hn label' q hq hin' with hin' | hfail
      · rcases contains_insert.1 hin' with he | hin'
        · obtain ⟨rfl,ho⟩ := Prod.mk.inj he
          rw [← hp.eq_of_offset hq ho,hfollow]
          exact .inr hn
        · exact .inl hin'
      · exact .inr hfail

/-- A search that makes no choice twice finds what a search without a memory finds. -/
theorem search_eq_first? (ht : t.Follows follow start) : (t.search ∅).1 = t.first? :=
  (search_of_failed ht fun _ _ _ h => by simp at h).1

end Search

end Tree
end Expression
end PascalTokens
