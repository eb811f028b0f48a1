import Mathlib.Data.List.Perm.Basic
import PascalTokens.Proofs.OnePass

/-! Which rules make a catalog: those whose expressions can all be read and whose kinds never rise in
priority, wherever in the list. -/
namespace PascalTokens

variable {compile : Compiler}

namespace Rule

theorem definitionsAfter_eq_ok_iff {k : Kind} {rs : List Rule} {ds : List Definition} :
    definitionsAfter compile k rs = .ok ds ↔
      List.Forall₂ (fun r d => r.definition compile = .ok d) rs ds ∧
        (k :: rs.map Rule.kind).Pairwise fun j k => j.rank ≤ k.rank := by
  induction rs generalizing k ds with
  | nil =>
    rw [definitionsAfter,List.forall₂_nil_left_iff]
    simp [eq_comm]
  | cons r rs ih =>
    rw [List.map_cons,definitionsAfter_cons_eq_ok]
    constructor
    · rintro ⟨hle,d,es,hd,hs,rfl⟩
      obtain ⟨hf,hp⟩ := ih.1 hs
      refine ⟨.cons hd hf,List.pairwise_cons.2 ⟨List.forall_mem_cons.2 ⟨hle,?_⟩,hp⟩⟩
      exact fun j hj => Nat.le_trans hle ((List.pairwise_cons.1 hp).1 j hj)
    · rintro ⟨hf,hp⟩
      obtain ⟨hle,hp⟩ := List.pairwise_cons.1 hp
      cases hf with
      | cons hd hf => exact ⟨hle _ List.mem_cons_self,_,_,hd,ih.2 ⟨hf,hp⟩,rfl⟩

theorem definitions_eq_ok_iff {rs : List Rule} {ds : List Definition} :
    definitions compile rs = .ok ds ↔
      List.Forall₂ (fun r d => r.definition compile = .ok d) rs ds ∧
        (rs.map Rule.kind).Pairwise fun j k => j.rank ≤ k.rank := by
  rw [definitions,definitionsAfter_eq_ok_iff,List.pairwise_cons]
  exact and_congr_right fun _ => and_iff_right fun k _ => Nat.zero_le k.rank

end Rule

namespace Catalog

theorem ofRules_eq_ok_iff {rs : List Rule} {c : Catalog} :
    ofRules compile rs = .ok c ↔ Rule.definitions compile rs = .ok c.definitions := by
  unfold ofRules
  constructor
  · intro h
    split at h
    · rename_i ds hd
      cases h
      exact hd
    · cases h
  · intro h
    split
    · rename_i ds hd
      rw [h] at hd
      cases hd
      rfl
    · rename_i e hd
      rw [h] at hd
      cases hd

/-- Rules in another order make a catalog too, if every place in the list keeps its kind, and it has
the same definitions in another order. -/
theorem exists_ofRules_perm {rs qs : List Rule} {c : Catalog} (h : ofRules compile rs = .ok c)
    (hp : qs.Perm rs) (hk : qs.map Rule.kind = rs.map Rule.kind) :
    ∃ d, ofRules compile qs = .ok d ∧ d.definitions.Perm c.definitions := by
  obtain ⟨hf,ho⟩ := Rule.definitions_eq_ok_iff.1 (ofRules_eq_ok_iff.1 h)
  obtain ⟨ds,hds,hperm⟩ := List.perm_comp_forall₂ hp hf
  rw [← hk] at ho
  have hq : Rule.definitions compile qs = .ok ds := Rule.definitions_eq_ok_iff.2 ⟨hds,ho⟩
  exact ⟨⟨ds,(Rule.definitionsAfter_ordered hq).2⟩,ofRules_eq_ok_iff.2 hq,hperm⟩

end Catalog
end PascalTokens
