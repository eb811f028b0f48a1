import Mathlib.Data.List.Nodup
import PascalTokens.Proofs.Stability

/-! The candidates that become no tokens. A token is in their way, or they lose to a candidate that
starts with them; of equal candidates all but the first lose. -/
namespace PascalTokens

namespace Candidate

instance (c d : Candidate) : Decidable (c.Prevails d) := inferInstanceAs (Decidable (_ ∧ _))

instance (c d : Candidate) : Decidable (c.Blocks d) := inferInstanceAs (Decidable (_ ∧ _))

end Candidate

namespace Resolution

open Candidate

/-- Is one of the tokens in the way of the candidate? -/
def isBlocked (ts : List Token) (c : Candidate) : Bool := ts.any (·.candidate.Blocks c)

variable {text : Line} {line : Nat} {cs ws : List Candidate} {ts : List Token}

theorem map_candidate_of_tokens? (h : tokens? text line cs = some ts) :
    ts.map Token.candidate = winners cs := by
  obtain ⟨-,rfl⟩ := tokens?_eq_some_iff.1 h
  exact map_candidate_tokens text line cs

theorem isBlocked_eq_any (h : tokens? text line cs = some ts) (c : Candidate) :
    isBlocked ts c = (winners cs).any (·.Blocks c) := by
  rw [← map_candidate_of_tokens? h,List.any_map]
  rfl

namespace IsSelection

theorem not_blocks (h : IsSelection cs ws) {w c : Candidate} (hw : w ∈ ws) (hc : c ∈ ws) :
    ¬w.Blocks c := by
  intro hb
  rcases h.eq_or_precedes hw hc with rfl | hp | hp
  · exact Nat.lt_irrefl _ hb.1
  · exact hp.not_blocks hb
  · exact Nat.lt_asymm hp.1 hb.1

theorem eq_of_start_eq (h : IsSelection cs ws) {c d : Candidate} (hc : c ∈ ws) (hd : d ∈ ws)
    (hs : c.span.start = d.span.start) : c = d := by
  rcases h.eq_or_precedes hc hd with he | hp | hp
  · exact he
  · exact absurd hs hp.1.ne
  · exact absurd hs hp.1.ne'

theorem nodup (h : IsSelection cs ws) : ws.Nodup :=
  h.ascending.imp fun hp he => hp.1.ne (congrArg (·.span.start) he)

/-- A candidate is selected if and only if nothing selected is in its way and no other candidate
prevails over it. -/
theorem mem_iff (h : IsSelection cs ws) {c : Candidate} (hc : c ∈ cs) :
    c ∈ ws ↔ (∀ w ∈ ws, ¬w.Blocks c) ∧ ∀ d ∈ cs, d.Prevails c → d = c := by
  constructor
  · intro hcw
    refine ⟨fun w hw => h.not_blocks hw hcw,fun d hd hdc => ?_⟩
    obtain ⟨w,hw,hwd | hwd⟩ := h.accounted d hd
    · have he : w = c := h.eq_of_start_eq hw hcw (hwd.trans hdc).1
      exact hdc.antisymm (he ▸ hwd)
    · -- what is in the way of `d` is in the way of `c`, which reaches no further
      exfalso
      apply h.not_blocks hw hcw
      unfold Blocks at hwd ⊢
      unfold Prevails at hdc
      omega
  · rintro ⟨hfree,hbest⟩
    obtain ⟨w,hw,hwc | hwc⟩ := h.accounted c hc
    · exact hbest w (h.taken w hw) hwc ▸ hw
    · exact absurd hwc (hfree w hw)

end IsSelection

/-- Of two candidates with their places in a list, does `p` lose to `q`, which starts with it? Of
two that are the same the first one wins. -/
def LosesTo (p q : Candidate × Nat) : Prop := q.1.Prevails p.1 ∧ (q.1 = p.1 → q.2 < p.2)

instance (p q : Candidate × Nat) : Decidable (LosesTo p q) := inferInstanceAs (Decidable (_ ∧ _))

/-- The candidates that lose to another one and that no token is in the way of. -/
def lost (ts : List Token) (cs : List Candidate) : List (Candidate × Nat) :=
  cs.zipIdx.filter fun p => cs.zipIdx.any (LosesTo p ·) && !isBlocked ts p.1

theorem idxOf_le_of_getElem? {c : Candidate} {i : Nat} (h : cs[i]? = some c) : cs.idxOf c ≤ i := by
  obtain ⟨hi,hc⟩ := List.getElem?_eq_some_iff.1 h
  have hm : c ∈ cs := hc ▸ List.getElem_mem hi
  rw [← Nat.lt_succ_iff,← List.mem_take_iff_idxOf_lt hm]
  exact List.mem_of_getElem? ((List.getElem?_take_of_lt (Nat.lt_succ_self i)).trans h)

theorem mem_zipIdx_idxOf {c : Candidate} (h : c ∈ cs) : (c,cs.idxOf c) ∈ cs.zipIdx :=
  List.mem_zipIdx_iff_getElem?.2 (List.getElem?_idxOf h)

theorem IsSelection.mem_iff_not_losesTo (h : IsSelection cs ws) {p : Candidate × Nat}
    (hp : p ∈ cs.zipIdx) :
    ((∀ q ∈ cs.zipIdx, ¬LosesTo p q) ∧ ∀ w ∈ ws, ¬w.Blocks p.1) ↔
      p.1 ∈ ws ∧ cs.idxOf p.1 = p.2 := by
  have hget : cs[p.2]? = some p.1 := List.mem_zipIdx_iff_getElem?.1 hp
  have hm : p.1 ∈ cs := List.mem_of_getElem? hget
  rw [h.mem_iff hm,and_comm,and_assoc]
  refine and_congr_right fun _ => ?_
  constructor
  · intro hl
    constructor
    · intro d hd hdp
      by_contra hne
      exact hl (d,cs.idxOf d) (mem_zipIdx_idxOf hd) ⟨hdp,fun he => absurd he hne⟩
    · -- if it did not come first, it would lose to the one that does
      apply Nat.le_antisymm (idxOf_le_of_getElem? hget)
      by_contra hlt
      exact hl (p.1,cs.idxOf p.1) (mem_zipIdx_idxOf hm)
        ⟨Prevails.refl _,fun _ => Nat.lt_of_not_le hlt⟩
  · rintro ⟨hbest,hidx⟩ q hq ⟨hqp,hlt⟩
    have hqget : cs[q.2]? = some q.1 := List.mem_zipIdx_iff_getElem?.1 hq
    have he : q.1 = p.1 := hbest q.1 (List.mem_of_getElem? hqget) hqp
    have hle := idxOf_le_of_getElem? hqget
    rw [he,hidx] at hle
    exact Nat.not_lt.2 hle (hlt he)

/-- Leaving out the candidates that are blocked and those that are lost leaves the first occurrence
of each one that is selected. -/
theorem IsSelection.filter_zipIdx_perm (h : IsSelection cs ws) :
    (cs.zipIdx.filter fun p => !cs.zipIdx.any (LosesTo p ·) && !ws.any (·.Blocks p.1)).Perm
      (ws.map fun w => (w,cs.idxOf w)) := by
  have hl : (cs.zipIdx.filter fun p =>
      !cs.zipIdx.any (LosesTo p ·) && !ws.any (·.Blocks p.1)).Nodup := by
    apply List.Nodup.filter
    apply List.Nodup.of_map Prod.snd
    rw [List.zipIdx_map_snd]
    exact List.nodup_range'
  have hr : (ws.map fun w => (w,cs.idxOf w)).Nodup := by
    apply List.Nodup.of_map Prod.fst
    rw [List.map_map]
    exact (List.map_id ws).symm ▸ h.nodup
  rw [List.perm_ext_iff_of_nodup hl hr]
  intro p
  rw [List.mem_filter,List.mem_map]
  constructor
  · rintro ⟨hp,hk⟩
    obtain ⟨hw,hi⟩ := (h.mem_iff_not_losesTo hp).1 (by simpa using hk)
    exact ⟨p.1,hw,Prod.ext rfl hi⟩
  · rintro ⟨w,hw,rfl⟩
    have hp : (w,cs.idxOf w) ∈ cs.zipIdx := mem_zipIdx_idxOf (h.taken w hw)
    have hk := (h.mem_iff_not_losesTo hp).2 ⟨hw,rfl⟩
    exact ⟨hp,by simpa using hk⟩

/-- Each candidate becomes a token, is blocked, or is lost. -/
theorem length_eq_parts (h : tokens? text line cs = some ts) :
    cs.length = ts.length + cs.countP (isBlocked ts) + (lost ts cs).length := by
  have hblocked : (cs.zipIdx.filter fun p => isBlocked ts p.1).length =
      cs.countP (isBlocked ts) := by
    conv_rhs => rw [← List.zipIdx_map_fst 0 cs]
    rw [List.countP_map,List.countP_eq_length_filter]
    rfl
  have hkept := (isSelection_winners cs).filter_zipIdx_perm.length_eq
  simp only [← isBlocked_eq_any h] at hkept
  rw [List.length_map,← map_candidate_of_tokens? h,List.length_map] at hkept
  have hall := List.length_eq_length_filter_add (l := cs.zipIdx) fun p => isBlocked ts p.1
  have hfree := List.length_eq_length_filter_add
    (l := cs.zipIdx.filter fun p => !isBlocked ts p.1) fun p => cs.zipIdx.any (LosesTo p ·)
  rw [List.filter_filter,List.filter_filter,hkept] at hfree
  rw [List.length_zipIdx,hblocked,hfree] at hall
  rw [hall,lost]
  omega

end Resolution
end PascalTokens
