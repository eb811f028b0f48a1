import Mathlib.Data.List.Pairwise
import PascalTokens.Proofs.Streams

/-! Which candidates become tokens, said without the steps that find them. Those that do ascend and
lie apart, and no other is left out without a reason: one that starts together with it prevails, or
one that starts before it is in its way. There is exactly one such selection. -/
namespace PascalTokens

namespace Candidate

/-- Of two candidates that start together, does `c` reach further than `d`, or as far and with no
lower priority? -/
def Prevails (c d : Candidate) : Prop :=
  c.span.start = d.span.start ∧
    (d.span.stop < c.span.stop ∨ c.span.stop = d.span.stop ∧ c.kind.rank ≤ d.kind.rank)

/-- Does `c` start before `d`, and does `d` start within `c` or end no later? -/
def Blocks (c d : Candidate) : Prop :=
  c.span.start < d.span.start ∧ (d.span.start < c.span.stop ∨ d.span.stop ≤ c.span.stop)

/-- Does `d` start after `c`, where `c` ends or later, and does it reach further? -/
def Precedes (c d : Candidate) : Prop :=
  c.span.start < d.span.start ∧ c.span.stop ≤ d.span.start ∧ c.span.stop < d.span.stop

theorem Prevails.refl (c : Candidate) : c.Prevails c := ⟨rfl,.inr ⟨rfl,Nat.le_refl _⟩⟩

theorem Prevails.trans {b c d : Candidate} (h : b.Prevails c) (h' : c.Prevails d) :
    b.Prevails d := by
  obtain ⟨hs,hbc⟩ := h
  obtain ⟨hs',hcd⟩ := h'
  refine ⟨hs.trans hs',?_⟩
  omega

theorem Prevails.antisymm {c d : Candidate} (h : c.Prevails d) (h' : d.Prevails c) : c = d := by
  obtain ⟨k,start,stop⟩ := c
  obtain ⟨k',start',stop'⟩ := d
  obtain ⟨hs,hcd⟩ := h
  obtain ⟨-,hdc⟩ := h'
  simp only at hs hcd hdc
  have he : stop = stop' := by omega
  have hk : k = k' := Kind.rank_injective (by omega)
  rw [hs,he,hk]

theorem Precedes.not_blocks {c d : Candidate} (h : c.Precedes d) : ¬c.Blocks d := by
  unfold Precedes at h
  unfold Blocks
  omega

end Candidate

namespace Resolution

open Candidate

/-- `ws` is a selection from `cs`: some of them, in order, and for each candidate a reason why it is
selected or not. -/
structure IsSelection (cs ws : List Candidate) : Prop where
  taken : ∀ w ∈ ws, w ∈ cs
  ascending : ws.Pairwise Precedes
  accounted : ∀ c ∈ cs, ∃ w ∈ ws, w.Prevails c ∨ w.Blocks c

section Best

theorem prevails_of_beats {c d : Candidate} (h : c.span.start = d.span.start)
    (hb : beats c d = true) : c.Prevails d := by
  simp only [beats,Kind.outranks,Bool.or_eq_true,Bool.and_eq_true,decide_eq_true_eq,
    beq_iff_eq] at hb
  exact ⟨h,by omega⟩

theorem prevails_of_not_beats {c d : Candidate} (h : c.span.start = d.span.start)
    (hb : ¬beats c d = true) : d.Prevails c := by
  simp only [beats,Kind.outranks,Bool.or_eq_true,Bool.and_eq_true,decide_eq_true_eq,
    beq_iff_eq] at hb
  exact ⟨h.symm,by omega⟩

theorem prevails_of_best {start : Nat} {cs : List Candidate} {w : Candidate}
    (hs : ∀ c ∈ cs, c.span.start = start) (h : best cs = some w) :
    w ∈ cs ∧ ∀ c ∈ cs, w.Prevails c := by
  cases cs with
  | nil => cases h
  | cons c cs =>
    simp only [best,Option.some.injEq] at h
    induction cs generalizing c with
    | nil => subst h; simp [Prevails.refl]
    | cons d cs ih =>
      obtain ⟨hc,hd,hcs⟩ : c.span.start = start ∧ d.span.start = start ∧
          ∀ e ∈ cs, e.span.start = start := by simpa using hs
      rw [List.foldl_cons] at h
      by_cases hb : beats d c
      · rw [if_pos hb] at h
        obtain ⟨hm,hw⟩ := ih d (List.forall_mem_cons.2 ⟨hd,hcs⟩) h
        have hdc := prevails_of_beats (hd.trans hc.symm) hb
        refine ⟨List.mem_cons_of_mem c hm,List.forall_mem_cons.2 ⟨?_,hw⟩⟩
        exact (hw d List.mem_cons_self).trans hdc
      · rw [if_neg hb] at h
        obtain ⟨hm,hw⟩ := ih c (List.forall_mem_cons.2 ⟨hc,hcs⟩) h
        obtain ⟨hwc,hwcs⟩ := List.forall_mem_cons.1 hw
        have hcd := prevails_of_not_beats (hd.trans hc.symm) hb
        refine ⟨?_,List.forall_mem_cons.2 ⟨hwc,List.forall_mem_cons.2 ⟨hwc.trans hcd,hwcs⟩⟩⟩
        rcases List.mem_cons.1 hm with rfl | hm
        · exact List.mem_cons_self
        · exact List.mem_cons_of_mem c (List.mem_cons_of_mem d hm)

end Best

section Winners

variable {claimed : Option Nat}

theorem blocked_some {e : Nat} {c : Candidate} :
    blocked (some e) c = true ↔ c.span.start < e ∨ c.span.stop ≤ e := by
  simp [blocked,or_comm]

theorem blocked_some_eq_false {e : Nat} {c : Candidate} :
    blocked (some e) c = false ↔ e ≤ c.span.start ∧ e < c.span.stop := by
  simp [blocked,and_comm]

theorem blocked_of_claims {v w : Candidate} (hv : blocked claimed v = false)
    (hw : blocked (some v.span.stop) w = false) : blocked claimed w = false := by
  cases claimed with
  | none => rfl
  | some e =>
    rw [blocked_some_eq_false] at hv hw ⊢
    omega

theorem winner_eq_some {g : Group} {w : Candidate} (hg : ∀ c ∈ g.members, c.span.start = g.start)
    (h : (decision claimed g).winner = some w) :
    w ∈ g.members ∧ blocked claimed w = false ∧
      ∀ c ∈ g.members, blocked claimed c = false → w.Prevails c := by
  have hs : ∀ c ∈ g.members.filter (!blocked claimed ·), c.span.start = g.start :=
    fun c hc => hg c (List.mem_of_mem_filter hc)
  obtain ⟨hm,hw⟩ := prevails_of_best hs h
  obtain ⟨hwg,hfree⟩ := List.mem_filter.1 hm
  refine ⟨hwg,by simpa using hfree,fun c hc hfree => hw c ?_⟩
  exact List.mem_filter.2 ⟨hc,by simp [hfree]⟩

theorem winner_eq_none {g : Group} (h : (decision claimed g).winner = none) :
    ∀ c ∈ g.members, blocked claimed c = true := by
  intro c hc
  have hn : g.members.filter (!blocked claimed ·) = [] := by
    cases hm : g.members.filter (!blocked claimed ·) with
    | nil => rfl
    | cons d ds => simp [decision,hm,best] at h
  simpa using List.filter_eq_nil_iff.1 hn c hc

variable {gs : List Group}

theorem mem_winnersAfter (hg : ∀ g ∈ gs, ∀ c ∈ g.members, c.span.start = g.start) :
    ∀ w ∈ winnersAfter claimed gs, blocked claimed w = false ∧ ∃ g ∈ gs, w ∈ g.members := by
  induction gs generalizing claimed with
  | nil => simp [winnersAfter,decisionsAfter]
  | cons g gs ih =>
    obtain ⟨hgg,hgs⟩ := List.forall_mem_cons.1 hg
    rw [winnersAfter_cons,Decision.claims]
    cases hw : (decision claimed g).winner with
    | none =>
      intro w hm
      obtain ⟨hfree,k,hk,hwk⟩ := ih hgs w hm
      exact ⟨hfree,k,List.mem_cons_of_mem g hk,hwk⟩
    | some v =>
      obtain ⟨hvg,hv,-⟩ := winner_eq_some hgg hw
      intro w hm
      rcases List.mem_cons.1 hm with rfl | hm
      · exact ⟨hv,g,List.mem_cons_self,hvg⟩
      · obtain ⟨hfree,k,hk,hwk⟩ := ih hgs w hm
        exact ⟨blocked_of_claims hv hfree,k,List.mem_cons_of_mem g hk,hwk⟩

theorem pairwise_winnersAfter (hs : gs.Pairwise fun g h => g.start < h.start)
    (hg : ∀ g ∈ gs, ∀ c ∈ g.members, c.span.start = g.start) :
    (winnersAfter claimed gs).Pairwise Precedes := by
  induction gs generalizing claimed with
  | nil => exact List.Pairwise.nil
  | cons g gs ih =>
    obtain ⟨hgs,hs⟩ := List.pairwise_cons.1 hs
    obtain ⟨hgg,hgm⟩ := List.forall_mem_cons.1 hg
    rw [winnersAfter_cons,Decision.claims]
    cases hw : (decision claimed g).winner with
    | none => exact ih hs hgm
    | some v =>
      refine List.pairwise_cons.2 ⟨fun w hm => ?_,ih hs hgm⟩
      obtain ⟨hfree,k,hk,hwk⟩ := mem_winnersAfter hgm w hm
      have hstart : v.span.start < w.span.start := by
        rw [hgg v (winner_eq_some hgg hw).1,hgm k hk w hwk]
        exact hgs k hk
      have hafter : blocked (some v.span.stop) w = false := hfree
      exact ⟨hstart,blocked_some_eq_false.1 hafter⟩

/-- A member that does not win is in conflict with what was claimed before, or it lost to a winner. -/
theorem accounted_winnersAfter (hs : gs.Pairwise fun g h => g.start < h.start)
    (hg : ∀ g ∈ gs, ∀ c ∈ g.members, c.span.start = g.start) :
    ∀ g ∈ gs, ∀ c ∈ g.members, blocked claimed c = true ∨
      ∃ w ∈ winnersAfter claimed gs, w.Prevails c ∨ w.Blocks c := by
  induction gs generalizing claimed with
  | nil => simp
  | cons g gs ih =>
    obtain ⟨hgs,hs⟩ := List.pairwise_cons.1 hs
    obtain ⟨hgg,hgm⟩ := List.forall_mem_cons.1 hg
    rw [winnersAfter_cons,Decision.claims]
    cases hw : (decision claimed g).winner with
    | none => exact List.forall_mem_cons.2 ⟨fun c hc => .inl (winner_eq_none hw c hc),ih hs hgm⟩
    | some v =>
      obtain ⟨hvg,-,hv⟩ := winner_eq_some hgg hw
      refine List.forall_mem_cons.2 ⟨fun c hc => ?_,fun k hk c hc => ?_⟩
      · cases hb : blocked claimed c with
        | true => exact .inl rfl
        | false => exact .inr ⟨v,List.mem_cons_self,.inl (hv c hc hb)⟩
      · -- what the winner of this group has claimed blocks only candidates that start after it
        rcases ih hs hgm k hk c hc with hb | ⟨w,hm,hwc⟩
        · have hstart : v.span.start < c.span.start := by
            rw [hgg v hvg,hgm k hk c hc]
            exact hgs k hk
          have hclaimed : blocked (some v.span.stop) c = true := hb
          exact .inr ⟨v,List.mem_cons_self,.inr ⟨hstart,blocked_some.1 hclaimed⟩⟩
        · exact .inr ⟨w,List.mem_cons_of_mem v hm,hwc⟩

end Winners

theorem isSelection_winners (cs : List Candidate) : IsSelection cs (winners cs) := by
  have hs := pairwise_groups cs
  have hmembers : ∀ g ∈ groups cs, ∀ c ∈ g.members, c ∈ cs ∧ c.span.start = g.start := by
    intro g hg c hc
    rw [members_of_mem_groups hg] at hc
    obtain ⟨hc,he⟩ := List.mem_filter.1 hc
    exact ⟨hc,of_decide_eq_true he⟩
  have hg : ∀ g ∈ groups cs, ∀ c ∈ g.members, c.span.start = g.start :=
    fun g hg c hc => (hmembers g hg c hc).2
  rw [winners_eq_winnersAfter]
  refine ⟨fun w hw => ?_,pairwise_winnersAfter hs hg,fun c hc => ?_⟩
  · obtain ⟨-,g,hgs,hwg⟩ := mem_winnersAfter hg w hw
    exact (hmembers g hgs w hwg).1
  · obtain ⟨g,hgs,he⟩ := exists_group hc
    have hcg : c ∈ g.members := by
      rw [members_of_mem_groups hgs]
      exact List.mem_filter.2 ⟨hc,by simp [he]⟩
    have h : blocked none c = true ∨ ∃ w ∈ winnersAfter none (groups cs),
        w.Prevails c ∨ w.Blocks c := accounted_winnersAfter hs hg g hgs c hcg
    exact h.resolve_left Bool.false_ne_true

namespace IsSelection

variable {cs vs ws : List Candidate}

theorem eq_or_precedes (h : IsSelection cs ws) {c d : Candidate} (hc : c ∈ ws) (hd : d ∈ ws) :
    c = d ∨ c.Precedes d ∨ d.Precedes c := by
  by_cases he : c = d
  · exact .inl he
  · have : Std.Symm fun c d : Candidate => c.Precedes d ∨ d.Precedes c := ⟨fun _ _ => Or.symm⟩
    have hp : ws.Pairwise fun c d => c.Precedes d ∨ d.Precedes c := h.ascending.imp .inl
    exact .inr (hp.forall hc hd he)

/-- What one selection takes, another one takes as well. The induction is on where it starts: what
blocks a candidate starts before it, and so belongs to both. -/
theorem mem_of_mem (n : Nat) (hv : IsSelection cs vs) (hw : IsSelection cs ws) {c : Candidate}
    (hc : c ∈ vs) (hn : c.span.start = n) : c ∈ ws := by
  induction n using Nat.strong_induction_on generalizing vs ws c with
  | _ n ih =>
    obtain ⟨w,hww,hwc | hwc⟩ := hw.accounted c (hv.taken c hc)
    · obtain ⟨v,hvv,hvw | hvw⟩ := hv.accounted w (hw.taken w hww)
      · -- `v` and `c` start together, so they are one candidate, and so is `w`
        have hvc : v = c := by
          rcases hv.eq_or_precedes hvv hc with he | hp | hp
          · exact he
          · exact absurd (hvw.1.trans hwc.1) hp.1.ne
          · exact absurd (hvw.1.trans hwc.1) hp.1.ne'
        have hcw : c = w := Prevails.antisymm (hvc ▸ hvw) hwc
        exact hcw ▸ hww
      · -- `v` would block `w` and still precede `c`, over which `w` prevails
        exfalso
        rcases hv.eq_or_precedes hvv hc with rfl | hp | hp
        · exact absurd hwc.1 hvw.1.ne'
        · unfold Blocks at hvw
          unfold Precedes at hp
          unfold Prevails at hwc
          omega
        · exact absurd (hwc.1 ▸ hvw.1) (Nat.lt_asymm hp.1)
    · have hwv : w ∈ vs := ih w.span.start (hn ▸ hwc.1) hw hv hww rfl
      exfalso
      rcases hv.eq_or_precedes hwv hc with rfl | hp | hp
      · exact Nat.lt_irrefl _ hwc.1
      · exact hp.not_blocks hwc
      · exact Nat.lt_asymm hp.1 hwc.1

theorem unique (hv : IsSelection cs vs) (hw : IsSelection cs ws) : vs = ws := by
  have : Std.Antisymm Precedes := ⟨fun c d hcd hdc => absurd hcd.1 (Nat.lt_asymm hdc.1)⟩
  have : Std.Irrefl Precedes := ⟨fun c hc => Nat.lt_irrefl _ hc.1⟩
  refine hv.ascending.eq_of_mem_iff hw.ascending fun c => ?_
  exact ⟨fun hc => mem_of_mem _ hv hw hc rfl,fun hc => mem_of_mem _ hw hv hc rfl⟩

end IsSelection

theorem tokensAfter?_eq_some_iff {text : Line} {line : Nat} {claimed : Option Nat} {gs : List Group}
    {ts : List Token} :
    tokensAfter? text line claimed gs = some ts ↔
      (∀ c ∈ winnersAfter claimed gs, text.fits c.span) ∧
        ts = (winnersAfter claimed gs).map (·.token text line) := by
  constructor
  · intro h
    suffices hf : ∀ c ∈ winnersAfter claimed gs, text.fits c.span by
      rw [tokensAfter?_eq_some hf] at h
      exact ⟨hf,(Option.some.inj h).symm⟩
    induction gs generalizing claimed ts with
    | nil => simp [winnersAfter,decisionsAfter]
    | cons g gs ih =>
      rw [winnersAfter_cons,Decision.claims]
      rw [tokensAfter?] at h
      cases hw : (decision claimed g).winner with
      | none =>
        rw [hw] at h
        exact ih h
      | some c =>
        rw [hw] at h
        by_cases hc : text.fits c.span
        · simp only [Candidate.token?,if_pos hc] at h
          obtain ⟨us,hus,-⟩ := Option.map_eq_some_iff.1 h
          exact List.forall_mem_cons.2 ⟨hc,ih hus⟩
        · simp only [Candidate.token?,if_neg hc] at h
          cases h
  · rintro ⟨hf,rfl⟩
    exact tokensAfter?_eq_some hf

/-- Resolving any candidates gives tokens, if it gives any, for the selection from them and for no
other candidates. -/
theorem tokens?_iff_isSelection (text : Line) (line : Nat) (cs : List Candidate)
    (ts : List Token) :
    tokens? text line cs = some ts ↔
      IsSelection cs (ts.map Token.candidate) ∧
        ∀ t ∈ ts, t.line = line ∧ text.fits t.span ∧
          t.value = String.ofList (text.slice t.span) := by
  rw [tokens?,tokensAfter?_eq_some_iff,← winners_eq_winnersAfter]
  constructor
  · rintro ⟨hf,rfl⟩
    refine ⟨?_,fun t ht => ?_⟩
    · rw [List.map_map]
      exact (List.map_id _).symm ▸ isSelection_winners cs
    · obtain ⟨c,hc,rfl⟩ := List.mem_map.1 ht
      exact ⟨rfl,hf c hc,rfl⟩
  · rintro ⟨hs,ht⟩
    have hw : winners cs = ts.map Token.candidate := (isSelection_winners cs).unique hs
    rw [hw]
    refine ⟨fun c hc => ?_,?_⟩
    · obtain ⟨t,hm,rfl⟩ := List.mem_map.1 hc
      exact (ht t hm).2.1
    · rw [List.map_map]
      refine ((List.map_congr_left fun t hm => ?_).trans (List.map_id _)).symm
      obtain ⟨k,v,n,s⟩ := t
      obtain ⟨hl,-,hv⟩ := ht _ hm
      simp only at hl hv
      simp [Token.candidate,Candidate.token,hl,hv]

/-- Candidates from right to left, one of them twice, one empty and one that ends before it starts. -/
theorem tokens?_iff_isSelection_disorder :
    let cs : List Candidate := [⟨.comment,⟨4,3⟩⟩,⟨.separator,⟨2,3⟩⟩,⟨.operator,⟨2,4⟩⟩,⟨.invalid,⟨1,3⟩⟩,
      ⟨.identifier,⟨0,2⟩⟩,⟨.reservedWord,⟨0,1⟩⟩,⟨.identifier,⟨0,2⟩⟩,⟨.number,⟨0,0⟩⟩]
    tokens? "ab:=".toList 7 cs =
        some [⟨.identifier,"ab",7,⟨0,2⟩⟩,⟨.operator,":=",7,⟨2,4⟩⟩] ∧
      IsSelection cs [⟨.identifier,⟨0,2⟩⟩,⟨.operator,⟨2,4⟩⟩] := by
  intro cs
  have ht : tokens? "ab:=".toList 7 cs =
      some [⟨.identifier,"ab",7,⟨0,2⟩⟩,⟨.operator,":=",7,⟨2,4⟩⟩] := by decide
  exact ⟨ht,((tokens?_iff_isSelection _ _ _ _).1 ht).1⟩

end Resolution
end PascalTokens
