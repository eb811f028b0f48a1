import PascalTokens.Proofs.Stability

/-! Candidates whose spans do not fit the line. The choice among candidates looks at spans and kinds
alone, never at the line, so such a candidate may be chosen. Then there are no tokens; if none is
chosen, the tokens are those of the candidates that fit. -/
namespace PascalTokens.Resolution

open Candidate

/-- Does the candidate start no earlier than where the last token ends, and end later? -/
def IsClear (claimed : Option Nat) (c : Candidate) : Prop :=
  ∀ e ∈ claimed, e ≤ c.span.start ∧ e < c.span.stop

/-- `ws` is what can be chosen from `cs` after a token that ends at `claimed`. Each time, of the
candidates that are clear those with the least start come first; of these the longest is taken, and of
the longest one of the highest priority; its end is claimed. -/
inductive Chooses (cs : List Candidate) : Option Nat → List Candidate → Prop
  | done {claimed : Option Nat} (unclear : ∀ c ∈ cs, ¬IsClear claimed c) : Chooses cs claimed []
  | next {claimed : Option Nat} {w : Candidate} {ws : List Candidate} (taken : w ∈ cs)
      (clear : IsClear claimed w)
      (first : ∀ c ∈ cs, IsClear claimed c → w.span.start < c.span.start ∨ w.Prevails c)
      (rest : Chooses cs (some w.span.stop) ws) : Chooses cs claimed (w :: ws)

theorem isClear_iff {claimed : Option Nat} {c : Candidate} :
    IsClear claimed c ↔ blocked claimed c = false := by
  cases claimed with
  | none => simp [IsClear,blocked]
  | some e => simp [IsClear,blocked_some_eq_false]

theorem IsClear.of_claims {claimed : Option Nat} {v w : Candidate} (hv : IsClear claimed v)
    (hw : IsClear (some v.span.stop) w) : IsClear claimed w :=
  isClear_iff.2 (blocked_of_claims (isClear_iff.1 hv) (isClear_iff.1 hw))

theorem Chooses.unique {cs vs ws : List Candidate} {claimed : Option Nat}
    (hv : Chooses cs claimed vs) (hw : Chooses cs claimed ws) : vs = ws := by
  induction hv generalizing ws with
  | done unclear =>
    cases hw with
    | done _ => rfl
    | next taken clear _ _ => exact absurd clear (unclear _ taken)
  | @next claimed v vs taken clear first _ ih =>
    cases hw with
    | done unclear => exact absurd clear (unclear v taken)
    | @next _ w ws taken' clear' first' rest' =>
      have he : v = w := by
        rcases first w taken' clear' with hlt | hvw
        · rcases first' v taken clear with hlt' | hwv
          · exact absurd hlt (Nat.lt_asymm hlt')
          · exact absurd hwv.1 hlt.ne'
        · rcases first' v taken clear with hlt' | hwv
          · exact absurd hvw.1 hlt'.ne'
          · exact hvw.antisymm hwv
      subst he
      rw [ih rest']

/-- The winners of groups are chosen, if all that is clear is in the groups. The induction is on the
groups: what starts before them was claimed. -/
theorem chooses_winnersAfter {cs : List Candidate} {claimed : Option Nat} {gs : List Group}
    (hs : gs.Pairwise fun g h => g.start < h.start)
    (hg : ∀ g ∈ gs, ∀ c ∈ g.members, c ∈ cs ∧ c.span.start = g.start)
    (hc : ∀ c ∈ cs, IsClear claimed c → ∃ g ∈ gs, c ∈ g.members) :
    Chooses cs claimed (winnersAfter claimed gs) := by
  induction gs generalizing claimed with
  | nil =>
    apply Chooses.done
    intro c hm hclear
    obtain ⟨g,hg,-⟩ := hc c hm hclear
    cases hg
  | cons g gs ih =>
    obtain ⟨hfirst,hs⟩ := List.pairwise_cons.1 hs
    obtain ⟨hgg,hgs⟩ := List.forall_mem_cons.1 hg
    rw [winnersAfter_cons,Decision.claims]
    cases hw : (decision claimed g).winner with
    | none =>
      have hnone := winner_eq_none hw
      apply ih hs hgs
      intro c hm hclear
      obtain ⟨k,hk,hck⟩ := hc c hm hclear
      rcases List.mem_cons.1 hk with rfl | hk
      · have hfree := isClear_iff.1 hclear
        rw [hnone c hck] at hfree
        cases hfree
      · exact ⟨k,hk,hck⟩
    | some v =>
      obtain ⟨hvg,hfree,hprevails⟩ := winner_eq_some (fun c hm => (hgg c hm).2) hw
      have hv : IsClear claimed v := isClear_iff.2 hfree
      apply Chooses.next (hgg v hvg).1 hv
      · intro c hm hclear
        obtain ⟨k,hk,hck⟩ := hc c hm hclear
        rcases List.mem_cons.1 hk with rfl | hk
        · exact .inr (hprevails c hck (isClear_iff.1 hclear))
        · have hlt := hfirst k hk
          rw [← (hgg v hvg).2,← (hgs k hk c hck).2] at hlt
          exact .inl hlt
      · apply ih hs hgs
        intro c hm hclear
        have hbefore := hv.of_claims hclear
        obtain ⟨k,hk,hck⟩ := hc c hm hbefore
        rcases List.mem_cons.1 hk with rfl | hk
        · -- none of the winner's group reaches beyond it
          have hle := (hprevails c hck (isClear_iff.1 hbefore)).2
          have hlt := (hclear _ rfl).2
          omega
        · exact ⟨k,hk,hck⟩

theorem chooses_iff {cs ws : List Candidate} : Chooses cs none ws ↔ ws = winners cs := by
  have hw : Chooses cs none (winners cs) := by
    rw [winners_eq_winnersAfter]
    apply chooses_winnersAfter (pairwise_groups cs)
    · intro g hg c hc
      rw [members_of_mem_groups hg] at hc
      obtain ⟨hm,he⟩ := List.mem_filter.1 hc
      exact ⟨hm,of_decide_eq_true he⟩
    · intro c hc _
      obtain ⟨g,hg,he⟩ := exists_group hc
      refine ⟨g,hg,?_⟩
      rw [members_of_mem_groups hg]
      exact List.mem_filter.2 ⟨hc,by simp [he]⟩
  constructor
  · intro h
    exact h.unique hw
  · rintro rfl
    exact hw

theorem tokens?_eq_none_iff {text : Line} {line : Nat} {cs : List Candidate} :
    tokens? text line cs = none ↔ ∃ w ∈ winners cs, ¬text.fits w.span := by
  constructor
  · intro h
    by_contra hfit
    have hall : ∀ w ∈ winners cs, text.fits w.span := by
      intro w hw
      by_contra hn
      exact hfit ⟨w,hw,hn⟩
    rw [tokens?_eq_some line hall] at h
    cases h
  · rintro ⟨w,hw,hn⟩
    cases h : tokens? text line cs with
    | none => rfl
    | some ts => exact absurd ((tokens?_eq_some_iff.1 h).1 w hw) hn

theorem fits_of_tokens? {text : Line} {line : Nat} {cs : List Candidate} {ts : List Token}
    (h : tokens? text line cs = some ts) : ∀ t ∈ ts, text.fits t.span := by
  obtain ⟨hfit,rfl⟩ := tokens?_eq_some_iff.1 h
  intro t ht
  obtain ⟨w,hw,rfl⟩ := List.mem_map.1 ht
  exact hfit w hw

/-- Of any candidates, with spans that may be reversed, beyond the line or within a character, there is
one choice by spans and kinds alone. There are no tokens if and only if it holds a span that does not fit
the line; else the candidates that do not fit have no influence, all together or one by one. -/
theorem tokens?_misfits (text : Line) (line : Nat) (cs : List Candidate) :
    ∃ ws, (∀ vs, Chooses cs none vs ↔ vs = ws) ∧
      (tokens? text line cs = none ↔ ∃ w ∈ ws, ¬text.fits w.span) ∧
      (∀ ts, tokens? text line cs = some ts →
        tokens? text line (cs.filter (text.fits ·.span)) = some ts) ∧
      ∀ c ∈ cs, ¬text.fits c.span → tokens? text line cs = none ∨
        tokens? text line (cs.filter (· ≠ c)) = tokens? text line cs := by
  refine ⟨winners cs,fun vs => chooses_iff,tokens?_eq_none_iff,?_,?_⟩
  · intro ts h
    exact (isStable_of_tokens? h).removed _ (fits_of_tokens? h)
  · intro c _ hn
    cases h : tokens? text line cs with
    | none => exact .inl rfl
    | some ts =>
      right
      apply (isStable_of_tokens? h).removed
      intro t ht
      have hne : t.candidate ≠ c := by
        rintro rfl
        exact hn (fits_of_tokens? h t ht)
      exact decide_eq_true hne

/-- A reversed span and one beyond the line lose to the character between them, and one that would cut
it is suppressed; without that character the span beyond the line is chosen. -/
theorem tokens?_misfits_within_character :
    tokens? "é=".toList 1 [⟨.number,⟨1,9⟩⟩,⟨.invalid,⟨0,2⟩⟩,⟨.operator,⟨2,3⟩⟩,⟨.comment,⟨2,1⟩⟩] =
        some [⟨.invalid,"é",1,⟨0,2⟩⟩,⟨.operator,"=",1,⟨2,3⟩⟩] ∧
      tokens? "é=".toList 1 ([⟨.number,⟨1,9⟩⟩,⟨.invalid,⟨0,2⟩⟩,⟨.operator,⟨2,3⟩⟩,
        ⟨.comment,⟨2,1⟩⟩].filter (Line.fits "é=".toList ·.span)) =
        some [⟨.invalid,"é",1,⟨0,2⟩⟩,⟨.operator,"=",1,⟨2,3⟩⟩] ∧
      ∃ ws, Chooses [⟨.number,⟨1,9⟩⟩,⟨.operator,⟨2,3⟩⟩] none ws ∧
        ∃ w ∈ ws, ¬Line.fits "é=".toList w.span := by
  have ht : tokens? "é=".toList 1
      [⟨.number,⟨1,9⟩⟩,⟨.invalid,⟨0,2⟩⟩,⟨.operator,⟨2,3⟩⟩,⟨.comment,⟨2,1⟩⟩] =
        some [⟨.invalid,"é",1,⟨0,2⟩⟩,⟨.operator,"=",1,⟨2,3⟩⟩] := by decide
  obtain ⟨-,-,-,hfilter,-⟩ := tokens?_misfits "é=".toList 1
    [⟨.number,⟨1,9⟩⟩,⟨.invalid,⟨0,2⟩⟩,⟨.operator,⟨2,3⟩⟩,⟨.comment,⟨2,1⟩⟩]
  obtain ⟨ws,hws,hnone,-,-⟩ := tokens?_misfits "é=".toList 1
    [⟨.number,⟨1,9⟩⟩,⟨.operator,⟨2,3⟩⟩]
  exact ⟨ht,hfilter _ ht,ws,(hws ws).2 rfl,hnone.1 (by decide)⟩

end PascalTokens.Resolution
