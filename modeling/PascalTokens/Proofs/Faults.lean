import PascalTokens.Proofs.Acceptance

/-! What is wrong with rules that make no catalog. A rule is at fault because it outranks the one before
it, or else because no matcher can be made of its expression; the first rule at fault decides what is
reported. What can be made a matcher of is left to whoever makes it. -/
namespace PascalTokens

namespace Rule

section Faults

variable (compile : Compiler)

/-- Is `c` what is wrong with a rule after one for `previous`, if there is one? That it is out of order
comes first. -/
inductive IsFaulty (previous : Option Kind) (r : Rule) : Cause → Prop
  | misordered {k : Kind} (hk : k ∈ previous) (h : r.kind.outranks k) :
    IsFaulty previous r (.misorderedPattern r.kind k)
  | invalid {reason : String} (hk : ∀ k ∈ previous, ¬r.kind.outranks k)
    (h : compile r.expression = .error reason) :
    IsFaulty previous r (.invalidPattern r.kind reason)

/-- The kind of the rule before place `i`, where the rules follow one for `previous`. -/
def kindBefore (previous : Option Kind) (rs : List Rule) : Nat → Option Kind
  | 0 => previous
  | i + 1 => rs[i]?.map kind

/-- Is `c` what is wrong with the rule at place `i`? -/
def FaultAt (previous : Option Kind) (rs : List Rule) (i : Nat) (c : Cause) : Prop :=
  ∃ r, rs[i]? = some r ∧ IsFaulty compile (kindBefore previous rs i) r c

structure IsFirstFault (previous : Option Kind) (rs : List Rule) (i : Nat) (c : Cause) : Prop where
  fault : FaultAt compile previous rs i c
  first : ∀ j < i, ∀ d, ¬FaultAt compile previous rs j d

end Faults

variable {compile : Compiler} {p : Option Kind} {r : Rule} {rs : List Rule} {i : Nat} {c : Cause} {e : Error}

section Step

theorem not_outranks_getD {k : Kind} (h : ∀ j ∈ p, ¬k.outranks j) :
    ¬k.outranks (p.getD .compilerDirective) := by
  cases p with
  | none => exact fun hk => Nat.not_lt_zero _ (of_decide_eq_true hk)
  | some j => exact h j rfl

theorem forall_not_isFaulty_iff : (∀ c, ¬IsFaulty compile p r c) ↔
    (∀ k ∈ p, ¬r.kind.outranks k) ∧ ∃ m, compile r.expression = .ok m := by
  constructor
  · intro h
    have hord : ∀ k ∈ p, ¬r.kind.outranks k := fun k hp hk => h _ (.misordered hp hk)
    cases hm : compile r.expression with
    | error reason => exact absurd (.invalid hord hm) (h _)
    | ok m => exact ⟨hord,m,rfl⟩
  · rintro ⟨hord,m,hm⟩ c (⟨hp,hk⟩ | ⟨-,hf⟩)
    · exact hord _ hp hk
    · rw [hm] at hf
      cases hf

theorem definitionsAfter_of_isFaulty (h : IsFaulty compile p r c) (rs : List Rule) :
    definitionsAfter compile (p.getD .compilerDirective) (r :: rs) = .error ⟨c,.catalog⟩ := by
  rw [definitionsAfter]
  cases h with
  | misordered hk h =>
    rw [Option.mem_def.1 hk]
    exact if_pos h
  | invalid hk h =>
    rw [if_neg (not_outranks_getD hk),definition,h]

theorem definitionsAfter_of_not_isFaulty (h : ∀ c, ¬IsFaulty compile p r c) (rs : List Rule) :
    ∃ d, definitionsAfter compile (p.getD .compilerDirective) (r :: rs) =
      (definitionsAfter compile r.kind rs).map (d :: ·) := by
  obtain ⟨hord,m,hm⟩ := forall_not_isFaulty_iff.1 h
  refine ⟨⟨r.kind,m⟩,?_⟩
  rw [definitionsAfter,if_neg (not_outranks_getD hord),definition,hm]

theorem definitionsAfter_cons_eq_error :
    definitionsAfter compile (p.getD .compilerDirective) (r :: rs) = .error e ↔
      (∃ c, IsFaulty compile p r c ∧ e = ⟨c,.catalog⟩) ∨
        (∀ c, ¬IsFaulty compile p r c) ∧ definitionsAfter compile r.kind rs = .error e := by
  constructor
  · intro h
    by_cases hc : ∃ c, IsFaulty compile p r c
    · obtain ⟨c,hc⟩ := hc
      rw [definitionsAfter_of_isFaulty hc] at h
      cases h
      exact .inl ⟨c,hc,rfl⟩
    · have hsound := not_exists.1 hc
      obtain ⟨d,hd⟩ := definitionsAfter_of_not_isFaulty hsound rs
      rw [hd] at h
      refine .inr ⟨hsound,?_⟩
      cases hs : definitionsAfter compile r.kind rs with
      | error f =>
        rw [hs] at h
        exact h
      | ok ds =>
        rw [hs] at h
        cases h
  · rintro (⟨c,hc,rfl⟩ | ⟨hsound,h⟩)
    · exact definitionsAfter_of_isFaulty hc rs
    · obtain ⟨d,hd⟩ := definitionsAfter_of_not_isFaulty hsound rs
      rw [hd,h]
      rfl

end Step

section First

theorem faultAt_zero : FaultAt compile p (r :: rs) 0 c ↔ IsFaulty compile p r c := by
  simp [FaultAt,kindBefore]

theorem faultAt_succ : FaultAt compile p (r :: rs) (i + 1) c ↔ FaultAt compile (some r.kind) rs i c := by
  have hkind : kindBefore p (r :: rs) (i + 1) = kindBefore (some r.kind) rs i := by
    cases i <;> rfl
  rw [FaultAt,FaultAt,hkind,List.getElem?_cons_succ]

theorem isFirstFault_zero : IsFirstFault compile p (r :: rs) 0 c ↔ IsFaulty compile p r c := by
  constructor
  · exact fun h => faultAt_zero.1 h.fault
  · exact fun h => ⟨faultAt_zero.2 h,by simp⟩

theorem isFirstFault_succ : IsFirstFault compile p (r :: rs) (i + 1) c ↔
    (∀ d, ¬IsFaulty compile p r d) ∧ IsFirstFault compile (some r.kind) rs i c := by
  constructor
  · intro h
    refine ⟨fun d hd => h.first 0 (Nat.succ_pos i) d (faultAt_zero.2 hd),faultAt_succ.1 h.fault,?_⟩
    exact fun j hj d hd => h.first (j + 1) (Nat.succ_lt_succ hj) d (faultAt_succ.2 hd)
  · rintro ⟨hr,h⟩
    refine ⟨faultAt_succ.2 h.fault,fun j hj d hd => ?_⟩
    cases j with
    | zero => exact hr d (faultAt_zero.1 hd)
    | succ j => exact h.first j (Nat.lt_of_succ_lt_succ hj) d (faultAt_succ.1 hd)

theorem definitionsAfter_eq_error_iff :
    definitionsAfter compile (p.getD .compilerDirective) rs = .error e ↔
      ∃ i c, IsFirstFault compile p rs i c ∧ e = ⟨c,.catalog⟩ := by
  induction rs generalizing p with
  | nil =>
    rw [definitionsAfter]
    constructor
    · intro h
      cases h
    · rintro ⟨i,c,⟨⟨r,hr,-⟩,-⟩,-⟩
      cases hr
  | cons r rs ih =>
    have hlater : definitionsAfter compile r.kind rs = .error e ↔
        ∃ i c, IsFirstFault compile (some r.kind) rs i c ∧ e = ⟨c,.catalog⟩ := ih (p := some r.kind)
    rw [definitionsAfter_cons_eq_error,hlater]
    constructor
    · rintro (⟨c,hc,he⟩ | ⟨hr,i,c,hc,he⟩)
      · exact ⟨0,c,isFirstFault_zero.2 hc,he⟩
      · exact ⟨i + 1,c,isFirstFault_succ.2 ⟨hr,hc⟩,he⟩
    · rintro ⟨i,c,hc,he⟩
      cases i with
      | zero => exact .inl ⟨c,isFirstFault_zero.1 hc,he⟩
      | succ i =>
        obtain ⟨hr,hc⟩ := isFirstFault_succ.1 hc
        exact .inr ⟨hr,i,c,hc,he⟩

theorem IsFirstFault.take_append (h : IsFirstFault compile p rs i c) (ss : List Rule) :
    IsFirstFault compile p (rs.take (i + 1) ++ ss) i c := by
  induction rs generalizing p i with
  | nil =>
    obtain ⟨r,hr,-⟩ := h.fault
    cases hr
  | cons r rs ih =>
    rw [List.take_succ_cons,List.cons_append]
    cases i with
    | zero => exact isFirstFault_zero.2 (isFirstFault_zero.1 h)
    | succ i =>
      obtain ⟨hr,hc⟩ := isFirstFault_succ.1 h
      exact isFirstFault_succ.2 ⟨hr,ih hc⟩

end First
end Rule

namespace Rule

theorem exists_definition_iff {r : Rule} :
    (∃ d, r.definition compile = .ok d) ↔ ∃ m, compile r.expression = .ok m := by
  simp only [definition_eq_ok]
  constructor
  · rintro ⟨d,m,hm,-⟩
    exact ⟨m,hm⟩
  · rintro ⟨m,hm⟩
    exact ⟨_,m,hm,rfl⟩

theorem exists_forall₂_definition {rs : List Rule} :
    (∃ ds, List.Forall₂ (fun r d => r.definition compile = .ok d) rs ds) ↔
      ∀ r ∈ rs, ∃ d, r.definition compile = .ok d := by
  induction rs with
  | nil => simp
  | cons r rs ih =>
    rw [List.forall_mem_cons,← ih]
    constructor
    · rintro ⟨_,hf⟩
      cases hf with
      | cons hd hf => exact ⟨⟨_,hd⟩,_,hf⟩
    · rintro ⟨⟨d,hd⟩,ds,hf⟩
      exact ⟨d :: ds,.cons hd hf⟩

end Rule

namespace Catalog

open Rule

variable {rs : List Rule} {c : Catalog}

theorem ofRules_eq_error_iff {e : Error} :
    ofRules compile rs = .error e ↔ ∃ i c, IsFirstFault compile none rs i c ∧ e = ⟨c,.catalog⟩ := by
  rw [← definitionsAfter_eq_error_iff]
  change _ ↔ Rule.definitions compile rs = .error e
  unfold ofRules
  split
  · rename_i ds hd
    refine iff_of_false (by simp) fun h => ?_
    rw [hd] at h
    cases h
  · rename_i f hd
    rw [hd,Except.error.injEq,Except.error.injEq]

theorem exists_ofRules_iff : (∃ c, ofRules compile rs = .ok c) ↔
    (∀ r ∈ rs, ∃ m, compile r.expression = .ok m) ∧
      rs.Pairwise fun q r => ¬r.kind.outranks q.kind := by
  have hcatalog : (∃ c, ofRules compile rs = .ok c) ↔
      ∃ ds, Rule.definitions compile rs = .ok ds := by
    constructor
    · rintro ⟨c,hc⟩
      exact ⟨c.definitions,ofRules_eq_ok_iff.1 hc⟩
    · rintro ⟨ds,hds⟩
      exact ⟨⟨ds,(definitionsAfter_ordered hds).2⟩,ofRules_eq_ok_iff.2 hds⟩
  have hranks : (rs.map Rule.kind).Pairwise (fun j k => j.rank ≤ k.rank) ↔
      rs.Pairwise fun q r => ¬r.kind.outranks q.kind := by
    rw [List.pairwise_map]
    simp only [Kind.outranks,decide_eq_true_eq,Nat.not_lt]
  simp only [hcatalog,definitions_eq_ok_iff,exists_and_right,exists_forall₂_definition,
    exists_definition_iff,hranks]

theorem pairwise_candidates (c : Catalog) (l : Line) :
    (c.candidates l).Pairwise fun a b => a.kind.rank ≤ b.kind.rank := by
  have hkind : ∀ d : Definition, ∀ a ∈ d.candidates l, a.kind = d.kind := by
    intro d a ha
    obtain ⟨s,-,rfl⟩ := List.mem_map.1 ha
    rfl
  refine List.pairwise_flatMap.2 ⟨fun d _ => ?_,c.ordered.imp fun hde a ha b hb => ?_⟩
  · exact List.pairwise_map.2 (List.pairwise_of_forall fun _ _ => Nat.le_refl _)
  · rw [hkind _ a ha,hkind _ b hb]
    exact hde

theorem map_kind_of_ofRules (h : ofRules compile rs = .ok c) :
    c.definitions.map (·.kind) = rs.map Rule.kind := by
  obtain ⟨hf,-⟩ := definitions_eq_ok_iff.1 (ofRules_eq_ok_iff.1 h)
  clear h
  generalize c.definitions = ds at hf
  induction hf with
  | nil => rfl
  | cons hd _ ih =>
    obtain ⟨m,-,rfl⟩ := definition_eq_ok.1 hd
    rw [List.map_cons,List.map_cons,ih]

/-- Whatever makes the matchers, rules make a catalog where it makes one of every expression and no
kind outranks an earlier one, and the catalog keeps their order. Otherwise their first fault is
reported, whatever comes after it. -/
theorem ofRules_faults (compile : Compiler) (rs : List Rule) :
    ((∃ c, ofRules compile rs = .ok c) ↔
      (∀ r ∈ rs, ∃ m, compile r.expression = .ok m) ∧
        rs.Pairwise fun q r => ¬r.kind.outranks q.kind) ∧
    (∀ c, ofRules compile rs = .ok c → c.definitions.map (·.kind) = rs.map Rule.kind ∧
      ∀ l, (c.candidates l).Pairwise fun a b => a.kind.rank ≤ b.kind.rank) ∧
    (∀ e, ofRules compile rs = .error e ↔
      ∃ i c, IsFirstFault compile none rs i c ∧ e = ⟨c,.catalog⟩) ∧
    ∀ i c, IsFirstFault compile none rs i c →
      ∀ ss, ofRules compile (rs.take (i + 1) ++ ss) = .error ⟨c,.catalog⟩ := by
  refine ⟨exists_ofRules_iff,fun c h => ?_,fun e => ofRules_eq_error_iff,fun i c h ss => ?_⟩
  · exact ⟨map_kind_of_ofRules h,c.pairwise_candidates⟩
  · exact ofRules_eq_error_iff.2 ⟨i,c,h.take_append ss,rfl⟩

def unclosedGroup : String := "regex parse error:\n    (\n    ^\nerror: unclosed group"

/-- Reads every expression as the text that it matches, but for an opening parenthesis. -/
def literalCompiler : Compiler := fun s =>
  if s = "(" then .error unclosedGroup else .ok (Pattern.text s).matcher

/-- The first fault is a rule out of order whose expression cannot be read either; without it another
rule is at fault, or none. -/
theorem ofRules_faults_several :
    let rs : List Rule := [⟨.comment,"a"⟩,⟨.operator,"b"⟩,⟨.comment,"("⟩,⟨.invalid,"("⟩]
    IsFirstFault literalCompiler none rs 2 (.misorderedPattern .comment .operator) ∧
      ofRules literalCompiler rs = .error ⟨.misorderedPattern .comment .operator,.catalog⟩ ∧
      ofRules literalCompiler
        [⟨.comment,"a"⟩,⟨.operator,"b"⟩,⟨.comment,"("⟩,⟨.operator,"c"⟩] =
          .error ⟨.misorderedPattern .comment .operator,.catalog⟩ ∧
      ofRules literalCompiler [⟨.comment,"a"⟩,⟨.operator,"b"⟩,⟨.invalid,"("⟩] =
        .error ⟨.invalidPattern .invalid unclosedGroup,.catalog⟩ ∧
      ∃ c, ofRules literalCompiler [⟨.comment,"a"⟩,⟨.operator,"b"⟩] = .ok c ∧
        c.definitions.map (·.kind) = [.comment,.operator] := by
  intro rs
  have hread : ∀ s : String, s ≠ "(" → ∃ m, literalCompiler s = .ok m := fun s hs =>
    ⟨_,if_neg hs⟩
  have hcomment : ∀ d, ¬IsFaulty literalCompiler none ⟨.comment,"a"⟩ d :=
    forall_not_isFaulty_iff.2 ⟨by simp,hread "a" (by decide)⟩
  have hoperator : ∀ d, ¬IsFaulty literalCompiler (some .comment) ⟨.operator,"b"⟩ d :=
    forall_not_isFaulty_iff.2 ⟨by decide,hread "b" (by decide)⟩
  have hfirst : IsFirstFault literalCompiler none rs 2 (.misorderedPattern .comment .operator) :=
    isFirstFault_succ.2 ⟨hcomment,isFirstFault_succ.2
      ⟨hoperator,isFirstFault_zero.2 (.misordered rfl (by decide))⟩⟩
  have hinvalid : IsFirstFault literalCompiler none
      [⟨.comment,"a"⟩,⟨.operator,"b"⟩,⟨.invalid,"("⟩] 2 (.invalidPattern .invalid unclosedGroup) :=
    isFirstFault_succ.2 ⟨hcomment,isFirstFault_succ.2
      ⟨hoperator,isFirstFault_zero.2 (.invalid (by decide) (if_pos rfl))⟩⟩
  obtain ⟨-,-,hreport,hrest⟩ := ofRules_faults literalCompiler rs
  obtain ⟨-,-,hreport',-⟩ := ofRules_faults literalCompiler
    [⟨.comment,"a"⟩,⟨.operator,"b"⟩,⟨.invalid,"("⟩]
  have haccept := ofRules_faults literalCompiler [⟨.comment,"a"⟩,⟨.operator,"b"⟩]
  obtain ⟨c,hc⟩ := haccept.1.2
    ⟨by simp [hread "a" (by decide),hread "b" (by decide)],by decide⟩
  exact ⟨hfirst,(hreport _).2 ⟨2,_,hfirst,rfl⟩,hrest 2 _ hfirst [⟨.operator,"c"⟩],
    (hreport' _).2 ⟨2,_,hinvalid,rfl⟩,c,hc,(haccept.2.1 c hc).1⟩

end Catalog
end PascalTokens
