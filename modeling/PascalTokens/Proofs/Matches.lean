import PascalTokens.Proofs.OnePass

/-! The matches of a definition in a line: one for each place where the preferred match is not empty,
and no other. Whether there is one at a place depends on that place alone, however the search goes
on from match to match. -/
namespace PascalTokens

namespace Matcher

theorem nonemptyEnd?_of_rest_nil (m : Matcher) {p : Place} (h : p.rest = []) :
    m.nonemptyEnd? p = none := by
  cases hq : m.nonemptyEnd? p with
  | none => rfl
  | some q =>
    obtain ⟨hr,hlt⟩ := reaches_nonemptyEnd? hq
    have := hr.offset_of_rest_nil h
    omega

end Matcher

namespace Definition

theorem pairwise_candidates (d : Definition) (l : Line) :
    (d.candidates l).Pairwise fun c e => c.span.start < e.span.start := by
  rw [candidates_eq_filterMap]
  apply (Place.pairwise_onward (Place.start l)).filterMap
  intro p q hpq c hc e he
  obtain ⟨_,-,-,rfl⟩ := candidateAt?_eq_some.1 hc
  obtain ⟨_,-,-,rfl⟩ := candidateAt?_eq_some.1 he
  exact hpq

theorem length_filterMap_onward (d : Definition) (p : Place) :
    (p.onward.filterMap d.candidateAt?).length ≤ p.rest.length := by
  generalize e : p.rest = l
  induction l generalizing p with
  | nil =>
    have hn : d.candidateAt? p = none := by
      rw [candidateAt?,d.matcher.nonemptyEnd?_of_rest_nil e]
      rfl
    rw [Place.onward_nil e,List.filterMap_cons_none hn]
    exact Nat.le_refl 0
  | cons c l ih =>
    have hlater := ih (p.past c l) rfl
    rw [Place.onward_cons e,List.length_cons]
    cases hc : d.candidateAt? p with
    | none =>
      rw [List.filterMap_cons_none hc]
      exact Nat.le_succ_of_le hlater
    | some k =>
      rw [List.filterMap_cons_some hc,List.length_cons]
      exact Nat.succ_le_succ hlater

theorem mem_candidates {d : Definition} {l : Line} {c : Candidate} :
    c ∈ d.candidates l ↔ ∃ a b q, l = a ++ b ∧
      d.matcher.endOf? (Place.between a b) = some q ∧ a.bytes < q.offset ∧
      c = ⟨d.kind,⟨a.bytes,q.offset⟩⟩ := by
  rw [candidates_eq_filterMap,List.mem_filterMap]
  constructor
  · rintro ⟨p,hp,hc⟩
    obtain ⟨a,b,hl,rfl⟩ := Place.mem_ofLine.1 hp
    obtain ⟨q,hq,hlt,he⟩ := candidateAt?_eq_some.1 hc
    exact ⟨a,b,q,hl,hq,hlt,he⟩
  · rintro ⟨a,b,q,hl,hq,hlt,he⟩
    exact ⟨_,Place.mem_ofLine.2 ⟨a,b,hl,rfl⟩,candidateAt?_eq_some.2 ⟨q,hq,hlt,he⟩⟩

/-- Whatever a definition matches, in whatever line, its candidates are finitely many and ascend, and
they are the spans from each place of the line to where the preferred match that begins there ends,
if it ends further on. So no place is passed over, and an empty match hides only itself. The
definition of a rule has the matcher that its expression was made. -/
theorem candidates_exact (d : Definition) (l : Line) :
    (∀ (compile : Compiler) (r : Rule), r.definition compile = .ok d →
      ∃ m, compile r.expression = .ok m ∧ d = ⟨r.kind,m⟩) ∧
    (d.candidates l).length ≤ l.length ∧
    (d.candidates l).Pairwise (fun c e => c.span.start < e.span.start) ∧
    ∀ c, c ∈ d.candidates l ↔ ∃ a b q, l = a ++ b ∧
      d.matcher.endOf? (Place.between a b) = some q ∧ a.bytes < q.offset ∧
      c = ⟨d.kind,⟨a.bytes,q.offset⟩⟩ := by
  refine ⟨fun compile r => Rule.definition_eq_ok.1,?_,d.pairwise_candidates l,
    fun c => mem_candidates⟩
  rw [candidates_eq_filterMap]
  exact d.length_filterMap_onward (Place.start l)

/-- The expression matches the empty text before `é` and between words; the matches behind those, and
the one within a match, are found. -/
theorem candidates_exact_empty :
    ∃ d m, Rule.definition ExpressionText.compile ⟨.identifier,"[a-z]*"⟩ = .ok d ∧
      ExpressionText.compile "[a-z]*" = .ok m ∧ d = ⟨.identifier,m⟩ ∧
      d.candidates "éab c".toList =
        [⟨.identifier,⟨2,4⟩⟩,⟨.identifier,⟨3,4⟩⟩,⟨.identifier,⟨5,6⟩⟩] := by
  have hp : (Rule.definition ExpressionText.compile ⟨.identifier,"[a-z]*"⟩).toOption.map
      (fun d => d.candidates "éab c".toList) =
        some [⟨.identifier,⟨2,4⟩⟩,⟨.identifier,⟨3,4⟩⟩,⟨.identifier,⟨5,6⟩⟩] := by
    decide +kernel
  cases hd : Rule.definition ExpressionText.compile ⟨.identifier,"[a-z]*"⟩ with
  | error f =>
    rw [hd] at hp
    cases hp
  | ok d =>
    rw [hd] at hp
    obtain ⟨m,hm,hdm⟩ := (candidates_exact d "éab c".toList).1 _ _ hd
    exact ⟨d,m,rfl,hm,hdm,Option.some.inj hp⟩

end Definition
end PascalTokens
