import PascalTokens.Proofs.Acceptance
import PascalTokens.Proofs.Selection

/-! Candidates without influence. The selection from any candidates is the selection from any part of
them that still holds what is selected, so it does not matter in what order candidates come, how
often, and which of the others there are. -/
namespace PascalTokens

namespace Resolution

section Winners

variable {cs ds ws : List Candidate}

/-- Fewer candidates have fewer reasons to ask for, and the reasons are the same. -/
theorem IsSelection.of_subset (h : IsSelection cs ws) (hd : ds ⊆ cs) (hw : ws ⊆ ds) :
    IsSelection ds ws :=
  ⟨fun _ hm => hw hm,h.ascending,fun c hc => h.accounted c (hd hc)⟩

theorem winners_eq (h : IsSelection cs ws) : winners cs = ws := (isSelection_winners cs).unique h

theorem winners_subset (cs : List Candidate) : winners cs ⊆ cs := (isSelection_winners cs).taken

theorem winners_of_subset (hd : ds ⊆ cs) (hw : winners cs ⊆ ds) : winners ds = winners cs :=
  winners_eq ((isSelection_winners cs).of_subset hd hw)

theorem winners_congr (h : ∀ c, c ∈ ds ↔ c ∈ cs) : winners ds = winners cs := by
  apply winners_of_subset
  · exact fun c => (h c).1
  · exact fun c hc => (h c).2 (winners_subset cs hc)

end Winners

theorem tokens?_eq_some_iff {text : Line} {line : Nat} {cs : List Candidate} {ts : List Token} :
    tokens? text line cs = some ts ↔
      (∀ c ∈ winners cs, text.fits c.span) ∧ ts = tokens text line cs :=
  tokensAfter?_eq_some_iff

theorem map_candidate_tokens (text : Line) (line : Nat) (cs : List Candidate) :
    (tokens text line cs).map Token.candidate = winners cs := by
  rw [tokens,List.map_map]
  exact List.map_id _

theorem tokens?_congr {text : Line} {line : Nat} {cs ds : List Candidate}
    (h : winners ds = winners cs) : tokens? text line ds = tokens? text line cs := by
  apply Option.ext
  intro ts
  rw [tokens?_eq_some_iff,tokens?_eq_some_iff,tokens,tokens,h]

/-- The tokens `ts` of the candidates `cs` stay the same whatever happens to the candidates that are
none of them. -/
structure IsStable (text : Line) (line : Nat) (cs : List Candidate) (ts : List Token) : Prop where
  kept : ∀ ds : List Candidate, ds ⊆ cs → ts.map Token.candidate ⊆ ds →
    tokens? text line ds = some ts
  reordered : ∀ ds : List Candidate, (∀ c, c ∈ ds ↔ c ∈ cs) → tokens? text line ds = some ts
  removed : ∀ p : Candidate → Bool, (∀ t ∈ ts, p t.candidate) →
    tokens? text line (cs.filter p) = some ts
  again : tokens? text line (ts.map Token.candidate) = some ts

theorem isStable_of_tokens? {text : Line} {line : Nat} {cs : List Candidate} {ts : List Token}
    (h : tokens? text line cs = some ts) : IsStable text line cs ts := by
  obtain ⟨-,rfl⟩ := tokens?_eq_some_iff.1 h
  have hkept : ∀ ds : List Candidate, ds ⊆ cs → winners cs ⊆ ds →
      tokens? text line ds = some (tokens text line cs) := by
    intro ds hd hw
    rw [tokens?_congr (winners_of_subset hd hw)]
    exact h
  constructor
  · rw [map_candidate_tokens]
    exact hkept
  · intro ds hd
    rw [tokens?_congr (winners_congr hd)]
    exact h
  · intro p hp
    apply hkept
    · exact List.filter_subset_self cs
    · intro c hc
      have hpc : p c := by
        rw [← map_candidate_tokens text line cs] at hc
        obtain ⟨t,ht,rfl⟩ := List.mem_map.1 hc
        exact hp t ht
      exact List.mem_filter.2 ⟨winners_subset cs hc,hpc⟩
  · rw [map_candidate_tokens]
    exact hkept _ (winners_subset cs) (List.Subset.refl _)

end Resolution

namespace Catalog

theorem tokenizeLine_congr {c d : Catalog} (h : d.definitions.Perm c.definitions) (text : Line)
    (line : Nat) : d.tokenizeLine text line = c.tokenizeLine text line := by
  have hw : Resolution.winners (d.candidates text) = Resolution.winners (c.candidates text) :=
    Resolution.winners_congr fun _ => (h.flatMap_right _).mem_iff
  rw [tokenizeLine,tokenizeLine,Resolution.tokens,Resolution.tokens,hw]

end Catalog

namespace Resolution

/-- What does not become a token has no bearing on what does. Of the candidates any part that holds the
winners gives the same tokens, in any order and with any repetitions; the tokens' own candidates
give them again; and the definitions or rules of one kind may be listed in any order. -/
theorem tokens?_stable :
    (∀ (text : Line) (line : Nat) (cs : List Candidate) (ts : List Token),
      tokens? text line cs = some ts → IsStable text line cs ts) ∧
    (∀ c d : Catalog, d.definitions.Perm c.definitions →
      ∀ text line, d.tokenizeLine text line = c.tokenizeLine text line) ∧
    ∀ (compile : Compiler) (rs qs : List Rule) (c : Catalog),
      Catalog.ofRules compile rs = .ok c → qs.Perm rs → qs.map Rule.kind = rs.map Rule.kind →
      ∃ d, Catalog.ofRules compile qs = .ok d ∧
        ∀ text line, d.tokenizeLine text line = c.tokenizeLine text line := by
  refine ⟨?_,fun c d => Catalog.tokenizeLine_congr,?_⟩
  · intro text line cs ts h
    exact isStable_of_tokens? h
  · intro compile rs qs c h hp hk
    obtain ⟨d,hd,hperm⟩ := Catalog.exists_ofRules_perm h hp hk
    exact ⟨d,hd,Catalog.tokenizeLine_congr hperm⟩

/-- The longer of two matches wins from either side; without its rival, and beside an empty match, it
is the same token. -/
theorem tokens?_stable_rivals :
    let rs : List Rule := [⟨.number,"[0-9]"⟩,⟨.identifier,"[a-z]"⟩,⟨.identifier,"[b-z]+"⟩]
    let qs : List Rule := [⟨.number,"[0-9]"⟩,⟨.identifier,"[b-z]+"⟩,⟨.identifier,"[a-z]"⟩]
    tokens? "é:=".toList 3 [⟨.operator,⟨2,4⟩⟩,⟨.separator,⟨2,3⟩⟩,⟨.invalid,⟨0,2⟩⟩,⟨.number,⟨0,0⟩⟩] =
        some [⟨.invalid,"é",3,⟨0,2⟩⟩,⟨.operator,":=",3,⟨2,4⟩⟩] ∧
      tokens? "é:=".toList 3 [⟨.separator,⟨2,3⟩⟩,⟨.invalid,⟨0,2⟩⟩,⟨.operator,⟨2,4⟩⟩,⟨.invalid,⟨0,2⟩⟩] =
        some [⟨.invalid,"é",3,⟨0,2⟩⟩,⟨.operator,":=",3,⟨2,4⟩⟩] ∧
      ∃ c d, Catalog.ofRules ExpressionText.compile rs = .ok c ∧
        Catalog.ofRules ExpressionText.compile qs = .ok d ∧
        d.tokenizeLine "abc".toList 1 = c.tokenizeLine "abc".toList 1 := by
  intro rs qs
  have ht : tokens? "é:=".toList 3
      [⟨.operator,⟨2,4⟩⟩,⟨.separator,⟨2,3⟩⟩,⟨.invalid,⟨0,2⟩⟩,⟨.number,⟨0,0⟩⟩] =
        some [⟨.invalid,"é",3,⟨0,2⟩⟩,⟨.operator,":=",3,⟨2,4⟩⟩] := by decide
  refine ⟨ht,(tokens?_stable.1 _ _ _ _ ht).kept _ (by decide) (by decide),?_⟩
  cases hc : Catalog.ofRules ExpressionText.compile rs with
  | error e =>
    have ho : (Catalog.ofRules ExpressionText.compile rs).toBool := by decide +kernel
    rw [hc] at ho
    cases ho
  | ok c =>
    obtain ⟨d,hd,hl⟩ := tokens?_stable.2.2 _ rs qs c hc (.cons _ (.swap _ _ _)) rfl
    exact ⟨c,d,rfl,hd,hl _ _⟩

end Resolution
end PascalTokens
