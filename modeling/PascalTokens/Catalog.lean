import PascalTokens.Error
import PascalTokens.Pascal.Rules
import PascalTokens.Token

/-! Catalogs of definitions, each of which says how the lexemes of a kind are matched. -/
namespace PascalTokens

structure Definition where
  kind : Kind
  matcher : Matcher

/-- The definition's matches in a line that are not empty. -/
def Definition.candidates (d : Definition) (l : Line) : List Candidate :=
  (d.matcher.spans l).map (⟨d.kind,·⟩)

structure Rule where
  kind : Kind
  expression : String

/-- Makes a matcher of an expression in writing, or says what is wrong with it. -/
abbrev Compiler := String → Except String Matcher

namespace Rule

variable (compile : Compiler)

def definition (r : Rule) : Except Error Definition :=
  match compile r.expression with
  | .ok m => .ok ⟨r.kind,m⟩
  | .error reason => .error ⟨.invalidPattern r.kind reason,.catalog⟩

/-- The definitions of rules that follow a rule for `previous`. A rule must not outrank the one
before it. -/
def definitionsAfter (previous : Kind) : List Rule → Except Error (List Definition)
  | [] => .ok []
  | r :: rs =>
    if r.kind.outranks previous then .error ⟨.misorderedPattern r.kind previous,.catalog⟩
    else match r.definition compile with
      | .error e => .error e
      | .ok d => (definitionsAfter r.kind rs).map (d :: ·)

/-- Nothing outranks a compiler directive, so the first rule may have any kind. -/
def definitions (rs : List Rule) : Except Error (List Definition) :=
  definitionsAfter compile .compilerDirective rs

variable {compile}

theorem definition_eq_ok {r : Rule} {d : Definition} :
    r.definition compile = .ok d ↔ ∃ m, compile r.expression = .ok m ∧ d = ⟨r.kind,m⟩ := by
  rw [definition]
  cases compile r.expression with
  | error reason => simp
  | ok m => simp [eq_comm]

theorem definitionsAfter_cons_eq_ok {k : Kind} {r : Rule} {rs : List Rule} {ds : List Definition} :
    definitionsAfter compile k (r :: rs) = .ok ds ↔ k.rank ≤ r.kind.rank ∧
      ∃ d es, r.definition compile = .ok d ∧ definitionsAfter compile r.kind rs = .ok es ∧
        ds = d :: es := by
  rw [definitionsAfter]
  by_cases hk : r.kind.outranks k
  · have hlt : r.kind.rank < k.rank := of_decide_eq_true hk
    rw [if_pos hk]
    constructor
    · intro h
      cases h
    · rintro ⟨hle,-⟩
      omega
  · have hle : k.rank ≤ r.kind.rank := Nat.not_lt.1 fun h => hk (decide_eq_true h)
    rw [if_neg hk]
    cases hd : r.definition compile with
    | error e => simp
    | ok d =>
      cases hs : definitionsAfter compile r.kind rs with
      | error e => simp [Except.map]
      | ok es => simp [Except.map,hle,eq_comm]

theorem definitionsAfter_ordered {k : Kind} {rs : List Rule} {ds : List Definition}
    (h : definitionsAfter compile k rs = .ok ds) :
    (∀ d ∈ ds, k.rank ≤ d.kind.rank) ∧ ds.Pairwise fun d e => d.kind.rank ≤ e.kind.rank := by
  induction rs generalizing k ds with
  | nil => cases h; simp
  | cons r rs ih =>
    obtain ⟨hk,d,es,hd,hs,rfl⟩ := definitionsAfter_cons_eq_ok.1 h
    obtain ⟨hes,ho⟩ := ih hs
    obtain ⟨m,-,rfl⟩ := definition_eq_ok.1 hd
    constructor
    · intro e he
      rcases List.mem_cons.1 he with rfl | he
      · exact hk
      · exact Nat.le_trans hk (hes e he)
    · exact List.pairwise_cons.2 ⟨hes,ho⟩

end Rule

structure Catalog where
  definitions : List Definition
  /-- A kind of higher priority comes first. -/
  ordered : definitions.Pairwise fun d e => d.kind.rank ≤ e.kind.rank

namespace Catalog

def ofRules (compile : Compiler) (rs : List Rule) : Except Error Catalog :=
  match h : Rule.definitions compile rs with
  | .ok ds => .ok ⟨ds,(Rule.definitionsAfter_ordered h).2⟩
  | .error e => .error e

def pascal : Catalog where
  definitions := [
    ⟨.compilerDirective,Pascal.directive.matcher⟩,
    ⟨.comment,Pascal.braceComment.matcher⟩,
    ⟨.comment,Pascal.starComment.matcher⟩,
    ⟨.comment,Pascal.lineComment.matcher⟩,
    ⟨.reservedWord,Pascal.reservedWord.matcher⟩,
    ⟨.operator,Pascal.operator.matcher⟩,
    ⟨.number,Pascal.number.matcher⟩,
    ⟨.stringOrCharacter,Pascal.stringOrCharacter.matcher⟩,
    ⟨.separator,Pascal.separator.matcher⟩,
    ⟨.identifier,Pascal.identifier.matcher⟩,
    ⟨.invalid,Pascal.invalid.matcher⟩]
  ordered := by simp [Kind.rank]

def candidates (c : Catalog) (l : Line) : List Candidate :=
  c.definitions.flatMap (·.candidates l)

end Catalog
end PascalTokens
