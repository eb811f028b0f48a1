import PascalTokens.Pattern.Combinators
import PascalTokens.Proofs.Expression.Trees
import PascalTokens.Proofs.Pattern.Ends

/-! Expressions and patterns with the same matches, construct by construct. -/
namespace PascalTokens

namespace Pattern

theorem run_congr {r : Pattern} {k k' : Place → Option Place} {p : Place}
    (h : ∀ q, p.Reaches q → k q = k' q) : r.run k p = r.run k' p := by
  have hskip (n : Nat) (p : Place) : p.Reaches (p.skip n) := by
    induction n generalizing p with
    | zero => exact .refl p
    | succ n ih =>
      cases hl : p.rest with
      | nil =>
        rw [Place.skip,hl]
        exact .refl p
      | cons c l =>
        rw [Place.skip_succ hl]
        exact .past hl (ih _)
  rw [run_eq_findSome?,run_eq_findSome?]
  exact findSome?_congr fun n _ => h _ (hskip n p)

end Pattern

namespace Expression

/-- Has a plain expression the matches of a pattern, in the same order of preference? -/
structure Means (e : Expression) (r : Pattern) : Prop where
  plain : e.IsPlain
  first?_eq : ∀ label k p, (e.tree label k p).first? = r.run (fun q => (k q).first?) p

namespace Means

variable {e a b : Expression} {r s : Pattern} {set : CharSet} {f : Char → Bool}

theorem matcher_eq (h : e.Means r) : e.matcher = r.matcher := by
  have hend : e.matcher.endOf? = r.matcher.endOf? := by
    funext p
    rw [endOf?_matcher h.plain]
    exact h.first?_eq 0 .found p
  change (fun p => (e.run 0 stop p ∅).1) = r.run some at hend
  simp only [matcher,Pattern.matcher,hend]

theorem empty : Means .empty .empty := ⟨.empty,fun _ _ _ => rfl⟩

theorem one (h : ∀ c, set.contains c = f c) : Means (.one set) (.one f) := by
  refine ⟨.one set,fun label k p => ?_⟩
  rw [tree,Pattern.run]
  cases p.rest with
  | nil => rfl
  | cons c l =>
    simp only [h]
    cases f c <;> rfl

theorem char (c : Char) : Means (.text [c]) (.char c) := by
  refine ⟨.text [c],fun label k p => ?_⟩
  rw [tree,Pattern.char,Pattern.run,Place.pastText]
  cases p.rest with
  | nil => rfl
  | cons d l =>
    by_cases hd : c = d
    · subst hd
      simp [Place.pastText]
    · have hne : (d == c) = false := beq_false_of_ne (Ne.symm hd)
      simp [hd,hne,Tree.first?]

theorem seq (ha : a.Means r) (hb : b.Means s) : Means (.seq a b) (.seq r s) := by
  refine ⟨.seq ha.plain hb.plain,fun label k p => ?_⟩
  rw [tree,ha.first?_eq,Pattern.run]
  congr 1
  funext q
  exact hb.first?_eq _ k q

theorem alt (ha : a.Means r) (hb : b.Means s) : Means (.alt a b) (.alt r s) := by
  refine ⟨.alt ha.plain hb.plain,fun label k p => ?_⟩
  rw [tree,Pattern.run,← ha.first?_eq (label + 1),← hb.first?_eq (label + 1 + a.labels)]
  rfl

theorem opt (h : a.Means r) : Means (.times 0 (some 1) true a) (.opt r) := by
  refine ⟨.option true h.plain,fun label k p => ?_⟩
  rw [tree,Pattern.opt,Pattern.run,← h.first?_eq (label + 1)]
  rfl

section Loops

theorem first?_loop (h : a.Means r) (hc : a.consumes) (label m : Nat) (k : Place → Tree) (p : Place) :
    (a.tree m (loop true label (a.tree m) k) p).first? =
      (Pattern.plus r).run (fun q => (k q).first?) p := by
  rw [Pattern.run]
  generalize hn : p.rest.length = n
  have hle := Nat.le_of_eq hn
  clear hn
  induction n generalizing p with
  | zero =>
    -- nothing is left of the line, so there is one turn only
    have hturn : a.tree m (loop true label (a.tree m) k) p = a.tree m k p :=
      tree_congr_of_consumes h.plain hc m fun q hq hlt => by
        have := hq.rest_shorter hlt
        omega
    rw [hturn,h.first?_eq,Pattern.iterate]
  | succ n ih =>
    have hturn : a.tree m (loop true label (a.tree m) k) p = a.tree m
        (fun q => if p.offset < q.offset then loop true label (a.tree m) k q else k q) p :=
      tree_congr_of_consumes h.plain hc m fun q hq hlt => (if_pos hlt).symm
    rw [hturn,h.first?_eq,Pattern.iterate]
    refine Pattern.run_congr fun q hq => ?_
    by_cases hlt : p.offset < q.offset
    · have hshort := hq.rest_shorter hlt
      rw [if_pos hlt,if_pos hlt,loop_eq h.plain hc,← ih q (by omega)]
      rfl
    · rw [if_neg hlt,if_neg hlt]

theorem plus (h : a.Means r) (hc : a.consumes) : Means (.times 1 none true a) (.plus r) := by
  refine ⟨.plus true h.plain hc,fun label k p => ?_⟩
  rw [tree_plus h.plain hc]
  exact h.first?_loop hc label (label + 1) k p

theorem star (h : a.Means r) (hc : a.consumes) : Means (.times 0 none true a) (.star r) := by
  refine ⟨.star true h.plain hc,fun label k p => ?_⟩
  rw [tree,loop_eq h.plain hc,Pattern.star,Pattern.opt,Pattern.run,
    ← h.first?_loop hc label (label + 2) k p]
  rfl

variable (hset : ∀ c, set.contains c = f c) (hc : (Expression.one set).consumes)
include hset hc

theorem first?_loop_one (greedy : Bool) (label m : Nat) (k : Place → Tree) (p : Place) :
    ((Expression.one set).tree m (loop greedy label ((Expression.one set).tree m) k) p).first? =
      (Pattern.many greedy f).run (fun q => (k q).first?) p := by
  rw [Pattern.run]
  generalize hl : p.rest = l
  induction l generalizing p with
  | nil =>
    rw [tree,hl]
    rfl
  | cons c l ih =>
    rw [tree,hl,Pattern.manyFrom]
    simp only [hset]
    cases f c with
    | false => rfl
    | true =>
      have hlater := ih (p.past c l) rfl
      simp only [if_pos]
      rw [loop_eq (.one set) hc,Tree.first?]
      cases greedy with
      | true =>
        rw [if_pos rfl,branch,if_pos rfl,Tree.first?,hlater]
        rfl
      | false =>
        rw [if_neg Bool.false_ne_true,branch,if_neg Bool.false_ne_true,Tree.first?,hlater]
        rfl

theorem many (greedy : Bool) : Means (.times 1 none greedy (.one set)) (.many greedy f) := by
  refine ⟨.plus greedy (.one set) hc,fun label k p => ?_⟩
  rw [tree_plus (.one set) hc]
  exact first?_loop_one hset hc greedy label (label + 1) k p

theorem many0 : Means (.times 0 none true (.one set)) (.many0 f) := by
  refine ⟨.star true (.one set) hc,fun label k p => ?_⟩
  have hturns := first?_loop_one hset hc true label (label + 2) k p
  rw [tree,loop_eq (.one set) hc,Pattern.many0,Pattern.opt,Pattern.many1,Pattern.run,← hturns]
  rfl

theorem lazyMany0 : Means (.times 0 none false (.one set)) (.alt .empty (.many false f)) := by
  refine ⟨.star false (.one set) hc,fun label k p => ?_⟩
  have hturns := first?_loop_one hset hc false label (label + 2) k p
  rw [tree,loop_eq (.one set) hc,Pattern.run,Pattern.run,← hturns]
  rfl

end Loops

section Lists

theorem run_sequence_cons (r : Pattern) (rs : List Pattern) (k : Place → Option Place) (p : Place) :
    (Pattern.sequence (r :: rs)).run k p = r.run ((Pattern.sequence rs).run k) p := by
  cases rs <;> rfl

theorem tree_text_append (t u : List Char) (label : Nat) (k : Place → Tree) (p : Place) :
    (text (t ++ u)).tree label k p = (text t).tree label ((text u).tree label k) p := by
  induction t generalizing p with
  | nil => rfl
  | cons c t ih =>
    simp only [tree,List.cons_append,Place.pastText] at *
    cases p.rest with
    | nil => rfl
    | cons d l =>
      by_cases hd : c = d
      · simp only [if_pos hd]
        exact ih _
      · simp only [if_neg hd]

theorem tree_ofParts_cons (e : Expression) (es : List Expression) (label : Nat) (k : Place → Tree)
    (p : Place) : (Expression.ofParts (e :: es)).tree label k p =
      e.tree label ((Expression.ofParts es).tree (label + e.labels) k) p := by
  cases es <;> rfl

theorem isPlain_ofParts_cons {es : List Expression} :
    (Expression.ofParts (e :: es)).IsPlain ↔ e.IsPlain ∧ (Expression.ofParts es).IsPlain := by
  cases es with
  | nil => exact ⟨fun h => ⟨h,.empty⟩,And.left⟩
  | cons f es =>
    constructor
    · intro h
      cases h with
      | seq he hes => exact ⟨he,hes⟩
    · exact fun ⟨he,hes⟩ => .seq he hes

theorem cons {es : List Expression} {rs : List Pattern} (he : e.Means r)
    (hes : (Expression.ofParts es).Means (.sequence rs)) :
    (Expression.ofParts (e :: es)).Means (.sequence (r :: rs)) := by
  refine ⟨isPlain_ofParts_cons.2 ⟨he.plain,hes.plain⟩,fun label k p => ?_⟩
  rw [tree_ofParts_cons,he.first?_eq,run_sequence_cons]
  congr 1
  funext q
  exact hes.first?_eq _ k q

/-- Texts that join mean the same as one after the other. -/
theorem joinPart {es : List Expression} {rs : List Pattern} (he : e.Means r)
    (hes : (Expression.ofParts es).Means (.sequence rs)) :
    (Expression.ofParts (Expression.joinPart e es)).Means (.sequence (r :: rs)) := by
  unfold Expression.joinPart
  split
  · rename_i t u es
    obtain ⟨-,hplain⟩ := isPlain_ofParts_cons.1 hes.plain
    refine ⟨isPlain_ofParts_cons.2 ⟨.text _,hplain⟩,fun label k p => ?_⟩
    rw [tree_ofParts_cons,tree_text_append,he.first?_eq,run_sequence_cons]
    congr 1
    funext q
    rw [← hes.first?_eq label k q,tree_ofParts_cons]
    rfl
  · exact he.cons hes

theorem ofParts {es : List Expression} {rs : List Pattern} (h : List.Forall₂ Means es rs) :
    (Expression.ofParts (es.foldr Expression.joinPart [])).Means (.sequence rs) := by
  induction h with
  | nil => exact .empty
  | cons he _ ih => exact he.joinPart ih

theorem text (t : List Char) : Means (.text t) (.sequence (t.map .char)) := by
  induction t with
  | nil => exact ⟨.text [],fun _ _ _ => rfl⟩
  | cons c t ih =>
    refine ⟨.text _,fun label k p => ?_⟩
    rw [← List.singleton_append,tree_text_append,(char c).first?_eq,List.singleton_append,
      List.map_cons,run_sequence_cons]
    congr 1
    funext q
    exact ih.first?_eq label k q

theorem ofBranches {es : List Expression} {rs : List Pattern} (h : List.Forall₂ Means es rs)
    (hne : es ≠ []) : (Expression.ofBranches es).Means (.choice rs) := by
  induction h with
  | nil => exact absurd rfl hne
  | @cons e r es rs he hes ih =>
    cases hes with
    | nil => exact he
    | cons he' hes => exact he.alt (ih (List.cons_ne_nil _ _))

end Lists

end Means
end Expression
end PascalTokens
