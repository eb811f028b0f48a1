import PascalTokens.Proofs.CaseFolding
import PascalTokens.Proofs.Expression.CharSets
import PascalTokens.Proofs.Expression.Meanings
import PascalTokens.Proofs.Expression.Reading
import PascalTokens.Proofs.Expression.Sizes

/-! Choices between words that ignore case: what they mean, and that their automata are small. -/
namespace PascalTokens.Expression

section Characters

variable {c : Char}

/-- What an ASCII letter or digit takes at most that ignores case. -/
def characterBytes : Nat := 800

theorem ofSet_asciiOrbit (hc : c.isAlphanum) :
    ofSet (.ofList (Unicode.asciiOrbit c)) = .text [c] ∧ Unicode.asciiOrbit c = [c,c] ∨
      ofSet (.ofList (Unicode.asciiOrbit c)) = .one (.ofList (Unicode.asciiOrbit c)) ∧
        setBytes (.ofList (Unicode.asciiOrbit c)) ≤ characterBytes := by
  refine Unicode.forall_alphanum hc ?_
  decide +kernel

theorem ofList_orbit (hc : c.isAlphanum) :
    CharSet.ofList (Unicode.orbit c) = .ofList (Unicode.asciiOrbit c) := by
  have hsmall {d : Char} (hd : d.isAlphanum) : d.isUpper = false →
      CharSet.ofList (Unicode.orbit d) = .ofList (Unicode.asciiOrbit d) := by
    refine Unicode.forall_alphanum hd ?_
    decide +kernel
  have hlower : c.toLower.isAlphanum ∧ c.toLower.isUpper = false ∧
      c.toLower.toLower = c.toLower ∧ Unicode.asciiOrbit c.toLower = Unicode.asciiOrbit c := by
    refine Unicode.forall_alphanum hc ?_
    decide
  obtain ⟨hletter,hupper,hagain,horbit⟩ := hlower
  have hfold : Unicode.orbit c = Unicode.orbit c.toLower := by
    rw [Unicode.orbit,Unicode.orbit,Unicode.fold_of_lt (Unicode.toNat_lt_of_isAlphanum hc),
      Unicode.fold_of_lt (Unicode.toNat_lt_of_isAlphanum hletter),hagain]
  rw [hfold,hsmall hletter hupper,horbit]

theorem character_eq (hc : c.isAlphanum) :
    ExpressionText.character true c = ofSet (.ofList (Unicode.asciiOrbit c)) := by
  rw [ExpressionText.character,if_pos rfl,ofList_orbit hc]

theorem means_character (hc : c.isAlphanum) :
    (ExpressionText.character true c).Means (.caseless c) := by
  rw [character_eq hc,Pattern.caseless,Pattern.among]
  rcases ofSet_asciiOrbit hc with ⟨h,horbit⟩ | ⟨h,-⟩
  · have hsame : ([c,c].contains ·) = (· == c) := by
      funext d
      rw [Bool.eq_iff_iff]
      simp
    rw [h,horbit,hsame]
    exact .char c
  · rw [h]
    exact .one (CharSet.contains_ofList _)

theorem takes_character (hc : c.isAlphanum) :
    (ExpressionText.character true c).Takes characterBytes := by
  rw [character_eq hc]
  rcases ofSet_asciiOrbit hc with ⟨h,-⟩ | ⟨h,hbytes⟩
  · rw [h]
    exact (Takes.text [c]).mono (by simp [characterBytes])
  · rw [h]
    exact (Takes.one _).mono hbytes

theorem parts_ofSet (s : CharSet) :
    (ofSet s).parts = [ofSet s] ∧ (ofSet s).branches = [ofSet s] := by
  rw [ofSet]
  cases s.single? <;> exact ⟨rfl,rfl⟩

theorem parts_character (ignoreCase : Bool) (c : Char) :
    (ExpressionText.character ignoreCase c).parts = [ExpressionText.character ignoreCase c] ∧
      (ExpressionText.character ignoreCase c).branches =
        [ExpressionText.character ignoreCase c] := by
  cases ignoreCase with
  | false => exact ⟨rfl,rfl⟩
  | true => exact parts_ofSet _

end Characters

section Sequences

variable {e : Expression} {es : List Expression} {m n : Nat}

theorem takes_ofParts_cons (he : e.Takes m) (hes : (ofParts es).Takes n) :
    (ofParts (e :: es)).Takes (m + n) := by
  cases es with
  | nil => exact he.mono (Nat.le_add_right m n)
  | cons f es => exact he.seq hes

theorem growth_text_append (d : Direction) (t u : List Char) (x : Extent) :
    (Part.ofBranches ((text (t ++ u)).branchParts d)).growth x =
        (Part.ofBranches ((text u).branchParts d)).growth
          ((Part.ofBranches ((text t).branchParts d)).growth x) ∧
      (Part.ofBranches ((text (t ++ u)).branchParts d)).growth x =
        (Part.ofBranches ((text t).branchParts d)).growth
          ((Part.ofBranches ((text u).branchParts d)).growth x) := by
  have hplain (t : List Char) : (Part.ofBranches ((text t).branchParts d)).growth =
      .plain (t.flatMap String.utf8EncodeChar).length := by
    cases d <;> rfl
  simp only [hplain,Extent.plain,Extent.plus,List.flatMap_append,List.length_append,Nat.add_zero,
    Extent.mk.injEq,and_true]
  constructor <;> omega

theorem takes_joinPart (he : e.Takes m) (hes : (ofParts es).Takes n) :
    (ofParts (joinPart e es)).Takes (m + n) := by
  unfold joinPart
  split
  · rename_i t u es
    intro d x
    have hfirst := (he d).comp (hes d) x
    have hlast := (hes d).comp (he d) x
    have happend := growth_text_append d t u
    cases es with
    | nil =>
      change ((Part.ofBranches ((text (t ++ u)).branchParts d)).growth x).bytes ≤ _
      rw [(happend x).1]
      exact hfirst
    | cons e es =>
      cases d with
      | forwards =>
        change ((Part.ofBranches ((ofParts (e :: es)).branchParts .forwards)).growth
          ((Part.ofBranches ((text (t ++ u)).branchParts .forwards)).growth x)).bytes ≤ _
        rw [(happend x).1]
        exact hfirst
      | backwards =>
        change ((Part.ofBranches ((text (t ++ u)).branchParts .backwards)).growth
          ((Part.ofBranches ((ofParts (e :: es)).branchParts .backwards)).growth x)).bytes ≤ _
        rw [(happend _).2,Nat.add_comm m n]
        exact hlast
  · exact takes_ofParts_cons he hes

theorem branches_ofParts (hes : ∀ e ∈ es, e.branches = [e]) :
    (ofParts es).branches = [ofParts es] := by
  match es with
  | [] => rfl
  | [e] => exact hes e List.mem_cons_self
  | _ :: _ :: _ => rfl

theorem joinPart_ne_nil (e : Expression) (es : List Expression) : joinPart e es ≠ [] := by
  unfold joinPart
  split <;> exact List.cons_ne_nil _ _

theorem branches_of_mem_joinPart (he : e.branches = [e]) (hes : ∀ e ∈ es, e.branches = [e]) :
    ∀ f ∈ joinPart e es, f.branches = [f] := by
  unfold joinPart
  split
  · intro f hf
    rcases List.mem_cons.1 hf with rfl | hf
    · rfl
    · exact hes f (List.mem_cons_of_mem _ hf)
  · intro f hf
    rcases List.mem_cons.1 hf with rfl | hf
    · exact he
    · exact hes f hf

end Sequences

section Words

open ExpressionText

variable {w : List Char}

theorem expression_word (ignoreCase : Bool) (w : List Char) : (word ignoreCase w).expression =
    ofParts ((w.map (character ignoreCase)).foldr joinPart []) := by
  have hparts : (w.map (character ignoreCase)).flatMap parts = w.map (character ignoreCase) := by
    rw [List.flatMap_map,List.map_eq_flatMap]
    exact List.flatMap_congr fun c _ => (parts_character ignoreCase c).1
  change Expression.sequence
    ((w.map fun c => (⟨0,character ignoreCase c⟩ : Nested)).map (·.expression)) = _
  rw [List.map_map,Expression.sequence]
  exact congrArg (fun es => ofParts (List.foldr joinPart [] es)) hparts

theorem means_word (hw : ∀ c ∈ w, c.isAlphanum) :
    (word true w).expression.Means (.sequence (w.map .caseless)) := by
  rw [expression_word]
  refine .ofParts ?_
  rw [List.forall₂_map_left_iff,List.forall₂_map_right_iff,List.forall₂_same]
  exact fun c hc => means_character (hw c hc)

theorem takes_word (hw : ∀ c ∈ w, c.isAlphanum) :
    (word true w).expression.Takes (w.length * characterBytes + 32) := by
  rw [expression_word]
  induction w with
  | nil => exact .empty
  | cons c w ih =>
    have hlater := ih fun d hd => hw d (List.mem_cons_of_mem _ hd)
    refine (takes_joinPart (takes_character (hw c List.mem_cons_self)) hlater).mono ?_
    rw [List.length_cons,Nat.succ_mul]
    omega

theorem branches_word (w : List Char) :
    (word true w).expression.branches = [(word true w).expression] := by
  rw [expression_word]
  refine branches_ofParts ?_
  induction w with
  | nil => exact fun _ h => absurd h List.not_mem_nil
  | cons c w ih => exact branches_of_mem_joinPart (parts_character true c).2 ih

theorem word_eq_seq {c : Char} {s : CharSet} (hc : character true c = .one s)
    (hhead : w.head? = some c) (hlength : 1 < w.length) :
    ∃ e, (word true w).expression = .seq (.one s) e := by
  match w, hhead, hlength with
  | c :: d :: w, rfl, _ =>
    rw [expression_word,List.map_cons,List.foldr_cons,hc]
    cases hes : ((d :: w).map (character true)).foldr joinPart [] with
    | nil => exact absurd hes (joinPart_ne_nil _ _)
    | cons e es => exact ⟨_,rfl⟩

theorem depth_word_le (ignoreCase : Bool) (w : List Char) : (word ignoreCase w).depth ≤ 1 := by
  refine depthOf_le fun n hn => ?_
  obtain ⟨c,-,rfl⟩ := List.mem_map.1 hn
  exact Nat.le_refl 0

theorem choice_eq_ofBranches {s t : CharSet} {a b : Expression} {es : List Expression} (hne : s ≠ t)
    (hes : ∀ e ∈ Expression.seq (.one s) a :: .seq (.one t) b :: es, e.branches = [e]) :
    choice (.seq (.one s) a :: .seq (.one t) b :: es) =
      ofBranches (.seq (.one s) a :: .seq (.one t) b :: es) := by
  have hshared : sharedParts (.seq (.one s) a :: .seq (.one t) b :: es) = [] := by
    have hnil (pss : List (List Expression)) : pss.foldl commonPrefix [] = [] := by
      induction pss with
      | nil => rfl
      | cons ps pss ih => exact ih
    rw [sharedParts,List.mapM_cons,List.mapM_cons]
    cases es.mapM parts? with
    | none => rfl
    | some pss =>
      change pss.foldl commonPrefix (commonPrefix (.one s :: a.parts) (.one t :: b.parts)) = []
      rw [commonPrefix,if_neg fun h => hne (Expression.one.inj h),hnil]
  have hbranches : (Expression.seq (.one s) a :: .seq (.one t) b :: es).flatMap branches =
      .seq (.one s) a :: .seq (.one t) b :: es :=
    (List.flatMap_congr hes).trans (List.flatMap_singleton' _)
  rw [choice,List.foldr_cons,nodes,Nat.add_right_comm,choiceWithin,hbranches,
    mapM_eq_none List.mem_cons_self rfl,mapM_eq_none List.mem_cons_self rfl,hshared]
  exact fun _ h => absurd (List.cons.inj h).2 (List.cons_ne_nil _ _)

/-- Words of ASCII letters and digits, the first two of which begin with different letters. -/
structure AreWords (ws : List (List Char)) : Prop where
  alphanum : ∀ w ∈ ws, ∀ c ∈ w, c.isAlphanum
  short : ∀ w ∈ ws, w.length ≤ 20
  few : ws.length ≤ 400
  differ : ∃ v w us, ws = v :: w :: us ∧ 1 < v.length ∧ 1 < w.length ∧
    ∃ c ∈ v.head?, ∃ d ∈ w.head?, ∃ s t,
      character true c = .one s ∧ character true d = .one t ∧ s ≠ t

def words (ws : List (List Char)) : List Expression := ws.map fun w => (word true w).expression

theorem branches_words (ws : List (List Char)) : ∀ e ∈ words ws, e.branches = [e] := by
  intro e he
  obtain ⟨w,-,rfl⟩ := List.mem_map.1 he
  exact branches_word w

namespace AreWords

variable {ws : List (List Char)} (h : AreWords ws)
include h

theorem ne_nil : ws ≠ [] := by
  obtain ⟨v,w,us,rfl,-⟩ := h.differ
  exact List.cons_ne_nil _ _

theorem literal : ∀ c ∈ List.intercalate ['|'] ws, c = '|' ∨ isLiteral c := by
  intro c hc
  refine (eq_or_mem_of_mem_intercalate hc).imp id fun ⟨w,hw,hc⟩ => ?_
  refine Unicode.forall_alphanum (h.alphanum w hw c hc) ?_
  decide

theorem symbols_append {u : List Char} {xs : List Symbol} (hu : symbols u = .ok xs) :
    symbols (List.intercalate ['|'] ws ++ u) =
      .ok ((List.intercalate ['|'] ws).map .plain ++ xs) := by
  refine ExpressionText.symbols_append (fun hc => ?_) hu
  rcases h.literal _ hc with hc | hc <;> cases hc

theorem bar_not_mem : ∀ w ∈ ws, '|' ∉ w := fun w hw hc => by
  cases h.alphanum w hw _ hc

theorem exists_seq : ∃ a b es s t, words ws = .seq (.one s) a :: .seq (.one t) b :: es ∧ s ≠ t := by
  obtain ⟨v,w,us,rfl,hv,hw,c,hc,d,hd,s,t,hs,ht,hne⟩ := h.differ
  obtain ⟨a,ha⟩ := word_eq_seq hs hc hv
  obtain ⟨b,hb⟩ := word_eq_seq ht hd hw
  exact ⟨a,b,words us,s,t,by rw [words,List.map_cons,List.map_cons,ha,hb]; rfl,hne⟩

theorem choice_append {es : List Expression} (hes : ∀ e ∈ es, e.branches = [e]) :
    choice (words ws ++ es) = ofBranches (words ws ++ es) := by
  obtain ⟨a,b,fs,s,t,hwords,hne⟩ := h.exists_seq
  have hall : ∀ e ∈ words ws ++ es, e.branches = [e] := by
    intro e he
    exact (List.mem_append.1 he).elim (branches_words ws e) (hes e)
  rw [hwords,List.cons_append,List.cons_append] at *
  exact choice_eq_ofBranches hne hall

theorem takes {e : Expression} (he : e ∈ words ws) : e.Takes 20000 := by
  obtain ⟨w,hw,rfl⟩ := List.mem_map.1 he
  have hle := Nat.mul_le_mul_right characterBytes (h.short w hw)
  have hbytes : 20 * characterBytes + 32 ≤ 20000 := by decide
  exact (takes_word (h.alphanum w hw)).mono (Nat.le_trans (Nat.add_le_add_right hle 32) hbytes)

theorem takes_choice {es : List Expression} (hes : ∀ e ∈ es, e.branches = [e] ∧ e.Takes 20000)
    (hlength : es.length ≤ 1) : (ofBranches (words ws ++ es)).Takes 9000000 := by
  obtain ⟨a,b,fs,s,t,hwords,-⟩ := h.exists_seq
  have hall : ∀ e ∈ words ws ++ es, e.branches = [e] ∧ e.Takes 20000 := by
    intro e he
    exact (List.mem_append.1 he).elim (fun he => ⟨branches_words ws e he,h.takes he⟩) (hes e)
  refine (Takes.ofBranches hall ⟨.seq (.one s) a,?_,fun _ => Expression.noConfusion⟩).mono ?_
  · rw [hwords]
    exact List.mem_cons_self
  · have hfew := h.few
    rw [List.length_append,words,List.length_map]
    omega

theorem means : List.Forall₂ Means (words ws) (ws.map fun w => .sequence (w.map .caseless)) := by
  rw [words,List.forall₂_map_left_iff,List.forall₂_map_right_iff,List.forall₂_same]
  exact fun w hw => means_word (h.alphanum w hw)

theorem closed_choices {g : Group} (hnumber : g.number = none) {ns : List Nested}
    (hchoices : g.choices = ws.map (word true) ++ ns) (hns : ∀ n ∈ ns, n.depth ≤ 2)
    (hes : ∀ n ∈ ns, n.expression.branches = [n.expression]) :
    g.closed.expression = ofBranches (words ws ++ ns.map (·.expression)) ∧ g.closed.depth ≤ 4 := by
  have hclosed : g.closed = (Nested.choice g.choices).within id := by
    rw [Group.closed,hnumber]
    rfl
  rw [hclosed,hchoices]
  constructor
  · change choice ((ws.map (word true) ++ ns).map (·.expression)) = _
    rw [List.map_append,List.map_map]
    refine h.choice_append fun e he => ?_
    obtain ⟨n,hn,rfl⟩ := List.mem_map.1 he
    exact hes n hn
  · refine Nat.succ_le_succ (depthOf_le fun n hn => ?_)
    rcases List.mem_append.1 hn with hn | hn
    · obtain ⟨w,-,rfl⟩ := List.mem_map.1 hn
      exact Nat.le_trans (depth_word_le true w) (by decide)
    · exact hns n hn

/-- A choice between words that ignores case, in writing. -/
theorem parse_eq {r : String} (hr : r.toList = ['(','?','i',')','(','?',':'] ++
    (List.intercalate ['|'] ws ++ [')'])) : parse r = .ok (ofBranches (words ws)) := by
  have hxs := ExpressionText.symbols_append (t := ['(','?','i',')','(','?',':']) (by decide)
    (h.symbols_append (u := [')']) rfl)
  rw [← hr] at hxs
  have hps : pieces (['(','?','i',')','(','?',':'].map .plain ++
      ((List.intercalate ['|'] ws).map .plain ++ [.plain ')'])) =
        .ok (.ignoreCase :: .opening false ::
          ((List.intercalate ['|'] ws).map wordPiece ++ [.closing])) := by
    have hlength (t : List Char) : (['(','?','i',')','(','?',':'].map Symbol.plain ++
        (t.map Symbol.plain ++ [Symbol.plain ')'])).length = t.length + 6 + 1 + 1 := by simp
    rw [pieces,hlength]
    exact piecesWithin_cons rfl (piecesWithin_cons rfl (piecesWithin_append h.literal rfl))
  let g : Group :=
    { (Group.opened none false).push ⟨0,.empty⟩ with ignoreCase := true, repeatable := false }
  obtain ⟨i,hnest,hnumber,-,hchoices⟩ :=
    Group.nest_words 1 (.opened none true) [g] h.ne_nil h.bar_not_mem rfl [.closing]
  have hn : nest 1 (.opened none false) [] (.ignoreCase :: .opening false ::
      ((List.intercalate ['|'] ws).map wordPiece ++ [.closing])) =
        .ok (.choice [.sequence [⟨0,.empty⟩,i.closed]]) := hnest
  have hwords : i.choices = ws.map (word true) ++ [] := hchoices.trans (List.append_nil _).symm
  obtain ⟨hclosed,hdepth⟩ := h.closed_choices hnumber hwords (by simp) (by simp)
  rw [List.map_nil,List.append_nil] at hclosed
  obtain ⟨a,b,es,s,t,hseq,-⟩ := h.exists_seq
  have hexpression : (Nested.choice [.sequence [⟨0,.empty⟩,i.closed]]).expression =
      ofBranches (words ws) := by
    change choice [Expression.sequence [.empty,i.closed.expression]] = _
    rw [hclosed,hseq]
    rfl
  have hsize : (ofBranches (words ws ++ [])).Takes 9000000 :=
    h.takes_choice (by simp) (Nat.zero_le 1)
  rw [List.append_nil] at hsize
  rw [← hexpression]
  refine parse_eq_ok (read_eq_ok hxs hps hn) ?_ ?_
  · have hparts : ∀ n ∈ [⟨0,.empty⟩,i.closed], n.depth ≤ 4 := by simpa using hdepth
    exact Nat.le_trans (depth_branch_le hparts) (by decide)
  · rw [hexpression]
    exact isTooLarge_eq_false hsize (by decide)

end AreWords

end Words
end PascalTokens.Expression
