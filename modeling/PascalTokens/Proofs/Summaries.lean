import Mathlib.Algebra.BigOperators.Group.List.Basic
import Mathlib.Algebra.Ring.Nat
import PascalTokens.Proofs.Listings

/-! The summary of tokens beside their listing. The summary counts every token, whether it is shown
or not; the listing has as many lines of a kind as the summary counts, but for comments that are
hidden. -/
namespace PascalTokens

namespace ListingOptions

variable (o : ListingOptions)

/-- The word of a line that says a kind: the first one, or the second where a place stands first. -/
def kindWord (l : Line) : Option Line := (l.splitOn ' ')[if o.positions then 1 else 0]?

/-- Is the line that of a token of kind `k`? -/
def carries (k : Kind) (l : Line) : Bool := o.kindWord l == some k.name.toList

theorem kindWord_line (t : Token) : o.kindWord (o.line t) = some t.kind.name.toList := by
  have hlabel : (Token.label t.content).splitOn ' ' =
      t.kind.name.toList :: ('\'' :: (t.value.toList ++ ['\''])).splitOn ' ' :=
    List.splitOn_append_cons_self_of_not_mem t.kind.space_not_mem_name _
  cases hp : o.positions with
  | false =>
    rw [o.line_of_not_positions hp,kindWord,hlabel,hp]
    rfl
  | true =>
    have hplace := Token.not_mem_place (c := ' ') rfl (by decide) (by decide) t
    rw [o.line_of_positions hp,kindWord,List.splitOn_append_cons_self_of_not_mem hplace,hlabel,hp]
    rfl

theorem carries_line (k : Kind) (t : Token) : o.carries k (o.line t) = decide (t.kind = k) := by
  rw [carries,kindWord_line,Bool.eq_iff_iff,beq_iff_eq,decide_eq_true_eq,Option.some.injEq,
    String.toList_inj]
  exact ⟨Kind.name_injective,congrArg Kind.name⟩

theorem countP_carries {ts : List Token} (h : ∀ t ∈ ts, t.IsUnbroken) (k : Kind) :
    (Text.lines (listing ts o).toList).countP (o.carries k) =
      ts.countP fun t => decide (t.kind = k) && o.shows t := by
  have hcarries : o.carries k ∘ o.line = fun t => decide (t.kind = k) := by
    funext t
    exact o.carries_line k t
  rw [o.lines_listing h,List.countP_map,hcarries,List.countP_filter]

theorem shows_of_kind {k : Kind} (h : k ≠ .comment ∨ o.showComments = true) {t : Token}
    (hk : t.kind = k) : o.shows t = true := by
  rw [shows,Token.isComment,hk]
  rcases h with h | h
  · simp [h]
  · simp [h]

end ListingOptions

namespace Summary

/-- How many tokens of kind `k` a summary counts. -/
def countIn (ps : List (Kind × Nat)) (k : Kind) : Nat := (ps.lookup k).getD 0

/-- The summary `ps` of the tokens `ts` lists each kind that occurs, once and in the order of
priority, with positive numbers that add up to that of the tokens. -/
structure IsSummary (ts : List Token) (ps : List (Kind × Nat)) : Prop where
  once : ∀ k, (ps.map Prod.fst).count k = if ∃ t ∈ ts, t.kind = k then 1 else 0
  ordered : (ps.map Prod.fst).Pairwise fun j k => j.outranks k
  positive : ∀ p ∈ ps, 0 < p.2
  total : (ps.map Prod.snd).sum = ts.length

variable {ts : List Token}

theorem kinds_ofTokens (ts : List Token) :
    (ofTokens ts).map Prod.fst = Kind.all.filter fun k => count ts k > 0 := by
  rw [ofTokens,List.filter_map,List.map_map]
  exact List.map_id _

theorem count_pos {k : Kind} : 0 < count ts k ↔ ∃ t ∈ ts, t.kind = k := by
  rw [count,List.countP_pos_iff]
  simp only [decide_eq_true_eq]

theorem sum_filter_pos (ps : List (Kind × Nat)) :
    ((ps.filter fun p => p.2 > 0).map Prod.snd).sum = (ps.map Prod.snd).sum := by
  induction ps with
  | nil => rfl
  | cons p ps ih =>
    by_cases hp : p.2 > 0
    · rw [List.filter_cons_of_pos (by simpa using hp),List.map_cons,List.map_cons,List.sum_cons,
        List.sum_cons,ih]
    · have hz : p.2 = 0 := Nat.eq_zero_of_not_pos hp
      rw [List.filter_cons_of_neg (by simpa using hz),ih,List.map_cons,List.sum_cons,hz,
        Nat.zero_add]

theorem sum_count (ts : List Token) : (Kind.all.map (count ts)).sum = ts.length := by
  induction ts with
  | nil => rfl
  | cons t ts ih =>
    have hone : (Kind.all.map fun k => if decide (t.kind = k) = true then 1 else 0).sum = 1 := by
      cases t.kind <;> rfl
    have hcons : count (t :: ts) =
        fun k => count ts k + if decide (t.kind = k) = true then 1 else 0 := by
      funext k
      exact List.countP_cons
    rw [hcons,List.sum_map_add,ih,hone]
    rfl

theorem isSummary_ofTokens (ts : List Token) : IsSummary ts (ofTokens ts) := by
  have hordered : Kind.all.Pairwise fun j k => j.outranks k := by decide
  refine ⟨fun k => ?_,?_,fun p hp => ?_,?_⟩
  · have hnodup : (Kind.all.filter fun k => count ts k > 0).Nodup :=
      (by decide : Kind.all.Nodup).filter _
    rw [kinds_ofTokens,hnodup.count]
    simp only [List.mem_filter,k.mem_all,decide_eq_true_eq,true_and,gt_iff_lt,count_pos]
  · rw [kinds_ofTokens]
    exact hordered.filter _
  · exact of_decide_eq_true (List.mem_filter.1 hp).2
  · rw [ofTokens,sum_filter_pos,List.map_map]
    exact sum_count ts

theorem countIn_filter_pos (f : Kind → Nat) (ks : List Kind) (k : Kind) :
    countIn ((ks.map fun j => (j,f j)).filter fun p => p.2 > 0) k = if k ∈ ks then f k else 0 := by
  induction ks with
  | nil => rfl
  | cons j ks ih =>
    rw [List.map_cons]
    by_cases hj : f j > 0
    · rw [List.filter_cons_of_pos (by simpa using hj)]
      by_cases hk : k = j
      · simp [countIn,hk]
      · have hne : (k == j) = false := beq_false_of_ne hk
        rw [countIn,List.lookup_cons,hne]
        simp only [List.mem_cons,hk,false_or]
        exact ih
    · have hz : f j = 0 := Nat.eq_zero_of_not_pos hj
      rw [List.filter_cons_of_neg (by simpa using hz),ih]
      by_cases hk : k = j
      · simp [hk,hz]
      · simp [hk]

@[simp] theorem countIn_ofTokens (ts : List Token) (k : Kind) :
    countIn (ofTokens ts) k = count ts k := by
  rw [ofTokens,countIn_filter_pos,if_pos k.mem_all]

theorem ofTokens_perm {us : List Token} (h : us.Perm ts) : ofTokens us = ofTokens ts := by
  have hcount : count us = count ts := by
    funext k
    exact h.countP_eq _
  rw [ofTokens,ofTokens,hcount]

theorem count_append (ts us : List Token) (k : Kind) :
    count (ts ++ us) k = count ts k + count us k := List.countP_append

end Summary

/-- A listing agrees with a summary `ps` of its tokens. -/
structure ListingOptions.Agrees (o : ListingOptions) (ts : List Token) (ps : List (Kind × Nat)) :
    Prop where
  shown : ∀ k, k ≠ .comment ∨ o.showComments = true →
    (Text.lines (listing ts o).toList).countP (o.carries k) = Summary.countIn ps k
  hidden : o.showComments = false →
    (∀ l ∈ Text.lines (listing ts o).toList, o.carries .comment l = false) ∧
      Summary.countIn ps .comment = ts.countP (·.isComment)

theorem ListingOptions.agrees_ofTokens (o : ListingOptions) {ts : List Token}
    (h : ∀ t ∈ ts, t.IsUnbroken) : o.Agrees ts (Summary.ofTokens ts) := by
  refine ⟨fun k hk => ?_,fun ho => ⟨fun l hl => ?_,?_⟩⟩
  · rw [o.countP_carries h,Summary.countIn_ofTokens,Summary.count]
    apply List.countP_congr
    intro t _
    simp only [Bool.and_eq_true,decide_eq_true_eq,and_iff_left_iff_imp]
    exact o.shows_of_kind hk
  · rw [o.lines_listing h] at hl
    obtain ⟨t,ht,rfl⟩ := List.mem_map.1 hl
    have hshows := (List.mem_filter.1 ht).2
    rw [o.carries_line]
    simpa [shows,ho,Token.isComment] using hshows
  · exact Summary.countIn_ofTokens ts .comment

/-- The summary is a table of the kinds, whatever the order of the tokens, and adds up when tokens
are put together; and a listing, with places or without, has as many lines of a kind as the summary
counts, but for comments that are hidden, of which it has none. -/
theorem Summary.ofTokens_agrees {ts : List Token} (h : ∀ t ∈ ts, t.IsUnbroken) :
    IsSummary ts (ofTokens ts) ∧
    (∀ us : List Token, us.Perm ts → ofTokens us = ofTokens ts) ∧
    (∀ us k, countIn (ofTokens (ts ++ us)) k = countIn (ofTokens ts) k + countIn (ofTokens us) k) ∧
    ∀ o : ListingOptions, o.Agrees ts (ofTokens ts) := by
  refine ⟨isSummary_ofTokens ts,fun us => ofTokens_perm,fun us k => ?_,fun o => o.agrees_ofTokens h⟩
  rw [countIn_ofTokens,countIn_ofTokens,countIn_ofTokens,count_append]

/-- Two comments, one of them with the name of another kind, and a name; no comment is shown. -/
theorem Summary.ofTokens_agrees_hidden :
    let ts : List Token := [⟨.comment,"// Identifier 'x'",1,⟨0,17⟩⟩,⟨.identifier,"x",2,⟨0,1⟩⟩,
      ⟨.comment,"(* x *)",2,⟨1,8⟩⟩]
    ofTokens ts = [(.comment,2),(.identifier,1)] ∧
      (listing ts ⟨false,true⟩) = "2:0-1 Identifier 'x'\n" ∧
      (∀ t ∈ ts, t.IsUnbroken) ∧ ListingOptions.Agrees ⟨false,true⟩ ts (ofTokens ts) ∧
      ofTokens ts.reverse = ofTokens ts := by
  intro ts
  have hts : ∀ t ∈ ts, t.IsUnbroken := by decide
  obtain ⟨-,hperm,-,hagrees⟩ := ofTokens_agrees hts
  exact ⟨by decide,by decide,hts,hagrees ⟨false,true⟩,hperm _ ts.reverse_perm⟩

end PascalTokens
