import PascalTokens.Proofs.Pattern.Ends

/-! A pattern sees no further than its match: the matches with which a part of a text begins are
those of the whole text that end within the part. -/
namespace PascalTokens.Pattern

theorem filter_flatMap_within {N : Nat} {f g : Nat → List Nat} (ms : List Nat)
    (hf : ∀ m, ∀ n ∈ f m, m ≤ n)
    (hg : ∀ m, m ≤ N → (f m).filter (· ≤ N) = g m) :
    (ms.flatMap f).filter (· ≤ N) = (ms.filter (· ≤ N)).flatMap g := by
  induction ms with
  | nil => rfl
  | cons m ms ih =>
    rw [List.flatMap_cons,List.filter_append,ih]
    by_cases h : m ≤ N
    · rw [List.filter_cons_of_pos (by simpa using h),List.flatMap_cons,hg m h]
    · have hn : (f m).filter (· ≤ N) = [] := by
        refine List.filter_eq_nil_iff.2 fun n hn => ?_
        have := hf m n hn
        simp
        omega
      rw [List.filter_cons_of_neg (by simpa using h),hn,List.nil_append]

theorem filter_map_add {N m : Nat} (h : m ≤ N) (ns : List Nat) :
    (ns.map (m + ·)).filter (· ≤ N) = (ns.filter (· ≤ N - m)).map (m + ·) := by
  rw [List.filter_map]
  refine congrArg (List.map _) (List.filter_congr fun n _ => ?_)
  rw [Function.comp_apply,decide_eq_decide]
  omega

theorem filter_manyEnds_append (s : Char → Bool) (greedy : Bool) (l k : Line) :
    (manyEnds s greedy (l ++ k)).filter (· ≤ l.length) = manyEnds s greedy l := by
  induction l with
  | nil =>
    refine List.filter_eq_nil_iff.2 fun n hn => ?_
    have := (manyEnds_bounds n hn).1
    simp
    omega
  | cons c l ih =>
    have hm : ((manyEnds s greedy (l ++ k)).map (· + 1)).filter (· ≤ l.length + 1) =
        (manyEnds s greedy l).map (· + 1) := by
      rw [← ih,List.filter_map]
      refine congrArg (List.map _) (List.filter_congr fun n _ => ?_)
      simp
    by_cases hs : s c
    · cases greedy with
      | true => simp [manyEnds,hs,hm]
      | false => simp [manyEnds,hs,hm]
    · simp [manyEnds,hs]

section Turns

variable {body : Line → List Nat}

theorem turnEnds_succ (h : ∀ l, ∀ n ∈ body l, n ≤ l.length) {n : Nat} {l : Line}
    (hl : l.length ≤ n) : turnEnds body (n + 1) l = turnEnds body n l := by
  induction n generalizing l with
  | zero =>
    have hz : ∀ m ∈ body l, m = 0 := fun m hm => by
      have := h l m hm
      omega
    rw [turnEnds,turnEnds]
    calc
      _ = (body l).flatMap fun m => [m] := by
        refine List.flatMap_congr fun m hm => ?_
        simp [hz m hm]
      _ = _ := List.flatMap_singleton' _
  | succ n ih =>
    rw [turnEnds,turnEnds.eq_2]
    refine List.flatMap_congr fun m hm => ?_
    by_cases hpos : 0 < m
    · have hle := h l m hm
      have hd : (l.drop m).length ≤ n := by rw [List.length_drop]; omega
      rw [if_pos hpos,if_pos hpos,ih hd]
    · rw [if_neg hpos,if_neg hpos]

theorem turnEnds_of_length_le (h : ∀ l, ∀ n ∈ body l, n ≤ l.length) {n : Nat} {l : Line}
    (hl : l.length ≤ n) : turnEnds body n l = turnEnds body l.length l := by
  induction hl with
  | refl => rfl
  | step hl ih => rw [turnEnds_succ h hl,ih]

theorem filter_turnEnds_append {k : Line}
    (h : ∀ l, (body (l ++ k)).filter (· ≤ l.length) = body l) (n : Nat) (l : Line) :
    (turnEnds body n (l ++ k)).filter (· ≤ l.length) = turnEnds body n l := by
  induction n generalizing l with
  | zero => exact h l
  | succ n ih =>
    rw [turnEnds,turnEnds,← h l]
    refine filter_flatMap_within _ ?_ ?_
    · intro m j hj
      by_cases hpos : 0 < m
      · rw [if_pos hpos] at hj
        rcases List.mem_append.1 hj with hj | hj
        · obtain ⟨i,-,rfl⟩ := List.mem_map.1 hj
          exact Nat.le_add_right m i
        · exact Nat.le_of_eq (List.mem_singleton.1 hj).symm
      · rw [if_neg hpos] at hj
        exact Nat.le_of_eq (List.mem_singleton.1 hj).symm
    · intro m hm
      by_cases hpos : 0 < m
      · have hi := ih (l.drop m)
        rw [List.length_drop] at hi
        rw [if_pos hpos,if_pos hpos,List.filter_append,List.drop_append_of_le_length hm,
          filter_map_add hm,hi]
        simp [hm]
      · rw [if_neg hpos,if_neg hpos]
        simp [hm]

end Turns

theorem filter_ends_append (r : Pattern) (l k : Line) :
    (r.ends (l ++ k)).filter (· ≤ l.length) = r.ends l := by
  induction r generalizing l with
  | empty => simp [ends]
  | one s =>
    cases l with
    | nil =>
      cases k with
      | nil => rfl
      | cons c k =>
        by_cases h : s c
        · simp [ends,h]
        · simp [ends,h]
    | cons c l =>
      by_cases h : s c
      · simp [ends,h]
      · simp [ends,h]
  | many greedy s => exact filter_manyEnds_append s greedy l k
  | seq a b iha ihb =>
    rw [ends,ends,← iha l]
    refine filter_flatMap_within _ ?_ ?_
    · intro m j hj
      obtain ⟨i,-,rfl⟩ := List.mem_map.1 hj
      exact Nat.le_add_right m i
    · intro m hm
      have hb := ihb (l.drop m)
      rw [List.length_drop] at hb
      rw [List.drop_append_of_le_length hm,filter_map_add hm,hb]
  | alt a b iha ihb => rw [ends,ends,List.filter_append,iha,ihb]
  | plus a ih =>
    have hle : l.length ≤ (l ++ k).length := by simp
    rw [ends,ends,filter_turnEnds_append ih,turnEnds_of_length_le a.ends_le hle]

/-- A preferred match that ends within a part of a text is the preferred one of the part. -/
theorem length?_of_append {r : Pattern} {l k : Line}
    (h : ∀ n ∈ r.length? (l ++ k), n ≤ l.length) : r.length? l = r.length? (l ++ k) := by
  have hf := r.filter_ends_append l k
  rw [length?,length?,← hf]
  cases he : r.ends (l ++ k) with
  | nil => rfl
  | cons n ns =>
    have hn : n ≤ l.length := by
      by_cases hpos : 0 < n
      · refine h n ?_
        simp [length?,he,hpos]
      · omega
    rw [List.filter_cons_of_pos (by simpa using hn)]
    rfl

end PascalTokens.Pattern
