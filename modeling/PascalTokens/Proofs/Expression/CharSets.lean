import PascalTokens.CharSet

/-! What sets of characters contain: runs, lists, unions and complements. -/
namespace PascalTokens

namespace CharRun

/-- Is `n` the number of a character? -/
def IsNumber (n : Nat) : Prop := n < 0xD800 ∨ 0xDFFF < n ∧ n ≤ lastCharacter

theorem isNumber_toNat (c : Char) : IsNumber c.toNat := by
  rcases c.valid with h | ⟨h,h'⟩
  · exact .inl h
  · exact .inr ⟨h,Nat.le_of_lt_succ h'⟩

theorem IsNumber.le_lastCharacter {n : Nat} (h : IsNumber n) : n ≤ lastCharacter := by
  rcases h with h | h
  · exact Nat.le_trans (Nat.le_of_lt h) (by decide)
  · exact h.2

theorem succ_le_iff {m : Nat} (h : IsNumber m) (n : Nat) : succ n ≤ m ↔ n < m := by
  rw [IsNumber] at h
  rw [succ]
  split <;> omega

theorem le_pred_iff {m n : Nat} (h : IsNumber m) (hn : 0 < n) : m ≤ pred n ↔ m < n := by
  rw [IsNumber] at h
  rw [pred]
  split <;> omega

theorem contains_iff {r : CharRun} {n : Nat} : r.contains n = true ↔ r.first ≤ n ∧ n ≤ r.last := by
  simp [contains]

/-- Do the runs follow `n` and one another, with a character in every gap? -/
def areApart (n : Nat) : List CharRun → Bool
  | [] => n ≤ lastCharacter
  | r :: rs => succ n ≤ pred r.first && r.first ≤ r.last && areApart r.last rs

variable {n m : Nat} {r : CharRun} {rs : List CharRun}

theorem lt_of_areApart (h : areApart n (r :: rs) = true) : n < r.first := by
  simp only [areApart,Bool.and_eq_true,decide_eq_true_eq] at h
  have hle := h.1.1
  rw [succ,pred] at hle
  split at hle
  · split at hle <;> omega
  · split at hle <;> omega

theorem lt_of_any_contains (h : areApart n rs = true) (hm : rs.any (·.contains m) = true) :
    n < m := by
  induction rs generalizing n with
  | nil => simp at hm
  | cons r rs ih =>
    have hlt := lt_of_areApart h
    simp only [areApart,Bool.and_eq_true,decide_eq_true_eq] at h
    rw [List.any_cons,Bool.or_eq_true,contains_iff] at hm
    rcases hm with hm | hm
    · omega
    · have := ih h.2 hm
      omega

theorem contains_between (hm : IsNumber m) {k : Nat} (hn : succ n ≤ pred k) (hk : 0 < k) :
    (between (succ n) (pred k)).contains m = true ↔ n < m ∧ m < k := by
  rw [between,contains_iff,Nat.min_eq_left hn,Nat.max_eq_right hn,succ_le_iff hm,le_pred_iff hm hk]

theorem before_or_after_iff {p later : Prop} (hr : r.first ≤ r.last) (hp : r.last < m → p)
    (hlater : later → r.last < m) :
    p ∧ m < r.first ∨ r.last < m ∧ ¬later ↔ p ∧ ¬((r.first ≤ m ∧ m ≤ r.last) ∨ later) := by
  constructor
  · rintro (⟨h,hlt⟩ | ⟨hlt,h⟩)
    · refine ⟨h,?_⟩
      rintro (hin | hin)
      · omega
      · have := hlater hin
        omega
    · refine ⟨hp hlt,?_⟩
      rintro (hin | hin)
      · omega
      · exact h hin
  · rintro ⟨h,hout⟩
    by_cases hlt : m < r.first
    · exact .inl ⟨h,hlt⟩
    · exact .inr ⟨by omega,fun hin => hout (.inr hin)⟩

theorem any_contains_gapsAfter (hm : IsNumber m) (h : areApart n rs = true) :
    (gapsAfter n rs).any (·.contains m) = true ↔ n < m ∧ ¬rs.any (·.contains m) = true := by
  induction rs generalizing n with
  | nil =>
    have hn : n ≤ lastCharacter := of_decide_eq_true h
    have hlast := hm.le_lastCharacter
    rw [gapsAfter]
    split
    · rename_i hlt
      have hle : succ n ≤ lastCharacter := (succ_le_iff (.inr ⟨by decide,Nat.le_refl _⟩) n).2 hlt
      simp [between,contains,Nat.min_eq_left hle,Nat.max_eq_right hle,succ_le_iff hm,hlast]
    · simp
      omega
  | cons r rs ih =>
    have hlt := lt_of_areApart h
    simp only [areApart,Bool.and_eq_true,decide_eq_true_eq] at h
    obtain ⟨⟨hgap,hle⟩,h⟩ := h
    rw [gapsAfter,List.any_cons,List.any_cons,Bool.or_eq_true,Bool.or_eq_true,ih h,
      contains_between hm hgap (Nat.zero_lt_of_lt hlt),contains_iff]
    exact before_or_after_iff hle (by omega) (lt_of_any_contains h)

theorem any_contains_gaps (hm : IsNumber m) (hr : r.first ≤ r.last) (h : areApart r.last rs = true) :
    (gaps (r :: rs)).any (·.contains m) = true ↔ ¬(r :: rs).any (·.contains m) = true := by
  have hall := before_or_after_iff hr (fun _ => trivial) (lt_of_any_contains (m := m) h)
  simp only [true_and] at hall
  rw [gaps,List.any_cons,Bool.or_eq_true,contains_iff,← hall]
  split
  · rename_i hpos
    rw [List.any_cons,Bool.or_eq_true,any_contains_gapsAfter hm h,between,contains_iff,
      Nat.min_eq_left (Nat.zero_le _),Nat.max_eq_right (Nat.zero_le _),le_pred_iff hm hpos]
    simp only [Nat.zero_le,true_and]
  · rw [any_contains_gapsAfter hm h,or_iff_right (by omega)]

end CharRun

namespace CharSet

theorem contains_range (a b c : Char) :
    (range a b).contains c = (decide (a ≤ c) && decide (c ≤ b)) := by
  simp [range,contains,CharRun.contains,Char.le_def,UInt32.le_iff_toNat_le]

theorem contains_singleton (a c : Char) : (singleton a).contains c = (c == a) := by
  rw [singleton,contains_range,Bool.eq_iff_iff]
  simp only [Bool.and_eq_true,decide_eq_true_eq,beq_iff_eq]
  exact ⟨fun h => Char.le_antisymm h.2 h.1,fun h => h ▸ ⟨Char.le_refl _,Char.le_refl _⟩⟩

theorem contains_ofList (cs : List Char) (c : Char) : (ofList cs).contains c = cs.contains c := by
  rw [ofList,contains_ofRuns,List.any_map,List.contains_eq_any_beq]
  congr 1
  funext a
  rw [← contains_singleton a c]
  simp [singleton,range,contains]

def isApart (s : CharSet) : Bool :=
  match s.runs with
  | [] => true
  | r :: rs => r.first ≤ r.last && CharRun.areApart r.last rs

theorem contains_complement {s : CharSet} (h : s.isApart = true) (c : Char) :
    s.complement.contains c = !s.contains c := by
  have hm := CharRun.isNumber_toNat c
  rw [isApart] at h
  rw [contains,complement,contains]
  cases hr : s.runs with
  | nil => simpa [CharRun.gaps,CharRun.between,CharRun.contains] using hm.le_lastCharacter
  | cons r rs =>
    rw [hr] at h
    simp only [Bool.and_eq_true,decide_eq_true_eq] at h
    rw [Bool.eq_iff_iff,CharRun.any_contains_gaps hm h.1 h.2,Bool.not_eq_true,Bool.not_eq_true']

end CharSet
end PascalTokens
