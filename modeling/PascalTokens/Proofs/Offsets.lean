import PascalTokens.Line

/-! Lines cut at the offsets that lie between two characters: at those, and only at those, a line
falls into two parts. -/
namespace PascalTokens.Line

@[simp] theorem before_bytes_append (l m : Line) : (l ++ m).before l.bytes = l := by
  induction l with
  | nil =>
    cases m with
    | nil => rfl
    | cons c m =>
      have hc : ¬c.utf8Size ≤ 0 := by have := c.utf8Size_pos; omega
      simp [before,hc]
  | cons c l ih => simp [before,ih]

@[simp] theorem after_bytes_append (l m : Line) : (l ++ m).after l.bytes = m := by
  induction l with
  | nil =>
    cases m with
    | nil => rfl
    | cons c m =>
      have hc : ¬c.utf8Size ≤ 0 := by have := c.utf8Size_pos; omega
      simp [after,hc]
  | cons c l ih => simp [after,ih]

theorem isBoundary_bytes_append (l m : Line) : (l ++ m).isBoundary l.bytes := by
  induction l with
  | nil => unfold isBoundary; simp
  | cons c l ih =>
    obtain ⟨n,hn⟩ : ∃ n, c.utf8Size + bytes l = n + 1 :=
      Nat.exists_eq_succ_of_ne_zero (by have := c.utf8Size_pos; omega)
    simp only [List.cons_append,bytes_cons,hn,isBoundary,Bool.and_eq_true,decide_eq_true_eq]
    refine ⟨by omega,?_⟩
    rw [← hn,Nat.add_sub_cancel_left]
    exact ih

theorem isBoundary_iff {l : Line} {n : Nat} : l.isBoundary n ↔ ∃ a b, l = a ++ b ∧ bytes a = n := by
  constructor
  · intro h
    exact ⟨l.before n,l.after n,(before_append_after l n).symm,bytes_before h⟩
  · rintro ⟨a,b,rfl,rfl⟩
    exact isBoundary_bytes_append a b

theorem le_bytes_of_isBoundary {l : Line} {n : Nat} (h : l.isBoundary n) : n ≤ l.bytes := by
  obtain ⟨a,b,rfl,rfl⟩ := isBoundary_iff.1 h
  simp

theorem bytes_pos {l : Line} (h : l ≠ []) : 0 < l.bytes := by
  obtain ⟨c,m,rfl⟩ := List.exists_cons_of_ne_nil h
  have := c.utf8Size_pos
  rw [bytes_cons]
  omega

theorem bytes_lt_bytes_take {l k : Line} {n : Nat} (h : l.length < n) (hn : n ≤ (l ++ k).length) :
    l.bytes < bytes ((l ++ k).take n) := by
  have hk : k.take (n - l.length) ≠ [] := by
    intro he
    have hlen := congrArg List.length he
    simp only [List.length_take,List.length_nil] at hlen
    rw [List.length_append] at hn
    omega
  have := bytes_pos hk
  rw [List.take_append,List.take_of_length_le (Nat.le_of_lt h),bytes_append]
  omega

theorem slice_append (a b c : Line) :
    (a ++ (b ++ c)).slice ⟨a.bytes,a.bytes + b.bytes⟩ = b := by
  simp [slice]

theorem fits_append (a b c : Line) :
    (a ++ (b ++ c)).fits ⟨a.bytes,a.bytes + b.bytes⟩ := by
  have h := isBoundary_bytes_append (a ++ b) c
  rw [List.append_assoc,bytes_append] at h
  simp [fits,isBoundary_bytes_append,h]

end PascalTokens.Line
