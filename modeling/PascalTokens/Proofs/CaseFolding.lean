import Mathlib
import PascalTokens.Unicode.CaseFolding

/-! The characters that fold as an ASCII character does. An ASCII character folds to its lower case,
and of the others only two fold to one. -/
namespace PascalTokens.Unicode

section Letters

theorem eq_toLower_or_eq_toUpper (c : Char) : c = c.toLower ∨ c = c.toUpper := by
  by_cases h : c.isUpper
  · exact .inr (Char.toUpper_eq_of_not_isLower (Char.not_isLower_of_isUpper h)).symm
  · exact .inl (Char.toLower_eq_of_not_isUpper h).symm

theorem exists_capital {c : Char} (h : c.isUpper) :
    ∃ n < 26, c = Char.ofNat (n + 65) ∧ c.toLower = Char.ofNat (n + 97) := by
  have hA : 65 ≤ c.toNat := (of_decide_eq_true h).1
  have hZ : c.toNat ≤ 90 := (of_decide_eq_true h).2
  refine ⟨c.toNat - 65,by omega,?_,?_⟩
  · rw [Nat.sub_add_cancel hA,Char.ofNat_toNat]
  · rw [Char.toLower_eq_of_isUpper h]
    exact congrArg Char.ofNat (by omega)

theorem toLower_eq_toLower_iff {c d : Char} :
    d.toLower = c.toLower ↔ d = c.toLower ∨ d = c.toUpper := by
  constructor
  · intro h
    rcases eq_toLower_or_eq_toUpper d with hd | hd
    · exact .inl (hd.trans h)
    · have hu := congrArg Char.toUpper h
      rw [Char.toUpper_toLower_eq_toUpper,Char.toUpper_toLower_eq_toUpper] at hu
      exact .inr (hd.trans hu)
  · rintro (rfl | rfl)
    · exact Char.toLower_toLower_eq_toLower c
    · exact Char.toLower_toUpper_eq_toLower c

theorem mem_asciiOrbit {c d : Char} : d ∈ asciiOrbit c ↔
    d.toLower = c.toLower ∨ c.toLower = 's' ∧ d = 'ſ' ∨ c.toLower = 'k' ∧ d = '\u212A' := by
  rw [toLower_eq_toLower_iff,or_assoc,asciiOrbit,List.mem_cons,List.mem_cons]
  apply or_congr_right
  apply or_congr_right
  by_cases hs : c.toLower = 's'
  · simp [hs]
  · by_cases hk : c.toLower = 'k'
    · simp [hk]
    · simp [hs,hk]

end Letters

section Folded

/-- Does the row hold no ASCII character, folded or not? -/
def Folding.IsAbove (r : Folding) : Prop :=
  128 ≤ r.first ∧ (128 ≤ r.first + r.delta ∧ r.last + r.delta < 0xD800 ∨
    0xE000 ≤ r.first + r.delta ∧ r.last + r.delta < 0x110000)

instance (r : Folding) : Decidable r.IsAbove := inferInstanceAs (Decidable (_ ∧ _))

/-- The first row folds the capitals, and two rows fold one character each to an ASCII letter. -/
theorem cases_of_mem_foldings : ∀ r ∈ foldings, r.first = 65 ∧ r.last = 90 ∨
    r.first = 0x17F ∧ r.last = 0x17F ∨ r.first = 0x212A ∧ r.last = 0x212A ∨ r.IsAbove := by
  decide +kernel

theorem Folding.bounds_of_covers {r : Folding} {n : Nat} (h : r.covers n) :
    r.first ≤ n ∧ n ≤ r.last := by
  rw [covers,Bool.and_eq_true,Bool.and_eq_true,decide_eq_true_eq,decide_eq_true_eq] at h
  exact h.1

theorem Folding.IsAbove.le_toNat {r : Folding} (h : r.IsAbove) {n : Nat} (hn : r.covers n) :
    128 ≤ (Char.ofNat (r.target n)).toNat := by
  obtain ⟨-,hdelta⟩ := h
  have hbounds := bounds_of_covers hn
  have hvalid : (r.target n).isValidChar := by
    rw [target,Nat.isValidChar]
    omega
  rw [Char.toNat_ofNat,if_pos hvalid,target]
  omega

theorem fold_of_lt {c : Char} (h : c.toNat < 128) : fold c = c.toLower := by
  by_cases hc : c.isUpper
  · obtain ⟨n,hn,he,hl⟩ := exists_capital hc
    have hfold : ∀ n < 26, fold (Char.ofNat (n + 65)) = Char.ofNat (n + 97) := by decide
    rw [hl,he]
    exact hfold n hn
  · have hnone : foldings.find? (·.covers c.toNat) = none := by
      rw [List.find?_eq_none]
      intro r hr hn
      obtain ⟨hfirst,hlast⟩ := Folding.bounds_of_covers hn
      rcases cases_of_mem_foldings r hr with ⟨hA,hZ⟩ | ⟨hf,-⟩ | ⟨hf,-⟩ | ha
      · rw [hA] at hfirst
        rw [hZ] at hlast
        exact hc (decide_eq_true ⟨hfirst,hlast⟩)
      · omega
      · omega
      · have := ha.1
        omega
    rw [fold,hnone,Char.toLower_eq_of_not_isUpper hc]

theorem le_toNat_fold {c : Char} (h : 128 ≤ c.toNat) :
    c = 'ſ' ∨ c = '\u212A' ∨ 128 ≤ (fold c).toNat := by
  rw [fold]
  split
  · rename_i r hr
    have hn := List.find?_some hr
    obtain ⟨hfirst,hlast⟩ := Folding.bounds_of_covers hn
    rcases cases_of_mem_foldings r (List.mem_of_find?_eq_some hr) with he | he | he | ha
    · omega
    · refine .inl (Char.toNat_inj.1 ?_)
      show c.toNat = 0x17F
      omega
    · refine .inr (.inl (Char.toNat_inj.1 ?_))
      show c.toNat = 0x212A
      omega
    · exact .inr (.inr (ha.le_toNat hn))
  · exact .inr (.inr h)

theorem toNat_toLower_lt_iff {c : Char} : c.toLower.toNat < 128 ↔ c.toNat < 128 := by
  by_cases hc : c.isUpper
  · obtain ⟨n,hn,he,hl⟩ := exists_capital hc
    have hlt : ∀ n < 26, (Char.ofNat (n + 97)).toNat < 128 ↔ (Char.ofNat (n + 65)).toNat < 128 := by
      decide
    rw [hl,he]
    exact hlt n hn
  · rw [Char.toLower_eq_of_not_isUpper hc]

theorem mem_asciiOrbit_iff_fold {c d : Char} (h : c.toNat < 128) :
    d ∈ asciiOrbit c ↔ fold d = fold c := by
  have hlong : fold 'ſ' = 's' := by decide
  have hkelvin : fold '\u212A' = 'k' := by decide
  rw [mem_asciiOrbit,fold_of_lt h]
  constructor
  · rintro (hl | ⟨hs,rfl⟩ | ⟨hk,rfl⟩)
    · have hd : d.toNat < 128 := by rwa [← toNat_toLower_lt_iff,hl,toNat_toLower_lt_iff]
      exact (fold_of_lt hd).trans hl
    · exact hlong.trans hs.symm
    · exact hkelvin.trans hk.symm
  · intro hf
    by_cases hd : d.toNat < 128
    · exact .inl ((fold_of_lt hd).symm.trans hf)
    · rcases le_toNat_fold (Nat.not_lt.1 hd) with rfl | rfl | hle
      · exact .inr (.inl ⟨hf.symm.trans hlong,rfl⟩)
      · exact .inr (.inr ⟨hf.symm.trans hkelvin,rfl⟩)
      · have hlt := toNat_toLower_lt_iff.2 h
        rw [hf] at hle
        omega

theorem forall₂_mem_asciiOrbit {cs l : List Char} (h : ∀ c ∈ cs, c.toNat < 128) :
    List.Forall₂ (fun c d => d ∈ asciiOrbit c) cs l ↔ l.map fold = cs.map fold := by
  induction cs generalizing l with
  | nil => rw [List.forall₂_nil_left_iff,List.map_nil,List.map_eq_nil_iff]
  | cons c cs ih =>
    obtain ⟨hc,hcs⟩ := List.forall_mem_cons.1 h
    cases l with
    | nil => simp
    | cons d l =>
      rw [List.forall₂_cons,List.map_cons,List.map_cons,List.cons.injEq,
        mem_asciiOrbit_iff_fold hc,ih hcs]

end Folded

section Alphanumerics

theorem toNat_lt_of_isAlphanum {c : Char} (hc : c.isAlphanum) : c.toNat < 128 := by
  simp only [Char.isAlphanum,Char.isAlpha,Bool.or_eq_true] at hc
  rcases hc with (hc | hc) | hc
  · have h : c.toNat ≤ 90 := (of_decide_eq_true hc).2
    omega
  · have h : c.toNat ≤ 122 := of_decide_eq_true (Bool.and_eq_true_iff.1 hc).2
    omega
  · have h : c.toNat ≤ 57 := of_decide_eq_true (Bool.and_eq_true_iff.1 hc).2
    omega

@[elab_as_elim]
theorem forall_alphanum {p : Char → Prop} {c : Char} (hc : c.isAlphanum)
    (h : ∀ n < 128, (Char.ofNat n).isAlphanum → p (Char.ofNat n)) : p c := by
  have hp := h c.toNat (toNat_lt_of_isAlphanum hc)
  rw [Char.ofNat_toNat] at hp
  exact hp hc

end Alphanumerics

end PascalTokens.Unicode
