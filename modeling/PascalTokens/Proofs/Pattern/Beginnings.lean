import Mathlib.Data.List.TakeWhile
import PascalTokens.Proofs.Offsets
import PascalTokens.Proofs.Pattern.Preference

/-! The longest of the texts with which a line begins. Where a pattern prefers its longest match, it
finds the longest of its texts. -/
namespace PascalTokens

/-- Is `a` the longest of the texts with `P` that the line `l` begins with? -/
structure IsLongest (P : Line → Prop) (l a : Line) : Prop where
  begins : a <+: l
  holds : P a
  longest : ∀ b, b <+: l → P b → b.length ≤ a.length

theorem IsLongest.unique {P : Line → Prop} {l a b : Line} (ha : IsLongest P l a)
    (hb : IsLongest P l b) : a = b := by
  have hab := hb.longest a ha.begins ha.holds
  have hba := ha.longest b hb.begins hb.holds
  exact (List.prefix_of_prefix_length_le ha.begins hb.begins hab).eq_of_length_le hba

theorem IsLongest.congr {P Q : Line → Prop} {l a : Line} (h : ∀ b, b <+: l → (P b ↔ Q b))
    (ha : IsLongest P l a) : IsLongest Q l a :=
  ⟨ha.begins,(h a ha.begins).1 ha.holds,fun b hb hq => ha.longest b hb ((h b hb).2 hq)⟩

theorem isLongest_takeWhile (s : Char → Bool) (l : Line) :
    IsLongest (fun a => ∀ c ∈ a, s c) l (l.takeWhile s) := by
  refine ⟨List.takeWhile_prefix s,fun c hc => List.mem_takeWhile_imp hc,?_⟩
  rintro b ⟨k,rfl⟩ hb
  rw [List.takeWhile_append_of_pos hb,List.length_append]
  exact Nat.le_add_right _ _

theorem takeWhile_bne_append {a b : Line} {c : Char} (h : c ∉ a) :
    (a ++ c :: b).takeWhile (· != c) = a := by
  rw [List.takeWhile_append_of_pos (Pattern.forall_mem_bne.2 h),
    List.takeWhile_cons_of_neg (by simp),List.append_nil]

theorem exists_eq_takeWhile_append {l : Line} {c : Char} (h : c ∈ l) :
    ∃ b, l = l.takeWhile (· != c) ++ c :: b := by
  obtain ⟨a,b,rfl,ha⟩ := List.eq_append_cons_of_mem h
  rw [takeWhile_bne_append ha]
  exact ⟨b,rfl⟩

theorem Line.bytes_lt_bytes_iff {l a b : Line} (ha : a <+: l) (hb : b <+: l) :
    a.bytes < b.bytes ↔ a.length < b.length := by
  by_cases h : a.length < b.length
  · obtain ⟨c,rfl⟩ := List.prefix_of_prefix_length_le ha hb (Nat.le_of_lt h)
    have hc : c ≠ [] := by
      rintro rfl
      simp at h
    have := bytes_pos hc
    rw [bytes_append]
    exact iff_of_true (by omega) h
  · obtain ⟨c,rfl⟩ := List.prefix_of_prefix_length_le hb ha (Nat.not_lt.1 h)
    rw [bytes_append]
    exact iff_of_false (by omega) h

/-- A place before the end of a part of a line, and not before its start, cuts the part. -/
theorem Line.exists_append_of_bytes {x v y a b : Line} (e : x ++ (v ++ y) = a ++ b)
    (hle : x.bytes ≤ a.bytes) (hlt : a.bytes < x.bytes + v.bytes) :
    ∃ u w, v = u ++ w ∧ w ≠ [] ∧ a = x ++ u ∧ b = w ++ y := by
  have hx : x <+: a ++ b := ⟨_,e⟩
  have hxv : x ++ v <+: a ++ b := ⟨y,by rw [List.append_assoc,e]⟩
  have ha : a <+: a ++ b := List.prefix_append a b
  rw [← not_lt,bytes_lt_bytes_iff ha hx,not_lt] at hle
  rw [← bytes_append,bytes_lt_bytes_iff ha hxv] at hlt
  obtain ⟨u,rfl⟩ := List.prefix_of_prefix_length_le hx ha hle
  obtain ⟨w,hw⟩ := List.prefix_of_prefix_length_le ha hxv (Nat.le_of_lt hlt)
  rw [List.append_assoc,List.append_cancel_left_eq] at hw
  subst hw
  refine ⟨u,w,rfl,?_,rfl,?_⟩
  · rintro rfl
    simp at hlt
  · rw [List.append_assoc,List.append_assoc,List.append_cancel_left_eq,
      List.append_cancel_left_eq] at e
    exact e.symm

namespace Pattern

variable {r : Pattern} {l a : Line} {n : Nat}

theorem Longest.isLongest (h : r.Longest) (hn : r.length? l = some n) :
    IsLongest r.Spells l (l.take n) := by
  have hends := mem_ends_of_length? hn
  constructor
  · exact List.take_prefix n l
  · obtain ⟨x,y,rfl,rfl,hx⟩ := mem_ends.1 hends
    rwa [List.take_left]
  · rintro b ⟨k,rfl⟩ hb
    have hle := h _ n (length?_eq_some.1 hn).1 b.length (length_mem_ends_append hb k)
    rwa [List.length_take_of_le (r.ends_le _ n hends)]

end Pattern
end PascalTokens
