import PascalTokens.Source

/-! Texts as bytes. A newline is one byte, which is part of no other character, so that lines of bytes
and lines of text are the same lines; and bytes are a text if and only if each of their lines is. -/
namespace PascalTokens

def Text.encode (t : List Char) : List UInt8 := t.flatMap String.utf8EncodeChar

/-- The lines of bytes with their newlines. -/
def byteLines : List UInt8 → List (List UInt8)
  | [] => []
  | b :: bs =>
    if b = Read.newline then [b] :: byteLines bs
    else match byteLines bs with
      | [] => [[b]]
      | l :: ls => (b :: l) :: ls

namespace Text

@[simp] theorem encode_nil : encode [] = [] := rfl

@[simp] theorem encode_cons (c : Char) (t : List Char) :
    encode (c :: t) = String.utf8EncodeChar c ++ encode t := rfl

@[simp] theorem encode_append (s t : List Char) : encode (s ++ t) = encode s ++ encode t :=
  List.flatMap_append

theorem toByteArray_encode (t : List Char) : (encode t).toByteArray = (String.ofList t).toByteArray :=
  String.toByteArray_ofList.symm

theorem mod_of_newline_eq {n : Nat} (h : Read.newline = UInt8.ofNat n) : n % 256 = 10 := by
  have hn := congrArg UInt8.toNat h
  rw [UInt8.toNat_ofNat'] at hn
  exact hn.symm

theorem newline_mem_utf8EncodeChar {c : Char} :
    Read.newline ∈ String.utf8EncodeChar c ↔ c = '\n' := by
  constructor
  · intro h
    rw [String.utf8EncodeChar.eq_1] at h
    split at h
    · have := mod_of_newline_eq (List.mem_singleton.1 h)
      have hc : c.val.toNat = '\n'.val.toNat := by
        show c.val.toNat = 10
        omega
      exact Char.ext (UInt32.toNat_inj.1 hc)
    · -- no byte of a longer form is below 128
      have hlong : ∃ n, Read.newline = UInt8.ofNat n ∧ 128 ≤ n % 256 := by
        split at h
        · simp only [List.mem_cons,List.not_mem_nil,or_false] at h
          rcases h with h | h <;> exact ⟨_,h,by omega⟩
        · split at h
          · simp only [List.mem_cons,List.not_mem_nil,or_false] at h
            rcases h with h | h | h <;> exact ⟨_,h,by omega⟩
          · simp only [List.mem_cons,List.not_mem_nil,or_false] at h
            rcases h with h | h | h | h <;> exact ⟨_,h,by omega⟩
      obtain ⟨n,hn,hmod⟩ := hlong
      have := mod_of_newline_eq hn
      omega
  · rintro rfl
    decide

end Text

theorem Source.decode_eq_some {bs : List UInt8} {t : List Char} :
    decode bs = some t ↔ bs = Text.encode t := by
  unfold decode String.fromUTF8?
  rw [Option.map_eq_some_iff]
  constructor
  · rintro ⟨s,hs,rfl⟩
    split at hs
    · cases hs
      refine List.toByteArray_inj.1 ?_
      rw [Text.toByteArray_encode,String.ofList_toList]
      rfl
    · cases hs
  · rintro rfl
    refine ⟨String.ofList t,?_,String.toList_ofList⟩
    have hv : (Text.encode t).toByteArray.IsValidUTF8 :=
      Text.toByteArray_encode t ▸ (String.ofList t).isValidUTF8
    rw [dif_pos hv]
    exact congrArg some (String.toByteArray_inj.1 (Text.toByteArray_encode t))

section Lines

@[simp] theorem byteLines_nil : byteLines [] = [] := rfl

theorem byteLines_newline (bs : List UInt8) :
    byteLines (Read.newline :: bs) = [Read.newline] :: byteLines bs := if_pos rfl

theorem byteLines_cons {b : UInt8} (h : b ≠ Read.newline) (bs : List UInt8) :
    byteLines (b :: bs) = (b :: (byteLines bs).headD []) :: (byteLines bs).tail := by
  rw [byteLines,if_neg h]
  cases byteLines bs <;> rfl

theorem byteLines_append {bs : List UInt8} (h : Read.newline ∉ bs) (hne : bs ≠ [])
    (cs : List UInt8) :
    byteLines (bs ++ cs) = (bs ++ (byteLines cs).headD []) :: (byteLines cs).tail := by
  induction bs with
  | nil => exact absurd rfl hne
  | cons b bs ih =>
    simp only [List.mem_cons,not_or] at h
    rw [List.cons_append,byteLines_cons (Ne.symm h.1)]
    cases bs with
    | nil => rfl
    | cons d ds => rw [ih h.2 (List.cons_ne_nil d ds)]; rfl

theorem byteLines_append_newline {bs : List UInt8} (h : Read.newline ∉ bs) (cs : List UInt8) :
    byteLines (bs ++ Read.newline :: cs) = (bs ++ [Read.newline]) :: byteLines cs := by
  cases bs with
  | nil => exact byteLines_newline cs
  | cons b bs => rw [byteLines_append h (List.cons_ne_nil b bs),byteLines_newline]; rfl

theorem byteLines_unended {bs : List UInt8} (h : Read.newline ∉ bs) (hne : bs ≠ []) :
    byteLines bs = [bs] := by
  have hl := byteLines_append h hne []
  simpa using hl

theorem exists_of_byteLines_cons {bs l : List UInt8} {ls : List (List UInt8)}
    (h : byteLines bs = l :: ls) : ∃ rest, bs = l ++ rest ∧ byteLines rest = ls ∧
      ((∃ k, Read.newline ∉ k ∧ l = k ++ [Read.newline]) ∨
        Read.newline ∉ l ∧ l ≠ [] ∧ rest = []) := by
  by_cases hn : Read.newline ∈ bs
  · obtain ⟨k,after,rfl,hk⟩ := List.eq_append_cons_of_mem hn
    rw [byteLines_append_newline hk] at h
    cases h
    exact ⟨after,by simp,rfl,.inl ⟨k,hk,rfl⟩⟩
  · have hne : bs ≠ [] := by
      rintro rfl
      cases h
    rw [byteLines_unended hn hne] at h
    cases h
    exact ⟨[],by simp,rfl,.inr ⟨hn,hne,rfl⟩⟩

theorem flatten_byteLines (bs : List UInt8) : (byteLines bs).flatten = bs := by
  induction bs with
  | nil => rfl
  | cons b bs ih =>
    by_cases h : b = Read.newline
    · rw [h,byteLines_newline,List.flatten_cons,ih]
      rfl
    · rw [byteLines_cons h]
      cases hl : byteLines bs <;> simp_all

/-- The first lines of bytes are the lines of what they make. -/
theorem byteLines_take (bs : List UInt8) (n : Nat) :
    byteLines ((byteLines bs).take n).flatten = (byteLines bs).take n := by
  induction n generalizing bs with
  | zero => rfl
  | succ n ih =>
    cases hl : byteLines bs with
    | nil => rfl
    | cons l ls =>
      obtain ⟨rest,-,rfl,⟨k,hk,rfl⟩ | ⟨hk,hne,rfl⟩⟩ := exists_of_byteLines_cons hl
      · rw [List.take_succ_cons,List.flatten_cons,List.append_assoc,List.singleton_append,
          byteLines_append_newline hk,ih]
      · simpa using byteLines_unended hk hne

theorem byteLines_encode (t : List Char) :
    byteLines (Text.encode t) = (Text.terminated t).map Text.encode := by
  induction t with
  | nil => rfl
  | cons c t ih =>
    rw [Text.terminated,Text.encode_cons]
    by_cases hc : c = '\n'
    · subst hc
      have hn : String.utf8EncodeChar '\n' = [Read.newline] := by decide
      rw [if_pos rfl,hn,List.singleton_append,byteLines_newline,ih,List.map_cons,Text.encode_cons,hn]
      rfl
    · have hb : Read.newline ∉ String.utf8EncodeChar c := mt Text.newline_mem_utf8EncodeChar.1 hc
      rw [if_neg hc,byteLines_append hb String.utf8EncodeChar_ne_nil,ih]
      cases Text.terminated t <;> simp

end Lines

end PascalTokens
