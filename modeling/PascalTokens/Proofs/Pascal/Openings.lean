import PascalTokens.Proofs.Pascal.Letters
import PascalTokens.Proofs.Pascal.Lexemes
import PascalTokens.Proofs.Pattern.Beginnings

/-! The first characters of lexemes of Pascal. They tell most kinds apart, and every character that
begins another lexeme is left to it by the fragments of kind `invalid`. -/
namespace PascalTokens.Pascal

open Pattern

/-- May a lexeme of the kind begin with the character? -/
def opens : Kind → Char → Bool
  | .compilerDirective, c => c = '\x7b'
  | .comment, c => ['\x7b', '(', '/'].contains c
  | .reservedWord, c => isNameStart c || ['ſ', '\u212A'].contains c
  | .operator, c => (':' :: '.' :: operatorSigns).contains c
  | .number, c => ['$', '&', '%'].contains c || Unicode.isDecimalDigit c
  | .stringOrCharacter, c => ['\'', '#'].contains c
  | .separator, c => separators.contains c
  | .identifier, c => isNameStart c
  | .invalid, c => !Unicode.isWhiteSpace c

theorem not_contains_of_all {s : Char → Bool} {cs : List Char} {c : Char} (h : cs.all (!s ·))
    (hc : s c) : ¬cs.contains c := by
  intro hmem
  have hnot := List.all_eq_true.1 h c (List.contains_iff_mem.1 hmem)
  rw [hc] at hnot
  cases hnot

theorem opens_of_mem_reservedWords : ∀ w ∈ reservedWords,
    ∃ c ∈ w.toList.head?, ∀ d ∈ Unicode.asciiOrbit c, opens .reservedWord d := by
  intro w hw
  obtain ⟨c,hc,hlow⟩ := (letters_of_mem_reservedWords hw).1
  have h : c.isLower → (Unicode.asciiOrbit c).all (opens .reservedWord) := by
    refine Unicode.forall_alphanum (alphanum_of_mem_reservedWords hw (List.mem_of_mem_head? hc)) ?_
    decide
  exact ⟨c,hc,List.all_eq_true.1 (h hlow)⟩

theorem opens_of_mem_pairedOperators : ∀ w ∈ pairedOperators,
    ∃ c ∈ w.toList.head?, opens .operator c := by
  have h : pairedOperators.all fun w => w.toList.head?.any (opens .operator) := by decide
  intro w hw
  exact (Option.any_eq_true _ _).1 (List.all_eq_true.1 h w hw)

theorem opens_of_mem {k : Kind} {l : List Char} (h : l.all (opens k)) : ∀ c ∈ l, opens k c :=
  List.all_eq_true.1 h

theorem begins_opens : ∀ r ∈ lexemes, r.2.Begins (opens r.1 ·) := by
  simp only [lexemes,List.forall_mem_cons]
  refine ⟨?_,?_,?_,?_,?_,?_,?_,?_,?_,?_,?_,by simp⟩
  · exact begins_sequence_cons.2 (begins_text.2 ⟨_,rfl,rfl⟩)
  · exact begins_sequence_cons.2 (begins_char.2 rfl)
  · exact begins_sequence_cons.2 (begins_text.2 ⟨_,rfl,rfl⟩)
  · exact begins_sequence_cons.2 (begins_text.2 ⟨_,rfl,rfl⟩)
  · refine begins_choice.2 (List.forall_mem_map.2 fun w hw => ?_)
    exact begins_caselessText.2 (opens_of_mem_reservedWords w hw)
  · refine begins_choice.2 (List.forall_mem_append.2 ⟨List.forall_mem_map.2 fun w hw => ?_,?_⟩)
    · exact begins_text.2 (opens_of_mem_pairedOperators w hw)
    · exact List.forall_mem_singleton.2 (begins_among.2 (opens_of_mem (by decide)))
  · apply begins_choice.2
    simp only [List.forall_mem_cons]
    refine ⟨?_,?_,?_,?_,by simp⟩
    · exact begins_sequence_cons.2 (begins_char.2 rfl)
    · exact begins_sequence_cons.2 (begins_char.2 rfl)
    · exact begins_sequence_cons.2 (begins_char.2 rfl)
    · exact begins_sequence_cons.2 fun c hc => Bool.or_eq_true_iff.2 (.inr hc)
  · refine ⟨begins_sequence_cons.2 (begins_char.2 rfl),?_,?_⟩
    · exact begins_sequence_cons.2 (begins_text.2 ⟨_,rfl,rfl⟩)
    · exact begins_sequence_cons.2 (begins_char.2 rfl)
  · exact begins_among.2 (opens_of_mem (by decide))
  · exact begins_sequence_cons.2 fun c hc => hc
  · refine ⟨fun c hc => ?_,fun c hc => hc⟩
    exact opens_of_mem (l := strays) (by decide) c (List.contains_iff_mem.1 hc)

section Longest

variable {l : Line} {k : Kind} {n : Nat}

theorem opens_of_longest? (h : Piece.longest? lexemes l = some (k,n)) :
    ∃ c ∈ l.head?, opens k c := by
  obtain ⟨r,hr,hn⟩ := Piece.longest?_eq_some h
  exact ((begins_opens _ hr).ends l n (mem_ends_of_length? hn)).2

theorem isLongest_of_longest? {r : Pattern} (hr : ∀ s, (k,s) ∈ lexemes → s = r) (hl : r.Longest)
    (h : Piece.longest? lexemes l = some (k,n)) : IsLongest r.Spells l (l.take n) := by
  obtain ⟨s,hs,hn⟩ := Piece.longest?_eq_some h
  rw [hr s hs] at hn
  exact hl.isLongest hn

theorem length_le_of_spells (h : Piece.longest? lexemes l = some (k,n)) {j : Kind} {r : Pattern}
    (hr : (j,r) ∈ lexemes) (hl : r.Longest) {a : Line} (ha : a <+: l) (hs : r.Spells a) :
    a.length ≤ n ∧ (a.length = n → k.rank ≤ j.rank) := by
  obtain ⟨b,rfl⟩ := ha
  have hpos : 0 < a.length := ((begins_opens _ hr).ends a _ (length_mem_ends hs)).1
  obtain ⟨m,hm,hle⟩ := hl.exists_length? (length_mem_ends_append hs b) hpos
  obtain ⟨hmn,hrank⟩ := Piece.le_of_longest? ranked_lexemes h (Piece.mem_lengths.2 ⟨r,hr,hm⟩)
  exact ⟨Nat.le_trans hle hmn,fun he => hrank (Nat.le_antisymm hmn (he ▸ hle))⟩

theorem not_mem_strays_of_opens {c : Char} (hk : k ≠ .invalid) (h : opens k c) : c ∉ strays := by
  have hall : ∀ k ∈ Kind.all, k ≠ .invalid → strays.all (!opens k ·) := by decide
  exact fun hc => not_contains_of_all (hall k k.mem_all hk) h (List.contains_iff_mem.2 hc)

theorem eq_one_of_length?_invalid {c : Char} (hc : c ∉ strays)
    (h : invalid.length? (c :: l) = some n) : n = 1 := by
  rcases mem_ends_alt.1 (mem_ends_of_length? h) with hn | hn
  · exact absurd (List.contains_iff_mem.1 (mem_manyEnds_cons.1 hn).1) hc
  · exact (mem_ends_one.1 hn).1

theorem ne_invalid_of_length? {j : Kind} {r : Pattern} {m : Nat} (hr : (j,r) ∈ lexemes)
    (hj : j ≠ .invalid) (hm : r.length? l = some m)
    (h : Piece.longest? lexemes l = some (k,n)) : k ≠ .invalid := by
  rintro rfl
  obtain ⟨r',hr',hn⟩ := Piece.longest?_eq_some h
  have he : r' = invalid := by simpa [lexemes] using hr'
  subst he
  obtain ⟨hpos,c,hc,hopen⟩ := (begins_opens _ hr).ends l m (mem_ends_of_length? hm)
  obtain ⟨l,rfl⟩ := List.head?_eq_some_iff.1 hc
  have hone := eq_one_of_length?_invalid (not_mem_strays_of_opens hj hopen) hn
  obtain ⟨hle,hrank⟩ := Piece.le_of_longest? ranked_lexemes h (Piece.mem_lengths.2 ⟨r,hr,hm⟩)
  have hlast : ∀ j ∈ Kind.all, Kind.invalid.rank ≤ j.rank → j = .invalid := by decide
  exact hj (hlast j j.mem_all (hrank (by omega)))

theorem ne_invalid_of_spells {j : Kind} {r : Pattern} {a : Line} (hr : (j,r) ∈ lexemes)
    (hj : j ≠ .invalid) (ha : a <+: l) (hs : r.Spells a)
    (h : Piece.longest? lexemes l = some (k,n)) : k ≠ .invalid := by
  obtain ⟨b,rfl⟩ := ha
  obtain ⟨m,hm⟩ := Option.isSome_iff_exists.1
    ((begins_opens _ hr).length?_isSome (List.ne_nil_of_mem (length_mem_ends_append hs b)))
  exact ne_invalid_of_length? hr hj hm h

end Longest

section Names

variable {c : Char}

theorem bounds_of_isNameStart (h : isNameStart c) : 65 ≤ c.toNat ∧ c.toNat ≤ 122 := by
  rcases Bool.or_eq_true_iff.1 h with h | h
  · rcases Bool.or_eq_true_iff.1 h with h | h
    · have hA : 65 ≤ c.toNat ∧ c.toNat ≤ 90 := of_decide_eq_true h
      omega
    · obtain ⟨ha,hz⟩ := Bool.and_eq_true_iff.1 h
      have hlow : 97 ≤ c.toNat := of_decide_eq_true ha
      have hhigh : c.toNat ≤ 122 := of_decide_eq_true hz
      omega
  · rw [of_decide_eq_true h]
    decide

/-- Every block of ten decimal digits lies before the letters, or after them all. -/
theorem not_isNameStart_of_isDecimalDigit (h : Unicode.isDecimalDigit c) : ¬isNameStart c := by
  intro hc
  obtain ⟨hA,hz⟩ := bounds_of_isNameStart hc
  obtain ⟨z,hmem,hd⟩ := List.any_eq_true.1 h
  have hblock : ∀ z ∈ Unicode.decimalZeros, z + 9 < 65 ∨ 122 < z := by decide
  have := hblock z hmem
  simp only [Bool.and_eq_true,decide_eq_true_eq] at hd
  omega

theorem kind_of_isNameStart {k : Kind} (hc : isNameStart c) (h : opens k c)
    (hk : k ≠ .invalid) : k = .reservedWord ∨ k = .identifier := by
  cases k with
  | compilerDirective => exact absurd (of_decide_eq_true h ▸ hc) (by decide)
  | comment => exact absurd h (not_contains_of_all (by decide) hc)
  | reservedWord => exact .inl rfl
  | operator => exact absurd h (not_contains_of_all (by decide) hc)
  | number =>
    rcases Bool.or_eq_true_iff.1 h with h | h
    · exact absurd h (not_contains_of_all (by decide) hc)
    · exact absurd hc (not_isNameStart_of_isDecimalDigit h)
  | stringOrCharacter => exact absurd h (not_contains_of_all (by decide) hc)
  | separator => exact absurd h (not_contains_of_all (by decide) hc)
  | identifier => exact .inr rfl
  | invalid => exact absurd rfl hk

end Names

end PascalTokens.Pascal
