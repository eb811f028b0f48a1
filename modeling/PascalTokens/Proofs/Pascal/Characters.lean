import PascalTokens.Proofs.Pascal.Openings

/-! White space in the lexemes of Pascal: none begins with it, and those of most kinds hold none. -/
namespace PascalTokens

def Visible (c : Char) : Prop := ¬Unicode.isWhiteSpace c

instance : DecidablePred Visible := fun c => inferInstanceAs (Decidable ¬Unicode.isWhiteSpace c)

def allVisible (l : Line) : Bool := l.all (!Unicode.isWhiteSpace ·)

theorem visible_of_allVisible {l : Line} (h : allVisible l) : ∀ c ∈ l, Visible c := by
  intro c hc
  have hw := List.all_eq_true.1 h c hc
  simpa [Visible] using hw

theorem visible_of_between {c : Char} (h : 0x20 < c.toNat) (h' : c.toNat < 0x7F) : Visible c := by
  simp only [Visible,Unicode.isWhiteSpace,Bool.or_eq_true,Bool.and_eq_true,beq_iff_eq,
    decide_eq_true_eq]
  omega

/-- Every block of ten decimal digits lies between two ranges of White_Space, or above them all. -/
theorem visible_of_isDecimalDigit {c : Char} (h : Unicode.isDecimalDigit c) : Visible c := by
  intro hw
  obtain ⟨z,hz,hd⟩ := List.any_eq_true.1 h
  have hblock : ∀ z ∈ Unicode.decimalZeros, 0x20 < z ∧ z + 9 < 0x85 ∨ 0xA0 < z ∧ z + 9 < 0x1680 ∨
      0x1680 < z ∧ z + 9 < 0x2000 ∨ 0x3000 < z := by decide
  have := hblock z hz
  simp only [Unicode.isWhiteSpace,Bool.or_eq_true,Bool.and_eq_true,beq_iff_eq,
    decide_eq_true_eq] at hw hd
  omega

theorem visible_of_le {a b c : Char} (h : a ≤ c ∧ c ≤ b) (ha : 0x20 < a.toNat)
    (hb : b.toNat < 0x7F) : Visible c := by
  have hac : a.toNat ≤ c.toNat := h.1
  have hcb : c.toNat ≤ b.toNat := h.2
  exact visible_of_between (by omega) (by omega)

theorem visible_of_isAlphanum {c : Char} (h : c.isAlphanum) : Visible c := by
  rcases Bool.or_eq_true_iff.1 h with h | h
  · rcases Bool.or_eq_true_iff.1 h with h | h
    · exact visible_of_le (of_decide_eq_true h) (by decide) (by decide)
    · obtain ⟨ha,hz⟩ := Bool.and_eq_true_iff.1 h
      exact visible_of_le ⟨of_decide_eq_true ha,of_decide_eq_true hz⟩ (by decide) (by decide)
  · exact visible_of_isDecimalDigit (Unicode.isDecimalDigit_of_isDigit h)

namespace Pascal

open Pattern

theorem visible_of_isHexDigit {c : Char} (h : isHexDigit c) : Visible c := by
  simp only [isHexDigit,Bool.or_eq_true,Bool.and_eq_true,decide_eq_true_eq] at h
  rcases h with (h | h) | h
  · exact visible_of_isDecimalDigit (Unicode.isDecimalDigit_of_isDigit h)
  · exact visible_of_le h (by decide) (by decide)
  · exact visible_of_le h (by decide) (by decide)

theorem visible_of_isOctalDigit {c : Char} (h : isOctalDigit c) : Visible c := by
  simp only [isOctalDigit,Bool.and_eq_true,decide_eq_true_eq] at h
  exact visible_of_le h (by decide) (by decide)

theorem visible_of_isBinaryDigit {c : Char} (h : isBinaryDigit c) : Visible c := by
  simp only [isBinaryDigit,Bool.or_eq_true,decide_eq_true_eq] at h
  rcases h with rfl | rfl
  · decide
  · decide

theorem visible_of_isNamePart {c : Char} (h : isNamePart c) : Visible c := by
  simp only [isNamePart,Bool.or_eq_true,decide_eq_true_eq] at h
  rcases h with h | rfl
  · exact visible_of_isAlphanum h
  · decide

theorem visible_of_isNameStart {c : Char} (h : isNameStart c) : Visible c := by
  refine visible_of_isNamePart ?_
  simp only [isNameStart,Bool.or_eq_true] at h
  simp only [isNamePart,Char.isAlphanum,Bool.or_eq_true]
  exact h.imp_left .inl

theorem visible_of_mem_asciiOrbit {c : Char} (hc : c.isAlphanum) :
    ∀ d ∈ Unicode.asciiOrbit c, Visible d ∧ d ≠ '\x7d' := by
  have h : (Unicode.asciiOrbit c).all fun d => !Unicode.isWhiteSpace d && d != '\x7d' := by
    refine Unicode.forall_alphanum hc ?_
    decide
  intro d hd
  simpa [Visible] using List.all_eq_true.1 h d hd

theorem visible_of_mem_pairedOperators : ∀ w ∈ pairedOperators, ∀ c ∈ w.toList, Visible c := by
  have h : pairedOperators.all fun w => allVisible w.toList := by decide
  intro w hw
  exact visible_of_allVisible (List.all_eq_true.1 h w hw)

theorem visible_of_opens {k : Kind} {c : Char} (h : opens k c) : Visible c := by
  have hlist {cs : List Char} (hcs : allVisible cs) (hc : cs.contains c) : Visible c :=
    visible_of_allVisible hcs c (List.contains_iff_mem.1 hc)
  cases k with
  | compilerDirective =>
    rw [of_decide_eq_true h]
    decide
  | comment => exact hlist (by decide) h
  | reservedWord =>
    rcases Bool.or_eq_true_iff.1 h with h | h
    · exact visible_of_isNameStart h
    · exact hlist (by decide) h
  | operator => exact hlist (by decide) h
  | number =>
    rcases Bool.or_eq_true_iff.1 h with h | h
    · exact hlist (by decide) h
    · exact visible_of_isDecimalDigit h
  | stringOrCharacter => exact hlist (by decide) h
  | separator => exact hlist (by decide) h
  | identifier => exact visible_of_isNameStart h
  | invalid => simpa [Visible,opens] using h

theorem begins_lexemes : ∀ r ∈ lexemes, r.2.Begins Visible :=
  fun r hr => (begins_opens r hr).imp fun _ => visible_of_opens

/-- The kinds of which a lexeme may hold White_Space. -/
def spacedKinds : List Kind := [.compilerDirective, .comment, .stringOrCharacter]

theorem within_number : number.Within Visible := by
  have hdigits : digits.Within Visible := fun c => visible_of_isDecimalDigit
  have hhex : hexNumber.Within Visible := ⟨within_char.2 (by decide),fun c => visible_of_isHexDigit⟩
  have hoctal : octalNumber.Within Visible :=
    ⟨within_char.2 (by decide),fun c => visible_of_isOctalDigit⟩
  have hbinary : binaryNumber.Within Visible :=
    ⟨within_char.2 (by decide),fun c => visible_of_isBinaryDigit⟩
  have hfraction : (opt (sequence [char '.',digits])).Within Visible :=
    within_opt.2 ⟨within_char.2 (by decide),hdigits⟩
  have hsign : (opt (among ['-', '+'])).Within Visible :=
    within_opt.2 (within_among.2 (visible_of_allVisible (by decide)))
  have hexponent : (opt (sequence [among ['e', 'E'],opt (among ['-', '+']),digits])).Within Visible :=
    within_opt.2 ⟨within_among.2 (visible_of_allVisible (by decide)),hsign,hdigits⟩
  exact ⟨hhex,hoctal,hbinary,hdigits,hfraction,hexponent⟩

theorem within_lexemes : ∀ r ∈ lexemes, r.1 ∉ spacedKinds → r.2.Within Visible := by
  simp only [lexemes,List.forall_mem_cons]
  refine ⟨?_,?_,?_,?_,?_,?_,?_,?_,?_,?_,?_,by simp⟩
  · exact fun h => absurd (by decide) h
  · exact fun h => absurd (by decide) h
  · exact fun h => absurd (by decide) h
  · exact fun h => absurd (by decide) h
  · refine fun _ => within_choice.2 (List.forall_mem_map.2 fun w hw => ?_)
    exact within_caselessText.2 fun c hc d hd =>
      (visible_of_mem_asciiOrbit (alphanum_of_mem_reservedWords hw hc) d hd).1
  · refine fun _ => within_choice.2
      (List.forall_mem_append.2 ⟨List.forall_mem_map.2 fun w hw => ?_,?_⟩)
    · exact within_text.2 (visible_of_mem_pairedOperators w hw)
    · exact List.forall_mem_singleton.2 (within_among.2 (visible_of_allVisible (by decide)))
  · exact fun _ => within_number
  · exact fun h => absurd (by decide) h
  · exact fun _ => within_among.2 (visible_of_allVisible (by decide))
  · exact fun _ => ⟨fun c => visible_of_isNameStart,within_opt.2 fun c => visible_of_isNamePart⟩
  · refine fun _ => ⟨fun c hc => ?_,fun c hc => by simpa [Visible] using hc⟩
    exact visible_of_allVisible (by decide) c (List.contains_iff_mem.1 hc)

theorem isSome_longest? {c : Char} (l : Line) (hc : Visible c) :
    (Piece.longest? lexemes (c :: l)).isSome := by
  have hi : (Kind.invalid,invalid) ∈ lexemes := by simp [lexemes]
  have hends : invalid.ends (c :: l) ≠ [] := by
    have h1 : Unicode.isWhiteSpace c = false := by simpa [Visible] using hc
    simp [invalid,ends,h1]
  obtain ⟨n,hn⟩ := Option.isSome_iff_exists.1
    ((begins_lexemes _ hi).length?_isSome hends)
  have hm : (Kind.invalid,n) ∈ Piece.lengths lexemes (c :: l) := Piece.mem_lengths.2 ⟨_,hi,hn⟩
  refine Option.isSome_iff_ne_none.2 fun hnone => ?_
  rw [List.argmax_eq_none.1 hnone] at hm
  cases hm

/-- What a piece of a line may hold: White_Space between lexemes, and in a lexeme none at the start,
and none at all in most kinds. -/
structure IsProper (p : Piece) : Prop where
  blank : p.kind? = none → ∀ c ∈ p.text, Unicode.isWhiteSpace c
  begins : ∀ k, p.kind? = some k → ∃ c l, p.text = c :: l ∧ Visible c
  within : ∀ k, p.kind? = some k → k ∉ spacedKinds → ∀ c ∈ p.text, Visible c

theorem isProper_of_mem_ofLine {l : Line} {p : Piece} (h : p ∈ Piece.ofLine lexemes l) :
    IsProper p := by
  induction l using Piece.line_induction lexemes with
  | nil => simp [Piece.ofLine] at h
  | gap c l hn ih =>
    rw [Piece.ofLine_none hn] at h
    rcases List.mem_cons.1 h with rfl | h
    · refine ⟨fun _ => List.forall_mem_singleton.2 ?_,by simp,by simp⟩
      by_contra hc
      have := isSome_longest? l hc
      rw [hn] at this
      cases this
    · exact ih h
  | lexeme l k n hm ih =>
    rw [Piece.ofLine_some hm] at h
    rcases List.mem_cons.1 h with rfl | h
    · obtain ⟨r,hr,hn⟩ := Piece.longest?_eq_some hm
      refine ⟨by simp,?_,?_⟩
      · intro j _
        exact (begins_lexemes _ hr).of_length? hn
      · intro j hj hs
        cases hj
        exact (within_lexemes _ hr hs).of_length? hn
    · exact ih h

end Pascal
end PascalTokens
