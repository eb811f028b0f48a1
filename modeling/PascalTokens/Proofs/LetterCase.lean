import PascalTokens.Proofs.CaseFolding
import PascalTokens.Proofs.Pascal.Letters
import PascalTokens.Proofs.Pascal.Lexemes
import PascalTokens.Proofs.Pattern.Alphabets

/-! Lines in other letter case. No set of characters in the lexemes of Pascal tells a letter from its
other case, so lines that differ by nothing else have the same tokens up to case. -/
namespace PascalTokens

/-- Do the characters differ at most in the case of an ASCII letter? Other letters have no other
case here. -/
def SameLetter (c d : Char) : Prop := c.toLower = d.toLower

instance : DecidableRel SameLetter := fun c d => inferInstanceAs (Decidable (c.toLower = d.toLower))

/-- Do the tokens differ at most in their characters, each of which is related to the other's? -/
structure Token.Alike (R : Char → Char → Prop) (t u : Token) : Prop where
  kind : t.kind = u.kind
  line : t.line = u.line
  span : t.span = u.span
  value : List.Forall₂ R t.value.toList u.value.toList

theorem Line.bytes_eq_of_forall₂ {R : Char → Char → Prop} {l m : Line}
    (hb : ∀ c d, R c d → c.utf8Size = d.utf8Size) (hl : List.Forall₂ R l m) :
    l.bytes = m.bytes := by
  induction hl with
  | nil => rfl
  | cons hc _ ih => rw [bytes_cons,bytes_cons,hb _ _ hc,ih]

section Letters

open Unicode

theorem utf8Size_toLower (c : Char) : c.toLower.utf8Size = c.utf8Size := by
  by_cases h : c.isUpper
  · obtain ⟨n,hn,hc,hl⟩ := exists_capital h
    have hsize : ∀ n < 26, (Char.ofNat (n + 97)).utf8Size = (Char.ofNat (n + 65)).utf8Size := by
      decide
    rw [hl,hc]
    exact hsize n hn
  · rw [Char.toLower_eq_of_not_isUpper h]

theorem SameLetter.utf8Size_eq {c d : Char} (h : SameLetter c d) : c.utf8Size = d.utf8Size := by
  rw [← utf8Size_toLower c,h,utf8Size_toLower]

theorem blind_of_capitals {s : Char → Bool}
    (h : ∀ n < 26, s (Char.ofNat (n + 65)) = s (Char.ofNat (n + 97))) :
    Pattern.Blind SameLetter s := by
  have hlower : ∀ c, s c = s c.toLower := by
    intro c
    by_cases hc : c.isUpper
    · obtain ⟨n,hn,he,hl⟩ := exists_capital hc
      rw [hl,he]
      exact h n hn
    · rw [Char.toLower_eq_of_not_isUpper hc]
  intro c d hcd
  rw [hlower c,hlower d]
  exact congrArg s hcd

theorem blind_contains {cs : List Char} (h : ∀ c d, SameLetter c d → c ∈ cs → d ∈ cs) :
    Pattern.Blind SameLetter cs.contains := by
  intro c d hcd
  rw [Bool.eq_iff_iff,List.contains_iff_mem,List.contains_iff_mem]
  exact ⟨h c d hcd,h d c hcd.symm⟩

theorem SameLetter.eq_of_not_isAlpha {c d : Char} (h : SameLetter c d) (hc : ¬c.isAlpha) :
    d = c := by
  simp only [Char.isAlpha,Bool.or_eq_true,not_or] at hc
  have hd : d.toLower = c := h.symm.trans (Char.toLower_eq_of_not_isUpper hc.1)
  rcases eq_toLower_or_eq_toUpper d with he | he
  · exact he.trans hd
  · rw [he,← Char.toUpper_toLower_eq_toUpper,hd,Char.toUpper_eq_of_not_isLower hc.2]

theorem blind_equal {c : Char} (hc : ¬c.isAlpha) : Pattern.Blind SameLetter (· == c) := by
  intro d e h
  rw [Bool.eq_iff_iff,beq_iff_eq,beq_iff_eq]
  constructor
  · rintro rfl
    exact h.eq_of_not_isAlpha hc
  · rintro rfl
    exact SameLetter.eq_of_not_isAlpha h.symm hc

theorem mem_asciiOrbit_of_sameLetter {c d e : Char} (h : SameLetter d e)
    (hd : d ∈ asciiOrbit c) : e ∈ asciiOrbit c := by
  rw [mem_asciiOrbit] at hd ⊢
  rcases hd with hl | ⟨hs,rfl⟩ | ⟨hk,rfl⟩
  · exact .inl (h.symm.trans hl)
  · exact .inr (.inl ⟨hs,h.eq_of_not_isAlpha (by decide)⟩)
  · exact .inr (.inr ⟨hk,h.eq_of_not_isAlpha (by decide)⟩)

end Letters

namespace Piece

variable {rs : List (Kind × Pattern)} {R : Char → Char → Prop} {l m : Line}

theorem longest?_congr (h : ∀ r ∈ rs, r.2.IsBlind R) (hl : List.Forall₂ R l m) :
    longest? rs l = longest? rs m := by
  have hn : lengths rs l = lengths rs m :=
    List.filterMap_congr fun r hr => by rw [(h r hr).length? hl]
  rw [longest?,longest?,hn]

structure Alike (R : Char → Char → Prop) (p q : Piece) : Prop where
  kind : p.kind? = q.kind?
  text : List.Forall₂ R p.text q.text

theorem ofLine_alike (h : ∀ r ∈ rs, r.2.IsBlind R) (hl : List.Forall₂ R l m) :
    List.Forall₂ (Alike R) (ofLine rs l) (ofLine rs m) := by
  induction l using line_induction rs generalizing m with
  | nil =>
    cases hl
    simp [ofLine]
  | gap c l hn ih =>
    have hm := longest?_congr h hl
    rw [hn] at hm
    cases hl with
    | cons hc hl =>
      rw [ofLine_none hn,ofLine_none hm.symm]
      exact .cons ⟨rfl,.cons hc .nil⟩ (ih hl)
  | lexeme l k n hk ih =>
    have hm := longest?_congr h hl
    rw [hk] at hm
    rw [ofLine_some hk,ofLine_some hm.symm]
    exact .cons ⟨rfl,List.forall₂_take n hl⟩ (ih (List.forall₂_drop n hl))

theorem tokensFrom_alike (hb : ∀ c d, R c d → c.utf8Size = d.utf8Size) (line offset : Nat)
    {ps qs : List Piece} (h : List.Forall₂ (Alike R) ps qs) :
    List.Forall₂ (Token.Alike R) (tokensFrom line offset ps) (tokensFrom line offset qs) := by
  induction h generalizing offset with
  | nil => exact .nil
  | @cons p q ps qs hp _ ih =>
    obtain ⟨kind?,l⟩ := p
    obtain ⟨kind?',m⟩ := q
    obtain ⟨hk,hl⟩ := hp
    cases hk
    have hlm : l.bytes = m.bytes := Line.bytes_eq_of_forall₂ hb hl
    cases kind? with
    | none =>
      rw [tokensFrom_none,tokensFrom_none,hlm]
      exact ih _
    | some k =>
      rw [tokensFrom_some,tokensFrom_some,hlm]
      refine .cons ⟨rfl,rfl,rfl,?_⟩ (ih _)
      rwa [String.toList_ofList,String.toList_ofList]

end Piece

namespace Pascal

open Pattern

theorem isBlind_word (w : String) : (caselessText w).IsBlind SameLetter :=
  isBlind_caselessText fun _ _ => blind_contains fun _ _ => mem_asciiOrbit_of_sameLetter

theorem isBlind_signs {w : String} (h : w.toList.all (!·.isAlpha)) :
    (text w).IsBlind SameLetter :=
  isBlind_text fun c hc => blind_equal (by simpa using List.all_eq_true.1 h c hc)

theorem blind_directiveLetters : Blind SameLetter directiveLetters.contains := by
  refine blind_contains fun c d h hc => ?_
  obtain ⟨a,ha,hc⟩ := List.mem_flatMap.1 hc
  exact List.mem_flatMap.2 ⟨a,ha,mem_asciiOrbit_of_sameLetter h hc⟩

theorem isBlind_directive : directive.IsBlind SameLetter := by
  have hname : (choice (directiveNames.map caselessText ++ [among directiveLetters])).IsBlind
      SameLetter := by
    refine isBlind_choice (List.forall_mem_append.2 ⟨List.forall_mem_map.2 fun w _ => ?_,?_⟩)
    · exact isBlind_word w
    · exact List.forall_mem_singleton.2 blind_directiveLetters
  have hrest : (opt (alt (among ['+', '-'])
      (sequence [one Unicode.isWhiteSpace,many0 (· != '\x7d')]))).IsBlind SameLetter := by
    refine isBlind_opt.2 ⟨blind_of_capitals (by decide),blind_of_capitals (by decide),?_⟩
    exact isBlind_opt.2 (blind_of_capitals (by decide))
  exact ⟨isBlind_signs (by decide),hname,hrest,blind_of_capitals (by decide)⟩

theorem isBlind_digits : digits.IsBlind SameLetter := blind_of_capitals (by decide)

theorem isBlind_number : number.IsBlind SameLetter := by
  have hhex : hexNumber.IsBlind SameLetter :=
    ⟨blind_of_capitals (by decide),blind_of_capitals (by decide)⟩
  have hoctal : octalNumber.IsBlind SameLetter :=
    ⟨blind_of_capitals (by decide),blind_of_capitals (by decide)⟩
  have hbinary : binaryNumber.IsBlind SameLetter :=
    ⟨blind_of_capitals (by decide),blind_of_capitals (by decide)⟩
  have hfraction : (opt (sequence [char '.',digits])).IsBlind SameLetter :=
    isBlind_opt.2 ⟨blind_of_capitals (by decide),isBlind_digits⟩
  have hexponent : (opt (sequence [among ['e', 'E'],opt (among ['-', '+']),digits])).IsBlind
      SameLetter :=
    isBlind_opt.2 ⟨blind_of_capitals (by decide),isBlind_opt.2 (blind_of_capitals (by decide)),
      isBlind_digits⟩
  exact ⟨hhex,hoctal,hbinary,isBlind_digits,hfraction,hexponent⟩

theorem isBlind_stringOrCharacter : stringOrCharacter.IsBlind SameLetter := by
  have hbody : (alt (one (· != '\'')) (text "''")).IsBlind SameLetter :=
    ⟨blind_of_capitals (by decide),isBlind_signs (by decide)⟩
  have hquoted : quoted.IsBlind SameLetter :=
    ⟨blind_of_capitals (by decide),isBlind_opt.2 hbody,blind_of_capitals (by decide)⟩
  have hhex : (sequence [text "#$",many1 isHexDigit]).IsBlind SameLetter :=
    ⟨isBlind_signs (by decide),blind_of_capitals (by decide)⟩
  have hdecimal : (sequence [char '#',digits]).IsBlind SameLetter :=
    ⟨blind_of_capitals (by decide),isBlind_digits⟩
  exact ⟨hquoted,hhex,hdecimal⟩

theorem isBlind_lexemes : ∀ r ∈ lexemes, r.2.IsBlind SameLetter := by
  simp only [lexemes,List.forall_mem_cons]
  refine ⟨isBlind_directive,?_,?_,?_,?_,?_,isBlind_number,isBlind_stringOrCharacter,?_,?_,?_,
    by simp⟩
  · have hinner : (opt (sequence [one fun c => c != '$' && c != '\x7d',
        many0 (· != '\x7d')])).IsBlind SameLetter :=
      isBlind_opt.2 ⟨blind_of_capitals (by decide),isBlind_opt.2 (blind_of_capitals (by decide))⟩
    exact ⟨blind_of_capitals (by decide),hinner,blind_of_capitals (by decide)⟩
  · exact ⟨isBlind_signs (by decide),⟨trivial,blind_of_capitals (by decide)⟩,
      isBlind_signs (by decide)⟩
  · exact ⟨isBlind_signs (by decide),
      isBlind_opt.2 (blind_of_capitals (by decide))⟩
  · exact isBlind_choice (List.forall_mem_map.2 fun w _ => isBlind_word w)
  · refine isBlind_choice (List.forall_mem_append.2 ⟨List.forall_mem_map.2 fun w hw => ?_,?_⟩)
    · have hsigns : ∀ w ∈ pairedOperators, w.toList.all (!·.isAlpha) := by decide
      exact isBlind_signs (hsigns w hw)
    · exact List.forall_mem_singleton.2 (blind_of_capitals (by decide))
  · exact blind_of_capitals (by decide)
  · exact ⟨blind_of_capitals (by decide),isBlind_opt.2 (blind_of_capitals (by decide))⟩
  · exact ⟨blind_of_capitals (by decide),blind_of_capitals (by decide)⟩

end Pascal

namespace Catalog

/-- Letter case has no bearing on the tokens of a line: in another case they have the same kinds and
the same places, and texts that differ in case only. -/
theorem tokenizeLine_letterCase {l m : Line} (h : List.Forall₂ SameLetter l m) (line : Nat) :
    List.Forall₂ (Token.Alike SameLetter) (pascal.tokenizeLine l line)
      (pascal.tokenizeLine m line) := by
  rw [Pascal.tokenizeLine_pascal,Pascal.tokenizeLine_pascal]
  exact Piece.tokensFrom_alike (fun _ _ => SameLetter.utf8Size_eq) line 0
    (Piece.ofLine_alike Pascal.isBlind_lexemes h)

theorem tokenizeLine_letterCase_exponent :
    List.Forall₂ SameLetter "iF 1e5$fF".toList "If 1E5$Ff".toList ∧
      List.Forall₂ (Token.Alike SameLetter) (pascal.tokenizeLine "iF 1e5$fF".toList 1)
        (pascal.tokenizeLine "If 1E5$Ff".toList 1) ∧
      pascal.tokenizeLine "If 1E5$Ff".toList 1 =
        [⟨.reservedWord,"If",1,⟨0,2⟩⟩,⟨.number,"1E5",1,⟨3,6⟩⟩,⟨.number,"$Ff",1,⟨6,9⟩⟩] := by
  have h : List.Forall₂ SameLetter "iF 1e5$fF".toList "If 1E5$Ff".toList := by decide
  refine ⟨h,tokenizeLine_letterCase h 1,?_⟩
  rw [Pascal.pascal_eq_spelled]
  decide +kernel

end Catalog
end PascalTokens
