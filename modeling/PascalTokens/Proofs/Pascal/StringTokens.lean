import Mathlib.Algebra.Ring.Parity
import PascalTokens.Proofs.Pascal.Punctuation
import PascalTokens.Proofs.Pascal.Strings

/-! Strings as tokens. Quoted parts and codes of characters that stand together are one token; a quote
that no other one follows is invalid, and a number sign without a code is an operator. -/
namespace PascalTokens

namespace Pascal

open Pattern

/-- Is the text a row of one or more segments? -/
def IsString : Line → Prop := Turns IsSegment

section Texts

variable {l m : Line}

theorem spells_stringOrCharacter : stringOrCharacter.Spells = IsString := by
  have hsegment : segment.Spells = IsSegment := funext fun l => propext spells_segment
  rw [IsString,← hsegment]
  rfl

theorem Paired.even_count {w : Line} (h : Paired w) : Even (w.count '\'') := by
  induction h with
  | nil => exact Even.zero
  | other hc _ ih => rwa [List.count_cons_of_ne hc]
  | pair _ ih =>
    rw [List.count_cons_self,List.count_cons_self]
    exact ih.add even_two

theorem IsSegment.even_count (h : IsSegment l) : Even (l.count '\'') := by
  have hcode {ds : Line} {s : Char → Bool} (hd : ∀ c ∈ ds, s c) (hs : ¬s '\'') :
      ds.count '\'' = 0 := List.count_eq_zero.2 fun hc => hs (hd _ hc)
  rcases h with ⟨w,hw,rfl⟩ | ⟨ds,rfl,-,hd⟩ | ⟨ds,rfl,-,hd⟩
  · rw [List.count_cons_self,List.count_append,List.count_singleton_self]
    exact hw.even_count.add even_two
  · rw [List.count_cons_of_ne (by decide),List.count_cons_of_ne (by decide),hcode hd (by decide)]
    exact Even.zero
  · rw [List.count_cons_of_ne (by decide),hcode hd (by decide)]
    exact Even.zero

theorem IsString.even_count (h : IsString l) : Even (l.count '\'') := by
  induction h with
  | one h => exact h.even_count
  | more h _ ih =>
    rw [List.count_append]
    exact h.even_count.add ih

theorem IsString.exists_cons (h : IsString l) :
    ∃ c d m, l = c :: d :: m ∧ (c = '\'' ∨ c = '#') := by
  cases h with
  | one h => exact h.exists_cons
  | @more _ b h _ =>
    obtain ⟨c,d,m,rfl,hc⟩ := h.exists_cons
    exact ⟨c,d,m ++ b,rfl,hc⟩

theorem exists_isSegment (h : '\'' ∈ m) : ∃ s, s <+: '\'' :: m ∧ IsSegment s := by
  obtain ⟨x,hx⟩ := exists_eq_takeWhile_append h
  refine ⟨'\'' :: (m.takeWhile (· != '\'') ++ ['\'']),?_,.inl ⟨_,?_,rfl⟩⟩
  · refine (List.prefix_cons_inj _).2 ⟨x,?_⟩
    rw [List.append_assoc]
    exact hx.symm
  · have hrun : ∀ c ∈ m.takeWhile (· != '\''), c ≠ '\'' := fun c hc =>
      bne_iff_ne.1 ((isLongest_takeWhile (· != '\'') m).holds c hc)
    have hpaired := Paired.append_other hrun .nil
    rwa [List.append_nil] at hpaired

theorem not_isString_of_begins (h : '\'' ∉ m) {s : Line} (hs : s <+: '\'' :: m) :
    ¬IsString s := by
  intro hstring
  obtain ⟨c,d,k,rfl,-⟩ := hstring.exists_cons
  obtain ⟨rfl,hk⟩ := List.cons_prefix_cons.1 hs
  have hnone : (d :: k).count '\'' = 0 := List.count_eq_zero.2 fun hc => h (hk.subset hc)
  have heven := hstring.even_count
  rw [List.count_cons_self,hnone] at heven
  exact absurd heven (by decide)

end Texts

/-- Is `a` the string with which the line begins, and `b` what is left? -/
structure SplitsString (l a b : Line) : Prop where
  eq_append : l = a ++ b
  isLongest : IsLongest IsString l a
  even_count : Even (a.count '\'')
  /-- What can be part of the string is. -/
  not_isSegment : ∀ s, s <+: b → ¬IsSegment s
  /-- A quote at once after the last one is never closed. -/
  not_mem : ∀ m, b = '\'' :: m → '\'' ∉ m

theorem exists_splitsString {l a : Line} (h : IsLongest IsString l a) :
    ∃ b, SplitsString l a b := by
  obtain ⟨b,rfl⟩ := h.begins
  have hrest : ∀ s, s <+: b → ¬IsSegment s := by
    rintro s ⟨x,rfl⟩ hs
    obtain ⟨c,d,m,rfl,-⟩ := hs.exists_cons
    have hle := h.longest (a ++ c :: d :: m) ⟨x,List.append_assoc _ _ _⟩ (h.holds.append (.one hs))
    rw [List.length_append,List.length_cons] at hle
    omega
  refine ⟨b,rfl,h,h.holds.even_count,hrest,?_⟩
  rintro m rfl hm
  obtain ⟨s,hpre,hs⟩ := exists_isSegment hm
  exact hrest s hpre hs

section First

variable {l m s a : Line} {k : Kind} {c : Char}

theorem stringOrCharacter_mem : (Kind.stringOrCharacter,stringOrCharacter) ∈ lexemes := by
  simp [lexemes]

theorem IsFirst.string (h : IsFirst l .stringOrCharacter a) : IsLongest IsString l a := by
  rw [← spells_stringOrCharacter]
  exact h.isLongest (by simp [lexemes]) longest_stringOrCharacter

theorem IsFirst.quote (h : IsFirst ('\'' :: m) k a) :
    k = .stringOrCharacter ∨ k = .invalid ∧ a = ['\''] := by
  have hkinds : ∀ k ∈ Kind.all, Pascal.opens k '\'' → k = .stringOrCharacter ∨ k = .invalid := by
    decide
  rcases hkinds k k.mem_all h.opens with rfl | rfl
  · exact .inl rfl
  · exact .inr ⟨rfl,h.invalid (by decide)⟩

theorem IsFirst.numberSign (h : IsFirst ('#' :: m) k a) :
    k = .stringOrCharacter ∨ k = .operator ∧ a = ['#'] := by
  have hkinds : ∀ k ∈ Kind.all, Pascal.opens k '#' →
      k = .stringOrCharacter ∨ k = .operator ∨ k = .invalid := by decide
  rcases hkinds k k.mem_all h.opens with rfl | rfl | rfl
  · exact .inl rfl
  · exact .inr ⟨rfl,h.operatorSign (by decide)⟩
  · exact absurd rfl (h.ne_invalid_of_sign (.inr (by decide)))

theorem exists_isFirst_string (hb : s <+: l) (hs : IsString s) :
    ∃ a, IsFirst l .stringOrCharacter a := by
  rw [← spells_stringOrCharacter] at hs
  obtain ⟨c,d,x,rfl,hc⟩ := IsString.exists_cons (spells_stringOrCharacter ▸ hs)
  obtain ⟨y,rfl⟩ := hb
  have hvisible : Visible c := visible_of_allVisible (l := ['\'','#']) (by decide) c (by simpa using hc)
  obtain ⟨k,a,h⟩ := exists_isFirst (d :: (x ++ y)) hvisible
  have hle := (h.length_le stringOrCharacter_mem longest_stringOrCharacter ⟨y,rfl⟩ hs).1
  have hne : k ≠ .invalid := h.ne_invalid stringOrCharacter_mem (by decide) ⟨y,rfl⟩ hs
  rcases hc with rfl | rfl
  · rcases h.quote with rfl | ⟨rfl,-⟩
    · exact ⟨a,h⟩
    · exact absurd rfl hne
  · rcases h.numberSign with rfl | ⟨-,rfl⟩
    · exact ⟨a,h⟩
    · simp at hle

end First

/-- Is the token the string, the quote or the number sign with which `l` begins? -/
structure ReadsString (l : Line) (t : Token) : Prop where
  string : (∃ s, s <+: l ∧ IsString s) →
    ∃ a b, SplitsString l a b ∧ t.Takes .stringOrCharacter a
  quote : ∀ m, l = '\'' :: m → (¬∃ s, s <+: l ∧ IsString s) → t.Takes .invalid ['\'']
  invalid : ∀ m, l = '\'' :: m → (t.kind = .invalid ↔ '\'' ∉ m)
  numberSign : ∀ m, l = '#' :: m → (¬∃ s, s <+: l ∧ IsString s) → t.Takes .operator ['#']

end Pascal

namespace Catalog

open Pascal

/-- Where a token starts with a quote or a number sign, it is the longest string that begins there. If
none does, the quote is invalid, and it is so only if it is the last one; the number sign is an
operator. -/
theorem tokenizeLine_strings {text : Line} {line : Nat} {t : Token}
    (h : t ∈ pascal.tokenizeLine text line) : ReadsString (text.after t.span.start) t := by
  obtain ⟨a,ha,ht⟩ := exists_isFirst_of_mem h
  have hstring (hnone : ¬∃ s, s <+: text.after t.span.start ∧ IsString s) :
      t.kind ≠ .stringOrCharacter := by
    intro hk
    rw [hk] at ha
    exact hnone ⟨a,ha.begins,ha.string.holds⟩
  constructor
  · rintro ⟨s,hb,hs⟩
    obtain ⟨a,hf⟩ := exists_isFirst_string hb hs
    obtain ⟨b,hsplit⟩ := exists_splitsString hf.string
    exact ⟨a,b,hsplit,takes_of_isFirst h hf⟩
  · intro m hm hnone
    have hkind := hstring hnone
    rw [hm] at ha
    obtain ⟨hk,rfl⟩ := ha.quote.resolve_left hkind
    rwa [hk] at ht
  · intro m hm
    rw [hm] at ha
    constructor
    · intro hk hmem
      obtain ⟨s,hb,hs⟩ := exists_isSegment hmem
      obtain ⟨b,hf⟩ := exists_isFirst_string hb (.one hs)
      have hkind := (ha.unique hf).1
      rw [hk] at hkind
      cases hkind
    · intro hmem
      rcases ha.quote with hk | ⟨hk,-⟩
      · rw [hk] at ha
        exact absurd ha.string.holds (not_isString_of_begins hmem ha.begins)
      · exact hk
  · intro m hm hnone
    have hkind := hstring hnone
    rw [hm] at ha
    obtain ⟨hk,rfl⟩ := ha.numberSign.resolve_left hkind
    rwa [hk] at ht

/-- A quote in a quoted part with a code after it, and then a quote and a number sign alone. -/
theorem tokenizeLine_strings_alone :
    pascal.tokenizeLine "'a''b'#9'#".toList 1 =
        [⟨.stringOrCharacter,"'a''b'#9",1,⟨0,8⟩⟩,⟨.invalid,"'",1,⟨8,9⟩⟩,⟨.operator,"#",1,⟨9,10⟩⟩] ∧
      (∃ a b, SplitsString "'a''b'#9'#".toList a b ∧
        Token.Takes ⟨.stringOrCharacter,"'a''b'#9",1,⟨0,8⟩⟩ .stringOrCharacter a) ∧
      ReadsString "'#".toList ⟨.invalid,"'",1,⟨8,9⟩⟩ ∧
      ReadsString "#".toList ⟨.operator,"#",1,⟨9,10⟩⟩ := by
  have hts : pascal.tokenizeLine "'a''b'#9'#".toList 1 =
      [⟨.stringOrCharacter,"'a''b'#9",1,⟨0,8⟩⟩,⟨.invalid,"'",1,⟨8,9⟩⟩,
        ⟨.operator,"#",1,⟨9,10⟩⟩] := by
    rw [pascal_eq_spelled]
    decide +kernel
  have hstring : ∀ t ∈ [⟨.stringOrCharacter,"'a''b'#9",1,⟨0,8⟩⟩,⟨.invalid,"'",1,⟨8,9⟩⟩,
      ⟨.operator,"#",1,⟨9,10⟩⟩], ReadsString (Line.after "'a''b'#9'#".toList t.span.start) t := by
    intro t ht
    exact tokenizeLine_strings (hts ▸ ht)
  simp only [List.forall_mem_cons] at hstring
  obtain ⟨hwhole,hquote,hsign,-⟩ := hstring
  have hquoted : Paired ['a'] := .other (by decide) .nil
  exact ⟨hts,hwhole.string ⟨['\'','a','\''],by decide,.one (.inl ⟨_,hquoted,rfl⟩)⟩,hquote,hsign⟩

end Catalog
end PascalTokens
