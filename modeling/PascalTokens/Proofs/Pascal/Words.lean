import PascalTokens.Proofs.CaseFolding
import PascalTokens.Proofs.Pascal.Openings
import PascalTokens.Proofs.Pattern.Beginnings

/-! Reserved words and identifiers of Pascal. Where both begin, the longer one is taken, and of two of
one length the reserved word; so no reserved word is cut out of a longer word. -/
namespace PascalTokens

namespace Pascal

open Pattern

/-- Are the characters those of the word, but for their case? -/
def IsSpelling (w : String) (l : Line) : Prop := l.map Unicode.fold = w.toList.map Unicode.fold

def IsReservedWord (l : Line) : Prop := ∃ w ∈ reservedWords, IsSpelling w l

def IsName (l : Line) : Prop := ∃ c m, l = c :: m ∧ isNameStart c ∧ ∀ d ∈ m, isNamePart d

/-- Are the two letters from outside ASCII absent that fold to a letter of a reserved word? -/
def IsPlain (l : Line) : Prop := ∀ c ∈ l, c ≠ 'ſ' ∧ c ≠ '\u212A'

instance (l : Line) : Decidable (IsPlain l) := List.decidableBAll _ l

section Spelling

variable {l : Line}

theorem spells_caselessText_iff_isSpelling {w : String} (h : ∀ c ∈ w.toList, c.toNat < 128) :
    (caselessText w).Spells l ↔ IsSpelling w l :=
  spells_caselessText.trans (Unicode.forall₂_mem_asciiOrbit h)

theorem spells_identifier : identifier.Spells = IsName := by
  funext l
  exact propext spells_one_many0

theorem toNat_lt_of_isLower_or_isDigit {c : Char} (h : c.isLower ∨ c.isDigit) :
    c.toNat < 128 := by
  rcases h with h | h
  · have hz : c.toNat ≤ 122 := of_decide_eq_true (Bool.and_eq_true_iff.1 h).2
    omega
  · have h9 : c.toNat ≤ 57 := of_decide_eq_true (Bool.and_eq_true_iff.1 h).2
    omega

theorem spells_reservedWord : reservedWord.Spells = IsReservedWord := by
  funext l
  apply propext
  rw [reservedWord,spells_choice,IsReservedWord]
  simp only [List.mem_map,exists_exists_and_eq_and]
  refine exists_congr fun w => and_congr_right fun hw => ?_
  apply spells_caselessText_iff_isSpelling
  exact fun c hc => toNat_lt_of_isLower_or_isDigit ((letters_of_mem_reservedWords hw).2 c hc)

end Spelling

section Longest

theorem pairwise_reservedWords :
    (reservedWords.map fun w => w.toList.length).Pairwise (· ≥ ·) := by
  have hletters : reservedWords.map (fun w => w.toList.length) =
      reservedWords.map fun w => (letters w).length :=
    List.map_congr_left fun w hw =>
      congrArg List.length (toList_of_mem (List.mem_append_right _ hw))
  rw [hletters,← List.isChain_iff_pairwise]
  decide +kernel

theorem eq_length_of_mem_ends {w : String} {l : Line} {n : Nat}
    (h : n ∈ (caselessText w).ends l) : n = w.toList.length := by
  obtain ⟨x,y,-,rfl,hx⟩ := mem_ends.1 h
  exact (spells_caselessText.1 hx).length_eq.symm

theorem longest_reservedWord : reservedWord.Longest := by
  apply Ordered.longest
  apply ordered_choice
  · exact List.forall_mem_map.2 fun w _ => (single_caselessText w).ordered
  · apply List.pairwise_map.2
    refine (List.pairwise_map.1 pairwise_reservedWords).imp fun hvw l m hm n hn => ?_
    rw [eq_length_of_mem_ends hm,eq_length_of_mem_ends hn]
    exact hvw

theorem longest_identifier : identifier.Longest := by
  apply Ordered.longest
  apply ordered_seq_of_single (fun j _ _ h => Nat.add_le_add_left h j) (single_one _)
  exact ordered_opt (ordered_many _)

end Longest

section Plain

variable {l : Line}

theorem IsPlain.after (h : IsPlain l) (n : Nat) : IsPlain (l.after n) := by
  intro c hc
  apply h
  rw [← l.before_append_after n]
  exact List.mem_append_right _ hc

theorem toLower_of_isLower_or_isDigit {c : Char} (h : c.isLower ∨ c.isDigit) : c.toLower = c := by
  apply Char.toLower_eq_of_not_isUpper
  intro hc
  have hA : 65 ≤ c.toNat ∧ c.toNat ≤ 90 := of_decide_eq_true hc
  rcases h with h | h
  · have ha : 97 ≤ c.toNat := of_decide_eq_true (Bool.and_eq_true_iff.1 h).1
    omega
  · have h9 : c.toNat ≤ 57 := of_decide_eq_true (Bool.and_eq_true_iff.1 h).2
    omega

theorem isNamePart_of_toLower {c : Char} (h : c.toLower.isLower ∨ c.toLower.isDigit) :
    isNamePart c := by
  by_cases hc : c.isAlpha
  · simp [isNamePart,Char.isAlphanum,hc]
  · have hup : ¬c.isUpper := fun hup => hc (Bool.or_eq_true_iff.2 (.inl hup))
    rw [Char.isLower_toLower_eq_isAlpha,Char.toLower_eq_of_not_isUpper hup] at h
    simp [isNamePart,Char.isAlphanum,h.resolve_left hc]

theorem map_fold_eq_iff {cs : Line} (hcs : ∀ c ∈ cs, c.isLower ∨ c.isDigit) (hl : IsPlain l) :
    l.map Unicode.fold = cs.map Unicode.fold ↔ l.map Char.toLower = cs := by
  induction cs generalizing l with
  | nil => simp
  | cons c cs ih =>
    obtain ⟨hc,hcs⟩ := List.forall_mem_cons.1 hcs
    cases l with
    | nil => simp
    | cons d l =>
      obtain ⟨⟨hs,hk⟩,hl⟩ := List.forall_mem_cons.1 hl
      have hd : Unicode.fold d = Unicode.fold c ↔ d.toLower = c := by
        rw [← Unicode.mem_asciiOrbit_iff_fold (toNat_lt_of_isLower_or_isDigit hc),
          Unicode.mem_asciiOrbit,toLower_of_isLower_or_isDigit hc]
        simp [hs,hk]
      rw [List.map_cons,List.map_cons,List.map_cons,List.cons.injEq,List.cons.injEq,hd,
        ih hcs hl]

theorem isSpelling_iff_toLower {w : String} (hw : w ∈ reservedWords) (hl : IsPlain l) :
    IsSpelling w l ↔ l.map Char.toLower = w.toList :=
  map_fold_eq_iff (letters_of_mem_reservedWords hw).2 hl

theorem isReservedWord_iff_toLower {v : String} (hv : IsPlain v.toList) :
    IsReservedWord v.toList ↔ v.toLower ∈ reservedWords := by
  constructor
  · rintro ⟨w,hw,hs⟩
    have he := (isSpelling_iff_toLower hw hv).1 hs
    rw [← String.toList_map] at he
    rw [String.toLower,String.toList_inj.1 he]
    exact hw
  · intro hw
    exact ⟨_,hw,(isSpelling_iff_toLower hw hv).2 String.toList_map.symm⟩

theorem isName_of_isReservedWord (h : IsReservedWord l) (hl : IsPlain l) : IsName l := by
  obtain ⟨w,hw,hs⟩ := h
  obtain ⟨⟨c,hc,hlow⟩,hall⟩ := letters_of_mem_reservedWords hw
  rw [← (isSpelling_iff_toLower hw hl).1 hs] at hc hall
  cases l with
  | nil => cases hc
  | cons d m =>
    cases hc
    obtain ⟨-,hm⟩ := List.forall_mem_cons.1 hall
    refine ⟨d,m,rfl,?_,fun e he => ?_⟩
    · rw [Char.isLower_toLower_eq_isAlpha] at hlow
      exact Bool.or_eq_true_iff.2 (.inl hlow)
    · exact isNamePart_of_toLower (hm _ (List.mem_map_of_mem he))

end Plain

section Reading

variable {l : Line} {k : Kind} {n : Nat}

theorem isLongest_reservedWord (h : Piece.longest? lexemes l = some (.reservedWord,n)) :
    IsLongest IsReservedWord l (l.take n) := by
  rw [← spells_reservedWord]
  exact isLongest_of_longest? (by simp [lexemes]) longest_reservedWord h

theorem isLongest_identifier (h : Piece.longest? lexemes l = some (.identifier,n)) :
    IsLongest IsName l (l.take n) := by
  rw [← spells_identifier]
  exact isLongest_of_longest? (by simp [lexemes]) longest_identifier h

theorem length_le_of_isReservedWord (h : Piece.longest? lexemes l = some (k,n)) {a : Line}
    (ha : a <+: l) (hs : IsReservedWord a) :
    a.length ≤ n ∧ (a.length = n → k.rank ≤ Kind.reservedWord.rank) := by
  rw [← spells_reservedWord] at hs
  exact length_le_of_spells h (by simp [lexemes]) longest_reservedWord ha hs

theorem length_le_of_isName (h : Piece.longest? lexemes l = some (k,n)) {a : Line}
    (ha : a <+: l) (hs : IsName a) :
    a.length ≤ n ∧ (a.length = n → k.rank ≤ Kind.identifier.rank) := by
  rw [← spells_identifier] at hs
  exact length_le_of_spells h (by simp [lexemes]) longest_identifier ha hs

/-- Is the token the word at the start of `l`? It is the longest reserved word there if no name is
longer, else the longest name. -/
structure ReadsWord (l : Line) (t : Token) : Prop where
  reserved : ∀ a, IsLongest IsReservedWord l a →
    (∀ b, IsLongest IsName l b → Line.bytes b ≤ Line.bytes a) →
    t.kind = .reservedWord ∧ t.value = String.ofList a
  name : (∀ a, IsLongest IsReservedWord l a →
      ∃ b, IsLongest IsName l b ∧ Line.bytes a < Line.bytes b) →
    t.kind = .identifier ∧ IsLongest IsName l t.value.toList

theorem readsWord_of_longest? {t : Token} (h : Piece.longest? lexemes l = some (t.kind,n))
    (hv : t.value.toList = l.take n) (hk : t.kind = .reservedWord ∨ t.kind = .identifier) :
    ReadsWord l t := by
  have hn := List.length_take_of_le (Piece.longest?_bounds h).2
  have hl := List.take_prefix n l
  constructor
  · intro a ha hlonger
    rcases hk with hk | hk
    · rw [hk] at h
      have he := (isLongest_reservedWord h).unique ha
      refine ⟨hk,?_⟩
      rw [← he,← hv,String.ofList_toList]
    · rw [hk] at h
      have hbytes := Nat.not_lt.2 (hlonger _ (isLongest_identifier h))
      rw [Line.bytes_lt_bytes_iff ha.begins hl,hn] at hbytes
      obtain ⟨hle,hrank⟩ := length_le_of_isReservedWord h ha.begins ha.holds
      exact absurd (hrank (by omega)) (by decide)
  · intro hshorter
    rcases hk with hk | hk
    · rw [hk] at h
      obtain ⟨b,hb,hlt⟩ := hshorter _ (isLongest_reservedWord h)
      rw [Line.bytes_lt_bytes_iff hl hb.begins,hn] at hlt
      exact absurd (length_le_of_isName h hb.begins hb.holds).1 (Nat.not_le.2 hlt)
    · rw [hk] at h
      rw [hv]
      exact ⟨hk,isLongest_identifier h⟩

theorem isLongest_of_isPlain (h : Piece.longest? lexemes l = some (k,n))
    (hk : k = .reservedWord ∨ k = .identifier) (hl : IsPlain l) :
    IsLongest IsName l (l.take n) ∧ (k = .reservedWord ↔ IsReservedWord (l.take n)) := by
  have hn := List.length_take_of_le (Piece.longest?_bounds h).2
  rcases hk with rfl | rfl
  · obtain ⟨hbegins,hword,-⟩ := isLongest_reservedWord h
    have hname := isName_of_isReservedWord hword fun c hc => hl c (List.mem_of_mem_take hc)
    refine ⟨⟨hbegins,hname,fun b hb hbn => ?_⟩,iff_of_true rfl hword⟩
    rw [hn]
    exact (length_le_of_isName h hb hbn).1
  · refine ⟨isLongest_identifier h,iff_of_false (by decide) fun hword => ?_⟩
    obtain ⟨-,hrank⟩ := length_le_of_isReservedWord h (List.take_prefix n l) hword
    exact absurd (hrank hn) (by decide)

theorem kind_of_longest? {c : Char} (h : Piece.longest? lexemes (c :: l) = some (k,n))
    (hc : isNameStart c) : k = .reservedWord ∨ k = .identifier := by
  have hname : identifier.Spells [c] := by
    rw [spells_identifier]
    exact ⟨c,[],rfl,hc,by simp⟩
  have hmem : (Kind.identifier,identifier) ∈ lexemes := by simp [lexemes]
  obtain ⟨d,hd,hopen⟩ := opens_of_longest? h
  cases hd
  exact kind_of_isNameStart hc hopen (ne_invalid_of_spells hmem (by decide) ⟨l,rfl⟩ hname h)

end Reading

end Pascal

namespace Catalog

open Pascal

/-- What begins with a letter or an underscore is a reserved word or an identifier. Of these two a token
is the longer one, and a reserved word where they are as long. So in plain text it is the whole
word, and reserved if and only if the word in small letters is listed. -/
theorem tokenizeLine_words {text : Line} {line : Nat} {t : Token}
    (h : t ∈ pascal.tokenizeLine text line) :
    (∀ c l, t.value.toList = c :: l → isNameStart c →
      t.kind = .reservedWord ∨ t.kind = .identifier) ∧
    (t.kind = .reservedWord ∨ t.kind = .identifier →
      ReadsWord (text.after t.span.start) t ∧
      (IsPlain text → IsLongest IsName (text.after t.span.start) t.value.toList ∧
        (t.kind = .reservedWord ↔ t.value.toLower ∈ reservedWords))) := by
  obtain ⟨n,hn,hv⟩ := longest?_of_mem_tokenizeLine h
  refine ⟨fun c l hcl hc => ?_,fun hk => ⟨readsWord_of_longest? hn hv hk,fun hp => ?_⟩⟩
  · have hl : text.after t.span.start = c :: (l ++ (text.after t.span.start).drop n) := by
      rw [← List.cons_append,← hcl,hv,List.take_append_drop]
    rw [hl] at hn
    exact kind_of_longest? hn hc
  · have hafter := hp.after t.span.start
    have hvalue : IsPlain t.value.toList := hv ▸ fun c hc => hafter c (List.mem_of_mem_take hc)
    obtain ⟨hname,hword⟩ := isLongest_of_isPlain hn hk hafter
    rw [← hv] at hname hword
    exact ⟨hname,hword.trans (isReservedWord_iff_toLower hvalue)⟩

/-- A word in mixed case, and one that only case folding finds in the list. -/
theorem tokenizeLine_words_downto :
    pascal.tokenizeLine "0DownTo".toList 1 =
        [⟨.number,"0",1,⟨0,1⟩⟩,⟨.reservedWord,"DownTo",1,⟨1,7⟩⟩] ∧
      "DownTo".toLower ∈ reservedWords ∧
      pascal.tokenizeLine "iſ".toList 1 = [⟨.reservedWord,"iſ",1,⟨0,3⟩⟩] ∧
      ReadsWord (Line.after "iſ".toList 0) ⟨.reservedWord,"iſ",1,⟨0,3⟩⟩ := by
  have hdownto : pascal.tokenizeLine "0DownTo".toList 1 =
      [⟨.number,"0",1,⟨0,1⟩⟩,⟨.reservedWord,"DownTo",1,⟨1,7⟩⟩] := by
    rw [pascal_eq_spelled]
    decide +kernel
  have his : pascal.tokenizeLine "iſ".toList 1 = [⟨.reservedWord,"iſ",1,⟨0,3⟩⟩] := by
    rw [pascal_eq_spelled]
    decide +kernel
  have hplain : IsPlain "0DownTo".toList := by decide
  obtain ⟨-,hword⟩ := tokenizeLine_words (hdownto ▸ List.mem_cons_of_mem _ List.mem_cons_self)
  obtain ⟨-,hlong⟩ := tokenizeLine_words (his ▸ List.mem_cons_self)
  exact ⟨hdownto,((hword (.inl rfl)).2 hplain).2.1 rfl,his,(hlong (.inl rfl)).1⟩

end Catalog
end PascalTokens
