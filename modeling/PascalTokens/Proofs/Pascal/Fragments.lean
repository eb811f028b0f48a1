import PascalTokens.Proofs.Coverage
import PascalTokens.Proofs.Pascal.Numbers
import PascalTokens.Proofs.Pascal.Words

/-! Fragments of kind `invalid`, which hold what nothing else begins with. They take stray characters
in whole runs and any other character by itself, and nothing of what another kind may begin with. -/
namespace PascalTokens

namespace Pascal

open Pattern

/-- Does a definition of another kind than `invalid` match in a line where `b` follows the part `a`? -/
def IsClaimed (a b : Line) : Prop :=
  ∃ d ∈ Catalog.pascal.definitions, d.kind ≠ .invalid ∧
    (d.matcher.endOf? (Place.between a b)).isSome

/-- Is `v` stray characters, all of those that stand together between `a` and `b`? -/
structure IsStrayRun (a v b : Line) : Prop where
  ne_nil : v ≠ []
  all : ∀ c ∈ v, c ∈ strays
  before : ∀ c ∈ a.getLast?, c ∉ strays
  after : ∀ c ∈ b.head?, c ∉ strays

/-- Is the character of no use in Pascal, and none that makes runs? -/
structure IsUnknown (c : Char) : Prop where
  visible : Visible c
  not_isNameStart : ¬isNameStart c
  not_isDecimalDigit : ¬Unicode.isDecimalDigit c
  not_operator : c ∉ operatorSigns
  not_separator : c ∉ separators
  not_stray : c ∉ strays

variable {a b l m x y : Line} {c : Char} {k : Kind}

section Claims

theorem isClaimed_iff : IsClaimed a b ↔
    ∃ k r n, (k,r) ∈ lexemes ∧ k ≠ .invalid ∧ r.length? b = some n := by
  constructor
  · rintro ⟨d,hd,hk,hend⟩
    rw [definitions_pascal] at hd
    obtain ⟨⟨k,r⟩,hr,rfl⟩ := List.mem_map.1 hd
    rw [endOf?_matcher,Option.isSome_map] at hend
    have hends : r.ends b ≠ [] := by
      intro hnil
      have hnone : (r.ends (Place.between a b).rest).head? = none := by
        rw [List.head?_eq_none_iff]
        exact hnil
      rw [hnone] at hend
      cases hend
    obtain ⟨n,hn⟩ := Option.isSome_iff_exists.1 ((begins_opens _ hr).length?_isSome hends)
    exact ⟨k,r,n,hr,hk,hn⟩
  · rintro ⟨k,r,n,hr,hk,hn⟩
    refine ⟨⟨k,r.matcher⟩,?_,hk,?_⟩
    · rw [definitions_pascal]
      exact List.mem_map.2 ⟨(k,r),hr,rfl⟩
    · rw [endOf?_matcher,Option.isSome_map]
      exact Option.isSome_iff_exists.2 ⟨n,(length?_eq_some.1 hn).1⟩

theorem not_isClaimed_of_mem_strays (hc : c ∈ strays) : ¬IsClaimed a (c :: b) := by
  intro h
  obtain ⟨k,r,n,hr,hk,hn⟩ := isClaimed_iff.1 h
  obtain ⟨d,l,hd,hopens⟩ := (begins_opens _ hr).of_length? hn
  obtain ⟨j,rfl⟩ := Nat.exists_eq_succ_of_ne_zero (Nat.ne_of_gt (length?_bounds hn).1)
  rw [List.take_succ_cons] at hd
  obtain ⟨rfl,-⟩ := List.cons.inj hd
  exact not_mem_strays_of_opens hk hopens hc

theorem IsFirst.eq_invalid_iff (h : IsFirst b k x) (a : Line) :
    k = .invalid ↔ ¬IsClaimed a b := by
  constructor
  · rintro rfl hclaimed
    obtain ⟨j,r,n,hr,hj,hn⟩ := isClaimed_iff.1 hclaimed
    exact ne_invalid_of_length? hr hj hn h.longest?_eq rfl
  · intro hnone
    by_contra hk
    obtain ⟨r,hr,hn⟩ := h.exists_length?
    exact hnone (isClaimed_iff.2 ⟨k,r,_,hr,hk,hn⟩)

end Claims

section Runs

theorem spells_invalid : invalid.Spells l ↔
    (l ≠ [] ∧ ∀ c ∈ l, c ∈ strays) ∨ ∃ c, Visible c ∧ l = [c] := by
  refine or_congr (and_congr_right fun _ => forall₂_congr fun c _ => List.contains_iff_mem) ?_
  refine exists_congr fun c => and_congr_left fun _ => ?_
  simp [Visible]

theorem longest_invalid : invalid.Longest := by
  have hchoice : invalid =
      choice [many1 strays.contains,one fun c => !Unicode.isWhiteSpace c] := rfl
  rw [hchoice]
  apply Ordered.longest
  apply ordered_choice
  · simp only [List.forall_mem_cons]
    exact ⟨ordered_many _,(single_one _).ordered,by simp⟩
  · refine List.pairwise_pair.2 fun l m hm n hn => ?_
    rw [(mem_ends_one.1 hn).1]
    exact (manyEnds_bounds m hm).1

theorem IsFirst.not_mem_strays (h : IsFirst (x ++ y) .invalid x) (hx : ∀ c ∈ x, c ∈ strays) :
    ∀ c ∈ y.head?, c ∉ strays := by
  intro c hc hstray
  obtain ⟨y,rfl⟩ := List.head?_eq_some_iff.1 hc
  have hlong := h.isLongest (by simp [lexemes]) longest_invalid
  have hrun : Pascal.invalid.Spells (x ++ [c]) := spells_invalid.2
    (.inl ⟨by simp,List.forall_mem_append.2 ⟨hx,List.forall_mem_singleton.2 hstray⟩⟩)
  have hle := hlong.longest (x ++ [c]) ⟨y,by simp⟩ hrun
  rw [List.length_append,List.length_singleton] at hle
  omega

theorem IsFirst.isUnknown (h : IsFirst (c :: l) .invalid x) (hc : c ∉ strays) : IsUnknown c := by
  have hpre : [c] <+: c :: l := ⟨l,rfl⟩
  constructor
  · exact visible_of_opens h.opens
  · intro hname
    have hs : identifier.Spells [c] := by
      rw [spells_identifier]
      exact ⟨c,[],rfl,hname,by simp⟩
    exact h.ne_invalid (j := .identifier) (by simp [lexemes]) (by decide) hpre hs rfl
  · intro hdigit
    have hdigits : IsDigits [c] := ⟨by simp,List.forall_mem_singleton.2 hdigit⟩
    exact h.ne_invalid number_mem (by decide) hpre (spells_number.2 (.inr hdigits.isDecimal)) rfl
  · exact fun hsign => h.ne_invalid_of_sign (.inr hsign) rfl
  · exact fun hsign => h.ne_invalid_of_sign (.inl hsign) rfl
  · exact hc

theorem IsFirst.fragment (h : IsFirst (x ++ y) .invalid x) :
    (x ≠ [] ∧ (∀ c ∈ x, c ∈ strays) ∧ ∀ c ∈ y.head?, c ∉ strays) ∨ ∃ c, x = [c] ∧ IsUnknown c := by
  have hspells := (h.isLongest (by simp [lexemes]) longest_invalid).holds
  rcases spells_invalid.1 hspells with ⟨hne,hall⟩ | ⟨c,-,rfl⟩
  · exact .inl ⟨hne,hall,h.not_mem_strays hall⟩
  · by_cases hc : c ∈ strays
    · have hall : ∀ d ∈ [c], d ∈ strays := List.forall_mem_singleton.2 hc
      exact .inl ⟨by simp,hall,h.not_mem_strays hall⟩
    · exact .inr ⟨c,rfl,IsFirst.isUnknown h hc⟩

end Runs

section Boundaries

/-- Are there no two stray characters where `b` follows `a`? -/
def IsApart (a b : Line) : Prop := ∀ c ∈ a.getLast?, ∀ d ∈ b.head?, c ∈ strays → d ∉ strays

theorem isApart_append (ha : IsApart a (x ++ b)) (hx : IsApart x b) : IsApart (a ++ x) b := by
  cases x with
  | nil => simpa using ha
  | cons c x =>
    rw [IsApart,List.getLast?_append_of_ne_nil a (List.cons_ne_nil c x)]
    exact hx

theorem not_mayEndWith {r : Pattern} (hr : (k,r) ∈ lexemes) (hk : k ≠ .comment)
    (hi : k ≠ .invalid) (hc : c ∈ strays) : ¬r.mayEndWith c := by
  have h : lexemes.all fun r => r.1 = .comment || r.1 = .invalid ||
      strays.all (!r.2.mayEndWith ·) := by
    rw [lexemes,← spelledDirective_eq,← spelledReservedWord_eq]
    decide
  have hall := List.all_eq_true.1 h (k,r) hr
  simp only [hk,hi,decide_false,Bool.false_or,List.all_eq_true] at hall
  simpa using hall c hc

theorem IsFirst.not_mem_strays_lineComment (h : IsFirst ('/' :: '/' :: (b ++ y)) k ('/' :: '/' :: b))
    (hb : '\n' ∉ b) : ∀ c ∈ y.head?, c ∉ strays := by
  intro c hc hstray
  obtain ⟨y,rfl⟩ := List.head?_eq_some_iff.1 hc
  have hn : c ∉ ['\n'] := not_mem_of_all (by decide) hstray
  have hspells : lineComment.Spells ('/' :: '/' :: (b ++ [c])) := by
    refine spells_lineComment.2 ⟨_,rfl,List.not_mem_append hb ?_⟩
    exact fun hmem => hn (List.mem_singleton.2 (List.mem_singleton.1 hmem).symm)
  have hmem : (Kind.comment,lineComment) ∈ lexemes := by simp [lexemes]
  have hle := (h.length_le hmem ordered_lineComment.longest ⟨y,by simp⟩ hspells).1
  simp only [List.length_cons,List.length_append,List.length_nil] at hle
  omega

theorem IsFirst.isApart (h : IsFirst (x ++ y) k x) : IsApart x y := by
  intro c hc d hd hcs hds
  obtain ⟨x,rfl⟩ := List.getLast?_eq_some_iff.1 hc
  have hlast : ∀ m e, e ∉ strays → x ++ [c] ≠ m ++ [e] := by
    intro m e he heq
    obtain ⟨-,hce⟩ := List.append_inj' heq rfl
    rw [← List.singleton_inj.1 hce] at he
    exact he hcs
  -- Only fragments and comments to the end of the line can end with a stray character.
  by_cases hinvalid : k = .invalid
  · subst hinvalid
    rcases h.fragment with ⟨-,-,hafter⟩ | ⟨e,he,hunknown⟩
    · exact hafter d hd hds
    · exact hlast [] e hunknown.not_stray he
  · by_cases hcomment : k = .comment
    · subst hcomment
      rcases h.comment with ⟨b,hb,-⟩ | ⟨-,b,hb,-⟩ | ⟨b,hb,hn⟩
      · exact hlast ('\x7b' :: b) '\x7d' (by decide) hb
      · refine hlast ('(' :: '*' :: (b ++ ['*'])) ')' (by decide) (hb.trans ?_)
        simp
      · rw [hb] at h
        exact h.not_mem_strays_lineComment hn d hd hds
    · obtain ⟨r,hr,hn⟩ := h.exists_length?
      exact not_mayEndWith hr hcomment hinvalid hcs (mayEndWith_of_spells (h.spells hn))

/-- A fragment is all stray characters that stand together, or an unknown character. -/
theorem IsFirst.isStrayRun (h : IsFirst (x ++ y) .invalid x) (ha : IsApart a (x ++ y)) :
    IsStrayRun a x y ∨ ∃ c, x = [c] ∧ IsUnknown c := by
  refine h.fragment.imp_left fun ⟨hne,hall,hafter⟩ => ⟨hne,hall,?_,hafter⟩
  intro c hc hcs
  obtain ⟨d,z,rfl⟩ := List.exists_cons_of_ne_nil hne
  exact ha c hc d rfl hcs (hall d List.mem_cons_self)

theorem IsFirst.not_isClaimed (h : IsFirst (x ++ b ++ y) .invalid (x ++ b)) (hb : b ≠ []) (a : Line) :
    ¬IsClaimed a (b ++ y) := by
  obtain ⟨c,z,rfl⟩ := List.exists_cons_of_ne_nil hb
  rcases h.fragment with ⟨-,hall,-⟩ | ⟨d,hd,-⟩
  · exact not_isClaimed_of_mem_strays (hall c (by simp))
  · cases x with
    | nil => exact (h.eq_invalid_iff a).1 rfl
    | cons e x => simp at hd

end Boundaries

section Tokens

variable {text : Line} {line offset : Nat} {t : Token}

theorem exists_split_of_mem_tokensFrom
    (h : t ∈ Piece.tokensFrom line offset (Piece.ofLine lexemes l)) :
    ∃ k a v b, l = a ++ (v ++ b) ∧
      t = ⟨k,String.ofList v,line,⟨offset + a.bytes,offset + a.bytes + v.bytes⟩⟩ ∧
      IsFirst (v ++ b) k v ∧ IsApart a (v ++ b) := by
  induction l using Piece.line_induction lexemes generalizing offset with
  | nil =>
    rw [Piece.ofLine] at h
    cases h
  | gap c l hn ih =>
    rw [Piece.ofLine_none hn,Piece.tokensFrom_none] at h
    obtain ⟨k,a,v,b,rfl,rfl,hv,ha⟩ := ih h
    have hc : c ∉ strays := by
      intro hc
      have := isSome_longest? (a ++ (v ++ b)) (visible_of_allVisible (l := strays) (by decide) c hc)
      rw [hn] at this
      cases this
    have hapart : IsApart [c] (a ++ (v ++ b)) := by
      intro d hd e _ hds
      cases hd
      exact absurd hds hc
    refine ⟨k,c :: a,v,b,rfl,?_,hv,isApart_append hapart ha⟩
    simp only [Line.bytes_cons,Line.bytes_nil,Nat.add_zero,Nat.add_assoc]
  | lexeme l k n hk ih =>
    have hfirst : IsFirst (l.take n ++ l.drop n) k (l.take n) := by
      rw [List.take_append_drop]
      exact ⟨n,hk,rfl⟩
    rw [Piece.ofLine_some hk,Piece.tokensFrom_some] at h
    rcases List.mem_cons.1 h with rfl | h
    · refine ⟨k,[],l.take n,l.drop n,?_,rfl,hfirst,?_⟩
      · rw [List.take_append_drop,List.nil_append]
      · rintro c ⟨⟩
    · obtain ⟨j,a,v,b,hl,rfl,hv,ha⟩ := ih h
      refine ⟨j,l.take n ++ a,v,b,?_,?_,hv,isApart_append (hl ▸ hfirst.isApart) ha⟩
      · rw [List.append_assoc,← hl,List.take_append_drop]
      · simp only [Line.bytes_append,Nat.add_assoc]

theorem exists_split_of_mem (h : t ∈ Catalog.pascal.tokenizeLine text line) :
    ∃ k a v b, text = a ++ (v ++ b) ∧
      t = ⟨k,String.ofList v,line,⟨a.bytes,a.bytes + v.bytes⟩⟩ ∧
      IsFirst (v ++ b) k v ∧ IsApart a (v ++ b) := by
  rw [tokenizeLine_pascal] at h
  simpa only [Nat.zero_add] using exists_split_of_mem_tokensFrom h

end Tokens

/-- Is the token of kind `invalid` where nothing else matches, and only there? -/
structure ReadsFragment (text : Line) (t : Token) : Prop where
  kind : t.kind = .invalid ↔ ¬IsClaimed (text.before t.span.start) (text.after t.span.start)
  unclaimed : t.kind = .invalid → ∀ a b, text = a ++ b → t.span.start ≤ a.bytes →
    a.bytes < t.span.stop → ¬IsClaimed a b
  fragment : t.kind = .invalid →
    IsStrayRun (text.before t.span.start) t.value.toList (text.after t.span.stop) ∨
      ∃ c, t.value = String.singleton c ∧ IsUnknown c

end Pascal

namespace Catalog

open Pascal

/-- A token is invalid where no other definition matches. It holds all stray characters that stand
together, or one character of no use, so each such character that no other token takes is a token. -/
theorem tokenizeLine_fragments (text : Line) (line : Nat) :
    (∀ t ∈ pascal.tokenizeLine text line, ReadsFragment text t) ∧
      ∀ (a : Line) c b, text = a ++ c :: b → Visible c → c ∉ strays →
        (∀ t ∈ pascal.tokenizeLine text line,
          t.covers ⟨a.bytes,a.bytes + c.utf8Size⟩ → t.kind = .invalid) →
        ⟨.invalid,String.singleton c,line,⟨a.bytes,a.bytes + c.utf8Size⟩⟩ ∈
          pascal.tokenizeLine text line := by
  constructor
  · intro t ht
    obtain ⟨k,x,v,y,rfl,rfl,hv,hx⟩ := exists_split_of_mem ht
    have hafter : Line.after (x ++ (v ++ y)) (x.bytes + v.bytes) = y := by
      rw [← List.append_assoc,← Line.bytes_append,Line.after_bytes_append]
    constructor
    · rw [Line.before_bytes_append,Line.after_bytes_append]
      exact hv.eq_invalid_iff x
    · rintro rfl a b e hle hlt
      obtain ⟨u,w,rfl,hne,rfl,rfl⟩ := Line.exists_append_of_bytes e hle hlt
      exact hv.not_isClaimed hne _
    · rintro rfl
      rw [Line.before_bytes_append,hafter,String.toList_ofList]
      refine (hv.isStrayRun hx).imp_right fun ⟨c,hc,hu⟩ => ⟨c,?_,hu⟩
      rw [hc,String.singleton_eq_ofList]
  · intro a c b e hvisible hc hinvalid
    have hcount := countP_covers_tokenizeLine line e hvisible
    obtain ⟨t,ht,hcovers⟩ := List.countP_pos_iff.1 (hcount ▸ Nat.one_pos)
    have hk := hinvalid t ht hcovers
    obtain ⟨k,x,v,y,rfl,rfl,hv,hx⟩ := exists_split_of_mem ht
    cases hk
    obtain ⟨hle,hlt⟩ := Token.covers_iff.1 hcovers
    have hsize := c.utf8Size_pos
    obtain ⟨u,w,rfl,hne,rfl,hw⟩ := Line.exists_append_of_bytes e hle (Nat.lt_of_lt_of_le (by simpa) hlt)
    obtain ⟨d,w,rfl⟩ := List.exists_cons_of_ne_nil hne
    obtain ⟨rfl,-⟩ := List.cons.inj hw
    rcases hv.fragment with ⟨-,hall,-⟩ | ⟨d,hd,-⟩
    · exact absurd (hall c (by simp)) hc
    · cases u with
      | nil =>
        obtain ⟨rfl,rfl⟩ := List.cons.inj hd
        rw [List.append_nil,String.singleton_eq_ofList]
        exact ht
      | cons f u => simp at hd

/-- A string that holds a stray character, a run after it, and a letter of two bytes. -/
theorem tokenizeLine_fragments_string :
    pascal.tokenizeLine "'\"'~\"é".toList 1 =
        [⟨.stringOrCharacter,"'\"'",1,⟨0,3⟩⟩,⟨.invalid,"~\"",1,⟨3,5⟩⟩,⟨.invalid,"é",1,⟨5,7⟩⟩] ∧
      ReadsFragment "'\"'~\"é".toList ⟨.invalid,"~\"",1,⟨3,5⟩⟩ ∧
      ⟨.invalid,String.singleton 'é',1,⟨5,7⟩⟩ ∈ pascal.tokenizeLine "'\"'~\"é".toList 1 := by
  have hts : pascal.tokenizeLine "'\"'~\"é".toList 1 =
      [⟨.stringOrCharacter,"'\"'",1,⟨0,3⟩⟩,⟨.invalid,"~\"",1,⟨3,5⟩⟩,⟨.invalid,"é",1,⟨5,7⟩⟩] := by
    rw [pascal_eq_spelled]
    decide +kernel
  have h := tokenizeLine_fragments "'\"'~\"é".toList 1
  have hinvalid : ∀ t ∈ pascal.tokenizeLine "'\"'~\"é".toList 1,
      t.covers ⟨5,7⟩ → t.kind = .invalid := by
    rw [hts]
    decide
  exact ⟨hts,h.1 _ (hts ▸ List.mem_cons_of_mem _ List.mem_cons_self),
    h.2 "'\"'~\"".toList 'é' [] (by decide) (by decide) (by decide) hinvalid⟩

end Catalog
end PascalTokens
