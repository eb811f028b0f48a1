import PascalTokens.Proofs.Pascal.Comments
import PascalTokens.Proofs.Pascal.FirstLexemes

/-! Operators, separators, and the comments that open as these do. Two signs that belong together are
never taken apart, and what opens a comment that does not end is a sign like any other. -/
namespace PascalTokens

namespace Pascal

open Pattern

variable {l a : Line} {k : Kind} {c : Char}

section Signs

theorem length_of_mem_pairedOperators : ∀ w ∈ pairedOperators, w.toList.length = 2 := by
  decide

theorem spells_operator : operator.Spells l ↔
    (∃ w ∈ pairedOperators, l = w.toList) ∨ ∃ c ∈ operatorSigns, l = [c] := by
  rw [operator,spells_choice]
  simp only [List.mem_append,or_and_right,exists_or,List.mem_map,exists_exists_and_eq_and,
    List.mem_singleton,exists_eq_left,spells_text,spells_among]

theorem longest_operator : operator.Longest := by
  have hpair : ∀ r ∈ pairedOperators.map text, ∀ l, ∀ n ∈ r.ends l, n = 2 := by
    refine List.forall_mem_map.2 fun w hw l n hn => ?_
    obtain ⟨x,y,-,rfl,hx⟩ := mem_ends.1 hn
    rw [spells_text.1 hx]
    exact length_of_mem_pairedOperators w hw
  have hsign : ∀ l, ∀ n ∈ (among operatorSigns).ends l, n = 1 := fun l n hn =>
    (mem_ends_one.1 hn).1
  apply Ordered.longest
  apply ordered_choice
  · refine List.forall_mem_append.2 ⟨List.forall_mem_map.2 fun w _ => (single_text w).ordered,?_⟩
    exact List.forall_mem_singleton.2 (single_one _).ordered
  · refine List.pairwise_append.2 ⟨?_,List.pairwise_singleton _ _,?_⟩
    · refine List.pairwise_of_forall_mem_list fun r hr s hs l m hm n hn => ?_
      rw [hpair r hr l m hm,hpair s hs l n hn]
    · intro r hr s hs l m hm n hn
      rw [List.mem_singleton] at hs
      subst hs
      rw [hpair r hr l m hm,hsign l n hn]
      exact Nat.le_succ 1

theorem spells_separator : separator.Spells l ↔ ∃ c ∈ separators, l = [c] := spells_among

theorem longest_separator : separator.Longest := (single_one _).ordered.longest

theorem operator_mem : (Kind.operator,operator) ∈ lexemes := by simp [lexemes]

theorem separator_mem : (Kind.separator,separator) ∈ lexemes := by simp [lexemes]

namespace IsFirst

theorem operator (h : IsFirst l .operator a) :
    (∃ w ∈ pairedOperators, a = w.toList) ∨ ∃ c ∈ operatorSigns, a = [c] :=
  spells_operator.1 (h.isLongest (by simp [lexemes]) longest_operator).holds

theorem separator (h : IsFirst l .separator a) : ∃ c ∈ separators, a = [c] :=
  spells_separator.1 (h.isLongest (by simp [lexemes]) longest_separator).holds

theorem comment (h : IsFirst l .comment a) :
    (∃ b, a = '\x7b' :: (b ++ ['\x7d']) ∧ '\x7d' ∉ b ∧ b.head? ≠ some '$') ∨
      (starComment.length? l = some a.length ∧
        ∃ b, a = '(' :: '*' :: (b ++ ['*',')']) ∧ '\n' ∉ b) ∨
      ∃ b, a = '/' :: '/' :: b ∧ '\n' ∉ b := by
  obtain ⟨r,hr,hn⟩ := h.exists_length?
  have hs := h.spells hn
  have hcases : r = braceComment ∨ r = starComment ∨ r = lineComment := by simpa [lexemes] using hr
  rcases hcases with rfl | rfl | rfl
  · exact .inl (spells_braceComment.1 hs)
  · exact .inr (.inl ⟨hn,spells_starComment.1 hs⟩)
  · exact .inr (.inr (spells_lineComment.1 hs))

theorem ne_invalid_of_sign (h : IsFirst (c :: l) k a) (hc : c ∈ separators ∨ c ∈ operatorSigns) :
    k ≠ .invalid := by
  have hpre : [c] <+: c :: l := ⟨l,rfl⟩
  rcases hc with hc | hc
  · exact h.ne_invalid separator_mem (by decide) hpre (spells_separator.2 ⟨c,hc,rfl⟩)
  · exact h.ne_invalid operator_mem (by decide) hpre (spells_operator.2 (.inr ⟨c,hc,rfl⟩))

end IsFirst

end Signs

section Joined

/-- The signs with which only punctuation and comments begin. -/
def signs : List Char :=
  ['(', ')', '\x7d', ',', ';', ':', '.', '-', '+', '*', '/', '=', '<', '>', '[', ']', '^', '@']

/-- Does the line begin with two signs that belong together? -/
inductive Joined : Line → Prop
  | pair {w : String} (l : Line) (h : w ∈ pairedOperators) : Joined (w.toList ++ l)
  | lineComment (l : Line) : Joined ('/' :: '/' :: l)
  | starComment {a : Line} (l : Line) (h : '\n' ∉ a) :
    Joined ('(' :: '*' :: (a ++ '*' :: ')' :: l))

theorem visible_of_mem_signs (hc : c ∈ signs) : Visible c :=
  visible_of_allVisible (by decide) c hc

theorem not_mem_of_all {cs ds : List Char} (h : cs.all (!ds.contains ·)) (hc : c ∈ cs) :
    c ∉ ds := by
  intro hd
  exact not_contains_of_all h (List.contains_iff_mem.2 hd) (List.contains_iff_mem.2 hc)

theorem IsFirst.kind_of_mem_signs (h : IsFirst (c :: l) k a) (hc : c ∈ signs) :
    k = .comment ∨ k = .operator ∨ k = .separator := by
  have hsigns : signs ⊆ separators ++ operatorSigns := by decide
  have hkinds : ∀ k ∈ Kind.all, (signs.any fun c => Pascal.opens k c) →
      k = .comment ∨ k = .operator ∨ k = .separator ∨ k = .invalid := by decide
  have hne := h.ne_invalid_of_sign (List.mem_append.1 (hsigns hc))
  simpa [hne] using hkinds k k.mem_all (List.any_eq_true.2 ⟨c,hc,h.opens⟩)

theorem IsFirst.single (h : IsFirst (c :: l) k a) (hc : c ∈ signs) (hj : ¬Joined (c :: l)) :
    a = [c] ∧ (k = .operator ∧ c ∈ operatorSigns ∨ k = .separator ∧ c ∈ separators) := by
  obtain ⟨m,hm⟩ := h.begins
  rcases h.kind_of_mem_signs hc with rfl | rfl | rfl
  · rcases h.comment with ⟨b,rfl,-⟩ | ⟨-,b,rfl,hb⟩ | ⟨b,rfl,-⟩
    · obtain ⟨rfl,-⟩ := List.cons.inj hm
      exact absurd hc (by decide)
    · rw [← hm] at hj
      simp only [List.cons_append,List.append_assoc,List.nil_append] at hj
      exact absurd (.starComment m hb) hj
    · rw [← hm] at hj
      exact absurd (.lineComment _) hj
  · rcases h.operator with ⟨w,hw,rfl⟩ | ⟨d,hd,rfl⟩
    · rw [← hm] at hj
      exact absurd (.pair m hw) hj
    · obtain ⟨rfl,-⟩ := List.cons.inj hm
      exact ⟨rfl,.inl ⟨rfl,hd⟩⟩
  · obtain ⟨d,hd,rfl⟩ := h.separator
    obtain ⟨rfl,-⟩ := List.cons.inj hm
    exact ⟨rfl,.inr ⟨rfl,hd⟩⟩

theorem exists_signs {w : String} (hw : w ∈ pairedOperators) :
    ∃ c d, w.toList = [c,d] ∧ c ∈ signs ∧ c ≠ '(' ∧ ¬(c = '/' ∧ d = '/') := by
  have htable : ∀ w ∈ pairedOperators, w.toList.head?.any signs.contains ∧
      w.toList.head? ≠ some '(' ∧ w.toList ≠ ['/','/'] := by decide
  obtain ⟨hsign,hparen,hslash⟩ := htable w hw
  obtain ⟨c,d,hcd⟩ := List.length_eq_two.1 (length_of_mem_pairedOperators w hw)
  rw [hcd] at hsign hparen hslash
  refine ⟨c,d,hcd,List.contains_iff_mem.1 hsign,fun h => hparen (congrArg some h),?_⟩
  rintro ⟨rfl,rfl⟩
  exact hslash rfl

theorem IsFirst.operatorSign (h : IsFirst (c :: l) .operator a) (hc : c ∉ signs) : a = [c] := by
  rcases h.operator with ⟨w,hw,rfl⟩ | ⟨d,-,rfl⟩
  · obtain ⟨d,e,hde,hd,-⟩ := exists_signs hw
    rw [hde] at h
    exact absurd ((List.cons_prefix_cons.1 h.begins).1 ▸ hd) hc
  · exact h.eq_singleton rfl

theorem IsFirst.of_two_le (h : IsFirst (c :: l) k a) (hc : c ∈ signs) (ha : 2 ≤ a.length) :
    k = .comment ∨ k = .operator ∧ ∃ w ∈ pairedOperators, a = w.toList := by
  rcases h.kind_of_mem_signs hc with rfl | rfl | rfl
  · exact .inl rfl
  · rcases h.operator with hw | ⟨e,-,rfl⟩
    · exact .inr ⟨rfl,hw⟩
    · exact absurd ha (Nat.not_le.2 Nat.one_lt_two)
  · obtain ⟨e,-,rfl⟩ := h.separator
    exact absurd ha (Nat.not_le.2 Nat.one_lt_two)

theorem isFirst_pair {w : String} (hw : w ∈ pairedOperators) (hl : w.toList <+: l) :
    IsFirst l .operator w.toList := by
  have hlen := length_of_mem_pairedOperators w hw
  obtain ⟨c,d,hcd,hc,hparen,hslash⟩ := exists_signs hw
  obtain ⟨m,rfl⟩ : ∃ m, l = c :: d :: m := by
    obtain ⟨m,rfl⟩ := hl
    exact ⟨m,by rw [hcd]; rfl⟩
  obtain ⟨k,a,h⟩ := exists_isFirst (d :: m) (visible_of_mem_signs hc)
  obtain ⟨hle,-⟩ := h.length_le operator_mem longest_operator hl
    (spells_operator.2 (.inl ⟨w,hw,rfl⟩))
  rcases h.of_two_le hc (hlen ▸ hle) with rfl | ⟨rfl,v,hv,rfl⟩
  · rcases h.comment with ⟨b,rfl,-⟩ | ⟨-,b,rfl,-⟩ | ⟨b,rfl,-⟩
    · exact absurd ((List.cons_prefix_cons.1 h.begins).1 ▸ hc) (by decide)
    · exact absurd (List.cons_prefix_cons.1 h.begins).1.symm hparen
    · obtain ⟨hc',hrest⟩ := List.cons_prefix_cons.1 h.begins
      exact absurd ⟨hc'.symm,(List.cons_prefix_cons.1 hrest).1.symm⟩ hslash
  · have hvw : v.toList.length = w.toList.length := by
      rw [hlen,length_of_mem_pairedOperators v hv]
    have he : v.toList = w.toList :=
      (List.prefix_of_prefix_length_le h.begins hl (Nat.le_of_eq hvw)).eq_of_length hvw
    rwa [he] at h

theorem isFirst_lineComment (m : Line) :
    IsFirst ('/' :: '/' :: m) .comment ('/' :: '/' :: m.takeWhile (· != '\n')) := by
  have hmem : (Kind.comment,lineComment) ∈ lexemes := by simp [lexemes]
  have hrun := isLongest_takeWhile (· != '\n') m
  have hspells : lineComment.Spells ('/' :: '/' :: m.takeWhile (· != '\n')) :=
    spells_lineComment.2 ⟨_,rfl,forall_mem_bne.1 hrun.holds⟩
  have hslash : '/' ∈ signs := by decide
  obtain ⟨k,a,h⟩ := exists_isFirst ('/' :: m) (visible_of_mem_signs hslash)
  obtain ⟨hle,-⟩ := h.length_le hmem ordered_lineComment.longest
    ((List.prefix_cons_inj _).2 ((List.prefix_cons_inj _).2 hrun.begins)) hspells
  rw [List.length_cons,List.length_cons] at hle
  rcases h.of_two_le hslash (by omega) with rfl | ⟨rfl,w,hw,rfl⟩
  · rcases h.comment with ⟨b,rfl,-⟩ | ⟨-,b,rfl,-⟩ | ⟨b,rfl,hb⟩
    · exact absurd (List.cons_prefix_cons.1 h.begins).1 (by decide)
    · exact absurd (List.cons_prefix_cons.1 h.begins).1 (by decide)
    · have hpre : b <+: m :=
        (List.prefix_cons_inj _).1 ((List.prefix_cons_inj _).1 h.begins)
      have hlong := hrun.longest b hpre (forall_mem_bne.2 hb)
      rw [List.length_cons,List.length_cons] at hle
      have he : b = m.takeWhile (· != '\n') :=
        (List.prefix_of_prefix_length_le hpre hrun.begins hlong).eq_of_length (by omega)
      rwa [he] at h
  · obtain ⟨c,d,hcd,-,-,hne⟩ := exists_signs hw
    rw [hcd] at h
    obtain ⟨hc,hrest⟩ := List.cons_prefix_cons.1 h.begins
    exact absurd ⟨hc,(List.cons_prefix_cons.1 hrest).1⟩ hne

theorem exists_isFirst_starComment {m b x : Line} (hm : m = b ++ '*' :: ')' :: x)
    (hb : '\n' ∉ b) : ∃ a y, m = a ++ '*' :: ')' :: y ∧
      (∀ u v, m = u ++ '*' :: ')' :: v → a.length ≤ u.length) ∧
      IsFirst ('(' :: '*' :: m) .comment ('(' :: '*' :: (a ++ ['*',')'])) := by
  have hmem : (Kind.comment,starComment) ∈ lexemes := by simp [lexemes]
  have hparen : '(' ∈ signs := by decide
  have hends : ∀ u v, m = u ++ '*' :: ')' :: v → '\n' ∉ u →
      ('(' :: '*' :: (u ++ ['*',')'])).length ∈ starComment.ends ('(' :: '*' :: m) := by
    rintro u v rfl hu
    have hs := length_mem_ends_append (spells_starComment.2 ⟨u,rfl,hu⟩) v
    simpa using hs
  obtain ⟨n,hn⟩ := Option.isSome_iff_exists.1
    ((begins_opens _ hmem).length?_isSome (List.ne_nil_of_mem (hends b x hm hb)))
  obtain ⟨k,a,h⟩ := exists_isFirst ('*' :: m) (visible_of_mem_signs hparen)
  have hle : 2 ≤ a.length := by
    obtain ⟨u,v,-,rfl,hu⟩ := mem_ends.1 (mem_ends_of_length? hn)
    obtain ⟨w,rfl,-⟩ := spells_starComment.1 hu
    have hna := (Piece.le_of_longest? ranked_lexemes h.longest?_eq
      (Piece.mem_lengths.2 ⟨_,hmem,hn⟩)).1
    simp only [List.length_cons] at hna
    omega
  rcases h.of_two_le hparen hle with rfl | ⟨rfl,w,hw,rfl⟩
  · rcases h.comment with ⟨c,rfl,-⟩ | ⟨hlen,c,rfl,hc⟩ | ⟨c,rfl,-⟩
    · exact absurd (List.cons_prefix_cons.1 h.begins).1 (by decide)
    · have hpre := (List.prefix_cons_inj _).1 ((List.prefix_cons_inj _).1 h.begins)
      obtain ⟨y,rfl⟩ := hpre
      refine ⟨c,y,by simp,fun u v huv => ?_,h⟩
      by_contra hlt
      have huc : u <+: c := by
        refine List.prefix_of_prefix_length_le ⟨_,huv.symm⟩ ?_ (Nat.le_of_not_le hlt)
        exact ⟨_,(List.append_assoc c ['*',')'] y).symm⟩
      have hshort := ordered_starComment.shortest (length?_eq_some.1 hlen).1
        (hends u v huv fun hn => hc (huc.subset hn))
      simp at hshort
      omega
    · exact absurd (List.cons_prefix_cons.1 h.begins).1 (by decide)
  · obtain ⟨c,d,hcd,-,hne,-⟩ := exists_signs hw
    rw [hcd] at h
    exact absurd (List.cons_prefix_cons.1 h.begins).1 hne

end Joined

/-- Is the token the punctuation or the comment with which `l` begins? -/
structure ReadsPunctuation (l : Line) (t : Token) : Prop where
  pair : ∀ w ∈ pairedOperators, w.toList <+: l → t.Takes .operator w.toList
  lineComment : ∀ m, l = '/' :: '/' :: m →
    t.Takes .comment ('/' :: '/' :: m.takeWhile (· != '\n'))
  /-- The comment ends at the first end, if there is one before the line breaks. -/
  starComment : ∀ m, l = '(' :: '*' :: m → (∃ b x, m = b ++ '*' :: ')' :: x ∧ '\n' ∉ b) →
    ∃ a y, m = a ++ '*' :: ')' :: y ∧
      (∀ u v, m = u ++ '*' :: ')' :: v → a.length ≤ u.length) ∧
      t.Takes .comment ('(' :: '*' :: (a ++ ['*',')']))
  separator : ∀ c m, l = c :: m → ¬Joined l → c ∈ ['(', ')', '\x7d', ',', ';', ':', '.'] →
    t.Takes .separator [c]
  operator : ∀ c m, l = c :: m → ¬Joined l →
    c ∈ ['-', '+', '*', '/', '=', '<', '>', '[', ']', '^', '@'] → t.Takes .operator [c]

end Pascal

namespace Catalog

open Pascal

/-- Where a token starts with punctuation, two signs that belong together are taken together: as an
operator, or to the end of the comment that they open. Any other sign is a token of its own. -/
theorem tokenizeLine_punctuation {text : Line} {line : Nat} {t : Token}
    (h : t ∈ pascal.tokenizeLine text line) : ReadsPunctuation (text.after t.span.start) t := by
  obtain ⟨a,ha,ht⟩ := exists_isFirst_of_mem h
  constructor
  · exact fun w hw hl => takes_of_isFirst h (isFirst_pair hw hl)
  · intro m hm
    apply takes_of_isFirst h
    rw [hm]
    exact isFirst_lineComment m
  · rintro m hm ⟨b,x,hb,hn⟩
    obtain ⟨a,y,hy,hleast,hf⟩ := exists_isFirst_starComment hb hn
    rw [← hm] at hf
    exact ⟨a,y,hy,hleast,takes_of_isFirst h hf⟩
  · intro c m hm hj hc
    have hsigns : ['(', ')', '\x7d', ',', ';', ':', '.'] ⊆ signs := by decide
    rw [hm] at ha hj
    obtain ⟨rfl,⟨-,ho⟩ | ⟨hk,-⟩⟩ := ha.single (hsigns hc) hj
    · exact absurd ho (not_mem_of_all (by decide) hc)
    · rwa [hk] at ht
  · intro c m hm hj hc
    have hsigns : ['-', '+', '*', '/', '=', '<', '>', '[', ']', '^', '@'] ⊆ signs := by decide
    rw [hm] at ha hj
    obtain ⟨rfl,⟨hk,-⟩ | ⟨-,hs⟩⟩ := ha.single (hsigns hc) hj
    · rwa [hk] at ht
    · exact absurd hs (not_mem_of_all (by decide) hc)

/-- The shortest comment, an operator, and an opening that nothing closes. -/
theorem tokenizeLine_punctuation_unclosed :
    pascal.tokenizeLine "(**)<>(*//=".toList 1 =
        [⟨.comment,"(**)",1,⟨0,4⟩⟩,⟨.operator,"<>",1,⟨4,6⟩⟩,⟨.separator,"(",1,⟨6,7⟩⟩,
          ⟨.operator,"*",1,⟨7,8⟩⟩,⟨.comment,"//=",1,⟨8,11⟩⟩] ∧
      Token.Takes ⟨.operator,"<>",1,⟨4,6⟩⟩ .operator ['<','>'] ∧
      ReadsPunctuation "(*//=".toList ⟨.separator,"(",1,⟨6,7⟩⟩ ∧
      Token.Takes ⟨.comment,"//=",1,⟨8,11⟩⟩ .comment ['/','/','='] := by
  have hts : pascal.tokenizeLine "(**)<>(*//=".toList 1 =
      [⟨.comment,"(**)",1,⟨0,4⟩⟩,⟨.operator,"<>",1,⟨4,6⟩⟩,⟨.separator,"(",1,⟨6,7⟩⟩,
        ⟨.operator,"*",1,⟨7,8⟩⟩,⟨.comment,"//=",1,⟨8,11⟩⟩] := by
    rw [pascal_eq_spelled]
    decide +kernel
  have hpunctuation : ∀ t ∈ [⟨.comment,"(**)",1,⟨0,4⟩⟩,⟨.operator,"<>",1,⟨4,6⟩⟩,
      ⟨.separator,"(",1,⟨6,7⟩⟩,⟨.operator,"*",1,⟨7,8⟩⟩,⟨.comment,"//=",1,⟨8,11⟩⟩],
      ReadsPunctuation (Line.after "(**)<>(*//=".toList t.span.start) t := by
    intro t ht
    exact tokenizeLine_punctuation (hts ▸ ht)
  simp only [List.forall_mem_cons] at hpunctuation
  obtain ⟨-,hpair,hparen,-,hslash,-⟩ := hpunctuation
  exact ⟨hts,hpair.pair "<>" (by decide) (by decide),hparen,hslash.lineComment ['='] rfl⟩

end Catalog
end PascalTokens
