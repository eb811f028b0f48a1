import PascalTokens.Proofs.Pascal.Punctuation
import PascalTokens.Proofs.Pascal.Words

/-! What an opening brace begins. Up to the first closing brace there is a comment, or after a dollar a
directive; a brace that nothing closes, or that closes no directive after a dollar, is a sign of its
own. -/
namespace PascalTokens

namespace Pascal

open Pattern

/-- Is the text a name from the list, or a letter other than K and U, but for its case? -/
def IsDirectiveName (names : List String) (n : Line) : Prop :=
  (∃ w ∈ names, IsSpelling w n) ∨
    ∃ c : Char, c.isUpper ∧ c ≠ 'K' ∧ c ≠ 'U' ∧ IsSpelling (String.singleton c) n

/-- Is the text nothing, a sign, or anything after white space? -/
def IsDirectiveTail (e : Line) : Prop :=
  e = [] ∨ e = ['+'] ∨ e = ['-'] ∨ ∃ c m, e = c :: m ∧ Unicode.isWhiteSpace c

/-- Is the text the inside of a directive? -/
def IsDirective (names : List String) (d : Line) : Prop :=
  ∃ n e, d = n ++ e ∧ IsDirectiveName names n ∧ IsDirectiveTail e

section Texts

variable {names : List String} {l : Line} {c : Char}

theorem mem_switches (d : Char) :
    d ∈ "ABCDEFGHIJLMNOPQRSTVWXYZ".toList ↔ d.isUpper ∧ d ≠ 'K' ∧ d ≠ 'U' := by
  constructor
  · intro h
    have hall : "ABCDEFGHIJLMNOPQRSTVWXYZ".toList.all
        fun d => d.isUpper && d != 'K' && d != 'U' := by decide
    simpa [and_assoc] using List.all_eq_true.1 hall d h
  · rintro ⟨hd,hK,hU⟩
    obtain ⟨n,hn,rfl,-⟩ := Unicode.exists_capital hd
    have hall : ∀ n < 26, Char.ofNat (n + 65) ≠ 'K' → Char.ofNat (n + 65) ≠ 'U' →
        Char.ofNat (n + 65) ∈ "ABCDEFGHIJLMNOPQRSTVWXYZ".toList := by decide
    exact hall n hn hK hU

theorem mem_directiveLetters : c ∈ directiveLetters ↔
    ∃ d : Char, d.isUpper ∧ d ≠ 'K' ∧ d ≠ 'U' ∧ Unicode.fold c = Unicode.fold d := by
  refine List.mem_flatMap.trans (exists_congr fun d => ?_)
  rw [mem_switches,and_assoc,and_assoc]
  refine and_congr_right fun hd => and_congr_right fun _ => and_congr_right fun _ => ?_
  apply Unicode.mem_asciiOrbit_iff_fold
  have hZ : d.toNat ≤ 90 := (of_decide_eq_true hd).2
  omega

theorem isSpelling_singleton {d : Char} :
    IsSpelling (String.singleton d) l ↔ ∃ c, Unicode.fold c = Unicode.fold d ∧ l = [c] := by
  rw [IsSpelling,String.toList_singleton,List.map_singleton,List.map_eq_singleton_iff]
  exact exists_congr fun c => and_comm

theorem spells_directiveName (h : ∀ w ∈ names, w ∈ directiveNames) :
    (choice (names.map caselessText ++ [among directiveLetters])).Spells l ↔
      IsDirectiveName names l := by
  rw [spells_choice,IsDirectiveName]
  simp only [List.mem_append,or_and_right,exists_or,List.mem_map,exists_exists_and_eq_and,
    List.mem_singleton,exists_eq_left,spells_among,mem_directiveLetters,isSpelling_singleton]
  refine or_congr (exists_congr fun w => and_congr_right fun hw => ?_) ?_
  · exact spells_caselessText_iff_isSpelling fun c hc =>
      Unicode.toNat_lt_of_isAlphanum (alphanum_of_mem_directiveNames (h w hw) hc)
  · constructor
    · rintro ⟨c,⟨d,hd,hK,hU,hf⟩,rfl⟩
      exact ⟨d,hd,hK,hU,c,hf,rfl⟩
    · rintro ⟨d,hd,hK,hU,c,hf,rfl⟩
      exact ⟨c,⟨d,hd,hK,hU,hf⟩,rfl⟩

theorem spells_directiveTail :
    (opt (alt (among ['+', '-'])
      (sequence [one Unicode.isWhiteSpace,many0 (· != '\x7d')]))).Spells l ↔
        IsDirectiveTail l ∧ '\x7d' ∉ l := by
  constructor
  · rintro ((h | h) | rfl)
    · obtain ⟨c,hc,rfl⟩ := spells_among.1 h
      rcases List.mem_pair.1 hc with rfl | rfl
      · exact ⟨.inr (.inl rfl),by decide⟩
      · exact ⟨.inr (.inr (.inl rfl)),by decide⟩
    · obtain ⟨c,m,rfl,hc,hm⟩ := spells_one_many0.1 h
      refine ⟨.inr (.inr (.inr ⟨c,m,rfl,hc⟩)),
        List.not_mem_cons_of_ne_of_not_mem ?_ (forall_mem_bne.1 hm)⟩
      exact (ne_of_holds hc (by decide)).symm
    · exact ⟨.inl rfl,List.not_mem_nil⟩
  · rintro ⟨rfl | rfl | rfl | ⟨c,m,rfl,hc⟩,hn⟩
    · exact .inr rfl
    · exact .inl (.inl (spells_among.2 ⟨'+',by simp,rfl⟩))
    · exact .inl (.inl (spells_among.2 ⟨'-',by simp,rfl⟩))
    · exact .inl (.inr (spells_one_many0.2
        ⟨c,m,rfl,hc,forall_mem_bne.2 (List.not_mem_of_not_mem_cons hn)⟩))

theorem spells_directiveOf (h : ∀ w ∈ names, w ∈ directiveNames) :
    (directiveOf names).Spells l ↔
      ∃ d, l = '\x7b' :: '$' :: (d ++ ['\x7d']) ∧ '\x7d' ∉ d ∧ IsDirective names d := by
  constructor
  · rintro ⟨_,_,rfl,ho,n,_,rfl,hn,e,_,rfl,he,hc⟩
    obtain ⟨htail,hclose⟩ := spells_directiveTail.1 he
    have hname : '\x7d' ∉ n := fun hmem => ((within_directiveName h).forall_mem hn _ hmem).2 rfl
    rw [spells_text.1 ho,spells_char.1 hc]
    refine ⟨n ++ e,by simp,?_,n,e,rfl,(spells_directiveName h).1 hn,htail⟩
    exact List.not_mem_append hname hclose
  · rintro ⟨_,rfl,hd,n,e,rfl,hn,he⟩
    have hclose : '\x7d' ∉ e := fun hmem => hd (List.mem_append_right n hmem)
    exact ⟨['\x7b','$'],_,rfl,spells_text.2 rfl,n,e ++ ['\x7d'],by simp,
      (spells_directiveName h).2 hn,e,['\x7d'],rfl,spells_directiveTail.2 ⟨he,hclose⟩,
      spells_char.2 rfl⟩

/-- Which name stands first in the list, or begins another one, makes no difference. -/
theorem matcher_directiveOf (h : ∀ w, w ∈ names ↔ w ∈ directiveNames) :
    (directiveOf names).matcher = directive.matcher := by
  have hname : ∀ n, IsDirectiveName names n ↔ IsDirectiveName directiveNames n := by
    intro n
    simp only [IsDirectiveName,h]
  refine matcher_congr (head?_ends_congr (stopsAt_directiveOf fun w => (h w).1).longest
    stopsAt_directive.longest ?_)
  funext l
  apply propext
  refine (spells_directiveOf fun w => (h w).1).trans
    (Iff.trans ?_ (spells_directiveOf fun _ hw => hw).symm)
  simp only [IsDirective,hname]

end Texts

section First

variable {l m a : Line} {k : Kind}

theorem directive_mem : (Kind.compilerDirective,directive) ∈ lexemes := by simp [lexemes]

theorem IsFirst.brace (h : IsFirst ('\x7b' :: m) k a) :
    (k = .compilerDirective ∧ ∃ r, m = '$' :: r ∧ '\x7d' ∈ r ∧
      IsDirective directiveNames (r.takeWhile (· != '\x7d')) ∧
      a = '\x7b' :: '$' :: (r.takeWhile (· != '\x7d') ++ ['\x7d'])) ∨
    (k = .comment ∧ '\x7d' ∈ m ∧ m.head? ≠ some '$' ∧
      a = '\x7b' :: (m.takeWhile (· != '\x7d') ++ ['\x7d'])) ∨
    k = .separator ∧ a = ['\x7b'] := by
  have hkinds : ∀ k ∈ Kind.all, Pascal.opens k '\x7b' →
      k = .compilerDirective ∨ k = .comment ∨ k = .separator ∨ k = .invalid := by decide
  obtain ⟨x,hx⟩ := h.begins
  rcases hkinds k k.mem_all h.opens with rfl | rfl | rfl | rfl
  · have hs := (h.isLongest (by simp [lexemes]) stopsAt_directive.longest).holds
    obtain ⟨d,rfl,hd,hdir⟩ := (spells_directiveOf fun _ hw => hw).1 hs
    obtain rfl : m = '$' :: (d ++ '\x7d' :: x) := by simpa using (List.cons.inj hx).2.symm
    refine .inl ⟨rfl,_,rfl,by simp,?_,?_⟩
    · rwa [takeWhile_bne_append hd]
    · rw [takeWhile_bne_append hd]
  · rcases h.comment with ⟨b,rfl,hb,hhead⟩ | ⟨-,b,rfl,-⟩ | ⟨b,rfl,-⟩
    · obtain rfl : m = b ++ '\x7d' :: x := by simpa using (List.cons.inj hx).2.symm
      refine .inr (.inl ⟨rfl,by simp,?_,by rw [takeWhile_bne_append hb]⟩)
      cases b with
      | nil => simp
      | cons c b => exact hhead
    · exact absurd (List.cons.inj hx).1 (by decide)
    · exact absurd (List.cons.inj hx).1 (by decide)
  · obtain ⟨c,-,rfl⟩ := h.separator
    rw [(List.cons.inj hx).1]
    exact .inr (.inr ⟨rfl,rfl⟩)
  · exact absurd rfl (h.ne_invalid_of_sign (.inl (by decide)))

theorem IsFirst.ne_separator (h : IsFirst l k a) {j : Kind} {r : Pattern} (hr : (j,r) ∈ lexemes)
    (hl : r.Longest) {b : Line} (hb : b <+: l) (hs : r.Spells b) (hlen : 2 ≤ b.length) :
    k ≠ .separator := by
  rintro rfl
  obtain ⟨c,-,rfl⟩ := h.separator
  have hle := (h.length_le hr hl hb hs).1
  rw [List.length_singleton] at hle
  omega

theorem isFirst_braceComment (hd : m.head? ≠ some '$') (hm : '\x7d' ∈ m) :
    IsFirst ('\x7b' :: m) .comment ('\x7b' :: (m.takeWhile (· != '\x7d') ++ ['\x7d'])) := by
  have hmem : (Kind.comment,braceComment) ∈ lexemes := by simp [lexemes]
  obtain ⟨x,hx⟩ := exists_eq_takeWhile_append hm
  have hrun := isLongest_takeWhile (· != '\x7d') m
  have hspells : braceComment.Spells ('\x7b' :: (m.takeWhile (· != '\x7d') ++ ['\x7d'])) := by
    refine spells_braceComment.2 ⟨_,rfl,forall_mem_bne.1 hrun.holds,fun h => hd ?_⟩
    rw [← List.singleton_prefix_iff_head?_eq_some] at h ⊢
    exact h.trans hrun.begins
  have hpre : '\x7b' :: (m.takeWhile (· != '\x7d') ++ ['\x7d']) <+: '\x7b' :: m := by
    refine (List.prefix_cons_inj _).2 ⟨x,?_⟩
    rw [List.append_assoc]
    exact hx.symm
  obtain ⟨k,a,h⟩ := exists_isFirst m (c := '\x7b') (by decide)
  rcases h.brace with ⟨-,r,rfl,-⟩ | ⟨rfl,-,-,rfl⟩ | ⟨hk,-⟩
  · exact absurd rfl hd
  · exact h
  · refine absurd hk (h.ne_separator hmem stopsAt_braceComment.longest hpre hspells ?_)
    simp

theorem isFirst_directive {r : Line} (hr : '\x7d' ∈ r)
    (hd : IsDirective directiveNames (r.takeWhile (· != '\x7d'))) :
    IsFirst ('\x7b' :: '$' :: r) .compilerDirective
      ('\x7b' :: '$' :: (r.takeWhile (· != '\x7d') ++ ['\x7d'])) := by
  obtain ⟨x,hx⟩ := exists_eq_takeWhile_append hr
  have hspells : directive.Spells ('\x7b' :: '$' :: (r.takeWhile (· != '\x7d') ++ ['\x7d'])) :=
    (spells_directiveOf fun _ hw => hw).2
      ⟨_,rfl,forall_mem_bne.1 (isLongest_takeWhile (· != '\x7d') r).holds,hd⟩
  have hpre : '\x7b' :: '$' :: (r.takeWhile (· != '\x7d') ++ ['\x7d']) <+: '\x7b' :: '$' :: r := by
    refine (List.prefix_cons_inj _).2 ((List.prefix_cons_inj _).2 ⟨x,?_⟩)
    rw [List.append_assoc]
    exact hx.symm
  obtain ⟨k,a,h⟩ := exists_isFirst ('$' :: r) (c := '\x7b') (by decide)
  rcases h.brace with ⟨rfl,s,hs,-,-,rfl⟩ | ⟨-,-,hne,-⟩ | ⟨hk,-⟩
  · obtain ⟨-,rfl⟩ := List.cons.inj hs
    exact h
  · exact absurd rfl hne
  · refine absurd hk (h.ne_separator directive_mem stopsAt_directive.longest hpre hspells ?_)
    simp

theorem isFirst_openBrace (hm : '\x7d' ∉ m ∨
    ∃ r, m = '$' :: r ∧ ¬IsDirective directiveNames (r.takeWhile (· != '\x7d'))) :
    IsFirst ('\x7b' :: m) .separator ['\x7b'] := by
  obtain ⟨k,a,h⟩ := exists_isFirst m (c := '\x7b') (by decide)
  rcases h.brace with ⟨-,r,rfl,hr,hd,-⟩ | ⟨-,hclose,hne,-⟩ | ⟨rfl,rfl⟩
  · rcases hm with hm | ⟨s,hs,hn⟩
    · exact absurd (List.mem_cons_of_mem _ hr) hm
    · obtain ⟨-,rfl⟩ := List.cons.inj hs
      exact absurd hd hn
  · rcases hm with hm | ⟨s,rfl,-⟩
    · exact absurd hclose hm
    · exact absurd rfl hne
  · exact h

end First

/-- Is the token what an opening brace with `m` after it begins? -/
structure ReadsBrace (m : Line) (t : Token) : Prop where
  comment : m.head? ≠ some '$' → '\x7d' ∈ m →
    t.Takes .comment ('\x7b' :: (m.takeWhile (· != '\x7d') ++ ['\x7d']))
  directive : ∀ r, m = '$' :: r → '\x7d' ∈ r →
    IsDirective directiveNames (r.takeWhile (· != '\x7d')) →
      t.Takes .compilerDirective ('\x7b' :: '$' :: (r.takeWhile (· != '\x7d') ++ ['\x7d']))
  separator : ('\x7d' ∉ m ∨
      ∃ r, m = '$' :: r ∧ ¬IsDirective directiveNames (r.takeWhile (· != '\x7d'))) →
    t.Takes .separator ['\x7b']

end Pascal

namespace Catalog

open Pascal

/-- A token that starts with an opening brace is the comment or the directive up to the first closing
brace, or the brace alone. Of the names of directives only the set counts, not their order, though
some begin others. -/
theorem tokenizeLine_braces {text : Line} {line : Nat} {t : Token}
    (h : t ∈ pascal.tokenizeLine text line) :
    (∀ m, text.after t.span.start = '\x7b' :: m → ReadsBrace m t) ∧
      ∀ names, (∀ w, w ∈ names ↔ w ∈ directiveNames) →
        (directiveOf names).matcher = directive.matcher := by
  refine ⟨fun m hm => ?_,fun names => matcher_directiveOf⟩
  have htakes {k : Kind} {a : Line} (hf : IsFirst ('\x7b' :: m) k a) : t.Takes k a :=
    takes_of_isFirst h (hm ▸ hf)
  constructor
  · exact fun hd hclose => htakes (isFirst_braceComment hd hclose)
  · rintro r rfl hclose hd
    exact htakes (isFirst_directive hclose hd)
  · exact fun hnone => htakes (isFirst_openBrace hnone)

/-- A name with another one before it in the list, a letter that is no directive, and a comment. -/
theorem tokenizeLine_braces_names :
    pascal.tokenizeLine "\x7b$IF\x7d\x7b$K\x7b\x7d".toList 1 =
        [⟨.compilerDirective,"\x7b$IF\x7d",1,⟨0,5⟩⟩,⟨.separator,"\x7b",1,⟨5,6⟩⟩,
          ⟨.operator,"$",1,⟨6,7⟩⟩,⟨.identifier,"K",1,⟨7,8⟩⟩,⟨.comment,"\x7b\x7d",1,⟨8,10⟩⟩] ∧
      ReadsBrace "$IF\x7d\x7b$K\x7b\x7d".toList ⟨.compilerDirective,"\x7b$IF\x7d",1,⟨0,5⟩⟩ ∧
      ReadsBrace "$K\x7b\x7d".toList ⟨.separator,"\x7b",1,⟨5,6⟩⟩ ∧
      ReadsBrace "\x7d".toList ⟨.comment,"\x7b\x7d",1,⟨8,10⟩⟩ ∧
      (directiveOf directiveNames.reverse).matcher = directive.matcher := by
  have hts : pascal.tokenizeLine "\x7b$IF\x7d\x7b$K\x7b\x7d".toList 1 =
      [⟨.compilerDirective,"\x7b$IF\x7d",1,⟨0,5⟩⟩,⟨.separator,"\x7b",1,⟨5,6⟩⟩,
        ⟨.operator,"$",1,⟨6,7⟩⟩,⟨.identifier,"K",1,⟨7,8⟩⟩,⟨.comment,"\x7b\x7d",1,⟨8,10⟩⟩] := by
    rw [pascal_eq_spelled]
    decide +kernel
  have hdirective := tokenizeLine_braces (hts ▸ List.mem_cons_self)
  have hopen := tokenizeLine_braces (hts ▸ List.mem_cons_of_mem _ List.mem_cons_self)
  have hcomment : Token.mk .comment "\x7b\x7d" 1 ⟨8,10⟩ ∈
      pascal.tokenizeLine "\x7b$IF\x7d\x7b$K\x7b\x7d".toList 1 := by
    rw [hts]
    decide
  exact ⟨hts,hdirective.1 _ (by decide),hopen.1 _ (by decide),
    (tokenizeLine_braces hcomment).1 _ (by decide),
    hopen.2 directiveNames.reverse fun w => List.mem_reverse⟩

end Catalog
end PascalTokens
