import PascalTokens.Pascal.Rules
import PascalTokens.Proofs.Pattern.Preference

/-! Strings of Pascal: quoted parts and codes of characters. A quote in a quoted part is doubled, so
two quoted parts side by side are one, and the preferred match is the longest row of parts. -/
namespace PascalTokens.Pascal

open Pattern

/-- Text between quotes, in which every quote is doubled. -/
inductive Paired : Line → Prop
  | nil : Paired []
  | other {c : Char} {l : Line} (hc : c ≠ '\'') (h : Paired l) : Paired (c :: l)
  | pair {l : Line} (h : Paired l) : Paired ('\'' :: '\'' :: l)

def segment : Pattern := alt quoted characterCode

/-- Is the text a quoted part, in which quotes are doubled, or the code of a character? -/
def IsSegment (l : Line) : Prop :=
  (∃ w, Paired w ∧ l = '\'' :: (w ++ ['\''])) ∨
    (∃ ds, l = '#' :: '$' :: ds ∧ ds ≠ [] ∧ ∀ c ∈ ds, isHexDigit c) ∨
    ∃ ds, l = '#' :: ds ∧ ds ≠ [] ∧ ∀ c ∈ ds, Unicode.isDecimalDigit c

namespace Paired

theorem append {l m : Line} (hl : Paired l) (hm : Paired m) : Paired (l ++ m) := by
  induction hl with
  | nil => exact hm
  | other hc _ ih => exact .other hc ih
  | pair _ ih => exact .pair ih

theorem of_cons {c : Char} {l : Line} (h : Paired (c :: l)) (hc : c ≠ '\'') : Paired l := by
  cases h with
  | other _ h => exact h
  | pair _ => exact absurd rfl hc

theorem of_cons_quote {l : Line} (h : Paired ('\'' :: l)) : ∃ m, l = '\'' :: m ∧ Paired m := by
  cases h with
  | other hc _ => exact absurd rfl hc
  | pair h => exact ⟨_,rfl,h⟩

theorem append_other {l m : Line} (hl : ∀ c ∈ l, c ≠ '\'') (hm : Paired m) : Paired (l ++ m) := by
  induction l with
  | nil => exact hm
  | cons c l ih =>
    obtain ⟨hc,hl⟩ := List.forall_mem_cons.1 hl
    exact .other hc (ih hl)

theorem of_append_other {l m : Line} (hl : ∀ c ∈ l, c ≠ '\'') (h : Paired (l ++ m)) :
    Paired m := by
  induction l with
  | nil => exact h
  | cons c l ih =>
    obtain ⟨hc,hl⟩ := List.forall_mem_cons.1 hl
    exact ih hl (of_cons h hc)

theorem exists_quote {w u x y : Line} (hw : Paired w) (hu : Paired u)
    (h : w ++ '\'' :: x = u ++ y) (hlt : w.length < u.length) : ∃ z, x = '\'' :: z := by
  induction hw generalizing u with
  | nil =>
    obtain ⟨c,u,rfl⟩ := List.exists_cons_of_length_pos hlt
    obtain ⟨rfl,rfl⟩ := List.cons.inj h
    obtain ⟨m,rfl,-⟩ := hu.of_cons_quote
    exact ⟨m ++ y,rfl⟩
  | other hc _ ih =>
    obtain ⟨d,u,rfl⟩ := List.exists_cons_of_length_pos (Nat.zero_lt_of_lt hlt)
    obtain ⟨rfl,hrest⟩ := List.cons.inj h
    exact ih (hu.of_cons hc) hrest (Nat.lt_of_succ_lt_succ hlt)
  | pair _ ih =>
    obtain ⟨d,u,rfl⟩ := List.exists_cons_of_length_pos (Nat.zero_lt_of_lt hlt)
    obtain ⟨rfl,hrest⟩ := List.cons.inj h
    obtain ⟨m,rfl,hm⟩ := hu.of_cons_quote
    obtain ⟨-,hrest⟩ := List.cons.inj hrest
    exact ih hm hrest (Nat.lt_of_succ_lt_succ (Nat.lt_of_succ_lt_succ hlt))

end Paired

section Texts

variable {l : Line}

theorem spells_quotedPart : (alt (one (· != '\'')) (text "''")).Spells l ↔
    (∃ c, c ≠ '\'' ∧ l = [c]) ∨ l = ['\'','\''] := by
  have htext : (text "''").Spells l ↔ l = ['\'','\''] := spells_text
  simp only [Spells,htext,bne_iff_ne]

theorem spells_star_quotedPart :
    (Pattern.star (alt (one (· != '\'')) (text "''"))).Spells l ↔ Paired l := by
  rw [Pattern.star,spells_opt]
  constructor
  · rintro (h | rfl)
    · have hpart : ∀ x m, (alt (one (· != '\'')) (text "''")).Spells x → Paired m →
          Paired (x ++ m) := by
        intro x m hx hm
        rcases spells_quotedPart.1 hx with ⟨c,hc,rfl⟩ | rfl
        · exact .other hc hm
        · exact .pair hm
      induction h with
      | @one x hx => exact List.append_nil x ▸ hpart x [] hx .nil
      | more hx _ ih => exact hpart _ _ hx ih
    · exact .nil
  · have hmore : ∀ x m, (alt (one (· != '\'')) (text "''")).Spells x →
        Turns (alt (one (· != '\'')) (text "''")).Spells m ∨ m = [] →
        Turns (alt (one (· != '\'')) (text "''")).Spells (x ++ m) := by
      rintro x m hx (hm | rfl)
      · exact .more hx hm
      · exact (List.append_nil x).symm ▸ .one hx
    intro h
    induction h with
    | nil => exact .inr rfl
    | @other c m hc _ ih => exact .inl (hmore [c] m (spells_quotedPart.2 (.inl ⟨c,hc,rfl⟩)) ih)
    | @pair m _ ih => exact .inl (hmore ['\'','\''] m (spells_quotedPart.2 (.inr rfl)) ih)

theorem spells_quoted : quoted.Spells l ↔ ∃ w, Paired w ∧ l = '\'' :: (w ++ ['\'']) := by
  constructor
  · rintro ⟨_,_,rfl,ho,w,_,rfl,hw,hc⟩
    rw [spells_char.1 ho,spells_char.1 hc]
    exact ⟨w,spells_star_quotedPart.1 hw,rfl⟩
  · rintro ⟨w,hw,rfl⟩
    exact ⟨['\''],w ++ ['\''],rfl,spells_char.2 rfl,w,['\''],rfl,spells_star_quotedPart.2 hw,
      spells_char.2 rfl⟩

theorem spells_characterCode : characterCode.Spells l ↔
    (∃ ds, l = '#' :: '$' :: ds ∧ ds ≠ [] ∧ ∀ c ∈ ds, isHexDigit c) ∨
      ∃ ds, l = '#' :: ds ∧ ds ≠ [] ∧ ∀ c ∈ ds, Unicode.isDecimalDigit c := by
  constructor
  · rintro (⟨_,ds,rfl,hs,hd⟩ | ⟨_,ds,rfl,hs,hd⟩)
    · rw [spells_text.1 hs]
      exact .inl ⟨ds,rfl,hd⟩
    · rw [spells_char.1 hs]
      exact .inr ⟨ds,rfl,hd⟩
  · rintro (⟨ds,rfl,hd⟩ | ⟨ds,rfl,hd⟩)
    · exact .inl ⟨['#','$'],ds,rfl,spells_text.2 rfl,hd⟩
    · exact .inr ⟨['#'],ds,rfl,spells_char.2 rfl,hd⟩

theorem spells_segment : segment.Spells l ↔ IsSegment l :=
  or_congr spells_quoted spells_characterCode

theorem IsSegment.exists_cons (h : IsSegment l) :
    ∃ c d m, l = c :: d :: m ∧ (c = '\'' ∨ c = '#') := by
  rcases h with ⟨w,-,rfl⟩ | ⟨ds,rfl,-⟩ | ⟨ds,rfl,hne,-⟩
  · obtain ⟨d,m,hd⟩ := List.exists_cons_of_ne_nil (List.append_ne_nil_of_right_ne_nil w
      (List.cons_ne_nil '\'' []))
    exact ⟨'\'',d,m,congrArg ('\'' :: ·) hd,.inl rfl⟩
  · exact ⟨'#','$',ds,rfl,.inr rfl⟩
  · obtain ⟨d,m,rfl⟩ := List.exists_cons_of_ne_nil hne
    exact ⟨'#',d,m,rfl,.inr rfl⟩

theorem spells_quoted_append {m : Line} (hl : quoted.Spells l) (hm : quoted.Spells m) :
    quoted.Spells (l ++ m) := by
  obtain ⟨w,hw,rfl⟩ := spells_quoted.1 hl
  obtain ⟨u,hu,rfl⟩ := spells_quoted.1 hm
  exact spells_quoted.2 ⟨w ++ '\'' :: '\'' :: u,hw.append (.pair hu),by simp⟩

end Texts

section Longest

theorem exists_cons_of_spells_characterCode {l : Line} (h : characterCode.Spells l) :
    ∃ m, l = '#' :: m := by
  rcases spells_characterCode.1 h with ⟨ds,rfl,-,-⟩ | ⟨ds,rfl,-,-⟩
  · exact ⟨_,rfl⟩
  · exact ⟨_,rfl⟩

theorem exists_next {s : Char → Bool} {a b y v : Line} (hb : ∀ c ∈ b, s c)
    (h : a ++ y = b ++ v) (hlt : a.length < b.length) : ∃ c z, y = c :: z ∧ s c := by
  obtain ⟨t,rfl⟩ : a <+: b :=
    List.prefix_of_prefix_length_le ⟨y,h⟩ ⟨v,rfl⟩ (Nat.le_of_lt hlt)
  rw [List.append_assoc,List.append_cancel_left_eq] at h
  obtain ⟨c,t,rfl⟩ : ∃ c t', t = c :: t' := by
    refine List.exists_cons_of_ne_nil fun ht => ?_
    simp [ht] at hlt
  exact ⟨c,t ++ v,h,hb c (by simp)⟩

theorem next_of_shorter_code {x y u v : Line} (hx : characterCode.Spells x)
    (hu : characterCode.Spells u) (h : x ++ y = u ++ v) (hlt : x.length < u.length) :
    ∃ c z, y = c :: z ∧ c ≠ '\'' ∧ c ≠ '#' := by
  rcases spells_characterCode.1 hx with ⟨ds,rfl,-,-⟩ | ⟨ds,rfl,hds,hd⟩
  · rcases spells_characterCode.1 hu with ⟨es,rfl,-,he⟩ | ⟨es,rfl,hes,he⟩
    · simp only [List.cons_append,List.cons.injEq,true_and] at h
      obtain ⟨c,z,rfl,hc⟩ := exists_next he h (by simpa using hlt)
      exact ⟨c,z,rfl,ne_of_holds hc (by decide),ne_of_holds hc (by decide)⟩
    · obtain ⟨e,es,rfl⟩ := List.exists_cons_of_ne_nil hes
      simp only [List.cons_append,List.cons.injEq,true_and] at h
      exact absurd h.1.symm (ne_of_holds (he e List.mem_cons_self) (by decide))
  · rcases spells_characterCode.1 hu with ⟨es,rfl,-,he⟩ | ⟨es,rfl,hes,he⟩
    · obtain ⟨d,ds,rfl⟩ := List.exists_cons_of_ne_nil hds
      simp only [List.cons_append,List.cons.injEq,true_and] at h
      exact absurd h.1 (ne_of_holds (hd d List.mem_cons_self) (by decide))
    · simp only [List.cons_append,List.cons.injEq,true_and] at h
      obtain ⟨c,z,rfl,hc⟩ := exists_next he h (by simpa using hlt)
      exact ⟨c,z,rfl,ne_of_holds hc (by decide),ne_of_holds hc (by decide)⟩

theorem quoted_append_ne_code_append {x y u v : Line} (hx : quoted.Spells x)
    (hu : characterCode.Spells u) : x ++ y ≠ u ++ v := by
  obtain ⟨w,-,rfl⟩ := spells_quoted.1 hx
  obtain ⟨m,rfl⟩ := exists_cons_of_spells_characterCode hu
  exact fun h => absurd (List.cons.inj h).1 (by decide)

/-- Where a longer segment begins, a quote follows a quoted part, and a code is followed by what
begins no segment. -/
theorem next_of_shorter {x y u v : Line} (hx : segment.Spells x) (hu : segment.Spells u)
    (h : x ++ y = u ++ v) (hlt : x.length < u.length) :
    ∃ c z, y = c :: z ∧ (quoted.Spells x ∧ c = '\'' ∨ c ≠ '\'' ∧ c ≠ '#') := by
  rcases hx with hx | hx
  · rcases hu with hu | hu
    · obtain ⟨w,hw,rfl⟩ := spells_quoted.1 hx
      obtain ⟨w',hw',rfl⟩ := spells_quoted.1 hu
      simp only [List.cons_append,List.append_assoc,List.cons.injEq,true_and,List.nil_append] at h
      obtain ⟨z,hz⟩ := hw.exists_quote hw' h (by simpa using hlt)
      exact ⟨'\'',z,hz,.inl ⟨hx,rfl⟩⟩
    · exact absurd h (quoted_append_ne_code_append hx hu)
  · rcases hu with hu | hu
    · exact absurd h.symm (quoted_append_ne_code_append hu hx)
    · obtain ⟨c,z,hy,hc⟩ := next_of_shorter_code hx hu h hlt
      exact ⟨c,z,hy,.inr hc⟩

theorem longest_quoted : quoted.Longest := by
  have hge : ∀ j m n : Nat, m ≥ n → j + m ≥ j + n := fun j _ _ h => Nat.add_le_add_left h j
  have hpart : (alt (one (· != '\'')) (text "''")).Single := by
    refine single_alt (single_one _) (single_text _) (ends_eq_nil_or ?_)
    rintro x y u v ⟨c,hc,rfl⟩ hu h
    rw [spells_text.1 hu] at h
    exact bne_iff_ne.1 hc (List.cons.inj h).1
  refine Ordered.longest (ordered_seq_of_single hge (single_one _) ?_)
  refine ordered_seq_of_length Nat.le_refl hge (j := 1) (ordered_opt (ordered_plus hpart)) ?_
  intro l hl
  rw [spells_char.1 hl]
  rfl

theorem longest_characterCode : characterCode.Longest := by
  have hge : ∀ j m n : Nat, m ≥ n → j + m ≥ j + n := fun j _ _ h => Nat.add_le_add_left h j
  have hhex : (sequence [text "#$",many1 isHexDigit]).Longest :=
    (ordered_seq_of_single hge (single_text _) (ordered_many _)).longest
  have hdecimal : (sequence [char '#',digits]).Longest :=
    (ordered_seq_of_single hge (single_one _) (ordered_many _)).longest
  refine longest_alt hhex hdecimal (ends_eq_nil_or ?_)
  rintro x y u v ⟨_,ds,rfl,hs,-⟩ ⟨_,es,rfl,hs',hes,he⟩ h
  rw [spells_text.1 hs,spells_char.1 hs'] at h
  obtain ⟨e,es,rfl⟩ := List.exists_cons_of_ne_nil hes
  -- the dollar would be a digit
  have hdollar : '$' = e := (List.cons.inj (List.cons.inj h).2).1
  exact ne_of_holds (he e List.mem_cons_self) (by decide) hdollar.symm

theorem longest_segment : segment.Longest :=
  longest_alt longest_quoted longest_characterCode
    (ends_eq_nil_or fun _ _ _ _ hx hu => quoted_append_ne_code_append hx hu)

/-- A segment is the longest where it begins, or makes a longer one with the segment after it. -/
theorem add_mem_ends_segment {l : Line} {m j : Nat} (hm : m ∈ segment.ends l)
    (hj : j ∈ segment.ends (l.drop m)) :
    (∀ n ∈ segment.ends l, n ≤ m) ∨ m + j ∈ segment.ends l := by
  by_cases hmax : ∀ n ∈ segment.ends l, n ≤ m
  · exact .inl hmax
  · right
    obtain ⟨n,hn,hlt⟩ : ∃ n ∈ segment.ends l, m < n := by
      simpa only [not_forall,exists_prop,Nat.not_le] using hmax
    obtain ⟨x,y,rfl,rfl,hx⟩ := mem_ends.1 hm
    obtain ⟨u,v,h,rfl,hu⟩ := mem_ends.1 hn
    rw [List.drop_left] at hj
    obtain ⟨x',y',rfl,rfl,hx'⟩ := mem_ends.1 hj
    obtain ⟨c,z,hcz,hnext⟩ := next_of_shorter hx hu h hlt
    obtain ⟨c',d,m',rfl,hc'⟩ := (spells_segment.1 hx').exists_cons
    obtain ⟨rfl,-⟩ := List.cons.inj hcz
    -- of the segments that begin with `c'`, only a quoted part may follow a shorter one
    rcases hnext with ⟨hq,rfl⟩ | hne
    · rcases hx' with hx' | hx'
      · refine mem_ends.2 ⟨x ++ '\'' :: d :: m',y',by simp,by simp,?_⟩
        exact .inl (spells_quoted_append hq hx')
      · obtain ⟨k,hk⟩ := exists_cons_of_spells_characterCode hx'
        exact absurd (List.cons.inj hk).1 (by decide)
    · exact absurd hc' (not_or.2 hne)

theorem longest_stringOrCharacter : stringOrCharacter.Longest := by
  refine longest_plus (a := segment) ?_ longest_segment fun l m hm j hj =>
    add_mem_ends_segment hm hj
  intro l n hn
  obtain ⟨x,y,-,rfl,hx⟩ := mem_ends.1 hn
  obtain ⟨c,d,m,rfl,-⟩ := (spells_segment.1 hx).exists_cons
  simp

end Longest

end PascalTokens.Pascal
