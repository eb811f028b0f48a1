import PascalTokens.Proofs.Layout.Texts
import PascalTokens.Proofs.Pascal.Comments
import PascalTokens.Proofs.Pascal.Strings

/-! White space behind a lexeme of Pascal. Comments, directives and strings may run across it, but
whether they do so does not depend on which white space it is. -/
namespace PascalTokens

namespace Pattern

variable {r : Pattern} {l k k' : Line} {n : Nat}

/-- Where no match goes beyond a text, does none go beyond it in another layout either? -/
def Settled (r : Pattern) : Prop := ∀ l k k', Relaid k k' → '\n' ∉ l ++ k →
  (∀ n ∈ r.length? (l ++ k), n ≤ l.length) → ∀ n ∈ r.length? (l ++ k'), n ≤ l.length

theorem exists_mem_ends_relaid (hs : r.Steady) (hc : r.Closes Visible) (h : Relaid k k')
    (hn : n ∈ r.ends (l ++ k)) (hlt : l.length < n) : ∃ m ∈ r.ends (l ++ k'), l.length < m := by
  obtain ⟨x,y,hxy,rfl,hx⟩ := mem_ends.1 hn
  obtain ⟨a,rfl⟩ : l <+: x :=
    List.prefix_of_prefix_length_le ⟨k,rfl⟩ ⟨y,hxy.symm⟩ (Nat.le_of_lt hlt)
  rw [List.append_assoc,List.append_cancel_left_eq] at hxy
  subst hxy
  obtain ⟨z,c,hz,hvis⟩ := hc _ hx
  rcases List.eq_nil_or_concat a with rfl | ⟨a,d,rfl⟩
  · simp at hlt
  · have hd : d = c := by
      rw [List.concat_eq_append,← List.append_assoc] at hz
      exact List.singleton_inj.1 (List.append_inj' hz rfl).2
    subst hd
    rw [List.concat_eq_append] at hx h
    rw [List.append_assoc] at h
    obtain ⟨a',y',rfl,ha,-⟩ := Relaid.exists_append_cons hvis h
    have hspell : r.Spells (l ++ (a' ++ [d])) :=
      hs _ _ ((Relaid.refl l).append (ha.append (.refl [d]))) hx
    refine ⟨(l ++ (a' ++ [d])).length,?_,by simp⟩
    have hmem := length_mem_ends_append hspell y'
    simpa using hmem

theorem settled_of_within (h : r.Within Visible) : r.Settled := by
  intro l k k' hk _ hle
  obtain ⟨v,a,b,rfl,rfl,ha,hb⟩ := hk.exists_visible
  have he : r.ends (l ++ (v ++ b)) = r.ends (l ++ (v ++ a)) := by
    rw [← List.append_assoc,← List.append_assoc,h.ends_append ha,h.ends_append hb]
  rwa [length?,he]

theorem settled_of_longest (hs : r.Steady) (hc : r.Closes Visible) (hl : r.Longest) :
    r.Settled := by
  intro l k k' hk _ hle n hn
  by_contra hlt
  have hends := mem_ends_of_length? hn
  obtain ⟨m,hm,hlm⟩ := exists_mem_ends_relaid hs hc hk.symm hends (Nat.not_le.1 hlt)
  obtain ⟨j,hj,hmj⟩ := hl.exists_length? hm (by omega)
  have hjl := hle j hj
  omega

theorem settled_of_ordered (hs : r.Steady) (hc : r.Closes Visible) (ho : r.Ordered (· ≤ ·)) :
    r.Settled := by
  intro l k k' hk _ hle n hn
  by_contra hlt
  obtain ⟨hhead,hpos⟩ := length?_eq_some.1 hn
  obtain ⟨ns,hns⟩ := List.head?_eq_some_iff.1 hhead
  obtain ⟨m,hm,-⟩ :=
    exists_mem_ends_relaid hs hc hk.symm (List.mem_of_mem_head? hhead) (Nat.not_le.1 hlt)
  obtain ⟨j,hj⟩ := exists_head? hm
  have hjl : j ≤ l.length := by
    by_cases h0 : 0 < j
    · exact hle j (length?_eq_some.2 ⟨hj,h0⟩)
    · omega
  -- the shortest match lies within the text, so it is one whatever follows
  have hjk : j ∈ r.ends (l ++ k') := by
    have hmem : j ∈ (r.ends (l ++ k)).filter (· ≤ l.length) :=
      List.mem_filter.2 ⟨List.mem_of_mem_head? hj,by simpa using hjl⟩
    rw [filter_ends_append,← r.filter_ends_append l k'] at hmem
    exact List.mem_of_mem_filter hmem
  have hsorted := ho (l ++ k')
  rw [hns] at hjk hsorted
  rcases List.mem_cons.1 hjk with rfl | hjk
  · exact hlt hjl
  · exact hlt (Nat.le_trans ((List.pairwise_cons.1 hsorted).1 j hjk) hjl)

end Pattern

namespace Pascal

open Pattern

theorem steady_one_many0 {s t : Char → Bool} (hs : ∀ c d, Spacing c → Spacing d → s c → s d)
    (hst : ∀ c, s c → t c) (ht : ∀ c, Spacing c → t c) : (sequence [one s,many0 t]).Steady := by
  intro l m hlm hl
  obtain ⟨c,k,rfl,hc,hk⟩ := spells_one_many0.1 hl
  have hall := hlm.forall_mem ht (List.forall_mem_cons.2 ⟨hst c hc,hk⟩)
  obtain ⟨d,k',rfl,hd⟩ := hlm.exists_cons_or
  refine spells_one_many0.2 ⟨d,k',rfl,?_,(List.forall_mem_cons.1 hall).2⟩
  rcases hd with rfl | ⟨hc',hd⟩
  · exact hc
  · exact hs c d hc' hd hc

theorem ne_of_spacing {c d : Char} (hd : Visible d) (hc : Spacing c) : c ≠ d := by
  rintro rfl
  exact hd.not_spacing hc

theorem ne_brace_of_spacing (c : Char) (hc : Spacing c) : c != '\x7d' :=
  bne_iff_ne.2 (ne_of_spacing (by decide) hc)

/-- A brace is closed by the first brace that comes, so what lies between them is free. -/
theorem settled_of_stopsAt {r : Pattern} (hs : r.Steady) (hr : r.StopsAt '\x7d') : r.Settled := by
  refine settled_of_longest hs (fun l hl => ?_) hr.longest
  obtain ⟨a,rfl,-⟩ := hr l hl
  exact ⟨a,'\x7d',rfl,by decide⟩

theorem settled_directive : directive.Settled := by
  have hclose : (char '\x7d').Begins Visible := begins_char.2 (by decide)
  have hblank : (sequence [one Unicode.isWhiteSpace,many0 (· != '\x7d')]).Steady := by
    refine steady_one_many0 (fun _ d _ hd _ => hd.1) (fun c hc => ?_) ne_brace_of_spacing
    exact bne_iff_ne.2 (ne_of_holds hc (by decide))
  have hsign : (among ['+', '-']).Steady :=
    steady_of_within (within_among.2 (visible_of_allVisible (by decide)))
  have hname := (within_directiveName fun _ h => h).imp fun _ h => h.1
  have hopen : (text "\x7b$").Within Visible :=
    within_text.2 (visible_of_allVisible (by decide))
  have hrest := steady_seq_of_begins (steady_opt (steady_alt hsign hblank))
    (steady_of_within (within_char.2 (by decide))) hclose
  exact settled_of_stopsAt (steady_seq_of_within hopen (steady_seq_of_within hname hrest))
    stopsAt_directive

theorem settled_braceComment : braceComment.Settled := by
  have hinner : (sequence [one fun c => c != '$' && c != '\x7d',many0 (· != '\x7d')]).Steady := by
    refine steady_one_many0 (fun _ d _ hd _ => ?_) (fun c hc => ?_) ne_brace_of_spacing
    · rw [Bool.and_eq_true,bne_iff_ne]
      exact ⟨ne_of_spacing (by decide) hd,ne_brace_of_spacing d hd⟩
    · exact (Bool.and_eq_true_iff.1 hc).2
  have hrest := steady_seq_of_begins (steady_opt hinner)
    (steady_of_within (within_char.2 (by decide)) : (char '\x7d').Steady)
    (begins_char.2 (by decide))
  exact settled_of_stopsAt (steady_seq_of_within (within_char.2 (by decide)) hrest)
    stopsAt_braceComment

theorem settled_starComment : starComment.Settled := by
  have hopen : (text "(*").Within Visible :=
    within_text.2 (visible_of_allVisible (by decide))
  have hclose : (text "*)").Within Visible :=
    within_text.2 (visible_of_allVisible (by decide))
  have hbegins : (text "*)").Begins Visible :=
    begins_text.2 ⟨'*',rfl,by decide⟩
  have hinner : (alt empty (many false (· != '\n'))).Steady :=
    steady_alt steady_empty (steady_many fun c hc => bne_iff_ne.2 hc.2)
  have hrest := steady_seq_of_begins hinner (steady_of_within hclose) hbegins
  exact settled_of_ordered (steady_seq_of_within hopen hrest)
    (closes_seq (closes_seq (hbegins.closes hclose))) ordered_starComment

theorem settled_lineComment : lineComment.Settled := by
  have hopen : (text "//").Within Visible :=
    within_text.2 (visible_of_allVisible (by decide))
  have hsteady : lineComment.Steady := steady_seq_of_within hopen
    (steady_opt (steady_many fun c hc => bne_iff_ne.2 hc.2))
  intro l k k' hk hnl hle n hn
  by_contra hlt
  obtain ⟨x,y,hxy,rfl,_,z,rfl,hx,-⟩ := mem_ends.1 (mem_ends_of_length? hn)
  obtain ⟨hl,hkn⟩ := List.forall_mem_append.1 (List.forall_mem_ne'.2 hnl)
  have hk' := hk.forall_mem (fun c hc => hc.2) hkn
  have hall : lineComment.Spells (l ++ k') := by
    refine ⟨_,z ++ y,hxy.trans (List.append_assoc ..),hx,spells_many0.2 fun c hc => ?_⟩
    refine bne_iff_ne.2 (List.forall_mem_append.2 ⟨hl,hk'⟩ c ?_)
    rw [hxy,List.append_assoc]
    exact List.mem_append_right _ hc
  have hmem := length_mem_ends (hsteady _ _ ((Relaid.refl l).append hk.symm) hall)
  have hxl := congrArg List.length hxy
  rw [List.length_append,List.length_append] at hxl
  cases k with
  | nil =>
    rw [hk.eq_nil,List.length_nil] at hxl
    omega
  | cons c k =>
    rw [List.length_append,List.length_cons] at hmem
    obtain ⟨j,hj,hlj⟩ := ordered_lineComment.longest.exists_length? hmem (Nat.succ_pos _)
    have hjl := hle j hj
    omega

theorem paired_relaid {l m : Line} (h : Relaid l m) :
    (Paired l → Paired m) ∧ (Paired ('\'' :: l) → Paired ('\'' :: m)) := by
  have hne : ∀ g : Line, (∀ c ∈ g, Spacing c) → ∀ c ∈ g, c ≠ '\'' :=
    fun g hg c hc => ne_of_spacing (by decide) (hg c hc)
  induction h with
  | nil => exact ⟨id,id⟩
  | @same c l m _ ih =>
    by_cases hc : c = '\''
    · subst hc
      refine ⟨ih.2,fun h => ?_⟩
      obtain ⟨k,hk,hp⟩ := h.of_cons_quote
      obtain ⟨-,rfl⟩ := List.cons.inj hk
      exact .pair (ih.1 hp)
    · refine ⟨fun h => .other hc (ih.1 (h.of_cons hc)),fun h => ?_⟩
      obtain ⟨k,hk,-⟩ := h.of_cons_quote
      exact absurd (List.cons.inj hk).1 hc
  | @spacing g g' l m hg0 _ hg hg' _ ih =>
    refine ⟨fun h => .append_other (hne g' hg') (ih.1 (h.of_append_other (hne g hg))),fun h => ?_⟩
    obtain ⟨d,g,rfl⟩ := List.exists_cons_of_ne_nil hg0
    obtain ⟨k,hk,-⟩ := h.of_cons_quote
    exact absurd (List.cons.inj hk).1 (hne _ hg d List.mem_cons_self)

theorem settled_stringOrCharacter : stringOrCharacter.Settled := by
  have hquote : (char '\'').Within Visible := within_char.2 (by decide)
  have hbegins : (char '\'').Begins Visible := begins_char.2 (by decide)
  have hstar : (Pattern.star (alt (one (· != '\'')) (text "''"))).Steady := fun l m h hl =>
    spells_star_quotedPart.2 ((paired_relaid h).1 (spells_star_quotedPart.1 hl))
  have hquoted : quoted.Steady := steady_seq_of_within hquote
    (steady_seq_of_begins hstar (steady_of_within hquote) hbegins)
  have hcode : characterCode.Within Visible := by
    refine ⟨⟨within_text.2 (visible_of_allVisible (by decide)),?_⟩,
      within_char.2 (by decide),?_⟩
    · exact fun c => visible_of_isHexDigit
    · exact fun c => visible_of_isDecimalDigit
  have hsegment : segment.Begins Visible :=
    begins_lexemes (.stringOrCharacter,stringOrCharacter) (by simp [lexemes])
  have hclose : segment.Closes Visible :=
    closes_alt (closes_seq (closes_seq (hbegins.closes hquote))) (hsegment.2.closes hcode)
  exact settled_of_longest
    (steady_plus (steady_alt hquoted (steady_of_within hcode)) hsegment) (closes_plus hclose)
    longest_stringOrCharacter

theorem settled_lexemes : ∀ r ∈ lexemes, r.2.Settled := by
  intro r hr
  by_cases hk : r.1 ∈ spacedKinds
  · simp only [lexemes,List.mem_cons,List.not_mem_nil,or_false] at hr
    rcases hr with rfl | rfl | rfl | rfl | rfl | rfl | rfl | rfl | rfl | rfl | rfl
    · exact settled_directive
    · exact settled_braceComment
    · exact settled_starComment
    · exact settled_lineComment
    · exact absurd hk (by decide)
    · exact absurd hk (by decide)
    · exact absurd hk (by decide)
    · exact settled_stringOrCharacter
    · exact absurd hk (by decide)
    · exact absurd hk (by decide)
    · exact absurd hk (by decide)
  · exact settled_of_within (within_lexemes r hr hk)

end Pascal
end PascalTokens
