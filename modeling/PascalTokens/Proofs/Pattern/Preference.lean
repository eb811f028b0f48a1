import PascalTokens.Proofs.Pattern.Language

/-! Which of the matches with which a line begins backtracking prefers. A pattern may prefer the
longest one, or find its matches in the order of their lengths; and where the last character of a
match is the first of its sort, there is only one. -/
namespace PascalTokens.Pattern

/-- Is the preferred match always the longest one? -/
def Longest (r : Pattern) : Prop := ∀ l, ∀ m ∈ (r.ends l).head?, ∀ n ∈ r.ends l, n ≤ m

/-- Are matches found in this order of their lengths? -/
def Ordered (R : Nat → Nat → Prop) (r : Pattern) : Prop := ∀ l, (r.ends l).Pairwise R

/-- Does a text have one match with the pattern at most? -/
def Single (r : Pattern) : Prop := ∀ l, (r.ends l).length ≤ 1

/-- Is the last character of every match the first `c` in it? -/
def StopsAt (c : Char) (r : Pattern) : Prop := ∀ l, r.Spells l → ∃ a, l = a ++ [c] ∧ c ∉ a

theorem Single.eq_nil_or {r : Pattern} (h : r.Single) (l : Line) :
    r.ends l = [] ∨ ∃ m, r.ends l = [m] := by
  have hone := h l
  cases he : r.ends l with
  | nil => exact .inl rfl
  | cons m ms =>
    rw [he,List.length_cons] at hone
    have hms : ms = [] := List.length_eq_zero_iff.1 (by omega)
    exact .inr ⟨m,by rw [hms]⟩

section Order

theorem Ordered.longest {r : Pattern} (h : r.Ordered (· ≥ ·)) : r.Longest := by
  intro l m hm n hn
  obtain ⟨ns,he⟩ := List.head?_eq_some_iff.1 hm
  have hp := h l
  rw [he,List.pairwise_cons] at hp
  rw [he] at hn
  rcases List.mem_cons.1 hn with rfl | hn
  · exact Nat.le_refl n
  · exact hp.1 n hn

theorem Ordered.shortest {r : Pattern} (h : r.Ordered (· ≤ ·)) {l : Line} {m n : Nat}
    (hm : (r.ends l).head? = some m) (hn : n ∈ r.ends l) : m ≤ n := by
  obtain ⟨ns,he⟩ := List.head?_eq_some_iff.1 hm
  have hp := h l
  rw [he,List.pairwise_cons] at hp
  rw [he] at hn
  rcases List.mem_cons.1 hn with rfl | hn
  · exact Nat.le_refl n
  · exact hp.1 n hn

theorem ordered_many (s : Char → Bool) : (many true s).Ordered (· ≥ ·) := by
  intro l
  rw [ends]
  induction l with
  | nil => exact .nil
  | cons c l ih =>
    by_cases hc : s c
    · rw [manyEnds,if_pos hc,if_pos rfl,List.pairwise_append]
      refine ⟨?_,List.pairwise_singleton _ _,?_⟩
      · exact List.pairwise_map.2 (ih.imp fun h => Nat.add_le_add_right h 1)
      · intro m hm n hn
        obtain ⟨j,-,rfl⟩ := List.mem_map.1 hm
        rw [List.mem_singleton.1 hn]
        exact Nat.le_add_left 1 j
    · rw [manyEnds,if_neg hc]
      exact .nil

theorem ordered_many_lazy (s : Char → Bool) : (many false s).Ordered (· ≤ ·) := by
  intro l
  rw [ends]
  induction l with
  | nil => exact .nil
  | cons c l ih =>
    by_cases hc : s c
    · rw [manyEnds,if_pos hc,if_neg Bool.false_ne_true,List.pairwise_cons]
      refine ⟨?_,List.pairwise_map.2 (ih.imp fun h => Nat.add_le_add_right h 1)⟩
      intro m hm
      obtain ⟨j,-,rfl⟩ := List.mem_map.1 hm
      exact Nat.le_add_left 1 j
    · rw [manyEnds,if_neg hc]
      exact .nil

theorem ordered_opt {r : Pattern} (h : r.Ordered (· ≥ ·)) : (opt r).Ordered (· ≥ ·) := by
  intro l
  refine List.pairwise_append.2 ⟨h l,List.pairwise_singleton _ _,?_⟩
  intro m _ n hn
  rw [List.mem_singleton.1 hn]
  exact Nat.zero_le m

theorem ordered_opt_lazy {r : Pattern} (h : r.Ordered (· ≤ ·)) :
    (alt empty r).Ordered (· ≤ ·) := by
  intro l
  exact List.pairwise_cons.2 ⟨fun n _ => Nat.zero_le n,h l⟩

theorem ordered_plus {a : Pattern} (h : a.Single) : (plus a).Ordered (· ≥ ·) := by
  intro l
  induction hl : l.length using Nat.strongRecOn generalizing l with
  | _ len ih =>
    rw [ends_plus]
    rcases h.eq_nil_or l with he | ⟨m,he⟩
    · rw [he]
      exact .nil
    · have hle := a.ends_le l m (by simp [he])
      rw [he,List.flatMap_singleton]
      by_cases hpos : 0 < m
      · have hlt : (l.drop m).length < len := by rw [List.length_drop]; omega
        rw [if_pos hpos,List.pairwise_append,List.pairwise_map]
        refine ⟨(ih _ hlt _ rfl).imp fun hj => Nat.add_le_add_left hj m,
          List.pairwise_singleton _ _,?_⟩
        intro j hj n hn
        obtain ⟨i,-,rfl⟩ := List.mem_map.1 hj
        rw [List.mem_singleton.1 hn]
        exact Nat.le_add_right m i
      · rw [if_neg hpos]
        exact List.pairwise_singleton _ _

variable {R : Nat → Nat → Prop} {a b : Pattern}

theorem Single.ordered (h : a.Single) : a.Ordered R := by
  intro l
  rcases h.eq_nil_or l with he | ⟨m,he⟩
  · rw [he]
    exact .nil
  · rw [he]
    exact List.pairwise_singleton _ _

theorem ends_choice (rs : List Pattern) (l : Line) :
    (choice rs).ends l = rs.flatMap (·.ends l) := by
  induction rs with
  | nil =>
    cases l with
    | nil => rfl
    | cons c l => rfl
  | cons r rs ih =>
    rw [List.flatMap_cons]
    cases rs with
    | nil => exact (List.append_nil _).symm
    | cons r' rs => exact congrArg (r.ends l ++ ·) ih

theorem ordered_choice {rs : List Pattern} (h : ∀ r ∈ rs, r.Ordered R)
    (hrs : rs.Pairwise fun a b => ∀ l, ∀ m ∈ a.ends l, ∀ n ∈ b.ends l, R m n) :
    (choice rs).Ordered R := by
  intro l
  rw [ends_choice]
  exact List.pairwise_flatMap.2 ⟨fun r hr => h r hr l,hrs.imp fun hab => hab l⟩

/-- After a first part with one match only, the second part gives the order. -/
theorem ordered_seq_of_single (add : ∀ j m n, R m n → R (j + m) (j + n)) (ha : a.Single)
    (hb : b.Ordered R) : (seq a b).Ordered R := by
  intro l
  rw [ends]
  rcases ha.eq_nil_or l with he | ⟨m,he⟩
  · rw [he]
    exact .nil
  · rw [he,List.flatMap_singleton]
    exact List.pairwise_map.2 ((hb _).imp fun h => add m _ _ h)

theorem ordered_seq_of_length (refl : ∀ n, R n n) (add : ∀ j m n, R m n → R (j + m) (j + n))
    {j : Nat} (ha : a.Ordered R) (hb : ∀ l, b.Spells l → l.length = j) :
    (seq a b).Ordered R := by
  have hlen : ∀ l, ∀ n ∈ b.ends l, n = j := by
    intro l n hn
    obtain ⟨x,-,-,rfl,hx⟩ := mem_ends.1 hn
    exact hb x hx
  intro l
  rw [ends]
  refine List.pairwise_flatMap.2 ⟨?_,(ha l).imp ?_⟩
  · intro m _
    refine List.pairwise_map.2 (List.pairwise_of_forall_mem_list fun x hx y hy => ?_)
    rw [hlen _ x hx,hlen _ y hy]
    exact refl _
  · intro m n hmn x hx y hy
    obtain ⟨i,hi,rfl⟩ := List.mem_map.1 hx
    obtain ⟨i',hi',rfl⟩ := List.mem_map.1 hy
    rw [hlen _ i hi,hlen _ i' hi',Nat.add_comm m,Nat.add_comm n]
    exact add j _ _ hmn

end Order

theorem ends_eq_nil_or {a b : Pattern}
    (h : ∀ x y u v, a.Spells x → b.Spells u → x ++ y ≠ u ++ v) (l : Line) :
    a.ends l = [] ∨ b.ends l = [] := by
  by_contra hne
  obtain ⟨ha,hb⟩ := not_or.1 hne
  obtain ⟨m,hm⟩ := List.exists_mem_of_ne_nil _ ha
  obtain ⟨n,hn⟩ := List.exists_mem_of_ne_nil _ hb
  obtain ⟨x,y,rfl,-,hx⟩ := mem_ends.1 hm
  obtain ⟨u,v,huv,-,hu⟩ := mem_ends.1 hn
  exact h x y u v hx hu huv

theorem ends_eq_nil_or_of_begins {a b : Pattern} {s t : Char → Prop} (ha : a.Begins s)
    (hb : b.Begins t) (hst : ∀ c, s c → ¬t c) (l : Line) : a.ends l = [] ∨ b.ends l = [] := by
  refine ends_eq_nil_or (fun x y u v hx hu h => ?_) l
  obtain ⟨c,x,rfl,hc⟩ := ha.exists_cons hx
  obtain ⟨d,u,rfl,hd⟩ := hb.exists_cons hu
  obtain ⟨rfl,-⟩ := List.cons.inj h
  exact hst c hc hd

section Single

theorem single_one (s : Char → Bool) : (one s).Single := by
  intro l
  cases l with
  | nil => simp [ends]
  | cons c l =>
    by_cases hc : s c
    · simp [ends,hc]
    · simp [ends,hc]

theorem single_seq {a b : Pattern} (ha : a.Single) (hb : b.Single) : (seq a b).Single := by
  intro l
  rw [ends]
  rcases ha.eq_nil_or l with he | ⟨m,he⟩
  · simp [he]
  · rw [he,List.flatMap_singleton,List.length_map]
    exact hb _

theorem single_row (s : Char → Char → Bool) (cs : Line) :
    (sequence (cs.map fun c => one (s c))).Single := by
  induction cs with
  | nil => exact fun l => Nat.le_refl 1
  | cons c cs ih =>
    cases cs with
    | nil => exact single_one _
    | cons d cs => exact single_seq (single_one _) ih

theorem single_text (w : String) : (text w).Single := single_row (fun c d => d == c) w.toList

theorem single_caselessText (w : String) : (caselessText w).Single :=
  single_row (fun c d => (Unicode.asciiOrbit c).contains d) w.toList

theorem single_alt {a b : Pattern} (ha : a.Single) (hb : b.Single)
    (hab : ∀ l, a.ends l = [] ∨ b.ends l = []) : (alt a b).Single := by
  intro l
  rw [ends]
  rcases hab l with h | h
  · rw [h]
    exact hb l
  · rw [h,List.append_nil]
    exact ha l

end Single

section Longest

theorem exists_head? {r : Pattern} {l : Line} {n : Nat} (h : n ∈ r.ends l) :
    ∃ m, (r.ends l).head? = some m := by
  obtain ⟨m,ms,he⟩ := List.exists_cons_of_ne_nil (List.ne_nil_of_mem h)
  exact ⟨m,by rw [he]; rfl⟩

theorem Longest.exists_length? {r : Pattern} (h : r.Longest) {l : Line} {n : Nat}
    (hn : n ∈ r.ends l) (hpos : 0 < n) : ∃ m, r.length? l = some m ∧ n ≤ m := by
  obtain ⟨m,hm⟩ := exists_head? hn
  have hnm := h l m hm n hn
  exact ⟨m,length?_eq_some.2 ⟨hm,by omega⟩,hnm⟩

theorem longest_alt {a b : Pattern} (ha : a.Longest) (hb : b.Longest)
    (hab : ∀ l, a.ends l = [] ∨ b.ends l = []) : (alt a b).Longest := by
  intro l
  rw [ends]
  rcases hab l with h | h
  · rw [h]
    exact hb l
  · rw [h,List.append_nil]
    exact ha l

theorem longest_opt {r : Pattern} (h : r.Longest) : (opt r).Longest := by
  intro l m hm n hn
  rcases mem_ends_alt.1 hn with hn | hn
  · obtain ⟨k,hk⟩ := exists_head? hn
    rw [opt,ends,List.head?_append,hk] at hm
    cases hm
    exact h l m hk n hn
  · rw [List.mem_singleton.1 hn]
    exact Nat.zero_le m

theorem longest_choice {rs : List Pattern} (h : ∀ r ∈ rs, r.Longest)
    (hrs : rs.Pairwise fun a b => ∀ l, a.ends l = [] ∨ b.ends l = []) : (choice rs).Longest := by
  induction rs with
  | nil => exact (single_one _).ordered.longest
  | cons r rs ih =>
    obtain ⟨hr,hlater⟩ := List.forall_mem_cons.1 h
    obtain ⟨hapart,hrs⟩ := List.pairwise_cons.1 hrs
    cases rs with
    | nil => exact hr
    | cons r' rs =>
      refine longest_alt hr (ih hlater hrs) fun l => ?_
      rw [ends_choice,List.flatMap_eq_nil_iff]
      by_cases he : r.ends l = []
      · exact .inl he
      · exact .inr fun s hs => (hapart s hs l).resolve_left he

theorem longest_seq_of_single {a b : Pattern} (ha : a.Single) (hb : b.Longest) :
    (seq a b).Longest := by
  intro l k hk n hn
  obtain ⟨i,hi,j,hj,rfl⟩ := mem_ends_seq.1 hn
  obtain ⟨m,he⟩ := (ha.eq_nil_or l).resolve_left (List.ne_nil_of_mem hi)
  rw [ends,he,List.flatMap_singleton,List.head?_map] at hk
  obtain ⟨x,hx,rfl⟩ := Option.map_eq_some_iff.1 hk
  rw [he,List.mem_singleton] at hi
  subst hi
  exact Nat.add_le_add_left (hb _ x hx j hj) i

/-- If a second part may be empty, and is so before every character that the first part may hold, then
the longest first part makes for the longest match. -/
theorem longest_seq_of_within {a b : Pattern} {s : Char → Prop} (ha : a.Longest) (hb : b.Longest)
    (hnil : b.Spells []) (hw : a.Within s) (hs : ∀ c k, s c → ∀ j ∈ b.ends (c :: k), j = 0) :
    (seq a b).Longest := by
  intro l k hk n hn
  obtain ⟨i,hi,j,hj,rfl⟩ := mem_ends_seq.1 hn
  obtain ⟨m,ms,he⟩ := List.exists_cons_of_ne_nil (List.ne_nil_of_mem hi)
  obtain ⟨x,hx⟩ := exists_head? (length_mem_ends_append hnil (l.drop m))
  have hm : (a.ends l).head? = some m := by rw [he]; rfl
  have hkx : k = m + x := by
    obtain ⟨xs,hxs⟩ := List.head?_eq_some_iff.1 hx
    rw [List.nil_append] at hxs
    rw [ends,he,List.flatMap_cons,hxs] at hk
    exact (Option.some.inj hk).symm
  rw [List.nil_append] at hx
  rcases Nat.lt_or_eq_of_le (ha l m hm i hi) with hlt | rfl
  · -- the first part could have gone on, so nothing comes after it
    have hle := a.ends_le l m (List.mem_of_mem_head? hm)
    have hmem : l[i] ∈ l.take m := List.mem_take_iff_getElem.2 ⟨i,by omega,rfl⟩
    rw [List.drop_eq_getElem_cons (by omega)] at hj
    have hz := hs _ _ (hw.ends l m (List.mem_of_mem_head? hm) _ hmem) j hj
    omega
  · have := hb _ x hx j hj
    omega

theorem ends_seq_opt (r b : Pattern) (l : Line) :
    (seq (opt r) b).ends l = (seq r b).ends l ++ b.ends l := by
  simp [opt,ends]

theorem longest_opt_seq {r b : Pattern} {s t : Char → Prop} (hr : r.Begins s) (hb : b.Begins t)
    (hst : ∀ c, s c → ¬t c) (hseq : (seq r b).Longest) (hlong : b.Longest) :
    (seq (opt r) b).Longest := by
  intro l
  rw [ends_seq_opt]
  exact longest_alt hseq hlong (ends_eq_nil_or_of_begins (a := seq r b) hr hb hst) l

theorem eq_zero_of_mem_ends_opt {r : Pattern} {s : Char → Prop} (hr : r.Begins s) {c : Char}
    {k : Line} (hc : ¬s c) : ∀ j ∈ (opt r).ends (c :: k), j = 0 := by
  intro j hj
  rcases mem_ends_alt.1 hj with hj | hj
  · obtain ⟨-,d,hd,hs⟩ := hr.ends _ j hj
    cases hd
    exact absurd hs hc
  · exact List.mem_singleton.1 hj

theorem head?_ends_congr {a b : Pattern} (ha : a.Longest) (hb : b.Longest)
    (h : a.Spells = b.Spells) (l : Line) : (a.ends l).head? = (b.ends l).head? := by
  have hmem : ∀ n, n ∈ a.ends l ↔ n ∈ b.ends l := by
    intro n
    rw [mem_ends,mem_ends,h]
  cases hm : (a.ends l).head? with
  | none =>
    rw [List.head?_eq_none_iff] at hm
    rw [eq_comm,List.head?_eq_none_iff,List.eq_nil_iff_forall_not_mem]
    intro n hn
    rw [← hmem,hm] at hn
    cases hn
  | some m =>
    have hma := List.mem_of_mem_head? hm
    obtain ⟨n,hn⟩ := exists_head? ((hmem m).1 hma)
    have hnm := ha l m hm n ((hmem n).2 (List.mem_of_mem_head? hn))
    have hmn := hb l n hn m ((hmem m).1 hma)
    rw [hn,Nat.le_antisymm hmn hnm]

theorem head?_ends_plus {a : Pattern} {l : Line} {m : Nat} (h : (a.ends l).head? = some m)
    (hpos : 0 < m) :
    ((plus a).ends l).head? = some (m + ((plus a).ends (l.drop m)).head?.getD 0) := by
  obtain ⟨ms,he⟩ := List.head?_eq_some_iff.1 h
  rw [ends_plus,he,List.flatMap_cons,if_pos hpos]
  cases (plus a).ends (l.drop m) with
  | nil => simp
  | cons j js => simp

/-- Where the second turn can be added to the first, unless the first is the longest, turns after the
longest first turn go as far as any. -/
theorem le_of_mem_ends_plus {a : Pattern} {l : Line} {m k : Nat}
    (hadd : ∀ m ∈ a.ends l, ∀ j ∈ a.ends (l.drop m), (∀ n ∈ a.ends l, n ≤ m) ∨ m + j ∈ a.ends l)
    (hm : m ∈ a.ends l) (hmax : ∀ n ∈ a.ends l, n ≤ m) (hmk : m ≤ k)
    (hafter : ∀ j ∈ (plus a).ends (l.drop m), m + j ≤ k) : ∀ n ∈ (plus a).ends l, n ≤ k := by
  have hturns : ∀ j m₂, m₂ ∈ a.ends l → j ∈ (plus a).ends (l.drop m₂) → m₂ + j ≤ k := by
    intro j
    induction j using Nat.strongRecOn with
    | _ j ih =>
      intro m₂ hm₂ hj
      obtain ⟨i,hi,hji⟩ := mem_ends_plus.1 hj
      rcases hadd m₂ hm₂ i hi with hlong | hsum
      · have he : m₂ = m := Nat.le_antisymm (hmax m₂ hm₂) (hlong m hm)
        subst he
        exact hafter j hj
      · have hle := hmax _ hsum
        rcases hji with rfl | ⟨hpos,i',hi',rfl⟩
        · omega
        · rw [List.drop_drop] at hi'
          have hrest := ih i' (by omega) (m₂ + i) hsum hi'
          omega
  intro n hn
  obtain ⟨m₂,hm₂,rfl | ⟨-,j,hj,rfl⟩⟩ := mem_ends_plus.1 hn
  · exact Nat.le_trans (hmax n hm₂) hmk
  · exact hturns j m₂ hm₂ hj

theorem longest_plus {a : Pattern} (hpos : ∀ l, ∀ n ∈ a.ends l, 0 < n) (ha : a.Longest)
    (hadd : ∀ l, ∀ m ∈ a.ends l, ∀ j ∈ a.ends (l.drop m),
      (∀ n ∈ a.ends l, n ≤ m) ∨ m + j ∈ a.ends l) : (plus a).Longest := by
  intro l
  induction hl : l.length using Nat.strongRecOn generalizing l with
  | _ len ih =>
    intro k hk
    cases he : a.ends l with
    | nil =>
      rw [ends_plus,he] at hk
      cases hk
    | cons m ms =>
      have hm : m ∈ a.ends l := he ▸ List.mem_cons_self
      have hhead : (a.ends l).head? = some m := by rw [he]; rfl
      have hm0 := hpos l m hm
      have hle := a.ends_le l m hm
      have hlt : (l.drop m).length < len := by rw [List.length_drop]; omega
      rw [head?_ends_plus hhead hm0,Option.mem_some_iff] at hk
      subst hk
      refine le_of_mem_ends_plus (hadd l) hm (ha l m hhead) (Nat.le_add_right m _) ?_
      intro j hj
      obtain ⟨i,hi⟩ := exists_head? hj
      have hji := ih _ hlt (l.drop m) rfl i hi j hj
      rw [hi]
      exact Nat.add_le_add_left hji m

end Longest

section Stops

variable {c : Char}

theorem stopsAt_char (c : Char) : (char c).StopsAt c :=
  fun _ hl => ⟨[],spells_char.1 hl,List.not_mem_nil⟩

theorem stopsAt_seq {a b : Pattern} (ha : a.Within (· ≠ c)) (hb : b.StopsAt c) :
    (seq a b).StopsAt c := by
  rintro _ ⟨x,y,rfl,hx,hy⟩
  obtain ⟨z,rfl,hz⟩ := hb y hy
  refine ⟨x ++ z,(List.append_assoc x z [c]).symm,fun hc => ?_⟩
  rcases List.mem_append.1 hc with hc | hc
  · exact ha.forall_mem hx c hc rfl
  · exact hz hc

theorem StopsAt.longest {r : Pattern} (h : r.StopsAt c) : r.Longest := by
  intro l m hm n hn
  obtain ⟨x,y,hxy,rfl,hx⟩ := mem_ends.1 (List.mem_of_mem_head? hm)
  obtain ⟨x',y',hxy',rfl,hx'⟩ := mem_ends.1 hn
  obtain ⟨a,rfl,-⟩ := h x hx
  obtain ⟨a',rfl,ha'⟩ := h x' hx'
  by_contra hlt
  simp only [List.length_append,List.length_singleton] at hlt
  have hl : a ++ [c] <+: l := ⟨y,hxy.symm⟩
  have hl' : a' <+: l := ⟨[c] ++ y',by rw [hxy',List.append_assoc]⟩
  have hpre : a ++ [c] <+: a' := by
    refine List.prefix_of_prefix_length_le hl hl' ?_
    rw [List.length_append,List.length_singleton]
    omega
  exact ha' (hpre.subset (by simp))

end Stops

end PascalTokens.Pattern
