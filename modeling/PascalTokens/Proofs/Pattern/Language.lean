import Mathlib.Data.List.Forall2
import PascalTokens.Proofs.Pattern.Characters
import PascalTokens.Proofs.Pattern.Prefixes

/-! The texts that a pattern matches as a whole. Which of them begin a line is all that its matches
there depend on, preference apart. -/
namespace PascalTokens.Pattern

inductive Turns (s : Line → Prop) : Line → Prop
  | one {l : Line} (h : s l) : Turns s l
  | more {l m : Line} (h : s l) (t : Turns s m) : Turns s (l ++ m)

theorem Turns.append {s : Line → Prop} {l m : Line} (hl : Turns s l) (hm : Turns s m) :
    Turns s (l ++ m) := by
  induction hl with
  | one h => exact .more h hm
  | @more x y h _ ih =>
    rw [List.append_assoc]
    exact .more h ih

/-- Does the pattern match the text as a whole? -/
def Spells : Pattern → Line → Prop
  | empty, l => l = []
  | one s, l => ∃ c, s c ∧ l = [c]
  | many _ s, l => l ≠ [] ∧ ∀ c ∈ l, s c
  | seq a b, l => ∃ l₁ l₂, l = l₁ ++ l₂ ∧ a.Spells l₁ ∧ b.Spells l₂
  | alt a b, l => a.Spells l ∨ b.Spells l
  | plus a, l => Turns a.Spells l

/-- Does a first part of the text that satisfies `s` have length `n`? -/
def Splits (s : Line → Prop) (l : Line) (n : Nat) : Prop := ∃ a b, l = a ++ b ∧ a.length = n ∧ s a

theorem splits_drop {s t : Line → Prop} {l : Line} {n : Nat} :
    (∃ m, Splits s l m ∧ ∃ j, Splits t (l.drop m) j ∧ n = m + j) ↔
      Splits (fun l => ∃ l₁ l₂, l = l₁ ++ l₂ ∧ s l₁ ∧ t l₂) l n := by
  constructor
  · rintro ⟨_,⟨a,b,rfl,rfl,ha⟩,_,⟨a',b',hb,rfl,ha'⟩,rfl⟩
    rw [List.drop_left] at hb
    subst hb
    exact ⟨a ++ a',b',by simp,by simp,a,a',rfl,ha,ha'⟩
  · rintro ⟨_,b,rfl,rfl,a,a',rfl,ha,ha'⟩
    refine ⟨a.length,⟨a,a' ++ b,by simp,rfl,ha⟩,a'.length,⟨a',b,?_,rfl,ha'⟩,by simp⟩
    rw [List.append_assoc,List.drop_left]

theorem mem_manyEnds {s : Char → Bool} {greedy : Bool} {l : Line} {n : Nat} :
    n ∈ manyEnds s greedy l ↔ Splits (fun a => a ≠ [] ∧ ∀ c ∈ a, s c) l n := by
  induction l generalizing n with
  | nil =>
    simp only [manyEnds,List.not_mem_nil,false_iff]
    rintro ⟨a,b,h,-,hne,-⟩
    exact hne (List.append_eq_nil_iff.1 h.symm).1
  | cons c l ih =>
    rw [mem_manyEnds_cons]
    constructor
    · rintro ⟨hc,rfl | ⟨m,hm,rfl⟩⟩
      · exact ⟨[c],l,rfl,rfl,by simp,by simpa using hc⟩
      · obtain ⟨a,b,rfl,rfl,-,ha⟩ := ih.1 hm
        exact ⟨c :: a,b,rfl,rfl,by simp,List.forall_mem_cons.2 ⟨hc,ha⟩⟩
    · rintro ⟨a,b,h,rfl,hne,ha⟩
      obtain ⟨d,a,rfl⟩ := List.exists_cons_of_ne_nil hne
      obtain ⟨rfl,rfl⟩ := List.cons.inj h
      obtain ⟨hc,ha⟩ := List.forall_mem_cons.1 ha
      refine ⟨hc,?_⟩
      cases a with
      | nil => exact .inl rfl
      | cons d a => exact .inr ⟨_,ih.2 ⟨d :: a,b,rfl,rfl,by simp,ha⟩,rfl⟩

theorem ends_plus (a : Pattern) (l : Line) :
    (plus a).ends l = (a.ends l).flatMap fun m =>
      if 0 < m then ((plus a).ends (l.drop m)).map (m + ·) ++ [m] else [m] := by
  rw [ends]
  cases l with
  | nil =>
    rw [List.length_nil,turnEnds]
    refine (List.flatMap_singleton' _).symm.trans (List.flatMap_congr fun m hm => ?_)
    have hz : m = 0 := Nat.le_zero.1 (a.ends_le [] m hm)
    simp [hz]
  | cons c l =>
    rw [List.length_cons,turnEnds]
    refine List.flatMap_congr fun m _ => ?_
    by_cases hpos : 0 < m
    · have hle : ((c :: l).drop m).length ≤ l.length := by simp; omega
      rw [if_pos hpos,if_pos hpos,ends,turnEnds_of_length_le a.ends_le hle]
    · rw [if_neg hpos,if_neg hpos]

theorem mem_ends_plus {a : Pattern} {l : Line} {n : Nat} :
    n ∈ (plus a).ends l ↔
      ∃ m ∈ a.ends l, n = m ∨ 0 < m ∧ ∃ j ∈ (plus a).ends (l.drop m), n = m + j := by
  rw [ends_plus,List.mem_flatMap]
  refine exists_congr fun m => and_congr_right fun _ => ?_
  by_cases h : 0 < m
  · simp [h,or_comm,eq_comm]
  · simp [h]

theorem mem_ends_plus_iff_splits {a : Pattern}
    (h : ∀ l n, n ∈ a.ends l ↔ Splits a.Spells l n) {l : Line} {n : Nat} :
    n ∈ (plus a).ends l ↔ Splits (Turns a.Spells) l n := by
  constructor
  · -- by the length of the line: a first turn after which more come is not empty
    intro hn
    induction hl : l.length using Nat.strongRecOn generalizing l n with
    | _ len ih =>
      obtain ⟨m,hm,rfl | ⟨hpos,j,hj,rfl⟩⟩ := mem_ends_plus.1 hn
      · obtain ⟨x,y,hxy,hx,hs⟩ := (h l _).1 hm
        exact ⟨x,y,hxy,hx,.one hs⟩
      · have hle := a.ends_le l m hm
        have hlt : (l.drop m).length < len := by rw [List.length_drop]; omega
        have hturns := ih _ hlt hj rfl
        obtain ⟨x,y,hxy,hx,u,v,rfl,hu,hv⟩ := splits_drop.1 ⟨m,(h l m).1 hm,j,hturns,rfl⟩
        exact ⟨_,y,hxy,hx,.more hu hv⟩
  · rintro ⟨x,y,rfl,rfl,hx⟩
    induction hx generalizing y with
    | @one x hs => exact mem_ends_plus.2 ⟨_,(h _ _).2 ⟨x,y,rfl,rfl,hs⟩,.inl rfl⟩
    | @more x x' hs _ ih =>
      have hmore := ih y
      rw [List.append_assoc]
      cases x with
      -- backtracking makes no empty turn before another one, but none is needed
      | nil => exact hmore
      | cons c x =>
        refine mem_ends_plus.2 ⟨_,(h _ _).2 ⟨c :: x,x' ++ y,rfl,rfl,hs⟩,.inr ⟨by simp,?_⟩⟩
        rw [List.drop_left]
        exact ⟨_,hmore,List.length_append⟩

/-- The matches with which a line begins are the texts that begin it and that the pattern matches as a
whole. -/
theorem mem_ends {r : Pattern} {l : Line} {n : Nat} : n ∈ r.ends l ↔ Splits r.Spells l n := by
  induction r generalizing l n with
  | empty =>
    rw [ends,List.mem_singleton]
    constructor
    · rintro rfl
      exact ⟨[],l,rfl,rfl,rfl⟩
    · rintro ⟨a,b,-,rfl,rfl⟩
      rfl
  | one s =>
    rw [mem_ends_one]
    constructor
    · rintro ⟨rfl,c,k,rfl,hc⟩
      exact ⟨[c],k,rfl,rfl,c,hc,rfl⟩
    · rintro ⟨_,b,rfl,rfl,c,hc,rfl⟩
      exact ⟨rfl,c,b,rfl,hc⟩
  | many greedy s => exact mem_manyEnds
  | seq a b iha ihb =>
    rw [mem_ends_seq]
    refine Iff.trans (exists_congr fun m => ?_) splits_drop
    simp only [iha,ihb]
  | alt a b iha ihb =>
    rw [mem_ends_alt,iha,ihb]
    constructor
    · rintro (⟨x,y,h,hx,hs⟩ | ⟨x,y,h,hx,hs⟩)
      · exact ⟨x,y,h,hx,.inl hs⟩
      · exact ⟨x,y,h,hx,.inr hs⟩
    · rintro ⟨x,y,h,hx,hs | hs⟩
      · exact .inl ⟨x,y,h,hx,hs⟩
      · exact .inr ⟨x,y,h,hx,hs⟩
  | plus a ih => exact mem_ends_plus_iff_splits fun _ _ => ih

theorem length_mem_ends_append {r : Pattern} {l : Line} (h : r.Spells l) (k : Line) :
    l.length ∈ r.ends (l ++ k) :=
  mem_ends.2 ⟨l,k,rfl,rfl,h⟩

theorem length_mem_ends {r : Pattern} {l : Line} (h : r.Spells l) : l.length ∈ r.ends l :=
  mem_ends.2 ⟨l,[],l.append_nil.symm,rfl,h⟩

section Characters

variable {r : Pattern} {s : Char → Prop} {l : Line}

theorem ne_of_holds {t : Char → Bool} {c d : Char} (hc : t c) (hd : ¬t d) : c ≠ d :=
  fun h => hd (h ▸ hc)

theorem forall_mem_bne {c : Char} : (∀ d ∈ l, d != c) ↔ c ∉ l := by
  simp only [bne_iff_ne]
  exact ⟨fun h hc => h c hc rfl,fun h d hd he => h (he ▸ hd)⟩

theorem Begins.exists_cons (h : r.Begins s) (hl : r.Spells l) : ∃ c k, l = c :: k ∧ s c := by
  obtain ⟨c,hc,hs⟩ := (h.ends l _ (length_mem_ends hl)).2
  obtain ⟨k,rfl⟩ := List.head?_eq_some_iff.1 hc
  exact ⟨c,k,rfl,hs⟩

theorem Within.forall_mem (h : r.Within s) (hl : r.Spells l) : ∀ c ∈ l, s c := by
  have hs := h.ends l _ (length_mem_ends hl)
  rwa [List.take_length] at hs

theorem Within.ends_append (h : r.Within s) {k : Line} (hk : ∀ c ∈ k.head?, ¬s c) :
    r.ends (l ++ k) = r.ends l := by
  rw [← r.filter_ends_append l k]
  refine (List.filter_eq_self.2 fun n hn => ?_).symm
  rw [decide_eq_true_eq]
  by_contra hlt
  obtain ⟨c,k,rfl⟩ : ∃ c k', k = c :: k' := by
    refine List.exists_cons_of_ne_nil fun hnil => hlt ?_
    have hle := r.ends_le (l ++ k) n hn
    rwa [hnil,List.append_nil] at hle
  have hmem : c ∈ (l ++ c :: k).take n := by
    obtain ⟨j,hj⟩ := Nat.exists_eq_add_of_lt (Nat.not_le.1 hlt)
    rw [hj,Nat.add_assoc,List.take_append]
    simp
  exact hk c rfl (h.ends _ n hn c hmem)

/-- Has every match a last character, and is it from the set? -/
def Closes (s : Char → Prop) (r : Pattern) : Prop := ∀ l, r.Spells l → ∃ a c, l = a ++ [c] ∧ s c

theorem Begins.closes {t : Char → Prop} (h : r.Begins t) (hw : r.Within s) : r.Closes s := by
  intro l hl
  obtain ⟨c,k,rfl,-⟩ := h.exists_cons hl
  have he : c :: k = (c :: k).dropLast ++ [(c :: k).getLast (by simp)] :=
    (List.dropLast_concat_getLast (by simp)).symm
  exact ⟨_,_,he,hw.forall_mem hl _ (List.getLast_mem _)⟩

theorem closes_seq {a b : Pattern} (hb : b.Closes s) : (seq a b).Closes s := by
  rintro _ ⟨x,y,rfl,-,hy⟩
  obtain ⟨z,c,rfl,hc⟩ := hb y hy
  exact ⟨x ++ z,c,(List.append_assoc x z [c]).symm,hc⟩

theorem closes_alt {a b : Pattern} (ha : a.Closes s) (hb : b.Closes s) : (alt a b).Closes s := by
  rintro l (hl | hl)
  · exact ha l hl
  · exact hb l hl

theorem closes_plus {a : Pattern} (ha : a.Closes s) : (plus a).Closes s := by
  intro l hl
  induction hl with
  | one hl => exact ha _ hl
  | @more x y _ _ ih =>
    obtain ⟨z,c,rfl,hc⟩ := ih
    exact ⟨x ++ z,c,(List.append_assoc x z [c]).symm,hc⟩

end Characters

section LastCharacter

def mayBeEmpty : Pattern → Bool
  | empty => true
  | one _ => false
  | many _ _ => false
  | seq a b => a.mayBeEmpty && b.mayBeEmpty
  | alt a b => a.mayBeEmpty || b.mayBeEmpty
  | plus a => a.mayBeEmpty

def mayEndWith (c : Char) : Pattern → Bool
  | empty => false
  | one s => s c
  | many _ s => s c
  | seq a b => b.mayEndWith c || b.mayBeEmpty && a.mayEndWith c
  | alt a b => a.mayEndWith c || b.mayEndWith c
  | plus a => a.mayEndWith c

variable {r : Pattern} {x y l : Line} {c : Char}

theorem mayBeEmpty_of_spells (h : r.Spells []) : r.mayBeEmpty := by
  induction r with
  | empty => rfl
  | one s =>
    obtain ⟨c,-,hc⟩ := h
    cases hc
  | many _ s => exact absurd rfl h.1
  | seq a b iha ihb =>
    obtain ⟨x,y,hxy,hx,hy⟩ := h
    obtain ⟨rfl,rfl⟩ := List.append_eq_nil_iff.1 hxy.symm
    exact Bool.and_eq_true_iff.2 ⟨iha hx,ihb hy⟩
  | alt a b iha ihb => exact Bool.or_eq_true_iff.2 (h.imp iha ihb)
  | plus a ih =>
    generalize hl : ([] : Line) = l at h
    cases h with
    | one hx => exact ih (hl ▸ hx)
    | more hx _ =>
      obtain ⟨rfl,-⟩ := List.append_eq_nil_iff.1 hl.symm
      exact ih hx

theorem append_singleton_eq_append (h : l ++ [c] = x ++ y) :
    y = [] ∧ x = l ++ [c] ∨ ∃ z, y = z ++ [c] := by
  rcases List.eq_nil_or_concat' y with rfl | ⟨z,d,rfl⟩
  · exact .inl ⟨rfl,by rw [h,List.append_nil]⟩
  · rw [← List.append_assoc] at h
    obtain ⟨-,hd⟩ := List.append_inj' h rfl
    exact .inr ⟨z,by rw [hd]⟩

theorem mayEndWith_of_spells (h : r.Spells (l ++ [c])) : r.mayEndWith c := by
  induction r generalizing l with
  | empty => exact absurd h (by simp [Spells])
  | one s =>
    obtain ⟨d,hd,he⟩ := h
    obtain ⟨-,he⟩ := List.append_inj' (he.trans (List.nil_append [d]).symm) rfl
    rwa [(List.cons.inj he).1]
  | many _ s => exact h.2 c (by simp)
  | seq a b iha ihb =>
    obtain ⟨x,y,hxy,hx,hy⟩ := h
    apply Bool.or_eq_true_iff.2
    rcases append_singleton_eq_append hxy with ⟨rfl,rfl⟩ | ⟨z,rfl⟩
    · exact .inr (Bool.and_eq_true_iff.2 ⟨mayBeEmpty_of_spells hy,iha hx⟩)
    · exact .inl (ihb hy)
  | alt a b iha ihb => exact Bool.or_eq_true_iff.2 (h.imp iha ihb)
  | plus a ih =>
    generalize hm : l ++ [c] = m at h
    induction h generalizing l with
    | one hx => exact ih (hm ▸ hx)
    | more hx _ iht =>
      rcases append_singleton_eq_append hm with ⟨-,rfl⟩ | ⟨z,rfl⟩
      · exact ih hx
      · exact iht rfl

end LastCharacter

section Combinators

theorem spells_char {c : Char} {l : Line} : (char c).Spells l ↔ l = [c] := by
  simp [char,Spells]

theorem spells_among {cs : List Char} {l : Line} : (among cs).Spells l ↔ ∃ c ∈ cs, l = [c] := by
  simp [among,Spells]

theorem spells_opt {r : Pattern} {l : Line} : (opt r).Spells l ↔ r.Spells l ∨ l = [] := Iff.rfl

theorem spells_many0 {s : Char → Bool} {l : Line} : (many0 s).Spells l ↔ ∀ c ∈ l, s c := by
  rw [many0,spells_opt]
  constructor
  · rintro (⟨-,h⟩ | rfl)
    · exact h
    · exact fun c hc => absurd hc List.not_mem_nil
  · intro h
    by_cases hl : l = []
    · exact .inr hl
    · exact .inl ⟨hl,h⟩

theorem spells_one_many0 {s t : Char → Bool} {l : Line} :
    (sequence [one s,many0 t]).Spells l ↔ ∃ c m, l = c :: m ∧ s c ∧ ∀ d ∈ m, t d := by
  constructor
  · rintro ⟨_,m,rfl,⟨c,hc,rfl⟩,hm⟩
    exact ⟨c,m,rfl,hc,spells_many0.1 hm⟩
  · rintro ⟨c,m,rfl,hc,hm⟩
    exact ⟨[c],m,rfl,⟨c,hc,rfl⟩,spells_many0.2 hm⟩

theorem spells_sequence_cons {r : Pattern} {rs : List Pattern} {l : Line} :
    (sequence (r :: rs)).Spells l ↔
      ∃ l₁ l₂, l = l₁ ++ l₂ ∧ r.Spells l₁ ∧ (sequence rs).Spells l₂ := by
  cases rs with
  | nil =>
    constructor
    · intro h
      exact ⟨l,[],l.append_nil.symm,h,rfl⟩
    · rintro ⟨l₁,_,rfl,h,rfl⟩
      rwa [List.append_nil]
  | cons r' rs => exact Iff.rfl

theorem spells_choice {rs : List Pattern} {l : Line} :
    (choice rs).Spells l ↔ ∃ r ∈ rs, r.Spells l := by
  induction rs with
  | nil => simp [choice,Spells]
  | cons r rs ih =>
    have hsplit : (choice (r :: rs)).Spells l ↔ r.Spells l ∨ (choice rs).Spells l := by
      cases rs with
      | nil => simp [choice,Spells]
      | cons r' rs => exact Iff.rfl
    rw [hsplit,ih,List.exists_mem_cons_iff]

theorem spells_row {s : Char → Char → Bool} {cs l : Line} :
    (sequence (cs.map fun c => one (s c))).Spells l ↔ List.Forall₂ (fun c d => s c d) cs l := by
  induction cs generalizing l with
  | nil => exact List.forall₂_nil_left_iff.symm
  | cons c cs ih =>
    rw [List.map_cons,spells_sequence_cons,List.forall₂_cons_left_iff]
    constructor
    · rintro ⟨_,m,rfl,⟨d,hd,rfl⟩,hm⟩
      exact ⟨d,m,hd,ih.1 hm,rfl⟩
    · rintro ⟨d,m,hd,hm,rfl⟩
      exact ⟨[d],m,rfl,⟨d,hd,rfl⟩,ih.2 hm⟩

theorem spells_text {w : String} {l : Line} : (text w).Spells l ↔ l = w.toList := by
  have hrow : (text w).Spells l ↔ List.Forall₂ (fun c d => d == c) w.toList l := spells_row
  have heq : (fun c d : Char => (d == c) = true) = Eq := by
    funext c d
    apply propext
    rw [beq_iff_eq,eq_comm]
  rw [hrow,heq,List.forall₂_eq_eq_eq,eq_comm]

theorem spells_caselessText {w : String} {l : Line} : (caselessText w).Spells l ↔
    List.Forall₂ (fun c d => d ∈ Unicode.asciiOrbit c) w.toList l := by
  have hrow : (caselessText w).Spells l ↔
      List.Forall₂ (fun c d => (Unicode.asciiOrbit c).contains d) w.toList l := spells_row
  simpa only [List.contains_iff_mem] using hrow

end Combinators

end PascalTokens.Pattern
