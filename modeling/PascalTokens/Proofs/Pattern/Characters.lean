import PascalTokens.Pattern.Combinators
import PascalTokens.Proofs.Pattern.Ends

/-! The characters of matches, read off a pattern: those that a match may begin with, and those that
it may hold. -/
namespace PascalTokens.Pattern

/-- Has every match a first character, and is it from the set? -/
def Begins (s : Char → Prop) : Pattern → Prop
  | empty => False
  | one t => ∀ c, t c → s c
  | many _ t => ∀ c, t c → s c
  | seq a _ => a.Begins s
  | alt a b => a.Begins s ∧ b.Begins s
  | plus a => a.Begins s

/-- Are all characters of every match from the set? -/
def Within (s : Char → Prop) : Pattern → Prop
  | empty => True
  | one t => ∀ c, t c → s c
  | many _ t => ∀ c, t c → s c
  | seq a b => a.Within s ∧ b.Within s
  | alt a b => a.Within s ∧ b.Within s
  | plus a => a.Within s

section Matches

variable {s : Char → Prop}

@[simp] theorem not_begins_empty : ¬empty.Begins s := id

@[simp] theorem begins_one {t : Char → Bool} : (one t).Begins s ↔ ∀ c, t c → s c := Iff.rfl

@[simp] theorem within_empty : empty.Within s := trivial

@[simp] theorem within_one {t : Char → Bool} : (one t).Within s ↔ ∀ c, t c → s c := Iff.rfl

@[simp] theorem within_alt {a b : Pattern} : (alt a b).Within s ↔ a.Within s ∧ b.Within s := Iff.rfl

theorem Begins.imp {t : Char → Prop} (hst : ∀ c, s c → t c) {r : Pattern} (h : r.Begins s) :
    r.Begins t := by
  induction r with
  | empty => exact h
  | one u => exact fun c hc => hst c (h c hc)
  | many _ u => exact fun c hc => hst c (h c hc)
  | seq a b iha _ => exact iha h
  | alt a b iha ihb => exact ⟨iha h.1,ihb h.2⟩
  | plus a ih => exact ih h

theorem Within.imp {t : Char → Prop} (hst : ∀ c, s c → t c) {r : Pattern} (h : r.Within s) :
    r.Within t := by
  induction r with
  | empty => trivial
  | one u => exact fun c hc => hst c (h c hc)
  | many _ u => exact fun c hc => hst c (h c hc)
  | seq a b iha ihb => exact ⟨iha h.1,ihb h.2⟩
  | alt a b iha ihb => exact ⟨iha h.1,ihb h.2⟩
  | plus a ih => exact ih h

theorem Begins.manyEnds {t : Char → Bool} (h : ∀ c, t c → s c) {greedy : Bool} {l : Line} :
    ∀ n ∈ manyEnds t greedy l, 0 < n ∧ ∃ c ∈ l.head?, s c := by
  intro n hn
  refine ⟨(manyEnds_bounds n hn).1,?_⟩
  cases l with
  | nil => cases hn
  | cons c l => exact ⟨c,rfl,h c (mem_manyEnds_cons.1 hn).1⟩

theorem Begins.turnEnds {body : Line → List Nat}
    (h : ∀ l, ∀ n ∈ body l, 0 < n ∧ ∃ c ∈ l.head?, s c) (n : Nat) (l : Line) :
    ∀ m ∈ turnEnds body n l, 0 < m ∧ ∃ c ∈ l.head?, s c := by
  cases n with
  | zero => exact h l
  | succ n =>
    intro m hm
    obtain ⟨j,hj,hm⟩ := mem_turnEnds_succ.1 hm
    have hturn := h l j hj
    refine ⟨?_,hturn.2⟩
    rcases hm with rfl | ⟨-,i,-,rfl⟩
    · exact hturn.1
    · omega

theorem Begins.ends {r : Pattern} (h : r.Begins s) (l : Line) :
    ∀ n ∈ r.ends l, 0 < n ∧ ∃ c ∈ l.head?, s c := by
  induction r generalizing l with
  | empty => exact h.elim
  | one t =>
    intro n hn
    obtain ⟨rfl,c,k,rfl,ht⟩ := mem_ends_one.1 hn
    exact ⟨Nat.one_pos,c,rfl,h c ht⟩
  | many greedy t => exact Begins.manyEnds h
  | seq a b iha _ =>
    intro n hn
    obtain ⟨m,hm,j,-,rfl⟩ := mem_ends_seq.1 hn
    have ha := iha h l m hm
    exact ⟨by omega,ha.2⟩
  | alt a b iha ihb =>
    intro n hn
    rcases mem_ends_alt.1 hn with hn | hn
    · exact iha h.1 l n hn
    · exact ihb h.2 l n hn
  | plus a ih => exact Begins.turnEnds (ih h) l.length l

theorem forall_mem_take_add {l : Line} {m n : Nat} (hm : ∀ c ∈ l.take m, s c)
    (hn : ∀ c ∈ (l.drop m).take n, s c) : ∀ c ∈ l.take (m + n), s c := by
  rw [List.take_add]
  exact List.forall_mem_append.2 ⟨hm,hn⟩

theorem Within.manyEnds {t : Char → Bool} (h : ∀ c, t c → s c) {greedy : Bool} {l : Line} :
    ∀ n ∈ manyEnds t greedy l, ∀ c ∈ l.take n, s c := by
  induction l with
  | nil => simp
  | cons d l ih =>
    intro n hn
    obtain ⟨ht,rfl | ⟨m,hm,rfl⟩⟩ := mem_manyEnds_cons.1 hn
    · simpa using h d ht
    · rw [List.take_succ_cons]
      exact List.forall_mem_cons.2 ⟨h d ht,ih m hm⟩

theorem Within.turnEnds {body : Line → List Nat}
    (h : ∀ l, ∀ n ∈ body l, ∀ c ∈ l.take n, s c) (n : Nat) (l : Line) :
    ∀ m ∈ turnEnds body n l, ∀ c ∈ l.take m, s c := by
  induction n generalizing l with
  | zero => exact h l
  | succ n ih =>
    intro m hm
    obtain ⟨j,hj,rfl | ⟨-,i,hi,rfl⟩⟩ := mem_turnEnds_succ.1 hm
    · exact h l m hj
    · exact forall_mem_take_add (h l j hj) (ih (l.drop j) i hi)

theorem Within.ends {r : Pattern} (h : r.Within s) (l : Line) :
    ∀ n ∈ r.ends l, ∀ c ∈ l.take n, s c := by
  induction r generalizing l with
  | empty => simp [Pattern.ends]
  | one t =>
    intro n hn
    obtain ⟨rfl,c,k,rfl,ht⟩ := mem_ends_one.1 hn
    simpa using h c ht
  | many greedy t => exact Within.manyEnds h
  | seq a b iha ihb =>
    intro n hn
    obtain ⟨m,hm,j,hj,rfl⟩ := mem_ends_seq.1 hn
    exact forall_mem_take_add (iha h.1 l m hm) (ihb h.2 (l.drop m) j hj)
  | alt a b iha ihb =>
    intro n hn
    rcases mem_ends_alt.1 hn with hn | hn
    · exact iha h.1 l n hn
    · exact ihb h.2 l n hn
  | plus a ih => exact Within.turnEnds (ih h) l.length l

theorem Begins.of_length? {r : Pattern} (h : r.Begins s) {l : Line} {n : Nat}
    (hn : r.length? l = some n) : ∃ c k, l.take n = c :: k ∧ s c := by
  obtain ⟨hpos,c,hc,hs⟩ := h.ends l n (mem_ends_of_length? hn)
  obtain ⟨k,rfl⟩ := List.head?_eq_some_iff.1 hc
  obtain ⟨m,rfl⟩ := Nat.exists_eq_succ_of_ne_zero (Nat.ne_of_gt hpos)
  exact ⟨c,k.take m,rfl,hs⟩

theorem Within.of_length? {r : Pattern} (h : r.Within s) {l : Line} {n : Nat}
    (hn : r.length? l = some n) : ∀ c ∈ l.take n, s c :=
  h.ends l n (mem_ends_of_length? hn)

theorem Begins.length?_isSome {r : Pattern} (h : r.Begins s) {l : Line} (hl : r.ends l ≠ []) :
    (r.length? l).isSome := by
  obtain ⟨n,ns,he⟩ := List.exists_cons_of_ne_nil hl
  have hpos := (h.ends l n (by simp [he])).1
  simp [length?,he,hpos]

end Matches

section Combinators

variable {s : Char → Prop}

theorem begins_char {c : Char} : (char c).Begins s ↔ s c := by
  simp [char]

theorem begins_among {cs : List Char} : (among cs).Begins s ↔ ∀ c ∈ cs, s c := by
  simp [among]

theorem begins_sequence_cons {r : Pattern} {rs : List Pattern} :
    (sequence (r :: rs)).Begins s ↔ r.Begins s := by
  cases rs <;> rfl

theorem begins_choice {rs : List Pattern} : (choice rs).Begins s ↔ ∀ r ∈ rs, r.Begins s := by
  induction rs with
  | nil => simp [choice]
  | cons r rs ih =>
    cases rs with
    | nil => simp [choice]
    | cons r' rs =>
      rw [List.forall_mem_cons,← ih]
      rfl

theorem begins_text {w : String} : (text w).Begins s ↔ ∃ c ∈ w.toList.head?, s c := by
  rw [text]
  cases w.toList with
  | nil => simp [sequence]
  | cons c cs => rw [List.map_cons,begins_sequence_cons,begins_char]; simp

theorem begins_caselessText {w : String} :
    (caselessText w).Begins s ↔ ∃ c ∈ w.toList.head?, ∀ d ∈ Unicode.asciiOrbit c, s d := by
  rw [caselessText]
  cases w.toList with
  | nil => simp [sequence]
  | cons c cs => rw [List.map_cons,begins_sequence_cons,caseless,begins_among]; simp

theorem within_char {c : Char} : (char c).Within s ↔ s c := by
  simp [char]

theorem within_among {cs : List Char} : (among cs).Within s ↔ ∀ c ∈ cs, s c := by
  simp [among]

theorem within_opt {r : Pattern} : (opt r).Within s ↔ r.Within s := by
  simp [opt]

theorem within_sequence {rs : List Pattern} : (sequence rs).Within s ↔ ∀ r ∈ rs, r.Within s := by
  induction rs with
  | nil => simp [sequence]
  | cons r rs ih =>
    cases rs with
    | nil => simp [sequence]
    | cons r' rs =>
      rw [List.forall_mem_cons,← ih]
      rfl

theorem within_choice {rs : List Pattern} : (choice rs).Within s ↔ ∀ r ∈ rs, r.Within s := by
  induction rs with
  | nil => simp [choice]
  | cons r rs ih =>
    cases rs with
    | nil => simp [choice]
    | cons r' rs =>
      rw [List.forall_mem_cons,← ih]
      rfl

theorem within_text {w : String} : (text w).Within s ↔ ∀ c ∈ w.toList, s c := by
  simp [text,within_sequence,within_char]

theorem within_caselessText {w : String} :
    (caselessText w).Within s ↔ ∀ c ∈ w.toList, ∀ d ∈ Unicode.asciiOrbit c, s d := by
  simp [caselessText,caseless,within_sequence,within_among]

end Combinators

end PascalTokens.Pattern
