import Mathlib.Data.List.Basic
import PascalTokens.Place
import PascalTokens.Proofs.Offsets

/-! Places of one line. They are known by their offsets, and from each of them one goes on over the
rest of the line. -/
namespace PascalTokens.Place

def start (l : Line) : Place := ⟨0,none,l⟩

/-- The place after the part `a` of a line, where the part `b` follows. -/
def between (a b : Line) : Place := ⟨a.bytes,a.getLast?,b⟩

/-- The text between `p` and a place `q` further on. -/
def textTo (p q : Place) : Line := p.rest.take (p.rest.length - q.rest.length)

def skip : Place → Nat → Place
  | p, 0 => p
  | p, n + 1 =>
    match p.rest with
    | [] => p
    | c :: l => (p.past c l).skip n

def onward (p : Place) : List Place := ofRest p.offset p.last p.rest

@[simp] theorem past_rest (p : Place) (c : Char) (l : Line) : (p.past c l).rest = l := rfl

@[simp] theorem past_offset (p : Place) (c : Char) (l : Line) :
    (p.past c l).offset = p.offset + c.utf8Size := rfl

@[simp] theorem skip_zero (p : Place) : p.skip 0 = p := rfl

theorem skip_succ {p : Place} {c : Char} {l : Line} (h : p.rest = c :: l) (n : Nat) :
    p.skip (n + 1) = (p.past c l).skip n := by
  simp [skip,h]

@[simp] theorem rest_skip (n : Nat) (p : Place) : (p.skip n).rest = p.rest.drop n := by
  induction n generalizing p with
  | zero => rfl
  | succ n ih =>
    cases h : p.rest with
    | nil => simp [skip,h]
    | cons c l => simp [skip_succ h,ih]

theorem offset_skip (n : Nat) (p : Place) :
    (p.skip n).offset = p.offset + Line.bytes (p.rest.take n) := by
  induction n generalizing p with
  | zero => simp
  | succ n ih =>
    cases h : p.rest with
    | nil => simp [skip,h]
    | cons c l => simp [skip_succ h,ih,Nat.add_assoc]

theorem skip_add (m n : Nat) (p : Place) : p.skip (m + n) = (p.skip m).skip n := by
  induction m generalizing p with
  | zero => simp
  | succ m ih =>
    rw [Nat.succ_add]
    cases h : p.rest with
    | nil =>
      have he (k : Nat) : p.skip k = p := by cases k <;> simp [skip,h]
      simp [he]
    | cons c l => rw [skip_succ h,skip_succ h,ih]

theorem offset_lt_skip {p : Place} {m n : Nat} (h : m < n) (hn : n ≤ p.rest.length) :
    (p.skip m).offset < (p.skip n).offset := by
  obtain ⟨d,rfl⟩ := Nat.exists_eq_add_of_lt h
  rw [Nat.add_assoc,skip_add,offset_skip (d + 1)]
  have hd : (p.skip m).rest.take (d + 1) ≠ [] := by
    intro he
    have hl := congrArg List.length he
    simp only [rest_skip,List.length_take,List.length_drop,List.length_nil] at hl
    omega
  have := Line.bytes_pos hd
  omega

theorem offset_skip_lt_iff {p : Place} {m n : Nat} (hm : m ≤ p.rest.length)
    (hn : n ≤ p.rest.length) : (p.skip m).offset < (p.skip n).offset ↔ m < n := by
  constructor
  · intro h
    rcases Nat.lt_trichotomy m n with hlt | rfl | hlt
    · exact hlt
    · exact absurd h (Nat.lt_irrefl _)
    · exact absurd h (Nat.lt_asymm (offset_lt_skip hlt hm))
  · intro h
    exact offset_lt_skip h hn

theorem Reaches.textTo {p q : Place} (h : p.Reaches q) :
    p.rest = p.textTo q ++ q.rest ∧ q.offset = p.offset + (p.textTo q).bytes := by
  obtain ⟨t,ht,ho⟩ := h.exists_text
  have e : p.textTo q = t := by simp [Place.textTo,ht]
  rw [e]
  exact ⟨ht,ho⟩

theorem Reaches.rest_shorter {p q : Place} (h : p.Reaches q) (hlt : p.offset < q.offset) :
    q.rest.length < p.rest.length := by
  obtain ⟨ht,ho⟩ := h.textTo
  have hne : p.textTo q ≠ [] := by
    intro he
    simp [he] at ho
    omega
  rw [ht,List.length_append]
  have := List.length_pos_iff.2 hne
  omega

theorem Reaches.offset_le {p q : Place} (h : p.Reaches q) : p.offset ≤ q.offset := by
  have := h.textTo.2
  omega

theorem Reaches.offset_of_rest_nil {p q : Place} (h : p.Reaches q) (e : p.rest = []) :
    q.offset = p.offset := by
  obtain ⟨ht,ho⟩ := h.textTo
  have hn : p.textTo q = [] := by simp [Place.textTo,e]
  simpa [hn] using ho

@[simp] theorem textTo_skip (n : Nat) (p : Place) : p.textTo (p.skip n) = p.rest.take n := by
  rw [textTo,rest_skip,List.length_drop]
  by_cases h : n ≤ p.rest.length
  · rw [Nat.sub_sub_self h]
  · rw [List.take_of_length_le (by omega),List.take_of_length_le (by omega)]

theorem onward_cons {p : Place} {c : Char} {l : Line} (h : p.rest = c :: l) :
    p.onward = p :: (p.past c l).onward := by
  obtain ⟨o,a,r⟩ := p
  cases h
  rfl

theorem onward_nil {p : Place} (h : p.rest = []) : p.onward = [p] := by
  obtain ⟨o,a,r⟩ := p
  cases h
  rfl

theorem mem_onward {p q : Place} : q ∈ p.onward ↔ p.Reaches q := by
  generalize e : p.rest = l
  induction l generalizing p with
  | nil =>
    rw [onward_nil e,List.mem_singleton]
    constructor
    · rintro rfl; exact .refl _
    · intro h
      cases h with
      | refl => rfl
      | past e' => rw [e] at e'; cases e'
  | cons c l ih =>
    rw [onward_cons e,List.mem_cons,ih (p.past_rest c l)]
    constructor
    · rintro (rfl | h)
      · exact .refl _
      · exact .past e h
    · intro h
      cases h with
      | refl => exact .inl rfl
      | past e' h =>
        rw [e] at e'
        cases e'
        exact .inr h

theorem past_between (a : Line) (c : Char) (b : Line) :
    (between a (c :: b)).past c b = between (a ++ [c]) b := by
  simp [between,past]

theorem reaches_between {a b : Line} {q : Place} :
    (between a b).Reaches q ↔ ∃ m k, b = m ++ k ∧ q = between (a ++ m) k := by
  induction b generalizing a with
  | nil =>
    constructor
    · intro h
      cases h with
      | refl => exact ⟨[],[],rfl,by rw [List.append_nil]⟩
      | past e _ => cases e
    · rintro ⟨m,k,h,rfl⟩
      obtain ⟨rfl,rfl⟩ := List.append_eq_nil_iff.1 h.symm
      rw [List.append_nil]
      exact .refl _
  | cons c b ih =>
    constructor
    · intro h
      cases h with
      | refl => exact ⟨[],c :: b,rfl,by rw [List.append_nil]⟩
      | past e h =>
        cases e
        rw [past_between] at h
        obtain ⟨m,k,rfl,rfl⟩ := ih.1 h
        exact ⟨c :: m,k,rfl,by rw [List.append_assoc]; rfl⟩
    · rintro ⟨m,k,h,rfl⟩
      cases m with
      | nil =>
        rw [List.append_nil,h]
        exact .refl _
      | cons d m =>
        obtain ⟨rfl,rfl⟩ := List.cons.inj h
        refine .past rfl ?_
        rw [past_between]
        exact ih.2 ⟨m,k,rfl,by rw [List.append_assoc]; rfl⟩

theorem mem_ofLine {l : Line} {p : Place} :
    p ∈ ofLine l ↔ ∃ a b, l = a ++ b ∧ p = between a b :=
  mem_onward.trans (reaches_between (a := []))

theorem pairwise_onward (p : Place) : p.onward.Pairwise fun q r => q.offset < r.offset := by
  generalize e : p.rest = l
  induction l generalizing p with
  | nil => simp [onward_nil e]
  | cons c l ih =>
    rw [onward_cons e,List.pairwise_cons]
    refine ⟨?_,ih _ rfl⟩
    intro q hq
    have h := (mem_onward.1 hq).offset_le
    have := c.utf8Size_pos
    rw [past_offset] at h
    omega

theorem Reaches.onward {p q : Place} (h : p.Reaches q) :
    ∃ ps, p.onward = ps ++ q.onward ∧ ∀ r ∈ ps, r.offset < q.offset := by
  induction h with
  | refl p => exact ⟨[],rfl,by simp⟩
  | @past p q c l e h ih =>
    obtain ⟨ps,hp,hlt⟩ := ih
    refine ⟨p :: ps,by rw [onward_cons e,hp]; rfl,?_⟩
    intro r hr
    rcases List.mem_cons.1 hr with rfl | hr
    · have := h.offset_le
      have := c.utf8Size_pos
      rw [past_offset] at *
      omega
    · exact hlt r hr

end PascalTokens.Place
