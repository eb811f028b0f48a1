import PascalTokens.Pattern.Basic
import PascalTokens.Proofs.Places
import PascalTokens.Proofs.Search

/-! The matches of a pattern as a list, in the order in which backtracking finds them. Whether one
of them goes on is asked of each in turn, so backtracking is a search in the list. The matches in a
part of a text are those of the whole text that end within the part. -/
namespace PascalTokens.Pattern

def manyEnds (s : Char → Bool) (greedy : Bool) : Line → List Nat
  | [] => []
  | c :: l =>
    if s c then
      if greedy then (manyEnds s greedy l).map (· + 1) ++ [1]
      else 1 :: (manyEnds s greedy l).map (· + 1)
    else []

/-- The lengths of one turn and of more, at most as many more as the number says. -/
def turnEnds (body : Line → List Nat) : Nat → Line → List Nat
  | 0, l => body l
  | n + 1, l => (body l).flatMap fun m =>
    if 0 < m then (turnEnds body n (l.drop m)).map (m + ·) ++ [m] else [m]

/-- The lengths of all matches with which a text begins, the preferred first. -/
def ends : Pattern → Line → List Nat
  | empty, _ => [0]
  | one _, [] => []
  | one s, c :: _ => if s c then [1] else []
  | many greedy s, l => manyEnds s greedy l
  | seq a b, l => (a.ends l).flatMap fun n => (b.ends (l.drop n)).map (n + ·)
  | alt a b, l => a.ends l ++ b.ends l
  | plus a, l => turnEnds a.ends l.length l

/-- The length of the preferred match, if it is not empty. -/
def length? (r : Pattern) (l : Line) : Option Nat := (r.ends l).head?.filter (0 < ·)

theorem mem_manyEnds_cons {s : Char → Bool} {greedy : Bool} {c : Char} {l : Line} {n : Nat} :
    n ∈ manyEnds s greedy (c :: l) ↔ s c ∧ (n = 1 ∨ ∃ m ∈ manyEnds s greedy l, n = m + 1) := by
  by_cases h : s c
  · have hn : (∃ m ∈ manyEnds s greedy l, m + 1 = n) ↔ ∃ m ∈ manyEnds s greedy l, n = m + 1 := by
      simp only [eq_comm]
    cases greedy with
    | true => simp [manyEnds,h,hn,or_comm]
    | false => simp [manyEnds,h,hn]
  · simp [manyEnds,h]

theorem mem_turnEnds_succ {body : Line → List Nat} {n m : Nat} {l : Line} :
    m ∈ turnEnds body (n + 1) l ↔
      ∃ j ∈ body l, m = j ∨ 0 < j ∧ ∃ i ∈ turnEnds body n (l.drop j), m = j + i := by
  rw [turnEnds,List.mem_flatMap]
  refine exists_congr fun j => and_congr_right fun _ => ?_
  by_cases h : 0 < j
  · simp [h,or_comm,eq_comm]
  · simp [h]

theorem mem_ends_one {s : Char → Bool} {l : Line} {n : Nat} :
    n ∈ (one s).ends l ↔ n = 1 ∧ ∃ c k, l = c :: k ∧ s c := by
  cases l with
  | nil => simp [ends]
  | cons c l =>
    by_cases h : s c
    · simp [ends,h]
    · simp [ends,h]

theorem mem_ends_seq {a b : Pattern} {l : Line} {n : Nat} :
    n ∈ (seq a b).ends l ↔ ∃ m ∈ a.ends l, ∃ j ∈ b.ends (l.drop m), n = m + j := by
  simp [ends,eq_comm]

theorem mem_ends_alt {a b : Pattern} {l : Line} {n : Nat} :
    n ∈ (alt a b).ends l ↔ n ∈ a.ends l ∨ n ∈ b.ends l :=
  List.mem_append

theorem manyEnds_bounds {s : Char → Bool} {greedy : Bool} {l : Line} :
    ∀ n ∈ manyEnds s greedy l, 0 < n ∧ n ≤ l.length := by
  induction l with
  | nil => simp [manyEnds]
  | cons c l ih =>
    intro n hn
    obtain ⟨-,rfl | ⟨m,hm,rfl⟩⟩ := mem_manyEnds_cons.1 hn
    · simp
    · have := ih m hm
      simp only [List.length_cons]
      omega

theorem turnEnds_le {body : Line → List Nat} (h : ∀ l, ∀ n ∈ body l, n ≤ l.length) (n : Nat)
    (l : Line) : ∀ m ∈ turnEnds body n l, m ≤ l.length := by
  induction n generalizing l with
  | zero => exact h l
  | succ n ih =>
    intro m hm
    obtain ⟨j,hj,rfl | ⟨-,i,hi,rfl⟩⟩ := mem_turnEnds_succ.1 hm
    · exact h l m hj
    · have hjl := h l j hj
      have hil := ih (l.drop j) i hi
      rw [List.length_drop] at hil
      omega

theorem ends_le (r : Pattern) (l : Line) : ∀ n ∈ r.ends l, n ≤ l.length := by
  induction r generalizing l with
  | empty => simp [ends]
  | one s =>
    intro n hn
    obtain ⟨rfl,c,k,rfl,-⟩ := mem_ends_one.1 hn
    simp
  | many greedy s => exact fun n hn => (manyEnds_bounds n hn).2
  | seq a b iha ihb =>
    intro n hn
    obtain ⟨m,hm,j,hj,rfl⟩ := mem_ends_seq.1 hn
    have ha := iha l m hm
    have hb := ihb (l.drop m) j hj
    rw [List.length_drop] at hb
    omega
  | alt a b iha ihb =>
    intro n hn
    rcases mem_ends_alt.1 hn with hn | hn
    · exact iha l n hn
    · exact ihb l n hn
  | plus a ih => exact turnEnds_le ih l.length l

theorem length?_eq_some {r : Pattern} {l : Line} {n : Nat} :
    r.length? l = some n ↔ (r.ends l).head? = some n ∧ 0 < n := by
  simp [length?,Option.filter_eq_some_iff]

theorem mem_ends_of_length? {r : Pattern} {l : Line} {n : Nat} (h : r.length? l = some n) :
    n ∈ r.ends l :=
  List.mem_of_mem_head? (length?_eq_some.1 h).1

theorem length?_bounds {r : Pattern} {l : Line} {n : Nat} (h : r.length? l = some n) :
    0 < n ∧ n ≤ l.length := by
  exact ⟨(length?_eq_some.1 h).2,r.ends_le l n (mem_ends_of_length? h)⟩

section Search

variable {k : Place → Option Place}

theorem findSome?_flatMap {α β γ : Type} (f : α → List β) (g : β → Option γ) (as : List α) :
    (as.flatMap f).findSome? g = as.findSome? fun a => (f a).findSome? g := by
  induction as with
  | nil => rfl
  | cons a as ih =>
    rw [List.flatMap_cons,List.findSome?_append,List.findSome?_cons,ih]
    cases (f a).findSome? g <;> rfl

theorem findSome?_congr {α β : Type} {f g : α → Option β} {as : List α}
    (h : ∀ a ∈ as, f a = g a) : as.findSome? f = as.findSome? g := by
  induction as with
  | nil => rfl
  | cons a as ih =>
    rw [List.findSome?_cons,List.findSome?_cons,h a List.mem_cons_self,
      ih fun b hb => h b (List.mem_cons_of_mem a hb)]

theorem comp_skip_succ {p : Place} {c : Char} {l : Line} (e : p.rest = c :: l) :
    (fun n => k (p.skip n)) ∘ (· + 1) = fun n => k ((p.past c l).skip n) := by
  funext n
  rw [Function.comp_apply,Place.skip_succ e]

theorem comp_skip_add (p : Place) (m : Nat) :
    (fun n => k (p.skip n)) ∘ (m + ·) = fun n => k ((p.skip m).skip n) := by
  funext n
  rw [Function.comp_apply,Place.skip_add]

theorem manyFrom_eq_findSome? (s : Char → Bool) (greedy : Bool) (p : Place) :
    manyFrom s greedy k p.offset p.rest =
      (manyEnds s greedy p.rest).findSome? fun n => k (p.skip n) := by
  generalize e : p.rest = l
  induction l generalizing p with
  | nil => rfl
  | cons c l ih =>
    have hm : manyFrom s greedy k (p.offset + c.utf8Size) l =
        ((manyEnds s greedy l).map (· + 1)).findSome? fun n => k (p.skip n) := by
      have hn := ih (p.past c l) rfl
      rw [Place.past_offset] at hn
      rw [hn,List.findSome?_map,comp_skip_succ e]
    have h1 : p.skip 1 = ⟨p.offset + c.utf8Size,some c,l⟩ := Place.skip_succ e 0
    by_cases hs : s c
    · cases greedy with
      | true =>
        rw [manyFrom,manyEnds,if_pos hs,if_pos hs,if_pos rfl,if_pos rfl,List.findSome?_append,hm]
        simp [h1]
      | false =>
        rw [manyFrom,manyEnds,if_pos hs,if_pos hs,if_neg Bool.false_ne_true,
          if_neg Bool.false_ne_true,List.findSome?_cons,hm,h1]
        cases k ⟨p.offset + c.utf8Size,some c,l⟩ <;> rfl
    · rw [manyFrom,manyEnds,if_neg hs,if_neg hs]
      rfl

theorem iterate_eq_findSome? {a : Pattern}
    (h : ∀ k p, a.run k p = (a.ends p.rest).findSome? fun n => k (p.skip n)) (n : Nat) (p : Place) :
    iterate a.run k n p = (turnEnds a.ends n p.rest).findSome? fun m => k (p.skip m) := by
  induction n generalizing p with
  | zero => exact h k p
  | succ n ih =>
    rw [iterate,turnEnds,h,findSome?_flatMap]
    refine findSome?_congr fun m hm => ?_
    by_cases hpos : 0 < m
    · have hlt : p.offset < (p.skip m).offset :=
        Place.offset_lt_skip hpos (a.ends_le p.rest m hm)
      rw [if_pos hlt,if_pos hpos,ih,Place.rest_skip,List.findSome?_append,List.findSome?_map,
        comp_skip_add]
      simp
    · have hz : m = 0 := by omega
      simp [hz]

end Search

/-- Backtracking tries the matches in their order. -/
theorem run_eq_findSome? (r : Pattern) (k : Place → Option Place) (p : Place) :
    r.run k p = (r.ends p.rest).findSome? fun n => k (p.skip n) := by
  induction r generalizing k p with
  | empty => simp [run,ends]
  | one s =>
    cases e : p.rest with
    | nil => simp [run,ends,e]
    | cons c l =>
      by_cases h : s c
      · simp [run,ends,e,h,Place.skip_succ e]
      · simp [run,ends,e,h]
  | many greedy s => exact manyFrom_eq_findSome? s greedy p
  | seq a b iha ihb =>
    rw [run,ends,iha,findSome?_flatMap]
    refine findSome?_congr fun n _ => ?_
    rw [ihb,Place.rest_skip,List.findSome?_map,comp_skip_add]
  | alt a b iha ihb => rw [run,ends,iha,ihb,List.findSome?_append]
  | plus a ih => exact iterate_eq_findSome? ih _ p

theorem endOf?_matcher (r : Pattern) (p : Place) :
    r.matcher.endOf? p = (r.ends p.rest).head?.map p.skip := by
  have h : r.matcher.endOf? p = (r.ends p.rest).findSome? fun n => some (p.skip n) :=
    r.run_eq_findSome? some p
  rw [h]
  cases r.ends p.rest <;> rfl

theorem matcher_congr {r s : Pattern} (h : ∀ l, (r.ends l).head? = (s.ends l).head?) :
    r.matcher = s.matcher := by
  have hend : r.matcher.endOf? = s.matcher.endOf? := by
    funext p
    rw [endOf?_matcher,endOf?_matcher,h]
  change r.run some = s.run some at hend
  simp only [matcher,hend]

theorem nonemptyEnd?_matcher (r : Pattern) (p : Place) :
    r.matcher.nonemptyEnd? p = (r.length? p.rest).map p.skip := by
  have hl := r.ends_le p.rest
  rw [Matcher.nonemptyEnd?,endOf?_matcher,length?]
  cases he : (r.ends p.rest).head? with
  | none => rfl
  | some n =>
    by_cases hpos : 0 < n
    · have hlt := Place.offset_lt_skip hpos (hl n (List.mem_of_mem_head? he))
      rw [Place.skip_zero] at hlt
      simp [Option.filter,hpos,hlt]
    · have hz : n = 0 := by omega
      simp [Option.filter,hz]

end PascalTokens.Pattern
