import Mathlib.Data.List.Forall2
import PascalTokens.Pattern.Combinators
import PascalTokens.Proofs.Pattern.Ends

/-! Characters that a pattern does not tell apart. If no set of a pattern does, it has the same matches
in texts that differ only by such characters. -/
namespace PascalTokens.Pattern

/-- Does the set hold both or neither of any two related characters? -/
def Blind (R : Char → Char → Prop) (s : Char → Bool) : Prop := ∀ c d, R c d → s c = s d

def IsBlind (R : Char → Char → Prop) : Pattern → Prop
  | empty => True
  | one s => Blind R s
  | many _ s => Blind R s
  | seq a b => a.IsBlind R ∧ b.IsBlind R
  | alt a b => a.IsBlind R ∧ b.IsBlind R
  | plus a => a.IsBlind R

variable {R : Char → Char → Prop}

section Matches

variable {l m : Line}

theorem Blind.manyEnds {s : Char → Bool} (h : Blind R s) (greedy : Bool) (hl : List.Forall₂ R l m) :
    manyEnds s greedy l = manyEnds s greedy m := by
  induction hl with
  | nil => rfl
  | cons hc _ ih => rw [Pattern.manyEnds,Pattern.manyEnds,h _ _ hc,ih]

theorem turnEnds_congr {body : Line → List Nat}
    (h : ∀ l m, List.Forall₂ R l m → body l = body m) (n : Nat) (hl : List.Forall₂ R l m) :
    turnEnds body n l = turnEnds body n m := by
  induction n generalizing l m with
  | zero => exact h l m hl
  | succ n ih =>
    rw [turnEnds,turnEnds,h l m hl]
    refine List.flatMap_congr fun j _ => ?_
    rw [ih (List.forall₂_drop j hl)]

theorem IsBlind.ends {r : Pattern} (h : r.IsBlind R) (hl : List.Forall₂ R l m) :
    r.ends l = r.ends m := by
  induction r generalizing l m with
  | empty => rfl
  | one s =>
    cases hl with
    | nil => rfl
    | cons hc _ => rw [Pattern.ends,Pattern.ends,h _ _ hc]
  | many greedy s => exact Blind.manyEnds h greedy hl
  | seq a b iha ihb =>
    rw [Pattern.ends,Pattern.ends,iha h.1 hl]
    refine List.flatMap_congr fun n _ => ?_
    rw [ihb h.2 (List.forall₂_drop n hl)]
  | alt a b iha ihb => rw [Pattern.ends,Pattern.ends,iha h.1 hl,ihb h.2 hl]
  | plus a ih =>
    rw [Pattern.ends,Pattern.ends,hl.length_eq]
    exact turnEnds_congr (fun l m hl => ih h hl) _ hl

theorem IsBlind.length? {r : Pattern} (h : r.IsBlind R) (hl : List.Forall₂ R l m) :
    r.length? l = r.length? m := by
  rw [Pattern.length?,Pattern.length?,h.ends hl]

end Matches

section Combinators

theorem isBlind_opt {r : Pattern} : (opt r).IsBlind R ↔ r.IsBlind R := by
  simp [opt,IsBlind]

theorem isBlind_sequence {rs : List Pattern} : (sequence rs).IsBlind R ↔ ∀ r ∈ rs, r.IsBlind R := by
  induction rs with
  | nil => simp [sequence,IsBlind]
  | cons r rs ih =>
    cases rs with
    | nil => simp [sequence]
    | cons r' rs =>
      rw [List.forall_mem_cons,← ih]
      rfl

theorem isBlind_choice {rs : List Pattern} (h : ∀ r ∈ rs, r.IsBlind R) : (choice rs).IsBlind R := by
  induction rs with
  | nil => exact fun c d _ => rfl
  | cons r rs ih =>
    obtain ⟨hr,hrs⟩ := List.forall_mem_cons.1 h
    cases rs with
    | nil => exact hr
    | cons r' rs => exact ⟨hr,ih hrs⟩

theorem isBlind_text {w : String} (h : ∀ c ∈ w.toList, Blind R (· == c)) : (text w).IsBlind R :=
  isBlind_sequence.2 (List.forall_mem_map.2 h)

theorem isBlind_caselessText {w : String}
    (h : ∀ c ∈ w.toList, Blind R (Unicode.asciiOrbit c).contains) : (caselessText w).IsBlind R :=
  isBlind_sequence.2 (List.forall_mem_map.2 h)

end Combinators

end PascalTokens.Pattern
