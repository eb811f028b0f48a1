import PascalTokens.Expression.Basic
import PascalTokens.Matcher
import Std.Data.TreeSet

/-! How regular expressions match. Of the matches that begin at a place the preferred one is the
first that backtracking finds when it makes every choice in order of preference, but no choice
twice at one place: what follows a choice is the same each time, so a choice that has failed fails
again, and one that is met again within itself would go round for ever. A choice has a label; the
copies of a repeated body have different ones. -/
namespace PascalTokens.Expression

/-- The choices made, each with the offset where. -/
abbrev Choices :=
  Std.TreeSet (Nat × Nat) (compareLex (compareOn (·.1)) (compareOn (·.2)))

/-- What goes on at a place: the end of the match, if there is one, and the choices made. -/
abbrev Course := Place → Choices → Option Place × Choices

def stop : Course := fun p made => (some p,made)

/-- Goes on as `k` does, unless the choice was made before. -/
def once (label : Nat) (k : Course) : Course := fun p made =>
  if made.contains (label,p.offset) then (none,made) else k p (made.insert (label,p.offset))

def orElse (a b : Course) : Course := fun p made =>
  match a p made with
  | (none,made) => b p made
  | found => found

def turnOrEnd (greedy : Bool) (turn leave : Course) : Course :=
  if greedy then orElse turn leave else orElse leave turn

def labels : Expression → Nat
  | empty | text _ | one _ | look _ => 0
  | group _ a => a.labels
  | seq a b => a.labels + b.labels
  | alt a b => a.labels + b.labels + 1
  | times least (some most) _ a => least * a.labels + (most - least) * (a.labels + 1)
  | times 0 none _ a => a.labels + 2
  | times (least + 1) none _ a => (least + 1) * a.labels + 1

/-- `n` copies of a body with `size` labels, the first from `label` on. -/
def copies (body : Nat → Course → Course) (size : Nat) : Nat → Nat → Course → Course
  | 0, _, k, p, made => k p made
  | n + 1, label, k, p, made => body label (copies body size n (label + size) k) p made

/-- At most `n` copies, with a choice before each. -/
def optionalCopies (greedy : Bool) (body : Nat → Course → Course) (size : Nat) :
    Nat → Nat → Course → Course
  | 0, _, k, p, made => k p made
  | n + 1, label, k, p, made =>
    once label (turnOrEnd greedy
      (body (label + 1) (optionalCopies greedy body size n (label + 1 + size) k)) k) p made

/-- Fewer than so many turns. Turns that consume nothing end by themselves, and of others there are no
more than there are characters. -/
def turns (greedy : Bool) (label : Nat) (body : Course → Course) (k : Course) : Nat → Course
  | 0, _, made => (none,made)
  | n + 1, p, made => once label (turnOrEnd greedy (body (turns greedy label body k n)) k) p made

def someTurns (greedy : Bool) (label : Nat) (body : Course → Course) (k : Course) : Course :=
  fun p made => body (turns greedy label body k (p.rest.length + 1)) p made

/-- Matches from a place and goes on with `k` where a match ends. The labels begin at `label`. -/
def run : Expression → Nat → Course → Course
  | empty, _, k, p, made => k p made
  | text t, _, k, p, made =>
    match p.pastText t with
    | some q => k q made
    | none => (none,made)
  | one s, _, k, p, made =>
    match p.rest with
    | [] => (none,made)
    | c :: l => if s.contains c then k (p.past c l) made else (none,made)
  | look a, _, k, p, made => if a.holds p then k p made else (none,made)
  | group _ a, label, k, p, made => a.run label k p made
  | seq a b, label, k, p, made => a.run label (b.run (label + a.labels) k) p made
  | alt a b, label, k, p, made =>
    once label (orElse (a.run (label + 1) k) (b.run (label + 1 + a.labels) k)) p made
  | times least (some most) greedy a, label, k, p, made =>
    copies a.run a.labels least label
      (optionalCopies greedy a.run a.labels (most - least) (label + least * a.labels) k) p made
  | times 0 none greedy a, label, k, p, made =>
    if a.consumes then turns greedy label (a.run (label + 2)) k (p.rest.length + 1) p made
    else once label (turnOrEnd greedy
      (someTurns greedy (label + 1) (a.run (label + 2)) k) k) p made
  | times (least + 1) none greedy a, label, k, p, made =>
    copies a.run a.labels least (label + 1)
      (someTurns greedy label (a.run (label + 1 + least * a.labels)) k) p made

def Passes (c k : Course) : Prop :=
  ∀ p made s, (c p made).1 = some s → ∃ q made, p.Reaches q ∧ (k q made).1 = some s

namespace Passes

theorem refl (k : Course) : Passes k k := fun p made _ h => ⟨p,made,.refl p,h⟩

theorem trans {a b c : Course} (h : Passes a b) (k : Passes b c) : Passes a c := by
  intro p made s e
  obtain ⟨q,made,hq,e⟩ := h p made s e
  obtain ⟨r,made,hr,e⟩ := k q made s e
  exact ⟨r,made,hq.trans hr,e⟩

theorem once {c k : Course} (h : Passes c k) (label : Nat) : Passes (once label c) k := by
  intro p made s e
  unfold Expression.once at e
  split at e
  · cases e
  · exact h p _ s e

theorem orElse {a b k : Course} (h : Passes a k) (g : Passes b k) : Passes (orElse a b) k := by
  intro p made s e
  unfold Expression.orElse at e
  split at e
  · exact g p _ s e
  · exact h p made s e

theorem turnOrEnd {a b k : Course} (h : Passes a k) (g : Passes b k) (greedy : Bool) :
    Passes (turnOrEnd greedy a b) k := by
  cases greedy
  · exact g.orElse h
  · exact h.orElse g

theorem copies {body : Nat → Course → Course} (h : ∀ label k, Passes (body label k) k)
    (size n label : Nat) (k : Course) : Passes (copies body size n label k) k := by
  induction n generalizing label with
  | zero => exact refl k
  | succ n ih => exact (h label _).trans (ih (label + size))

theorem optionalCopies {body : Nat → Course → Course} (h : ∀ label k, Passes (body label k) k)
    (greedy : Bool) (size n label : Nat) (k : Course) :
    Passes (optionalCopies greedy body size n label k) k := by
  induction n generalizing label with
  | zero => exact refl k
  | succ n ih => exact (((h (label + 1) _).trans (ih _)).turnOrEnd (refl k) greedy).once label

theorem turns {body : Course → Course} (h : ∀ k, Passes (body k) k) (greedy : Bool)
    (label : Nat) (k : Course) (n : Nat) : Passes (turns greedy label body k n) k := by
  induction n with
  | zero => exact fun p made s e => nomatch e
  | succ n ih => exact (((h _).trans ih).turnOrEnd (refl k) greedy).once label

theorem someTurns {body : Course → Course} (h : ∀ k, Passes (body k) k) (greedy : Bool)
    (label : Nat) (k : Course) : Passes (someTurns greedy label body k) k :=
  fun p made s e => (h _).trans (turns h greedy label k (p.rest.length + 1)) p made s e

theorem run (e : Expression) (label : Nat) (k : Course) : Passes (e.run label k) k := by
  induction e generalizing label k with
  | empty => exact refl k
  | text t =>
    intro p made s h
    simp only [Expression.run] at h
    split at h
    · rename_i q hq
      exact ⟨q,made,Place.reaches_pastText hq,h⟩
    · cases h
  | one set =>
    intro p made s h
    simp only [Expression.run] at h
    split at h
    · cases h
    · rename_i c l hl
      split at h
      · exact ⟨_,made,.past hl (.refl _),h⟩
      · cases h
  | look a =>
    intro p made s h
    simp only [Expression.run] at h
    split at h
    · exact ⟨p,made,.refl p,h⟩
    · cases h
  | group _ a ih => exact ih label k
  | seq a b iha ihb => exact (iha label _).trans (ihb _ k)
  | alt a b iha ihb => exact ((iha _ k).orElse (ihb _ k)).once label
  | times least most greedy a ih =>
    cases most with
    | some most => exact (copies ih _ _ _ _).trans (optionalCopies ih greedy _ _ _ k)
    | none =>
      cases least with
      | zero =>
        intro p made s h
        simp only [Expression.run] at h
        split at h
        · exact turns (ih _) greedy label k _ p made s h
        · exact ((someTurns (ih _) greedy _ k).turnOrEnd (refl k) greedy).once label p made s h
      | succ least => exact (copies ih _ _ _ _).trans (someTurns (ih _) greedy label k)

end Passes

def matcher (e : Expression) : Matcher where
  endOf? p := (e.run 0 stop p ∅).1
  reaches p q h := by
    obtain ⟨r,made,hr,h⟩ := Passes.run e 0 stop p ∅ q h
    cases h
    exact hr

end PascalTokens.Expression
