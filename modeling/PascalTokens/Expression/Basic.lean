import PascalTokens.CharSet
import PascalTokens.Place

/-! Regular expressions in a reduced form. Sequences and choices are lists that associate to the
right: the first member of a sequence is no sequence and the first member of a choice no choice. -/
namespace PascalTokens

inductive Expression
  | empty
  /-- A text that is not empty. -/
  | text (t : List Char)
  | one (set : CharSet)
  | look (anchor : Anchor)
  /-- A group in parentheses, which the number tells from others. -/
  | group (number : Nat) (body : Expression)
  /-- At least `least` times and at most `most` times, if there is a bound; as often as possible
  if `greedy`, else as seldom. -/
  | times (least : Nat) (most : Option Nat) (greedy : Bool) (body : Expression)
  | seq (first second : Expression)
  | alt (first second : Expression)
  deriving DecidableEq

namespace Expression

/-- The least number of characters in a match; none if there is an empty set to match. -/
def leastLength : Expression → Option Nat
  | empty | look _ => some 0
  | text t => some t.length
  | one s => if s.isEmpty then none else some 1
  | group _ a => a.leastLength
  | times least _ _ a => a.leastLength.map (least * ·)
  | seq a b => do return (← a.leastLength) + (← b.leastLength)
  | alt a b => do return min (← a.leastLength) (← b.leastLength)

def consumes (e : Expression) : Bool := e.leastLength.any (0 < ·)

/-- Is every match empty, by the form of the expression? -/
def isEmptyOnly : Expression → Bool
  | empty | look _ => true
  | text _ | one _ => false
  | group _ a => a.isEmptyOnly
  | times _ most _ a => most.isSome && a.isEmptyOnly
  | seq a b | alt a b => a.isEmptyOnly && b.isEmptyOnly

def nodes : Expression → Nat
  | empty | text _ | one _ | look _ => 1
  | group _ a | times _ _ _ a => a.nodes + 1
  | seq a b | alt a b => a.nodes + b.nodes + 1

def ofSet (s : CharSet) : Expression := s.single?.elim (one s) fun c => text [c]

/-- A repetition. One of an expression with empty matches only makes no second turn. -/
def repetition (least : Nat) (most : Option Nat) (greedy : Bool) (e : Expression) : Expression :=
  let least := if e.isEmptyOnly then min least 1 else least
  let most := if e.isEmptyOnly then some (min (most.getD 1) 1) else most
  if most = some 0 then empty
  else if least = 1 && most = some 1 then e
  else times least most greedy e

def parts : Expression → List Expression
  | empty => []
  | seq a b => a :: b.parts
  | e => [e]

/-- Puts a member before others; texts join. -/
def joinPart : Expression → List Expression → List Expression
  | text t, text u :: es => text (t ++ u) :: es
  | e, es => e :: es

def ofParts : List Expression → Expression
  | [] => empty
  | [e] => e
  | e :: es => seq e (ofParts es)

def sequence (es : List Expression) : Expression :=
  ofParts ((es.flatMap parts).foldr joinPart [])

def branches : Expression → List Expression
  | alt a b => a :: b.branches
  | e => [e]

def ofBranches : List Expression → Expression
  | [] => one .empty
  | [e] => e
  | e :: es => alt e (ofBranches es)

def character? : Expression → Option Char
  | text [c] => some c
  | _ => none

def set? : Expression → Option CharSet
  | one s => some s
  | _ => none

def parts? : Expression → Option (List Expression)
  | seq a b => some (seq a b).parts
  | _ => none

def commonPrefix : List Expression → List Expression → List Expression
  | a :: as, b :: bs => if a = b then a :: commonPrefix as bs else []
  | _, _ => []

def sharedParts (es : List Expression) : List Expression :=
  match es.mapM parts? with
  | some (ps :: pss) => pss.foldl commonPrefix ps
  | _ => []

/-- A choice. One between characters or between sets is a set, and what all sequences begin with
comes before the choice; the number bounds how often that is done. -/
def choiceWithin : Nat → List Expression → Expression
  | 0, es => ofBranches es
  | n + 1, es =>
    let es := es.flatMap branches
    match es.mapM character? with
    | some cs => ofSet (.ofList cs)
    | none =>
      match es.mapM set? with
      | some ss => ofSet (ss.foldl .union .empty)
      | none =>
        match sharedParts es with
        | [] => ofBranches es
        | ps =>
          let rests := es.map fun e => sequence (e.parts.drop ps.length)
          sequence (ps ++ [choiceWithin n rests])

def choice : List Expression → Expression
  | [e] => e
  | es => choiceWithin (es.foldr (fun e n => e.nodes + n) 0) es

end Expression
end PascalTokens
