import PascalTokens.Expression.Basic
import PascalTokens.Unicode.ByteRanges
import Std.Data.TreeMap

/-! The memory that the automata for an expression take, of which one reads the bytes of a text
forwards and one backwards. The states are numbered in the order in which they are added. -/
namespace PascalTokens.Expression

inductive Direction
  | forwards | backwards
  deriving DecidableEq

def stateSize : Nat := 32

/-- The bytes that a state with several transitions takes for each. -/
def transitionSize : Nat := 8

/-- The bytes that a state with several successors takes for each. -/
def successorSize : Nat := 4

/-- An automaton as far as it has grown. -/
structure Extent where
  /-- The number of states, which is also the number that the next one has. -/
  states : Nat
  /-- The bytes of transitions and successors. -/
  links : Nat

/-- What a part adds to an automaton. -/
abbrev Growth := Extent → Extent

namespace Extent

def bytes (x : Extent) : Nat := x.states * stateSize + x.links

/-- No automaton may take more than this. -/
def maxBytes : Nat := 10 * 1024 * 1024

def isTooLarge (x : Extent) : Bool := maxBytes < x.bytes

def plus (y : Extent) : Growth := fun x => ⟨x.states + y.states,x.links + y.links⟩

def plain (n : Nat) : Growth := plus ⟨n,0⟩

def sparse (n : Nat) : Growth := plus ⟨1,n * transitionSize⟩

def union (n : Nat) : Growth := plus ⟨1,n * successorSize⟩

/-- The same part `n` times, or as often as makes the automaton too large. -/
def repeated (f : Growth) : Nat → Growth
  | 0, x => x
  | n + 1, x => if x.isTooLarge then x else repeated f n (f x)

end Extent

section Slots

variable {κ : Type} [DecidableEq κ]

/-- States that may be used again, by what they do. That also settles which of a number of slots
they are kept in, and a slot keeps the latest state only. -/
abbrev Slots (κ : Type) := Std.TreeMap Nat (κ × Nat)

def slotOf (capacity : Nat) (ns : List Nat) : Nat :=
  (ns.foldl (fun h n => (h ^^^ n.toUInt64) * 1099511628211)
    (14695981039346656037 : UInt64)).toNat % capacity

/-- The number of the state that does what `key` says, and whether that is a new state, which gets
the number `next`. -/
def Slots.share (t : Slots κ) (slot : Nat) (key : κ) (next : Nat) : Nat × Bool × Slots κ :=
  match t[slot]? with
  | some (k,n) => if k = key then (n,false,t) else (next,true,t.insert slot (key,next))
  | none => (next,true,t.insert slot (key,next))

end Slots

section Sets

open Unicode (ByteRange)

abbrev Transitions := List (ByteRange × Nat)

def transitionsSlots : Nat := 10000

def transitionSlots : Nat := 1000

/-- The first ranges of sequences, each with what follows it; neighbours of one first range are
taken together. -/
def byHead : List (List ByteRange) → List (ByteRange × List (List ByteRange))
  | [] => []
  | [] :: ss => byHead ss
  | (a :: s) :: ss =>
    match byHead ss with
    | [] => [(a,[s])]
    | (b,ts) :: gs => if a = b then (a,s :: ts) :: gs else (a,[s]) :: (b,ts) :: gs

/-- Adds what `read` adds for the sequences of a group, and the transition to where their reading
begins. -/
def addGroup (target : Nat)
    (read : List (List ByteRange) → Extent × Slots Transitions → Nat × Extent × Slots Transitions)
    (y : Transitions × Extent × Slots Transitions) (g : ByteRange × List (List ByteRange)) :
    Transitions × Extent × Slots Transitions :=
  let (m,x) := if g.2 = [[]] then (target,y.2) else read g.2 y.2
  (y.1 ++ [(g.1,m)],x)

/-- Adds what reads one of several sequences and ends in the state `target`, later states first;
gives the number of the state where reading begins. The first number bounds the lengths. -/
def addForwards (target : Nat) :
    Nat → List (List ByteRange) → Extent × Slots Transitions → Nat × Extent × Slots Transitions
  | 0, _, x => (target,x)
  | n + 1, ss, x =>
    let (ts,x,slots) := (byHead ss).foldl (addGroup target (addForwards target n)) ([],x)
    let slot := slotOf transitionsSlots
      (ts.flatMap fun t => [t.1.first.toNat,t.1.last.toNat,t.2])
    let (m,isNew,slots) := Slots.share slots slot ts x.states
    (m,if isNew then Extent.sparse ts.length x else x,slots)

/-- Adds what reads a sequence from its last range back to its first one and ends in the state
`target`, later states first. -/
def addBackwards (target : Nat) (s : List ByteRange) (x : Extent × Slots (Nat × ByteRange)) :
    Extent × Slots (Nat × ByteRange) :=
  (s.foldl (fun (next,x,slots) r =>
    let slot := slotOf transitionSlots [next,r.first.toNat,r.last.toNat]
    let (m,isNew,slots) := Slots.share slots slot (next,r) x.states
    (m,if isNew then Extent.plain 1 x else x,slots)) (target,x)).2

def maxFormLength : Nat := 4

/-- What reads one of several sequences: states that share what comes later, and backwards a state
with a successor for each sequence. -/
def sequencesGrowth (d : Direction) (ss : List (List ByteRange)) : Growth := fun x =>
  match d with
  | .forwards => (addForwards x.states maxFormLength ss (.plain 1 x,∅)).2.1
  | .backwards =>
    (ss.foldl (fun y s => addBackwards (x.states + 1) s y) (.plain 1 (.union ss.length x),∅)).1

end Sets

section Words

/-- The words between those that have ended. -/
def chunks : List (List UInt8) → List (List (List UInt8))
  | [] => [[]]
  | [] :: ws => [] :: chunks ws
  | w :: ws =>
    match chunks ws with
    | c :: cs => (w :: c) :: cs
    | [] => [[w]]

/-- A tree that reads one of several words and prefers the earlier ones. Words that have ended
before any other has begun count as one. The number bounds the length of a word. -/
def wordTreeWithin : Nat → List (List UInt8) → Growth
  | 0, _, x => x
  | n + 1, ws, x =>
    let begun := ws.dropWhile List.isEmpty
    if begun.isEmpty then x
    else
      let cs := if begun.length < ws.length then [] :: chunks begun else chunks begun
      let children := cs.map fun c => (c.filterMap List.head?).eraseDups.map fun b =>
        (c.filter (·.head? = some b)).map List.tail
      let x := children.foldl (fun x ts =>
        let x := if ts.length = 1 then .plain 1 x else if ts.isEmpty then x else .sparse ts.length x
        ts.foldl (fun x t => wordTreeWithin n t x) x) x
      .union ((children.filter (!·.isEmpty)).length + (cs.length - 1)) x

def wordTree (ws : List (List UInt8)) : Extent :=
  wordTreeWithin (ws.flatten.length + 1) ws ⟨1,0⟩

end Words

/-- A branch of a choice, or an expression that is no choice. -/
structure Part where
  growth : Growth
  word : Option (List UInt8)

namespace Part

def ofGrowth (f : Growth) : Part := ⟨f,none⟩

def ofText (d : Direction) (t : List Char) : Part :=
  let bytes := t.flatMap String.utf8EncodeChar
  match d with
  | .forwards => ⟨.plain bytes.length,some bytes⟩
  | .backwards => ⟨.plain bytes.length,some bytes.reverse⟩

/-- ASCII takes two states. -/
def ofSet (d : Direction) (s : CharSet) : Part :=
  if s.runs.all (·.last < 0x80) then .ofGrowth fun x => .sparse s.runs.length (.plain 1 x)
  else .ofGrowth (sequencesGrowth d (Unicode.sequences s))

/-- The states in which a choice begins and ends come after its second branch. -/
def branchesGrowth (ps : List Part) : Growth := fun x =>
  let x := (ps.take 2).foldl (fun x p => p.growth x) x
  (ps.drop 2).foldl (fun x p => p.growth x) (.plain 1 (.union ps.length x))

def ofBranches : List Part → Part
  | [p] => p
  | ps =>
    match ps.mapM (·.word) with
    | some ws => .ofGrowth (.plus (wordTree ws))
    | none => .ofGrowth (branchesGrowth ps)

end Part

def timesGrowth (least : Nat) (most : Option Nat) (consumes : Bool) (f : Growth) : Growth :=
  fun x =>
    match least, most with
    | 0, none =>
      if consumes then f (.union 2 x) else .plain 1 (.union 2 (.union 2 (f x)))
    | least + 1, none => .union 2 (.repeated f (least + 1) x)
    | 0, some 1 => .plain 1 (f (.union 2 x))
    | least, some most =>
      if least = most then .repeated f least x
      else
        let x := if least = 0 then .plain 1 x else .repeated f least x
        .repeated (fun x => f (.union 2 x)) (most - least) (.plain 1 x)

def branchParts (d : Direction) : Expression → List Part
  | empty | look _ => [.ofGrowth (.plain 1)]
  | text t => [.ofText d t]
  | one s => [.ofSet d s]
  | group _ a =>
    let f := (Part.ofBranches (a.branchParts d)).growth
    match d with
    | .forwards => [.ofGrowth fun x => .plain 1 (f (.plain 1 x))]
    | .backwards => [.ofGrowth f]
  | times least most _ a =>
    [.ofGrowth (timesGrowth least most a.consumes (Part.ofBranches (a.branchParts d)).growth)]
  | seq a b =>
    let f := (Part.ofBranches (a.branchParts d)).growth
    let g := (Part.ofBranches (b.branchParts d)).growth
    match d with
    | .forwards => [.ofGrowth fun x => g (f x)]
    | .backwards => [.ofGrowth fun x => f (g x)]
  | alt a b => a.branchParts d ++ b.branchParts d

/-- Does every match begin (read forwards) or end (read backwards) where the anchor holds, by the
form of the expression? -/
def isAnchored (d : Direction) (anchor : Anchor) : Expression → Bool
  | empty | text _ | one _ => false
  | look a => a = anchor
  | group _ a => a.isAnchored d anchor
  | times least _ _ a => least != 0 && a.isAnchored d anchor
  | seq a b =>
    match d with
    | .forwards => a.isAnchored d anchor || a.isEmptyOnly && b.isAnchored d anchor
    | .backwards => b.isAnchored d anchor || b.isEmptyOnly && a.isAnchored d anchor
  | alt a b => a.isAnchored d anchor && b.isAnchored d anchor

/-- What passes over the text before a match. -/
def approach (isAnchored : Bool) : Growth := fun x =>
  if isAnchored then .plain 1 x else .sparse 1 (.plain 1 (.union 2 x))

def automaton (d : Direction) (e : Expression) : Extent :=
  let f := (Part.ofBranches (e.branchParts d)).growth
  match d with
  | .forwards => .plain 2 (f (.plain 1 (approach (e.isAnchored d .lineStart) ⟨0,0⟩)))
  | .backwards => .plain 1 (f (approach (e.isAnchored d .lineEnd) ⟨0,0⟩))

def isTooLarge (e : Expression) : Bool :=
  (e.automaton .forwards).isTooLarge || (e.automaton .backwards).isTooLarge

end PascalTokens.Expression
