import PascalTokens.Expression.AutomatonSize
import PascalTokens.Expression.Matching

/-! The notation of regular expressions: literal characters, `.`, classes in brackets, `^`, `$`,
groups, `|`, and `*`, `+`, `?`, `{n}`, `{n,}`, `{n,m}` after what they repeat, each with a `?` after
it to prefer few turns. `(?i)` ignores case up to the end of its group. A text is read in three
steps: escapes, pieces, and the nesting of groups. What is nested too deeply is refused, and so is
what takes too large an automaton. -/
namespace PascalTokens.ExpressionText

inductive Fault
  | loneBackslash | unknownEscape | unclosedClass | nestedClass | setOperation | invalidRange
  | unclosedGroup | unopenedGroup | unknownGroup | nothingToRepeat | invalidCount | tooDeep | tooLarge
  deriving DecidableEq

def Fault.message : Fault → String
  | loneBackslash => "nothing follows a backslash"
  | unknownEscape => "unknown escape"
  | unclosedClass => "unclosed character class"
  | nestedClass => "a class within a class"
  | setOperation => "an operation on classes"
  | invalidRange => "invalid range in a class"
  | unclosedGroup => "unclosed group"
  | unopenedGroup => "unopened group"
  | unknownGroup => "unknown kind of group"
  | nothingToRepeat => "nothing to repeat"
  | invalidCount => "invalid count of repetitions"
  | tooDeep => "the expression is nested too deeply"
  | tooLarge => "the expression is too large"

/-- A character of the notation, or one with a backslash before it. -/
inductive Symbol
  | plain (c : Char)
  | escaped (c : Char)
  deriving DecidableEq

def symbols : List Char → Except Fault (List Symbol)
  | [] => .ok []
  | ['\\'] => .error .loneBackslash
  | '\\' :: c :: t => (symbols t).map (.escaped c :: ·)
  | c :: t => (symbols t).map (.plain c :: ·)

inductive Escape
  | literal (c : Char)
  | set (s : CharSet)
  | look (anchor : Anchor)

def escape : Char → Except Fault Escape
  | 'd' => .ok (.set .decimalDigits)
  | 'D' => .ok (.set CharSet.decimalDigits.complement)
  | 's' => .ok (.set .whiteSpace)
  | 'S' => .ok (.set CharSet.whiteSpace.complement)
  | 'w' => .ok (.set .wordCharacters)
  | 'W' => .ok (.set CharSet.wordCharacters.complement)
  | 'b' => .ok (.look .wordBoundary)
  | '<' => .ok (.look .wordStart)
  | '>' => .ok (.look .wordEnd)
  | 'a' => .ok (.literal '\x07')
  | 'f' => .ok (.literal '\x0c')
  | 't' => .ok (.literal '\t')
  | 'n' => .ok (.literal '\n')
  | 'r' => .ok (.literal '\r')
  | 'v' => .ok (.literal '\x0b')
  | c =>
    if c.toNat < 128 && !c.isAlphanum then .ok (.literal c)
    else .error .unknownEscape

/-- The character that an end of a range stands for. -/
def Symbol.literal : Symbol → Except Fault Char
  | plain c => .ok c
  | escaped c => do
    match ← escape c with
    | .literal d => return d
    | _ => .error .invalidRange

def Symbol.members : Symbol → Except Fault CharSet
  | plain c => .ok (.singleton c)
  | escaped c => do
    match ← escape c with
    | .literal d => return .singleton d
    | .set s => return s
    | .look _ => .error .unknownEscape

def range (first last : Symbol) : Except Fault CharSet := do
  let a ← first.literal
  let b ← last.literal
  if a ≤ b then return .range a b else .error .invalidRange

/-- A sign that begins an operation on classes where it stands twice. -/
def isSetSign (x : Symbol) : Bool := x = .plain '-' || x = .plain '&' || x = .plain '~'

/-- The end of a range whose hyphen `xs` begins with. A hyphen before another one or before the
closing bracket is a member. -/
def rangeEnd? : List Symbol → Option Symbol
  | .plain '-' :: x :: _ => if x = .plain ']' || x = .plain '-' then none else some x
  | _ => none

/-- The members of a class up to the bracket that closes it, and what follows. -/
def classMembers : List Symbol → Except Fault (List CharSet × List Symbol)
  | [] => .error .unclosedClass
  | x :: xs =>
    if x = .plain ']' then .ok ([],xs)
    else if x = .plain '[' then .error .nestedClass
    else if isSetSign x && xs.head? = some x then .error .setOperation
    else match rangeEnd? xs with
      | some y => do
        let s ← range x y
        let (ss,after) ← classMembers (xs.drop 2)
        return (s :: ss,after)
      | none => do
        let s ← x.members
        let (ss,after) ← classMembers xs
        return (s :: ss,after)
  termination_by xs => xs.length
  decreasing_by all_goals simp only [List.length_drop,List.length_cons]; omega

/-- Whether a class is negated, its members and what follows it. Hyphens at its start, and else a
closing bracket there, are members. -/
def characterClass (xs : List Symbol) : Except Fault (Bool × List CharSet × List Symbol) := do
  let negated := xs.head? = some (.plain '^')
  let xs := if negated then xs.tail else xs
  let isHyphen : Symbol → Bool := (· = .plain '-')
  let hyphens := (xs.takeWhile isHyphen).map fun _ => CharSet.singleton '-'
  let xs := xs.dropWhile isHyphen
  if hyphens.isEmpty && xs.head? = some (.plain ']') then
    let (ss,after) ← classMembers xs.tail
    return (negated,.singleton ']' :: ss,after)
  else
    let (ss,after) ← classMembers xs
    return (negated,hyphens ++ ss,after)

def isSpace : Symbol → Bool
  | .plain c => Unicode.isWhiteSpace c
  | .escaped _ => false

def digit? : Symbol → Option Nat
  | .plain c => if c.isDigit then some (c.toNat - '0'.toNat) else none
  | .escaped _ => none

def count (xs : List Symbol) : Except Fault (Nat × List Symbol) :=
  let xs := xs.dropWhile isSpace
  let digits := (xs.takeWhile fun x => (digit? x).isSome).filterMap digit?
  let n := digits.foldl (fun n d => 10 * n + d) 0
  if digits.isEmpty || n ≥ 0x100000000 then .error .invalidCount
  else .ok (n,(xs.drop digits.length).dropWhile isSpace)

def bounds (xs : List Symbol) : Except Fault (Nat × Option Nat × List Symbol) := do
  match ← count xs with
  | (n,.plain '}' :: after) => return (n,some n,after)
  | (n,.plain ',' :: .plain '}' :: after) => return (n,none,after)
  | (n,.plain ',' :: rest) =>
    match ← count rest with
    | (m,.plain '}' :: after) =>
      if n ≤ m then return (n,some m,after) else .error .invalidCount
    | _ => .error .invalidCount
  | _ => .error .invalidCount

inductive Piece
  | character (c : Char)
  | set (s : CharSet)
  | members (negated : Bool) (ss : List CharSet)
  | look (anchor : Anchor)
  | opening (numbered : Bool)
  | closing
  | bar
  | ignoreCase
  | times (least : Nat) (most : Option Nat) (greedy : Bool)
  deriving DecidableEq

/-- A repetition, whose greed a question mark after it takes away. -/
def repetition (least : Nat) (most : Option Nat) : List Symbol → Piece × List Symbol
  | .plain '?' :: after => (.times least most false,after)
  | after => (.times least most true,after)

def piece (x : Symbol) (xs : List Symbol) : Except Fault (Piece × List Symbol) :=
  match x, xs with
  | .plain '(', .plain '?' :: .plain ':' :: after => .ok (.opening false,after)
  | .plain '(', .plain '?' :: .plain 'i' :: .plain ')' :: after => .ok (.ignoreCase,after)
  | .plain '(', .plain '?' :: _ => .error .unknownGroup
  | .plain '(', after => .ok (.opening true,after)
  | .plain ')', after => .ok (.closing,after)
  | .plain '|', after => .ok (.bar,after)
  | .plain '*', after => .ok (repetition 0 none after)
  | .plain '+', after => .ok (repetition 1 none after)
  | .plain '?', after => .ok (repetition 0 (some 1) after)
  | .plain '\x7b', after => do
    let (least,most,after) ← bounds after
    return repetition least most after
  | .plain '[', after => do
    let (negated,ss,after) ← characterClass after
    return (.members negated ss,after)
  | .plain '.', after => .ok (.set (CharSet.singleton '\n').complement,after)
  | .plain '^', after => .ok (.look .lineStart,after)
  | .plain '$', after => .ok (.look .lineEnd,after)
  | .plain c, after => .ok (.character c,after)
  | .escaped c, after => do
    match ← escape c with
    | .literal d => return (.character d,after)
    | .set s => return (.set s,after)
    | .look a => return (.look a,after)

/-- Each piece takes a symbol at least, so as many steps as there are symbols suffice. -/
def piecesWithin : Nat → List Symbol → Except Fault (List Piece)
  | _, [] => .ok []
  | 0, _ => .ok []
  | n + 1, x :: xs => do
    let (p,after) ← piece x xs
    return p :: (← piecesWithin n after)

def pieces (xs : List Symbol) : Except Fault (List Piece) := piecesWithin xs.length xs

/-- An expression, with the number of groups, choices, sequences, repetitions and classes that lie
in one another in what was written for it. -/
structure Nested where
  depth : Nat
  expression : Expression

namespace Nested

def depthOf (ns : List Nested) : Nat :=
  let deepest := ns.foldl (fun n m => max n m.depth) 0
  if ns.length ≤ 1 then deepest else deepest + 1

def sequence (ns : List Nested) : Nested := ⟨depthOf ns,.sequence (ns.map (·.expression))⟩

def choice (ns : List Nested) : Nested := ⟨depthOf ns,.choice (ns.map (·.expression))⟩

def within (n : Nested) (f : Expression → Expression) : Nested := ⟨n.depth + 1,f n.expression⟩

end Nested

def character (ignoreCase : Bool) (c : Char) : Expression :=
  if ignoreCase then .ofSet (.ofList (Unicode.orbit c)) else .text [c]

def members (ignoreCase negated : Bool) (ss : List CharSet) : Expression :=
  let s := ss.foldl .union .empty
  let s := if ignoreCase then s.caseless else s
  .ofSet (if negated then s.complement else s)

structure Group where
  number : Option Nat
  ignoreCase : Bool
  /-- The branches before the present one, last first. -/
  branches : List Nested
  /-- The parts of the present branch, last first. -/
  parts : List Nested
  repeatable : Bool

namespace Group

def opened (number : Option Nat) (ignoreCase : Bool) : Group := ⟨number,ignoreCase,[],[],false⟩

def push (g : Group) (n : Nested) : Group := { g with parts := n :: g.parts, repeatable := true }

def branch (g : Group) : Nested := .sequence g.parts.reverse

def content (g : Group) : Nested := .choice (g.branch :: g.branches).reverse

def closed (g : Group) : Nested := g.content.within (g.number.elim id .group)

end Group

/-- Reads pieces into the group `g`, which lies in the groups `outer`, innermost first. The groups
so far have numbers below `next`. -/
def nest (next : Nat) (g : Group) (outer : List Group) : List Piece → Except Fault Nested
  | [] => if outer.isEmpty then .ok g.content else .error .unclosedGroup
  | .character c :: ps => nest next (g.push ⟨0,character g.ignoreCase c⟩) outer ps
  | .set s :: ps => nest next (g.push ⟨0,.ofSet s⟩) outer ps
  | .members negated ss :: ps =>
    nest next (g.push ⟨if ss.length ≤ 1 then 1 else 2,members g.ignoreCase negated ss⟩) outer ps
  | .look a :: ps => nest next (g.push ⟨0,.look a⟩) outer ps
  | .opening numbered :: ps =>
    if numbered then nest (next + 1) (.opened (some next) g.ignoreCase) (g :: outer) ps
    else nest next (.opened none g.ignoreCase) (g :: outer) ps
  | .closing :: ps =>
    match outer with
    | [] => .error .unopenedGroup
    | h :: outer => nest next (h.push g.closed) outer ps
  | .bar :: ps =>
    nest next { g with branches := g.branch :: g.branches, parts := [], repeatable := false }
      outer ps
  | .ignoreCase :: ps =>
    nest next { g.push ⟨0,.empty⟩ with ignoreCase := true, repeatable := false } outer ps
  | .times least most greedy :: ps =>
    match g.repeatable, g.parts with
    | true, n :: ns =>
      nest next { g with parts := n.within (.repetition least most greedy) :: ns } outer ps
    | _, _ => .error .nothingToRepeat

/-- No construct may lie in more than this many others. -/
def maxDepth : Nat := 250

/-- Reads a text, however deep and large the expression is. -/
def read (s : String) : Except Fault Nested := do
  nest 1 (.opened none false) [] (← pieces (← symbols s.toList))

def parse (s : String) : Except Fault Expression := do
  let n ← read s
  if maxDepth < n.depth then .error .tooDeep
  else if n.expression.isTooLarge then .error .tooLarge
  else return n.expression

def compile (s : String) : Except String Matcher :=
  match parse s with
  | .ok e => .ok e.matcher
  | .error f => .error f.message

end PascalTokens.ExpressionText
