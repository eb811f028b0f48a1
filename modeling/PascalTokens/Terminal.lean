/-! Text for a terminal, without what a terminal would obey instead of showing: control characters
other than white space, and the sequences that an escape character begins.

Characters are shown in runs. A run begins with a character that is shown where it stands, goes on
as plain text does, and ends before a character that plain text hides; a sequence that the run
interrupted then goes on. -/
namespace PascalTokens.Terminal

/-- What the characters outside runs belong to. -/
inductive State
  | text
  | escape
  /-- A sequence of three or more characters that has not ended. -/
  | intermediate
  | parameters
  | deviceEntry
  | deviceParameters
  | deviceIntermediate
  /-- A string, which also ends at a byte 0x9C. -/
  | string
  /-- A string for the system, which also ends at a bell. -/
  | systemString
  deriving DecidableEq

def isControl (c : Char) : Bool := c.toNat < 0x20 || c.toNat = 0x7F

/-- The control characters that a terminal shows as white space. -/
def isBlankControl (c : Char) : Bool := c = '\t' || c = '\n' || c = '\x0c' || c = '\r'

def isPlain (c : Char) : Bool := !isControl c || isBlankControl c

def isBetween (c : Char) (first last : Nat) : Bool := first ≤ c.toNat && c.toNat ≤ last

def isAscii (c : Char) : Bool := c.toNat < 0x80

def interruption? (c : Char) : Option State :=
  if c = '\x18' || c = '\x1a' then some .text
  else if c = '\x1b' then some .escape
  else none

/-- The state that a printable character leads to. Those from outside ASCII only end strings. -/
def State.next (s : State) (c : Char) : State :=
  match s with
  | text => text
  | escape =>
    if c = '[' then parameters
    else if c = ']' then systemString
    else if c = 'P' then deviceEntry
    else if c = 'X' || c = '^' || c = '_' then string
    else if isBetween c 0x20 0x2F then intermediate
    else if isBetween c 0x30 0x7E then text
    else s
  | intermediate => if isBetween c 0x30 0x7E then text else s
  | parameters => if isBetween c 0x40 0x7E then text else s
  | deviceEntry =>
    if isBetween c 0x20 0x2F then deviceIntermediate
    else if isBetween c 0x30 0x3F then deviceParameters
    else if isBetween c 0x40 0x7E then string
    else s
  | deviceParameters =>
    if isBetween c 0x20 0x2F then deviceIntermediate
    else if isBetween c 0x3C 0x7E then string
    else s
  | deviceIntermediate => if isBetween c 0x30 0x7E then string else s
  | string => if (String.utf8EncodeChar c).contains 0x9C then text else s
  | systemString => if c = '\x07' then text else s

def State.shows (s : State) (c : Char) : Bool :=
  match s with
  | text => true
  | escape | intermediate | parameters => isBlankControl c
  | _ => false

/-- The state after `c` within a run. The state from before the run stays, up to the first character
from outside ASCII. -/
def State.along (s : State) (c : Char) : State := if isAscii c then s else text

/-- What is shown of characters that stand in a run, if `inRun`, or else after `s`. -/
def shownFrom (s : State) (inRun : Bool) : List Char → List Char
  | [] => []
  | c :: t =>
    if isPlain c && (inRun || s.shows c) then c :: shownFrom (s.along c) true t
    else shownFrom ((interruption? c).getD (s.next c)) false t

def shown (t : List Char) : List Char := shownFrom .text false t

example : shown ['a', '\x07', '\x1b', '[', '3', '1', 'm', 'b', '\n'] = ['a', 'b', '\n'] := by decide

example : shown ['a', '\x1b', '\t', 'b', '\x01', 'c', 'd'] = ['a', '\t', 'b', 'd'] := by decide

end PascalTokens.Terminal
