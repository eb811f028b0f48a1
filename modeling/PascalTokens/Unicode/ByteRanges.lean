import PascalTokens.CharSet

/-! The UTF-8 forms of a set of characters as sequences of byte ranges. A sequence stands for the
forms that have, one after the other, a byte from each of its ranges. -/
namespace PascalTokens.Unicode

structure ByteRange where
  first : UInt8
  last : UInt8
  deriving DecidableEq

/-- The ranges between the bytes of two forms of one length. -/
def byteRanges (first last : Nat) : List ByteRange :=
  List.zipWith ByteRange.mk (String.utf8EncodeChar (Char.ofNat first))
    (String.utf8EncodeChar (Char.ofNat last))

def lastOfLengths : List Nat := [0x7F, 0x7FF, 0xFFFF]

/-- How many characters have forms that differ in the last byte only, in the last two, and in the
last three. -/
def blockSizes : List Nat := [0x40, 0x1000, 0x40000]

/-- Where a run has to be cut that is not made of whole blocks of the size: the last character of
the first piece. -/
def blockCut? (r : CharRun) (size : Nat) : Option Nat :=
  if r.first / size = r.last / size then none
  else if r.first % size ≠ 0 then some (r.first / size * size + (size - 1))
  else if r.last % size ≠ size - 1 then some (r.last / size * size - 1)
  else none

def cut? (r : CharRun) : Option Nat :=
  (lastOfLengths.find? fun n => r.first ≤ n && n < r.last).or
    (if r.last ≤ 0x7F then none else blockSizes.findSome? (blockCut? r))

/-- The sequences of a run, in the order of their characters. The number bounds how often pieces
are cut again. -/
def sequencesWithin : Nat → CharRun → List (List ByteRange)
  | 0, _ => []
  | n + 1, r =>
    match cut? r with
    | some m => sequencesWithin n ⟨r.first,m⟩ ++ sequencesWithin n ⟨m + 1,r.last⟩
    | none => [byteRanges r.first r.last]

def withoutSurrogates (r : CharRun) : List CharRun :=
  [⟨r.first,min r.last 0xD7FF⟩,⟨max r.first 0xE000,r.last⟩].filter fun r => r.first ≤ r.last

/-- A piece is cut at most three times for its length and twice for every size of blocks. -/
def cutDepth : Nat := 10

def sequences (s : CharSet) : List (List ByteRange) :=
  (s.runs.flatMap withoutSurrogates).flatMap (sequencesWithin cutDepth)

example : sequences (CharSet.ofList ['\n']).complement =
    [[⟨0,9⟩], [⟨0x0B,0x7F⟩], [⟨0xC2,0xDF⟩, ⟨0x80,0xBF⟩],
     [⟨0xE0,0xE0⟩, ⟨0xA0,0xBF⟩, ⟨0x80,0xBF⟩], [⟨0xE1,0xEC⟩, ⟨0x80,0xBF⟩, ⟨0x80,0xBF⟩],
     [⟨0xED,0xED⟩, ⟨0x80,0x9F⟩, ⟨0x80,0xBF⟩], [⟨0xEE,0xEF⟩, ⟨0x80,0xBF⟩, ⟨0x80,0xBF⟩],
     [⟨0xF0,0xF0⟩, ⟨0x90,0xBF⟩, ⟨0x80,0xBF⟩, ⟨0x80,0xBF⟩],
     [⟨0xF1,0xF3⟩, ⟨0x80,0xBF⟩, ⟨0x80,0xBF⟩, ⟨0x80,0xBF⟩],
     [⟨0xF4,0xF4⟩, ⟨0x80,0x8F⟩, ⟨0x80,0xBF⟩, ⟨0x80,0xBF⟩]] := by decide +kernel

end PascalTokens.Unicode
