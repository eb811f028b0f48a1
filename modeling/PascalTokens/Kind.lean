/-! The kinds of lexemes. Their order is their priority: where two matches have the same extent,
the kind of the smaller rank wins. -/
namespace PascalTokens

inductive Kind
  | compilerDirective | comment | reservedWord | operator | number | stringOrCharacter
  | separator | identifier | invalid
  deriving DecidableEq

namespace Kind

/-- Highest priority first. -/
def all : List Kind :=
  [compilerDirective, comment, reservedWord, operator, number, stringOrCharacter, separator,
    identifier, invalid]

theorem mem_all (k : Kind) : k ∈ all := by cases k <;> decide

def rank : Kind → Nat
  | compilerDirective => 0
  | comment => 1
  | reservedWord => 2
  | operator => 3
  | number => 4
  | stringOrCharacter => 5
  | separator => 6
  | identifier => 7
  | invalid => 8

theorem rank_injective {j k : Kind} (h : j.rank = k.rank) : j = k := by
  revert h; cases j <;> cases k <;> decide

instance : Ord Kind := ⟨fun j k => compare j.rank k.rank⟩

def outranks (j k : Kind) : Bool := j.rank < k.rank

def name : Kind → String
  | compilerDirective => "CompilerDirective"
  | comment => "Comment"
  | reservedWord => "ReservedWord"
  | operator => "Operator"
  | number => "Number"
  | stringOrCharacter => "StringOrCharacter"
  | separator => "Separator"
  | identifier => "Identifier"
  | invalid => "Invalid"

instance : ToString Kind := ⟨name⟩

end Kind
end PascalTokens
