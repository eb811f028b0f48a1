import PascalTokens.Kind
import PascalTokens.Line

/-! Candidates, the matches found in a line before conflicts between them are resolved, and
tokens, the ones that remain, with their text. -/
namespace PascalTokens

structure Candidate where
  kind : Kind
  span : Span
  deriving DecidableEq

structure Token where
  kind : Kind
  value : String
  /-- Counts from 1. -/
  line : Nat
  span : Span
  deriving DecidableEq

def Candidate.token (c : Candidate) (text : Line) (line : Nat) : Token :=
  ⟨c.kind,String.ofList (text.slice c.span),line,c.span⟩

/-- The token that `c` becomes, unless its span would cut a character or leave the line. -/
def Candidate.token? (c : Candidate) (text : Line) (line : Nat) : Option Token :=
  if text.fits c.span then some (c.token text line) else none

namespace Token

def candidate (t : Token) : Candidate := ⟨t.kind,t.span⟩

@[simp] theorem candidate_token (c : Candidate) (text : Line) (line : Nat) :
    (c.token text line).candidate = c := rfl

def isComment (t : Token) : Bool := t.kind = .comment

def length (t : Token) : Nat := t.span.stop - t.span.start

def isEmpty (t : Token) : Bool := t.length = 0

instance : ToString Token := ⟨fun t => t.kind.name ++ " '" ++ t.value ++ "'"⟩

end Token
end PascalTokens
