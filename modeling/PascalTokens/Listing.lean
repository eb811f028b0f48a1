import PascalTokens.Token

/-! Tokens in print: the listing, with one line for each token, and the summary, with one line for
each kind that occurs. -/
namespace PascalTokens

structure ListingOptions where
  showComments : Bool
  positions : Bool
  deriving DecidableEq

namespace ListingOptions

def shows (o : ListingOptions) (t : Token) : Bool := !t.isComment || o.showComments

def entry (o : ListingOptions) (t : Token) : String :=
  (if o.positions then
    toString t.line ++ ":" ++ toString t.span.start ++ "-" ++ toString t.span.stop ++ " "
  else "") ++ toString t ++ "\n"

end ListingOptions

def listing (ts : List Token) (o : ListingOptions) : String :=
  String.join ((ts.filter o.shows).map o.entry)

namespace Summary

def count (ts : List Token) (k : Kind) : Nat := ts.countP (·.kind = k)

/-- How often each kind occurs, highest priority first, without the kinds that do not. -/
def ofTokens (ts : List Token) : List (Kind × Nat) :=
  (Kind.all.map fun k => (k,count ts k)).filter fun p => p.2 > 0

def columnWidth : Nat := 18

def entry (p : Kind × Nat) : String :=
  String.ofList (List.replicate (columnWidth - p.1.name.length) ' ') ++ p.1.name ++ " " ++
    toString p.2 ++ "\n"

def text (ts : List Token) : String := String.join ((ofTokens ts).map entry)

end Summary
end PascalTokens
