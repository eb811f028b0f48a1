import PascalTokens.Listing
import PascalTokens.Sink

/-! Tokens written to a sink. -/
namespace PascalTokens

/-- Writes the listing, and the summary after it if asked for, up to the first failure. -/
def Sink.writeTokens (s : Sink) (ts : List Token) (o : ListingOptions) (summary : Bool) :
    Option Failure × Sink :=
  match s.writeText (listing ts o) with
  | (some f,t) => (some f,t)
  | (none,t) =>
    if summary then
      match t.writeText (Summary.text ts) with
      | (some f,u) => (some f,u)
      | (none,u) => (u.flushFailure,u)
    else (t.flushFailure,t)

end PascalTokens
