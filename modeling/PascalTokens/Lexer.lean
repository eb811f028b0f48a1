import PascalTokens.Catalog
import PascalTokens.Resolution
import PascalTokens.Text

/-! Tokens of lines and of texts. -/
namespace PascalTokens

namespace Catalog

/-- The tokens of one line, which depend on no other line. -/
def tokenizeLine (c : Catalog) (text : Line) (line : Nat) : List Token :=
  Resolution.tokens text line (c.candidates text)

def lineRecords (c : Catalog) (text : Line) (line : Nat) : List Record :=
  let cs := c.candidates text
  Resolution.records text line cs ++
    [.lineResolved line cs.length (Resolution.winners cs).length]

def tokenizeLines (c : Catalog) (lines : List Line) (number : Nat) : List Token :=
  (lines.zipIdx number).flatMap fun p => c.tokenizeLine p.1 p.2

def linesRecords (c : Catalog) (lines : List Line) (number : Nat) : List Record :=
  (lines.zipIdx number).flatMap fun p => c.lineRecords p.1 p.2

/-- The tokens of a text, whose first line has number 1. -/
def tokenizeText (c : Catalog) (text : List Char) : List Token :=
  c.tokenizeLines (Text.lines text) 1

def textRecords (c : Catalog) (text : List Char) : List Record :=
  c.linesRecords (Text.lines text) 1

end Catalog
end PascalTokens
