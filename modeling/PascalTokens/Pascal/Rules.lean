import PascalTokens.Pascal.Words
import PascalTokens.Pattern.Combinators
import PascalTokens.Unicode.DecimalDigit
import PascalTokens.Unicode.WhiteSpace

/-! The lexemes of Pascal as patterns. -/
namespace PascalTokens.Pascal

open Pattern

def isHexDigit (c : Char) : Bool :=
  c.isDigit || ('A' ≤ c && c ≤ 'F') || ('a' ≤ c && c ≤ 'f')

def isOctalDigit (c : Char) : Bool := '0' ≤ c && c ≤ '7'

def isBinaryDigit (c : Char) : Bool := c = '0' || c = '1'

def isNameStart (c : Char) : Bool := c.isAlpha || c = '_'

def isNamePart (c : Char) : Bool := c.isAlphanum || c = '_'

/-- The switches of one letter: all letters but K and U. -/
def directiveLetters : List Char :=
  "ABCDEFGHIJLMNOPQRSTVWXYZ".toList.flatMap Unicode.asciiOrbit

/-- `{$NAME}`, `{$NAME+}`, `{$NAME-}` or `{$NAME …}` with a known name. -/
def directive : Pattern :=
  sequence [text "\x7b$",
    choice (directiveNames.map caselessText ++ [among directiveLetters]),
    opt (alt (among ['+', '-'])
      (sequence [one Unicode.isWhiteSpace,many0 (· != '}')])),
    char '}']

/-- `{…}` that does not begin as a directive does. -/
def braceComment : Pattern :=
  sequence [char '{',opt (sequence [one fun c => c != '$' && c != '}',many0 (· != '}')]),
    char '}']

/-- `(*…*)` within a line, up to the first end. -/
def starComment : Pattern :=
  sequence [text "(*",alt empty (many false (· != '\n')),text "*)"]

def lineComment : Pattern := sequence [text "//",many0 (· != '\n')]

def reservedWord : Pattern := choice (reservedWords.map caselessText)

def pairedOperators : List String :=
  [":=", "<=", ">=", "<>", "><", "**", "+=", "-=", "*=", "/=", ".."]

def operatorSigns : List Char :=
  ['-', '+', '*', '/', '=', '<', '>', '[', ']', '^', '@', '$', '#', '&', '%']

def operator : Pattern := choice (pairedOperators.map text ++ [among operatorSigns])

def digits : Pattern := many1 Unicode.isDecimalDigit

def hexNumber : Pattern := sequence [char '$',many1 isHexDigit]

def octalNumber : Pattern := sequence [char '&',many1 isOctalDigit]

def binaryNumber : Pattern := sequence [char '%',many1 isBinaryDigit]

def decimalNumber : Pattern :=
  sequence [digits,opt (sequence [char '.',digits]),
    opt (sequence [among ['e', 'E'],opt (among ['-', '+']),digits])]

def number : Pattern := choice [hexNumber,octalNumber,binaryNumber,decimalNumber]

def quoted : Pattern :=
  sequence [char '\'',star (alt (one (· != '\'')) (text "''")),char '\'']

def characterCode : Pattern :=
  alt (sequence [text "#$",many1 isHexDigit]) (sequence [char '#',digits])

def stringOrCharacter : Pattern := plus (alt quoted characterCode)

def separators : List Char := ['{', '}', '(', ')', ',', ';', ':', '.']

def separator : Pattern := among separators

def identifier : Pattern := sequence [one isNameStart,many0 isNamePart]

/-- Characters with no use in Pascal, which make one fragment when they stand together: the double
quote, the tilde and the grave accent. -/
def strays : List Char := ['"', '~', '\x60']

def invalid : Pattern := alt (many1 strays.contains) (one fun c => !Unicode.isWhiteSpace c)

end PascalTokens.Pascal
