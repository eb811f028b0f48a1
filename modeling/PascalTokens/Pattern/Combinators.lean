import PascalTokens.Pattern.Basic
import PascalTokens.Unicode.CaseFolding

/-! Patterns made from simpler ones. -/
namespace PascalTokens.Pattern

def char (c : Char) : Pattern := one (· == c)

def among (cs : List Char) : Pattern := one (cs.contains ·)

/-- An ASCII character, or one that differs from it in case only. -/
def caseless (c : Char) : Pattern := among (Unicode.asciiOrbit c)

def sequence : List Pattern → Pattern
  | [] => empty
  | [r] => r
  | r :: rs => seq r (sequence rs)

/-- Prefers the earlier alternatives; of none, matches nothing. -/
def choice : List Pattern → Pattern
  | [] => one fun _ => false
  | [r] => r
  | r :: rs => alt r (choice rs)

def text (s : String) : Pattern := sequence (s.toList.map char)

def caselessText (s : String) : Pattern := sequence (s.toList.map caseless)

def opt (r : Pattern) : Pattern := alt r empty

def star (r : Pattern) : Pattern := opt (plus r)

def many1 (s : Char → Bool) : Pattern := many true s

def many0 (s : Char → Bool) : Pattern := opt (many1 s)

end PascalTokens.Pattern
