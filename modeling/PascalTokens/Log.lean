import PascalTokens.Token

/-! What the program logs. -/
namespace PascalTokens

inductive Level
  | trace | debug | info | warn | error
  deriving DecidableEq

namespace Level

def all : List Level := [trace, debug, info, warn, error]

def name : Level → String
  | trace => "TRACE"
  | debug => "DEBUG"
  | info => "INFO"
  | warn => "WARN"
  | error => "ERROR"

def word : Level → String
  | trace => "trace"
  | debug => "debug"
  | info => "info"
  | warn => "warn"
  | error => "error"

/-- More severe levels have the greater numbers. -/
def severity : Level → Nat
  | trace => 0
  | debug => 1
  | info => 2
  | warn => 3
  | error => 4

end Level

inductive Record
  /-- A candidate in conflict with a token that begins before it. -/
  | suppressed (line : Nat) (candidate : Candidate)
  | invalidFragment (line : Nat) (value : String) (column : Nat)
  | lineResolved (line candidates tokens : Nat)
  | catalogBuilt (definitions : Nat)
  | sourceOpened (source : String)
  | sourceEnded (source : String) (lines : Nat)
  | sourceTokenized (path : String) (tokens : Nat)
  | writeFailed (reason : String)
  deriving DecidableEq

namespace Record

def level : Record → Level
  | suppressed _ _ => .trace
  | invalidFragment _ _ _ => .warn
  | lineResolved _ _ _ => .debug
  | catalogBuilt _ => .debug
  | sourceOpened _ => .info
  | sourceEnded _ _ => .debug
  | sourceTokenized _ _ => .info
  | writeFailed _ => .error

def origin : Record → String
  | suppressed _ _ | invalidFragment _ _ _ | lineResolved _ _ _ => "pascal_lex::lexer::lexer"
  | catalogBuilt _ => "pascal_lex::lexer::patterns"
  | sourceOpened _ | sourceEnded _ _ => "pascal_lex::lexer::source"
  | sourceTokenized _ _ | writeFailed _ => "pascal_lex::cli"

def message : Record → String
  | suppressed line c =>
    "line " ++ toString line ++ ": suppressed " ++ c.kind.name ++ " at " ++
      toString c.span.start ++ ".." ++ toString c.span.stop
  | invalidFragment line value column =>
    "line " ++ toString line ++ ": invalid fragment '" ++ value ++ "' at column " ++
      toString column
  | lineResolved line candidates tokens =>
    "line " ++ toString line ++ ": " ++ toString candidates ++ " candidates resolved into " ++
      toString tokens ++ " tokens"
  | catalogBuilt definitions =>
    "built pattern catalog with " ++ toString definitions ++ " definitions"
  | sourceOpened source => "tokenizing " ++ source
  | sourceEnded source lines =>
    source ++ ": end of input after " ++ toString lines ++ " lines"
  | sourceTokenized path tokens => toString tokens ++ " tokens from " ++ path
  | writeFailed reason => "cannot write tokens: " ++ reason

end Record
end PascalTokens
