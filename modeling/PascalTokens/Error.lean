import PascalTokens.Failure
import PascalTokens.Kind

/-! What stops the program, where, and what to do about it. -/
namespace PascalTokens

structure Position where
  /-- Counts from 1; 0 if the position is a whole source. -/
  line : Nat
  source : String
  deriving DecidableEq

namespace Position

def none : Position := ⟨0,"<null>"⟩

def catalog : Position := ⟨0,"<catalog>"⟩

instance : ToString Position where
  toString p := if p.line = 0 then p.source else p.source ++ ":" ++ toString p.line

end Position

inductive Cause
  | fileOpen (failure : Failure)
  | readLine (failure : Failure)
  | invalidPattern (kind : Kind) (reason : String)
  /-- A rule for `kind` follows one for `after`, which has a lower priority. -/
  | misorderedPattern (kind after : Kind)
  deriving DecidableEq

namespace Cause

def name : Cause → String
  | fileOpen _ => "FileOpen"
  | readLine _ => "ReadLine"
  | invalidPattern _ _ => "InvalidPattern"
  | misorderedPattern _ _ => "MisorderedPattern"

def message : Cause → String
  | fileOpen f => "cannot open source: " ++ f.reason
  | readLine f => "cannot read line: " ++ f.reason
  | invalidPattern k reason => "invalid pattern for " ++ k.name ++ ": " ++ reason
  | misorderedPattern k after =>
    "pattern for " ++ k.name ++ " declared after pattern for " ++ after.name

def tip? : Cause → Option String
  | fileOpen ⟨.notFound,_⟩ => some "Check that the file path is correct"
  | fileOpen ⟨.permissionDenied,_⟩ => some "Check the file permissions"
  | fileOpen _ => none
  | readLine ⟨.invalidData,_⟩ => some "Source files must be valid UTF-8"
  | readLine _ => none
  | invalidPattern k _ => some ("Fix the regular expression for \x60" ++ k.name ++ "\x60")
  | misorderedPattern k after =>
    some ("Rules for \x60" ++ k.name ++ "\x60 must be declared before rules for \x60" ++
      after.name ++ "\x60")

def failure? : Cause → Option Failure
  | fileOpen f | readLine f => some f
  | _ => none

end Cause

structure Error where
  cause : Cause
  position : Position
  deriving DecidableEq

namespace Error

def message (e : Error) : String := toString e.position ++ ": " ++ e.cause.message

instance : ToString Error := ⟨message⟩

/-- The lines that tell a user of the error. -/
def report (e : Error) : String :=
  "Error: " ++ e.cause.name ++ (e.cause.tip?.elim "" fun tip => " (" ++ tip ++ ")") ++ "\n-> " ++
    toString e.position ++ "\n   " ++ e.cause.message ++ "\n"

end Error
end PascalTokens
