import PascalTokens.Listing

/-! The command line. -/
namespace PascalTokens

structure Request where
  file : String
  listing : ListingOptions
  summary : Bool
  verbose : Bool
  deriving DecidableEq

inductive Command
  | help
  /-- Help that explains each option on a line of its own. -/
  | longHelp
  | version
  | tokenize (request : Request)
  deriving DecidableEq

inductive UsageError
  | unknownOption (argument : String)
  | repeatedOption (argument : String)
  | unneededValue (argument : String)
  | secondFile (argument : String)
  | emptyFile
  | noFile
  deriving DecidableEq

def UsageError.message : UsageError → String
  | unknownOption a => "unexpected argument '" ++ a ++ "'"
  | repeatedOption a => "'" ++ a ++ "' cannot be used twice"
  | unneededValue a => "'" ++ a ++ "' takes no value"
  | secondFile a => "unexpected argument '" ++ a ++ "' after the file"
  | emptyFile => "the name of the file is empty"
  | noFile => "no file is given"

namespace Command

inductive Flag
  | showComments | positions | summary | verbose
  deriving DecidableEq

inductive Effect
  | flag (f : Flag)
  | answer (c : Command)

def long? : String → Option Effect
  | "show-comments" => some (.flag .showComments)
  | "positions" => some (.flag .positions)
  | "summary" => some (.flag .summary)
  | "verbose" => some (.flag .verbose)
  | "help" => some (.answer longHelp)
  | "version" => some (.answer version)
  | _ => none

def short? : Char → Option Effect
  | 'v' => some (.flag .verbose)
  | 'h' => some (.answer help)
  | 'V' => some (.answer version)
  | _ => none

structure Arguments where
  flags : List Flag
  file : Option String

/-- Why reading stops before the last argument: some options answer at once. -/
abbrev Stop := UsageError ⊕ Command

namespace Arguments

def setFlag (p : Arguments) (argument : String) (f : Flag) : Except Stop Arguments :=
  if f ∈ p.flags then .error (.inl (.repeatedOption argument))
  else .ok { p with flags := f :: p.flags }

def setFile (p : Arguments) (argument : String) : Except Stop Arguments :=
  if p.file.isSome then .error (.inl (.secondFile argument))
  else if argument.isEmpty then .error (.inl .emptyFile)
  else .ok { p with file := some argument }

def option (p : Arguments) (argument : String) : Option Effect → Except Stop Arguments
  | none => .error (.inl (.unknownOption argument))
  | some (.flag f) => p.setFlag argument f
  | some (.answer c) => .error (.inr c)

def long (p : Arguments) (argument : String) (name : List Char) : Except Stop Arguments :=
  let effect := long? (String.ofList (name.takeWhile (· != '=')))
  if name.contains '=' && effect.isSome then .error (.inl (.unneededValue argument))
  else p.option argument effect

/-- Options of one letter each, behind one hyphen. -/
def cluster (p : Arguments) (argument : String) (letters : List Char) : Except Stop Arguments :=
  letters.foldlM (fun p c => p.option argument (short? c)) p

/-- Reads arguments from left to right; after `--` all of them are files. -/
def read (p : Arguments) : List String → Except Stop Arguments
  | [] => .ok p
  | a :: as =>
    match a.toList with
    | ['-', '-'] => as.foldlM setFile p
    | '-' :: '-' :: name => do (← p.long a name).read as
    | '-' :: c :: letters => do (← p.cluster a (c :: letters)).read as
    | _ => do (← p.setFile a).read as

def request (p : Arguments) : Except UsageError Request :=
  match p.file with
  | none => .error .noFile
  | some file =>
    let has (f : Flag) : Bool := f ∈ p.flags
    .ok ⟨file,⟨has .showComments,has .positions⟩,has .summary,has .verbose⟩

end Arguments

def ofArgs (args : List String) : Except UsageError Command :=
  match (⟨[],none⟩ : Arguments).read args with
  | .ok p => p.request.map tokenize
  | .error (.inl e) => .error e
  | .error (.inr c) => .ok c

end Command
end PascalTokens
