import PascalTokens.Command
import PascalTokens.Logger
import PascalTokens.Output
import PascalTokens.Source

/-! What the program does with a command. -/
namespace PascalTokens

inductive Notice
  | logged (record : Record)
  | reported (error : Error)
  deriving DecidableEq

/-- What surrounds a call of the program. -/
structure Environment where
  files : Files
  /-- The filter for the log that the user asks for, if any. -/
  logFilter : Option String
  logger : Logger

structure Outcome where
  exitCode : Nat
  stdout : Sink
  stderr : String

namespace Program

def usageText : String := "Usage: pascal-lex [OPTIONS] <FILE>\n"

def versionText : String := "pascal-lex 0.1.0\n"

def helpText : String :=
"Split Pascal source into classified tokens

Usage: pascal-lex [OPTIONS] <FILE>

Arguments:
  <FILE>  Source file to tokenize

Options:
      --show-comments  Include comment tokens in the output
      --positions      Prefix every token with line:start-end
      --summary        Print token counts per kind after the listing
  -v, --verbose        Enable verbose output
  -h, --help           Print help (see more with '--help')
  -V, --version        Print version
"

def longHelpText : String :=
"Tokenizes a Pascal source file line by line.

Every line is matched against an ordered pattern catalog and
overlapping matches are resolved longest-first.

Usage: pascal-lex [OPTIONS] <FILE>

Arguments:
  <FILE>
          Source file to tokenize

Options:
      --show-comments
          Include comment tokens in the output

      --positions
          Prefix every token with line:start-end

      --summary
          Print token counts per kind after the listing

  -v, --verbose
          Enable verbose output

  -h, --help
          Print help (see a summary with '-h')

  -V, --version
          Print version
"

def usageExitCode : Nat := 2

def leastLevel (r : Request) : Level := if r.verbose then .debug else .info

/-- The filter for the log. That a call is verbose counts only where no filter is asked for. -/
def logFilter (env : Environment) (r : Request) : String := env.logFilter.getD (leastLevel r).word

def noticeText (env : Environment) (r : Request) : Notice → String
  | .logged rec => env.logger.printed (logFilter env r) [rec]
  | .reported e => e.report

/-- The exit code, the output and all notices of a call that tokenizes a file. -/
def execute (files : Files) (stdout : Sink) (r : Request) : Nat × Sink × List Notice :=
  match Source.openFile files r.file with
  | .error e => (1,stdout,[.reported e])
  | .ok source =>
    let (ts,failure) := Catalog.pascal.tokenize source
    let log := (.sourceOpened r.file :: .catalogBuilt Catalog.pascal.definitions.length ::
      Catalog.pascal.records source).map Notice.logged
    match stdout.writeTokens ts r.listing r.summary with
    | (some f,sink) => (1,sink,log ++ [.logged (.writeFailed f.reason)])
    | (none,sink) =>
      match failure with
      | some e => (1,sink,log ++ [.reported e])
      | none => (0,sink,log ++ [.logged (.sourceTokenized r.file ts.length)])

def tokenize (env : Environment) (stdout : Sink) (r : Request) : Outcome :=
  let (exitCode,sink,notices) := execute env.files stdout r
  ⟨exitCode,sink,String.join (notices.map (noticeText env r))⟩

def run (env : Environment) (stdout : Sink) : Command → Outcome
  | .help => ⟨0,(stdout.writeText helpText).2,""⟩
  | .longHelp => ⟨0,(stdout.writeText longHelpText).2,""⟩
  | .version => ⟨0,(stdout.writeText versionText).2,""⟩
  | .tokenize r => tokenize env stdout r

end Program
end PascalTokens
