import PascalTokens.Program

/-! The program as a process: its arguments, the file it reads and its two outputs. -/
namespace PascalTokens.Main

def failure : IO.Error → Failure
  | .noFileOrDirectory .. => .notFound
  | .permissionDenied .. => .permissionDenied
  | .inappropriateType _ 20 _ => .notADirectory
  | .resourceExhausted _ 28 _ => .noSpace
  | e => ⟨.other,toString e⟩

theorem failure_ne_interrupted (e : IO.Error) : (failure e).kind ≠ .interrupted := by
  intro h
  unfold failure at h
  split at h <;> cases h

/-- The reads of the file at a path. A directory can be opened, but not read. -/
def openFile (path : String) : IO (Except Failure (List Read)) := do
  try
    return .ok [.data (← IO.FS.readBinFile path).toList]
  catch
    | .inappropriateType _ 21 _ => return .ok [.failure .isADirectory]
    | e => return .error (failure e)

def logVariable : String := "RUST_LOG"

/-- Writes the output of an outcome. If that fails, the outcome is the one of an output that
refuses everything. -/
def deliver (run : Sink → Outcome) : IO Outcome := do
  let o := run .unlimited
  try
    let stdout ← IO.getStdout
    unless o.stdout.taken.isEmpty do
      stdout.write o.stdout.taken.toByteArray
      stdout.flush
    return o
  catch e => return run (.full (failure e) (failure_ne_interrupted e))

end PascalTokens.Main

open PascalTokens in
def main (args : List String) : IO UInt32 := do
  match Command.ofArgs args with
  | .error e =>
    IO.eprint ("error: " ++ e.message ++ "\n\n" ++ Program.usageText)
    return Program.usageExitCode.toUInt32
  | .ok c =>
    let opened ← match c with
      | .tokenize r => Main.openFile r.file
      | _ => pure (.ok [])
    let env : Environment := ⟨fun _ => opened,← IO.getEnv Main.logVariable,.plain⟩
    let o ← Main.deliver fun stdout => Program.run env stdout c
    IO.eprint o.stderr
    return o.exitCode.toUInt32
