import PascalTokens.Failure

/-! Where output goes. A sink takes bytes as long as it has room. -/
namespace PascalTokens

/-- What a sink without room does when it is given bytes. -/
inductive Refusal
  /-- It fails. An interruption is no refusal, because whoever writes tries again after it. -/
  | failure (failure : Failure) (final : failure.kind ≠ .interrupted)
  | nothing
  deriving DecidableEq

structure Sink where
  /-- How many bytes fit in, if there is a limit. -/
  room : Option Nat
  refusal : Refusal
  flushFailure : Option Failure
  taken : List UInt8
  deriving DecidableEq

namespace Sink

def unlimited : Sink := ⟨none,.nothing,none,[]⟩

def full (f : Failure) (h : f.kind ≠ .interrupted) : Sink := ⟨some 0,.failure f h,none,[]⟩

def nothingWritten : Failure := ⟨.writeZero,"failed to write whole buffer"⟩

/-- Takes as many of the bytes as there is room for, and says how many. -/
def write (s : Sink) (bs : List UInt8) : Except Failure Nat × Sink :=
  match s.room with
  | none => (.ok bs.length,{ s with taken := s.taken ++ bs })
  | some 0 =>
    match s.refusal with
    | .failure f _ => (.error f,s)
    | .nothing => (.ok 0,s)
  | some n =>
    let m := min n bs.length
    (.ok m,{ s with room := some (n - m), taken := s.taken ++ bs.take m })

def writeAll (s : Sink) : List UInt8 → Option Failure × Sink
  | [] => (none,s)
  | b :: bs =>
    match s.write (b :: bs) with
    | (.error f,t) => (some f,t)
    | (.ok 0,t) => (some nothingWritten,t)
    | (.ok (n + 1),t) => t.writeAll (bs.drop n)
  termination_by bs => bs.length
  decreasing_by simp only [List.length_drop,List.length_cons]; omega

def writeText (s : Sink) (text : String) : Option Failure × Sink :=
  s.writeAll text.toUTF8.toList

end Sink
end PascalTokens
