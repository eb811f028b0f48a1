import PascalTokens.Log
import PascalTokens.Terminal

/-! What prints a log. The program hands it records, and neither sifts nor prints them itself. -/
namespace PascalTokens

structure Logger where
  passes : String → Record → Bool
  print : Record → String
  /-- The word for a level is a filter, for that level and those that are more severe. -/
  passes_word : ∀ (l : Level) (r : Record),
    passes l.word r = decide (l.severity ≤ r.level.severity)

namespace Logger

def printed (g : Logger) (filter : String) (rs : List Record) : String :=
  String.join ((rs.filter (g.passes filter)).map g.print)

theorem printed_cons (g : Logger) (filter : String) (r : Record) (rs : List Record) :
    g.printed filter (r :: rs) = g.printed filter [r] ++ g.printed filter rs := by
  cases h : g.passes filter r <;> simp [printed,h]

def levelWidth : Nat := 5

def indent : String := "    "

/-- A record on a line, or on several if there are line breaks in its message. -/
def line (r : Record) : String :=
  let level := r.level.name
  let padding := List.replicate (levelWidth - level.length) ' '
  let message := r.message.toList.flatMap fun c => if c = '\n' then c :: indent.toList else [c]
  "[" ++ level ++ String.ofList padding ++ " " ++ r.origin ++ "] " ++ String.ofList message ++ "\n"

def leastSeverity (filter : String) : Nat :=
  match Level.all.find? (·.word == filter) with
  | some l => l.severity
  | none => Level.error.severity

/-- A logger that prints no times, and that only knows filters which are words for levels; with any
other filter it prints errors. -/
def plain : Logger where
  passes filter r := leastSeverity filter ≤ r.level.severity
  print r := String.ofList (Terminal.shown (line r).toList)
  passes_word l r := by cases l <;> rfl

end Logger
end PascalTokens
