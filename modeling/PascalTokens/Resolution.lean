import PascalTokens.Log

/-! Conflicts between candidates. The candidates are taken by their starts, in ascending order. Of
those that start together the longest becomes a token, and of the longest one of the highest
priority; a candidate that starts within an earlier token or ends no later is suppressed. -/
namespace PascalTokens.Resolution

/-- Candidates that start together. -/
structure Group where
  start : Nat
  members : List Candidate

/-- Adds a candidate before the others of its group. -/
def place (c : Candidate) : List Group → List Group
  | [] => [⟨c.span.start,[c]⟩]
  | g :: gs =>
    if c.span.start < g.start then ⟨c.span.start,[c]⟩ :: g :: gs
    else if c.span.start = g.start then { g with members := c :: g.members } :: gs
    else g :: place c gs

/-- The candidates by their starts, in ascending order; in a group they keep their order. -/
def groups (cs : List Candidate) : List Group := cs.foldr place []

/-- Is the candidate in conflict with the last token, which ends at `claimed`? -/
def blocked (claimed : Option Nat) (c : Candidate) : Bool :=
  claimed.any fun stop => c.span.stop ≤ stop || c.span.start < stop

def beats (c d : Candidate) : Bool :=
  d.span.stop < c.span.stop || c.span.stop == d.span.stop && c.kind.outranks d.kind

/-- The first of the candidates that no other one beats. -/
def best : List Candidate → Option Candidate
  | [] => none
  | c :: cs => some (cs.foldl (fun d c => if beats c d then c else d) c)

/-- What became of the candidates that start at one place. -/
structure Decision where
  suppressed : List Candidate
  winner : Option Candidate

def decision (claimed : Option Nat) (g : Group) : Decision :=
  ⟨g.members.filter (blocked claimed),best (g.members.filter (!blocked claimed ·))⟩

def Decision.claims (d : Decision) (claimed : Option Nat) : Option Nat :=
  d.winner.elim claimed fun c => some c.span.stop

def decisionsAfter (claimed : Option Nat) : List Group → List Decision
  | [] => []
  | g :: gs =>
    let d := decision claimed g
    d :: decisionsAfter (d.claims claimed) gs

def decisions (cs : List Candidate) : List Decision := decisionsAfter none (groups cs)

def winners (cs : List Candidate) : List Candidate := (decisions cs).filterMap (·.winner)

/-- The tokens of candidates whose spans fit the line. -/
def tokens (text : Line) (line : Nat) (cs : List Candidate) : List Token :=
  (winners cs).map (·.token text line)

def tokensAfter? (text : Line) (line : Nat) (claimed : Option Nat) :
    List Group → Option (List Token)
  | [] => some []
  | g :: gs =>
    match (decision claimed g).winner with
    | none => tokensAfter? text line claimed gs
    | some c =>
      match c.token? text line with
      | none => none
      | some t => (tokensAfter? text line (some c.span.stop) gs).map (t :: ·)

/-- The tokens of any candidates. A candidate that wins must fit the line. -/
def tokens? (text : Line) (line : Nat) (cs : List Candidate) : Option (List Token) :=
  tokensAfter? text line none (groups cs)

def Decision.records (d : Decision) (text : Line) (line : Nat) : List Record :=
  d.suppressed.map (.suppressed line ·) ++
    (d.winner.toList.filter (·.kind = .invalid)).map fun c =>
      .invalidFragment line (c.token text line).value (c.span.start + 1)

def records (text : Line) (line : Nat) (cs : List Candidate) : List Record :=
  (decisions cs).flatMap (·.records text line)

end PascalTokens.Resolution
