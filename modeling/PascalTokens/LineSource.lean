import PascalTokens.Error
import PascalTokens.Lexer

/-! Where lines come from, and the tokens of all of them: at once, or line by line. -/
namespace PascalTokens

/-- What answers with lines, one at a time, perhaps without end. -/
class LineSupply (σ : Type) where
  next : σ → Except Error (Option Line) × σ
  /-- The number of the line read last, or 0. -/
  number : σ → Nat
  endRecords : σ → List Record

/-- A supply that ends after some lines, for that moment at least, or fails. -/
class LineSource (σ : Type) extends LineSupply σ where
  /-- At least the number of lines to come. -/
  remaining : σ → Nat
  remaining_lt {s t : σ} {l : Line} : next s = (.ok (some l),t) → remaining t < remaining s

namespace LineSource

export LineSupply (next number endRecords)

end LineSource

/-- The lines of a source up to its end or the first failure. -/
structure Reading (σ : Type) where
  lines : List (Line × Nat)
  failure : Option Error
  rest : σ

def LineSource.read {σ : Type} [LineSource σ] (s : σ) : Reading σ :=
  match _h : LineSource.next s with
  | (.error e,t) => ⟨[],some e,t⟩
  | (.ok none,t) => ⟨[],none,t⟩
  | (.ok (some l),t) =>
    let r := LineSource.read t
    { r with lines := (l,LineSource.number t) :: r.lines }
  termination_by LineSource.remaining s
  decreasing_by exact LineSource.remaining_lt (by assumption)

namespace Catalog

variable {σ : Type} [LineSource σ]

/-- The tokens of a source, and the failure that cut it short. The tokens of the lines before a
failure are kept. -/
def tokenize (c : Catalog) (s : σ) : List Token × Option Error :=
  let r := LineSource.read s
  (r.lines.flatMap fun p => c.tokenizeLine p.1 p.2,r.failure)

def tokenizeWhole (c : Catalog) (s : σ) : Except Error (List Token) :=
  match c.tokenize s with
  | (ts,none) => .ok ts
  | (_,some e) => .error e

def records (c : Catalog) (s : σ) : List Record :=
  let r := LineSource.read s
  r.lines.flatMap (fun p => c.lineRecords p.1 p.2) ++
    if r.failure.isNone then LineSource.endRecords r.rest else []

end Catalog

/-- The tokens of a supply, taken line by line. -/
structure LineTokens (σ : Type) where
  catalog : Catalog
  source : σ
  /-- After a failure there are no more items. -/
  failed : Bool

namespace LineTokens

variable {σ : Type} [LineSupply σ]

def ofSource (c : Catalog) (s : σ) : LineTokens σ := ⟨c,s,false⟩

def next (i : LineTokens σ) : Option (Except Error (List Token)) × LineTokens σ :=
  if i.failed then (none,i)
  else match LineSupply.next i.source with
    | (.error e,s) => (some (.error e),{ i with source := s, failed := true })
    | (.ok none,s) => (none,{ i with source := s })
    | (.ok (some l),s) =>
      (some (.ok (i.catalog.tokenizeLine l (LineSupply.number s))),{ i with source := s })

def records (i : LineTokens σ) : List Record :=
  if i.failed then []
  else match LineSupply.next i.source with
    | (.error _,_) => []
    | (.ok none,s) => LineSupply.endRecords s
    | (.ok (some l),s) => i.catalog.lineRecords l (LineSupply.number s)

end LineTokens
end PascalTokens
