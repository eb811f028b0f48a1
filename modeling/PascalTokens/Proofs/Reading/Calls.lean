import PascalTokens.Proofs.Reading.Buffer
import PascalTokens.Source

/-! Calls for the next line, as many as one likes. What they answer depends on the events of the reads
alone, whatever the chunks and whatever the buffer, and the count of lines is the count of calls that
answered with one. -/
namespace PascalTokens

namespace Text

/-- A line as it stands in a text, and without its terminator. -/
inductive Ends : Line → Line → Prop
  | returnNewline (l : Line) : Ends (l ++ ['\r', '\n']) l
  | newline {l : Line} : l.getLast? ≠ some '\r' → Ends (l ++ ['\n']) l
  | unended {l : Line} : l.getLast? ≠ some '\n' → Ends l l

theorem ends_unterminated (t : Line) : Ends t (unterminated t) := by
  rcases List.eq_nil_or_concat t with rfl | ⟨l,c,rfl⟩
  · exact .unended (by simp)
  by_cases hc : c = '\n'
  · subst hc
    rcases List.eq_nil_or_concat l with rfl | ⟨m,d,rfl⟩
    · exact .newline (l := []) (by simp)
    by_cases hd : d = '\r'
    · subst hd
      simpa [unterminated] using Ends.returnNewline m
    · simpa [unterminated,hd] using Ends.newline (l := m ++ [d]) (by simpa using hd)
  · simpa [unterminated,hc] using Ends.unended (l := l ++ [c]) (by simpa using hc)

end Text

section Calls

variable {σ τ α : Type}

/-- What `n` calls answer, one after the other, and the state they leave. -/
def calls (next : σ → α × σ) : Nat → σ → List α × σ
  | 0, s => ([],s)
  | n + 1, s =>
    let later := calls next n (next s).2
    ((next s).1 :: later.1,later.2)

theorem calls_simulation {next : σ → α × σ} {next' : τ → α × τ} {f : σ → τ}
    (h : ∀ s, next' (f s) = ((next s).1,f (next s).2)) (n : Nat) (s : σ) :
    calls next' n (f s) = ((calls next n s).1,f (calls next n s).2) := by
  induction n generalizing s with
  | zero => rfl
  | succ n ih => rw [calls,calls,h,ih]

end Calls

def isLine : Except Error (Option Line) → Bool
  | .ok (some _) => true
  | _ => false

/-- Input that is taken line by line, with the count of its lines. -/
structure Counted (ρ : Type) where
  name : String
  input : ρ
  number : Nat

namespace Counted

variable {ρ ρ' : Type}

/-- What a call answers to the bytes of a line: the text without its terminator, or nothing where
there are no bytes, or what prevented it. -/
def answer (name : String) (number : Nat) :
    Except Failure (List UInt8) → Except Error (Option Line)
  | .error f => .error ⟨.readLine f,⟨number + 1,name⟩⟩
  | .ok [] => .ok none
  | .ok (b :: bs) =>
    match Source.decode (b :: bs) with
    | none => .error ⟨.readLine Source.invalidText,⟨number + 1,name⟩⟩
    | some t => .ok (some (Text.unterminated t))

theorem answer_of_decode_some {name : String} {number : Nat} {bs : List UInt8} {t : List Char}
    (hb : bs ≠ []) (h : Source.decode bs = some t) :
    answer name number (.ok bs) = .ok (some (Text.unterminated t)) := by
  cases bs with
  | nil => exact absurd rfl hb
  | cons b bs => rw [answer,h]

theorem answer_of_decode_none {name : String} {number : Nat} {bs : List UInt8}
    (hb : bs ≠ []) (h : Source.decode bs = none) :
    answer name number (.ok bs) = .error ⟨.readLine Source.invalidText,⟨number + 1,name⟩⟩ := by
  cases bs with
  | nil => exact absurd rfl hb
  | cons b bs => rw [answer,h]

def nextLine (line : ρ → Except Failure (List UInt8) × ρ) (s : Counted ρ) :
    Except Error (Option Line) × Counted ρ :=
  let a := answer s.name s.number (line s.input).1
  (a,⟨s.name,(line s.input).2,s.number + (isLine a).toNat⟩)

def map (f : ρ → ρ') (s : Counted ρ) : Counted ρ' := ⟨s.name,f s.input,s.number⟩

theorem nextLine_map {line : ρ → Except Failure (List UInt8) × ρ}
    {line' : ρ' → Except Failure (List UInt8) × ρ'} {f : ρ → ρ'}
    (h : ∀ r, line' (f r) = ((line r).1,f (line r).2)) (s : Counted ρ) :
    nextLine line' (s.map f) = ((nextLine line s).1,(nextLine line s).2.map f) := by
  simp only [nextLine,map,h]

theorem number_calls (line : ρ → Except Failure (List UInt8) × ρ) (n : Nat) (s : Counted ρ) :
    (calls (nextLine line) n s).2.number =
      s.number + (calls (nextLine line) n s).1.countP isLine := by
  induction n generalizing s with
  | zero => rfl
  | succ n ih =>
    rw [calls,ih,List.countP_cons,nextLine]
    cases isLine (answer s.name s.number (line s.input).1) with
    | false => simp
    | true => simp; omega

end Counted

namespace Source

theorem stripped_eq (l : Line) : stripped l = Text.unterminated l := by
  rw [stripped,beforeEnd?,Text.unterminated]
  by_cases hn : l.getLast? = some '\n'
  · by_cases hr : l.dropLast.getLast? = some '\r'
    · simp [hn,hr,beforeEnd?]
    · simp [hn,hr,beforeEnd?]
  · simp [hn]

def counted (s : Source) : Counted (List Read) := ⟨s.name,s.reads,s.number⟩

theorem nextLine_counted (s : Source) :
    Counted.nextLine (Read.line []) s.counted = (s.nextLine.1,s.nextLine.2.counted) := by
  obtain ⟨name,reads,number⟩ := s
  rw [Counted.nextLine,counted,nextLine]
  rcases Read.line [] reads with ⟨collected,after⟩
  cases collected with
  | error f => rfl
  | ok bs =>
    cases bs with
    | nil => rfl
    | cons b bs =>
      simp only [Counted.answer,stripped_eq]
      cases decode (b :: bs) <;> rfl

theorem nextLine_events (s : Source) :
    s.nextLine.1 = Counted.answer s.name s.number (Event.line (Read.events s.reads)).1 ∧
      s.nextLine.2.name = s.name ∧
      s.nextLine.2.number = s.number + (isLine s.nextLine.1).toNat ∧
      Read.events s.nextLine.2.reads = (Event.line (Read.events s.reads)).2 := by
  have h := Counted.nextLine_map Read.line_of_events s.counted
  rw [nextLine_counted] at h
  obtain ⟨ha,hs⟩ := Prod.mk.inj h
  obtain ⟨hname,hinput,hnumber⟩ := Counted.mk.inj hs
  exact ⟨ha.symm,hname.symm,by rw [← ha]; exact hnumber.symm,hinput.symm⟩

def answers (name : String) (rs : List Read) (n : Nat) : List (Except Error (Option Line)) :=
  (calls nextLine n (ofReads name rs)).1

/-- Are `n` calls on reads, with or without a buffer, calls on the events? They answer the same, they
leave the same events, and they count the lines. -/
structure AnswersEvents (name : String) (rs : List Read) (n : Nat) : Prop where
  same : answers name rs n = (calls (Counted.nextLine Event.line) n ⟨name,Read.events rs,0⟩).1
  rest : Read.events (calls nextLine n (ofReads name rs)).2.reads =
    (calls (Counted.nextLine Event.line) n ⟨name,Read.events rs,0⟩).2.input
  number : (calls nextLine n (ofReads name rs)).2.number = (answers name rs n).countP isLine
  buffered : ∀ size, 0 < size →
    (calls (Counted.nextLine (BufferedReader.line size [])) n ⟨name,⟨[],rs⟩,0⟩).1 =
      answers name rs n

theorem answersEvents (name : String) (rs : List Read) (n : Nat) : AnswersEvents name rs n := by
  have hcounted := calls_simulation nextLine_counted n (ofReads name rs)
  have hevents := calls_simulation (Counted.nextLine_map Read.line_of_events) n
    (ofReads name rs).counted
  rw [hcounted] at hevents
  have hstart : (ofReads name rs).counted.map Read.events = ⟨name,Read.events rs,0⟩ := rfl
  rw [hstart] at hevents
  refine ⟨by rw [hevents]; rfl,by rw [hevents]; rfl,?_,fun size hsize => ?_⟩
  · have hnumber := Counted.number_calls (Read.line []) n (ofReads name rs).counted
    rw [hcounted] at hnumber
    exact hnumber.trans (Nat.zero_add _)
  · have hbuffered := calls_simulation
      (Counted.nextLine_map (BufferedReader.line_of_events hsize)) n
      (⟨name,⟨[],rs⟩,0⟩ : Counted BufferedReader)
    have hsame : (⟨name,⟨[],rs⟩,0⟩ : Counted BufferedReader).map BufferedReader.events =
      ⟨name,Read.events rs,0⟩ := rfl
    rw [hsame,hevents] at hbuffered
    exact (congrArg Prod.fst hbuffered).symm

theorem answers_congr {qs rs : List Read} (h : Read.events qs = Read.events rs) (name : String)
    (n : Nat) : answers name qs n = answers name rs n := by
  rw [(answersEvents name qs n).same,(answersEvents name rs n).same,h]

/-- Calls on reads answer to the events alone. So a chunk may be cut anywhere or joined with the next,
and an interruption may come at any time; and a line is a text without its terminator. -/
theorem answers_events (name : String) (n : Nat) :
    (∀ rs, AnswersEvents name rs n) ∧
    (∀ qs rs, Read.events qs = Read.events rs → answers name qs n = answers name rs n) ∧
    (∀ qs x y rs, x ≠ [] → y ≠ [] →
      answers name (qs ++ .data (x ++ y) :: rs) n =
        answers name (qs ++ .data x :: .data y :: rs) n) ∧
    (∀ qs f rs, f.kind = .interrupted →
      answers name (qs ++ .failure f :: rs) n = answers name (qs ++ rs) n) ∧
    ∀ t, Text.Ends t (Text.unterminated t) := by
  refine ⟨fun rs => answersEvents name rs n,?_,?_,?_,Text.ends_unterminated⟩
  · exact fun qs rs h => answers_congr h name n
  · exact fun qs x y rs hx hy => answers_congr (Read.events_cut hx hy qs rs) name n
  · exact fun qs f rs h => answers_congr (Read.events_insert h qs rs) name n

/-- An interruption within a character, of whose line the end comes in the same chunk. -/
theorem answers_events_within_character :
    answers "cut.pas" [.data [0xC3],.failure ⟨.interrupted,"again"⟩,.data [0xA9,0x0D,0x0A]] 2 =
      [.ok (some ['é']),.ok none] := by
  obtain ⟨-,-,hcut,hinterrupted,-⟩ := answers_events "cut.pas" 2
  calc
    _ = answers "cut.pas" [.data [0xC3],.data [0xA9,0x0D,0x0A]] 2 :=
      hinterrupted [.data [0xC3]] ⟨.interrupted,"again"⟩ [.data [0xA9,0x0D,0x0A]] rfl
    _ = answers "cut.pas" [.data [0xC3,0xA9,0x0D,0x0A]] 2 :=
      (hcut [] [0xC3] [0xA9,0x0D,0x0A] [] (by decide) (by decide)).symm
    _ = _ := by decide

end Source
end PascalTokens
