import Mathlib.Data.List.TakeWhile
import PascalTokens.Read

/-! Input by events. A reader meets bytes, moments where the input has ended, and failures; how the
bytes were cut into reads is no event, and neither is an interruption. A line is all that comes up to
the first newline, end or failure. -/
namespace PascalTokens

inductive Event
  | byte (value : UInt8)
  /-- The input has ended, for the moment at least. -/
  | pause
  | failure (failure : Failure)
  deriving DecidableEq

namespace Event

def continues : Event → Bool
  | byte b => b != Read.newline
  | _ => false

def byte? : Event → Option UInt8
  | byte b => some b
  | _ => none

/-- The bytes up to the first event that ends a line, with it if it is a newline, and the events
after that one. A failure leaves nothing of the bytes before it. -/
def line (es : List Event) : Except Failure (List UInt8) × List Event :=
  let collected := (es.takeWhile continues).filterMap byte?
  match es.dropWhile continues with
  | [] => (.ok collected,[])
  | byte b :: after => (.ok (collected ++ [b]),after)
  | pause :: after => (.ok collected,after)
  | failure f :: after => (.error f,after)

@[simp] theorem line_nil : line [] = (.ok [],[]) := rfl

@[simp] theorem line_newline (es : List Event) :
    line (byte Read.newline :: es) = (.ok [Read.newline],es) := rfl

@[simp] theorem line_pause (es : List Event) : line (pause :: es) = (.ok [],es) := rfl

@[simp] theorem line_failure (f : Failure) (es : List Event) :
    line (failure f :: es) = (.error f,es) := rfl

theorem line_byte {b : UInt8} (h : b ≠ Read.newline) (es : List Event) :
    line (byte b :: es) = ((line es).1.map (b :: ·),(line es).2) := by
  have hc : continues (byte b) = true := by simpa [continues] using h
  rw [line,line,List.takeWhile_cons_of_pos hc,List.dropWhile_cons_of_pos hc]
  cases es.dropWhile continues with
  | nil => rfl
  | cons e after => cases e <;> rfl

@[simp] theorem map_nil_append (x : Except Failure (List UInt8)) : x.map ([] ++ ·) = x := by
  cases x <;> rfl

theorem line_append {bs : List UInt8} (h : Read.newline ∉ bs) (es : List Event) :
    line (bs.map byte ++ es) = ((line es).1.map (bs ++ ·),(line es).2) := by
  induction bs with
  | nil =>
    rw [List.map_nil,List.nil_append,map_nil_append]
  | cons b bs ih =>
    simp only [List.mem_cons,not_or] at h
    rw [List.map_cons,List.cons_append,line_byte (Ne.symm h.1),ih h.2]
    cases (line es).1 <;> rfl

theorem map_collected (x : Except Failure (List UInt8)) (as bs : List UInt8) :
    (x.map (bs ++ ·)).map (as ++ ·) = x.map (as ++ bs ++ ·) := by
  cases x <;> simp [Except.map]

section Chunk

variable {bs : List UInt8}

theorem line_chunk (h : bs.dropWhile (· != Read.newline) = []) (es : List Event) :
    line (bs.map byte ++ es) = ((line es).1.map (bs ++ ·),(line es).2) := by
  refine line_append (fun hm => ?_) es
  have hall := List.dropWhile_eq_nil_iff.1 h Read.newline hm
  simp at hall

theorem line_chunk_newline {n : UInt8} {after : List UInt8}
    (h : bs.dropWhile (· != Read.newline) = n :: after) (es : List Event) :
    line (bs.map byte ++ es) =
      (.ok (bs.takeWhile (· != Read.newline) ++ [n]),after.map byte ++ es) := by
  have hbefore : Read.newline ∉ bs.takeWhile (· != Read.newline) := by
    intro hm
    simpa using List.mem_takeWhile_imp hm
  have hn : n = Read.newline := by
    have := List.head?_dropWhile_not (· != Read.newline) bs
    simpa [h] using this
  have hsplit := List.takeWhile_append_dropWhile (p := (· != Read.newline)) (l := bs)
  rw [h] at hsplit
  generalize bs.takeWhile (· != Read.newline) = before at hsplit hbefore ⊢
  rw [← hsplit,hn,List.map_append,List.append_assoc,line_append hbefore]
  rfl

end Chunk

end Event

namespace Read

def events : List Read → List Event
  | [] => []
  | .data [] :: rs => .pause :: events rs
  | .data (b :: bs) :: rs => (b :: bs).map .byte ++ events rs
  | .failure f :: rs => if f.kind = .interrupted then events rs else .failure f :: events rs

theorem events_data {bs : List UInt8} (h : bs ≠ []) (rs : List Read) :
    events (.data bs :: rs) = bs.map .byte ++ events rs := by
  cases bs with
  | nil => exact absurd rfl h
  | cons b bs => rfl

theorem events_interrupted {f : Failure} (h : f.kind = .interrupted) (rs : List Read) :
    events (.failure f :: rs) = events rs := if_pos h

@[simp] theorem events_push (bs : List UInt8) (rs : List Read) :
    events (push bs rs) = bs.map .byte ++ events rs := by
  cases bs <;> rfl

@[simp] theorem events_append (qs rs : List Read) : events (qs ++ rs) = events qs ++ events rs := by
  induction qs with
  | nil => rfl
  | cons q qs ih =>
    match q with
    | .data [] => simp [events,ih]
    | .data (b :: bs) => simp [events,ih]
    | .failure f =>
      by_cases h : f.kind = .interrupted
      · simp [events,h,ih]
      · simp [events,h,ih]

theorem events_cut {x y : List UInt8} (hx : x ≠ []) (hy : y ≠ []) (qs rs : List Read) :
    events (qs ++ .data (x ++ y) :: rs) = events (qs ++ .data x :: .data y :: rs) := by
  have hxy : x ++ y ≠ [] := by simp [hx]
  rw [events_append,events_append,events_data hxy,events_data hx,events_data hy,List.map_append,
    List.append_assoc]

theorem events_insert {f : Failure} (h : f.kind = .interrupted) (qs rs : List Read) :
    events (qs ++ .failure f :: rs) = events (qs ++ rs) := by
  rw [events_append,events_append,events_interrupted h]

/-- A line of reads is a line of their events, and leaves the events after it. -/
theorem line_events (collected : List UInt8) (rs : List Read) :
    (line collected rs).1 = (Event.line (events rs)).1.map (collected ++ ·) ∧
      events (line collected rs).2 = (Event.line (events rs)).2 := by
  induction rs generalizing collected with
  | nil => simp [line,events,Except.map]
  | cons r rs ih =>
    cases r with
    | failure f =>
      by_cases h : f.kind = .interrupted
      · rw [line,if_pos h,events_interrupted h]
        exact ih collected
      · rw [line,if_neg h,events,if_neg h]
        simp [Except.map]
    | data bs =>
      cases bs with
      | nil => simp [line,events,Except.map]
      | cons b bs =>
        rw [line,events]
        cases hd : (b :: bs).dropWhile (· != newline) with
        | nil =>
          rw [Event.line_chunk hd,Event.map_collected]
          exact ih (collected ++ b :: bs)
        | cons n after =>
          rw [Event.line_chunk_newline hd]
          simp [Except.map]

theorem line_of_events (rs : List Read) :
    Event.line (events rs) = ((line [] rs).1,events (line [] rs).2) := by
  obtain ⟨h1,h2⟩ := line_events [] rs
  rw [h1,h2,Event.map_nil_append]

end Read
end PascalTokens
