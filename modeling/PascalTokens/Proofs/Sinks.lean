import PascalTokens.Output

/-! What a sink takes of the bytes that are written to it: all of them or, where its room ends, the
first ones. A writer learns whether all were taken, and one that writes on after a refusal adds
nothing. -/
namespace PascalTokens

namespace Sink

/-- What a writer learns when bytes do not fit. -/
def refused (s : Sink) : Failure :=
  match s.refusal with
  | .failure f _ => f
  | .nothing => nothingWritten

/-- What a writer of `n` bytes learns, if they do not fit. -/
def failure? (s : Sink) (n : Nat) : Option Failure :=
  if s.room.all (n ≤ ·) then none else some s.refused

/-- The sink once it has taken of the bytes what it has room for. -/
def filled (s : Sink) (bs : List UInt8) : Sink :=
  { s with
    room := s.room.map (· - bs.length)
    taken := s.taken ++ s.room.elim bs (bs.take ·) }

theorem failure?_of_fits {s : Sink} {n : Nat} (h : s.room.all (n ≤ ·) = true) :
    s.failure? n = none := if_pos h

theorem failure?_of_lt {s : Sink} {m n : Nat} (hr : s.room = some m) (h : m < n) :
    s.failure? n = some s.refused := by
  rw [failure?,hr,if_neg]
  simpa using h

@[simp] theorem filled_nil (s : Sink) : s.filled [] = s := by
  obtain ⟨room,refusal,flushFailure,taken⟩ := s
  cases room <;> simp [filled]

theorem filled_append (s : Sink) (as bs : List UInt8) :
    s.filled (as ++ bs) = (s.filled as).filled bs := by
  obtain ⟨room,refusal,flushFailure,taken⟩ := s
  cases room with
  | none => simp [filled]
  | some n => simp [filled,List.take_append,Nat.sub_sub]

theorem failure?_append (s : Sink) (as bs : List UInt8) :
    s.failure? (as ++ bs).length =
      (s.failure? as.length).or ((s.filled as).failure? bs.length) := by
  obtain ⟨room,refusal,flushFailure,taken⟩ := s
  cases room with
  | none => rfl
  | some n =>
    by_cases ha : as.length ≤ n
    · have hb : as.length + bs.length ≤ n ↔ bs.length ≤ n - as.length := by omega
      simp [failure?,filled,ha,hb]
      rfl
    · have hb : ¬as.length + bs.length ≤ n := by omega
      simp [failure?,ha,hb]

theorem filled_append_of_failure {s : Sink} {as : List UInt8} {f : Failure}
    (h : s.failure? as.length = some f) (bs : List UInt8) : s.filled (as ++ bs) = s.filled as := by
  rw [filled_append]
  obtain ⟨room,refusal,flushFailure,taken⟩ := s
  cases room with
  | none => simp [failure?] at h
  | some n =>
    have hn : n - as.length = 0 := by
      simp only [failure?,Option.all_some,decide_eq_true_eq] at h
      split at h
      · cases h
      · omega
    simp [filled,hn]

theorem writeAll_of_full {s : Sink} (h : s.room = some 0) (b : UInt8) (bs : List UInt8) :
    s.writeAll (b :: bs) = (some s.refused,s) := by
  rw [writeAll,write,h,refused]
  cases s.refusal <;> rfl

theorem writeAll_of_fits {s : Sink} {bs : List UInt8} (h : s.room.all (bs.length ≤ ·) = true) :
    s.writeAll bs = (none,s.filled bs) := by
  cases bs with
  | nil => rw [writeAll,filled_nil]
  | cons b bs =>
    have hw : s.write (b :: bs) = (.ok (bs.length + 1),s.filled (b :: bs)) := by
      cases hr : s.room with
      | none => simp [write,filled,hr]
      | some m =>
        have hm : bs.length + 1 ≤ m := by simpa [hr] using h
        obtain ⟨n,rfl⟩ := Nat.exists_eq_succ_of_ne_zero (Nat.ne_zero_of_lt hm)
        have hn : bs.length ≤ n := Nat.le_of_succ_le_succ hm
        simp [write,filled,hr,Nat.min_eq_right hn,List.take_of_length_le hn]
    rw [writeAll,hw]
    simp [writeAll]

theorem writeAll_of_lt {s : Sink} {m : Nat} {bs : List UInt8} (hr : s.room = some m)
    (h : m < bs.length) : s.writeAll bs = (some s.refused,s.filled bs) := by
  obtain ⟨b,bs,rfl⟩ := List.exists_cons_of_length_pos (Nat.zero_lt_of_lt h)
  cases m with
  | zero =>
    have hf : s.filled (b :: bs) = s := by simp [filled,hr]; rw [← hr]
    rw [writeAll_of_full hr,hf]
  | succ n =>
    have hlt : n < bs.length := Nat.lt_of_succ_lt_succ h
    have hle := Nat.le_of_lt hlt
    have hw : s.write (b :: bs) = (.ok (n + 1),s.filled (b :: bs)) := by
      simp [write,filled,hr,Nat.min_eq_left hle,Nat.sub_eq_zero_of_le hle]
    have hfull : (s.filled (b :: bs)).room = some 0 := by
      simp [filled,hr,Nat.sub_eq_zero_of_le hle]
    have hdrop : bs.drop n ≠ [] := by simpa using hlt
    obtain ⟨d,ds,hd⟩ := List.exists_cons_of_ne_nil hdrop
    rw [writeAll,hw]
    simp only [hd,writeAll_of_full hfull]
    rfl

theorem writeAll_eq (s : Sink) (bs : List UInt8) :
    s.writeAll bs = (s.failure? bs.length,s.filled bs) := by
  by_cases h : s.room.all (bs.length ≤ ·) = true
  · rw [writeAll_of_fits h,failure?_of_fits h]
  · obtain ⟨m,hr,hm⟩ : ∃ m, s.room = some m ∧ m < bs.length := by
      cases hr : s.room with
      | none => simp [hr] at h
      | some m => exact ⟨m,rfl,by simpa [hr] using h⟩
    rw [writeAll_of_lt hr hm,failure?_of_lt hr hm]

end Sink

/-- The bytes of a listing, and of the summary after it if asked for. -/
def outputBytes (ts : List Token) (o : ListingOptions) (summary : Bool) : List UInt8 :=
  (listing ts o).toUTF8.toList ++ if summary then (Summary.text ts).toUTF8.toList else []

/-- The listing and the summary are written as one text, and flushed if all of it is taken. -/
theorem Sink.writeTokens_eq (s : Sink) (ts : List Token) (o : ListingOptions) (summary : Bool) :
    s.writeTokens ts o summary =
      ((s.failure? (outputBytes ts o summary).length).or s.flushFailure,
        s.filled (outputBytes ts o summary)) := by
  rw [writeTokens,writeText,writeAll_eq,outputBytes]
  cases hf : s.failure? (listing ts o).toUTF8.toList.length with
  | some f =>
    rw [failure?_append,hf,filled_append_of_failure hf]
    rfl
  | none =>
    cases summary with
    | false =>
      rw [if_neg Bool.false_ne_true,List.append_nil,hf]
      rfl
    | true =>
      rw [if_pos rfl,failure?_append,hf,Option.none_or,filled_append]
      simp only [if_pos,writeText,writeAll_eq]
      cases (s.filled _).failure? (Summary.text ts).toUTF8.toList.length <;> rfl

namespace Sink

/-- Does the sink take all that is written to it? -/
def TakesAll (s : Sink) : Prop := s.room = none ∧ s.flushFailure = none

/-- Does the sink refuse whatever is written to it, and nothing else? -/
def TakesNothing (s : Sink) : Prop := s.room = some 0 ∧ s.flushFailure = none

theorem TakesAll.writeTokens {s : Sink} (h : s.TakesAll) (ts : List Token) (o : ListingOptions)
    (summary : Bool) :
    s.writeTokens ts o summary = (none,{ s with taken := s.taken ++ outputBytes ts o summary }) := by
  obtain ⟨room,refusal,flushFailure,taken⟩ := s
  obtain ⟨hr,hf⟩ := h
  cases hr
  cases hf
  rw [writeTokens_eq,failure?_of_fits rfl]
  rfl

theorem TakesNothing.writeTokens {s : Sink} (h : s.TakesNothing) (ts : List Token)
    (o : ListingOptions) (summary : Bool) :
    s.writeTokens ts o summary =
      (if outputBytes ts o summary = [] then none else some s.refused,s) := by
  obtain ⟨hr,hf⟩ := h
  have hfilled : s.filled (outputBytes ts o summary) = s := by
    simp only [filled,hr,Option.map_some,Nat.zero_sub,Option.elim_some,List.take_zero,
      List.append_nil]
    rw [← hr]
  rw [writeTokens_eq,hf,Option.or_none,hfilled]
  by_cases hout : outputBytes ts o summary = []
  · rw [if_pos hout,failure?_of_fits (by simp [hr,hout])]
  · rw [if_neg hout,failure?_of_lt hr (List.length_pos_iff.2 hout)]

/-- A sink with room for `n` bytes takes the first `n` of the listing and the summary together, wherever
the one ends and the other begins. It refuses if there are more, and otherwise a flush decides; so
nothing at all can be written to a sink that takes nothing. -/
theorem writeTokens_of_room {s : Sink} {n : Nat} (hr : s.room = some n) (ts : List Token)
    (o : ListingOptions) (summary : Bool) :
    s.writeTokens ts o summary =
        (if n < (outputBytes ts o summary).length then some s.refused else s.flushFailure,
          { s with
            room := some (n - (outputBytes ts o summary).length)
            taken := s.taken ++ (outputBytes ts o summary).take n }) ∧
      (s.TakesNothing → outputBytes ts o summary = [] → s.writeTokens ts o summary = (none,s)) := by
  constructor
  · rw [writeTokens_eq]
    refine Prod.ext ?_ ?_
    · by_cases h : n < (outputBytes ts o summary).length
      · rw [if_pos h,failure?_of_lt hr h,Option.some_or]
      · rw [if_neg h,failure?_of_fits (by simpa [hr] using h),Option.none_or]
    · rw [filled,hr]
      rfl
  · intro hnothing hout
    rw [hnothing.writeTokens,if_pos hout]

/-- Room that ends within a character, room that ends with the listing, and room for all before a flush
that fails. -/
theorem writeTokens_of_room_ends :
    let ts : List Token := [⟨.identifier,"é",1,⟨0,2⟩⟩]
    let closed : Failure := ⟨.brokenPipe,"closed"⟩
    (⟨some 13,.failure closed (by decide),none,[]⟩ : Sink).writeTokens ts ⟨false,false⟩ true =
        (some closed,⟨some 0,.failure closed (by decide),none,
          "Identifier '".toUTF8.toList ++ [0xC3]⟩) ∧
      (⟨some 16,.nothing,none,[]⟩ : Sink).writeTokens ts ⟨false,false⟩ true =
        (some nothingWritten,⟨some 0,.nothing,none,"Identifier 'é'\n".toUTF8.toList⟩) ∧
      (⟨some 37,.nothing,some closed,[]⟩ : Sink).writeTokens ts ⟨false,false⟩ true =
        (some closed,⟨some 0,.nothing,some closed,
          "Identifier 'é'\n        Identifier 1\n".toUTF8.toList⟩) ∧
      (Sink.full closed (by decide)).writeTokens [] ⟨true,true⟩ true =
        (none,Sink.full closed (by decide)) := by
  intro ts closed
  refine ⟨(writeTokens_of_room rfl ts _ true).1.trans ?_,
    (writeTokens_of_room rfl ts _ true).1.trans ?_,
    (writeTokens_of_room rfl ts _ true).1.trans ?_,
    (writeTokens_of_room rfl [] _ true).2 ⟨rfl,rfl⟩ ?_⟩
  · decide +kernel
  · decide +kernel
  · decide +kernel
  · decide +kernel

end Sink

end PascalTokens
