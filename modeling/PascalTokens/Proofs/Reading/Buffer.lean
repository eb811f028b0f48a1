import PascalTokens.Proofs.Reading.Events

/-! Reads behind a buffer of limited size. When the buffer is empty it is filled by one read, which
gives what fits; a line is then taken from the buffer, over as many fillings as it needs. Whatever
the size, the lines are those of the events. -/
namespace PascalTokens

structure BufferedReader where
  buffer : List UInt8
  reads : List Read

namespace BufferedReader

def remaining (r : BufferedReader) : Nat := r.buffer.length + Read.byteCount r.reads + r.reads.length

/-- Reads once if the buffer is empty, at most `size` bytes. -/
def fill (size : Nat) : BufferedReader → Option Failure × BufferedReader
  | ⟨[],.failure f :: rs⟩ => (some f,⟨[],rs⟩)
  | ⟨[],.data bs :: rs⟩ => (none,⟨bs.take size,Read.push (bs.drop size) rs⟩)
  | r => (none,r)

theorem remaining_lt_of_fill {size : Nat} {r s : BufferedReader} {f : Failure}
    (h : fill size r = (some f,s)) : s.remaining < r.remaining := by
  unfold fill at h
  split at h
  · cases h
    simp [remaining,Read.byteCount]
  · cases h
  · cases h

theorem length_push_le (bs : List UInt8) (rs : List Read) :
    (Read.push bs rs).length ≤ rs.length + 1 := by
  cases bs with
  | nil => exact Nat.le_succ _
  | cons b bs => exact Nat.le_refl _

theorem remaining_le_of_fill {size : Nat} {r s : BufferedReader}
    (h : fill size r = (none,s)) : s.remaining ≤ r.remaining := by
  unfold fill at h
  split at h
  · cases h
  · rename_i bs rs
    cases h
    have hpush := length_push_le (bs.drop size) rs
    have hbytes := Read.byteCount_push (bs.drop size) rs
    have hlength := congrArg List.length (List.take_append_drop size bs)
    rw [List.length_append] at hlength
    simp only [remaining,Read.byteCount,List.length_nil,List.length_cons]
    omega
  · cases h
    exact Nat.le_refl _

/-- The bytes up to a newline or the end, taken from the buffer after each filling. -/
def line (size : Nat) (collected : List UInt8) (r : BufferedReader) :
    Except Failure (List UInt8) × BufferedReader :=
  match _h : fill size r with
  | (some f,s) => if f.kind = .interrupted then line size collected s else (.error f,s)
  | (none,⟨[],rs⟩) => (.ok collected,⟨[],rs⟩)
  | (none,⟨b :: bs,rs⟩) =>
    match (b :: bs).dropWhile (· != Read.newline) with
    | [] => line size (collected ++ b :: bs) ⟨[],rs⟩
    | n :: after => (.ok (collected ++ (b :: bs).takeWhile (· != Read.newline) ++ [n]),⟨after,rs⟩)
  termination_by remaining r
  decreasing_by
    · exact remaining_lt_of_fill _h
    · have := remaining_le_of_fill _h
      simp only [remaining,List.length_cons,List.length_nil] at this ⊢
      omega

def events (r : BufferedReader) : List Event := r.buffer.map .byte ++ Read.events r.reads

theorem events_of_failed_fill {size : Nat} {r s : BufferedReader} {f : Failure}
    (h : fill size r = (some f,s)) :
    r.events = if f.kind = .interrupted then s.events else .failure f :: s.events := by
  unfold fill at h
  split at h
  · cases h
    rfl
  · cases h
  · cases h

theorem events_of_fill {size : Nat} {r s : BufferedReader} (h : fill size r = (none,s))
    (hs : s.buffer ≠ []) : r.events = s.events := by
  unfold fill at h
  split at h
  · cases h
  · rename_i bs rs
    cases h
    have hb : bs ≠ [] := by
      rintro rfl
      exact hs List.take_nil
    show Read.events (.data bs :: rs) =
      (bs.take size).map .byte ++ Read.events (Read.push (bs.drop size) rs)
    rw [Read.events_push,← List.append_assoc,← List.map_append,List.take_append_drop,
      Read.events_data hb]
  · cases h
    rfl

/-- If the buffer is empty after a filling, the input has ended there. -/
theorem line_events_of_empty_fill {size : Nat} (hsize : 0 < size) {r : BufferedReader}
    {rs : List Read} (h : fill size r = (none,⟨[],rs⟩)) :
    Event.line r.events = (.ok [],Read.events rs) := by
  unfold fill at h
  split at h
  · cases h
  · rename_i bs qs
    simp only [Prod.mk.injEq,mk.injEq,true_and] at h
    obtain ⟨ht,rfl⟩ := h
    have hb : bs = [] := by
      rcases List.take_eq_nil_iff.1 ht with hz | hb
      · omega
      · exact hb
    rw [hb,List.drop_nil]
    rfl
  · rename_i hfailure hdata
    cases h
    cases rs with
    | nil => rfl
    | cons q qs =>
      cases q with
      | data bs => exact absurd rfl (hdata bs qs)
      | failure f => exact absurd rfl (hfailure f qs)

theorem line_events {size : Nat} (hsize : 0 < size) (collected : List UInt8) (r : BufferedReader) :
    (line size collected r).1 = (Event.line r.events).1.map (collected ++ ·) ∧
      (line size collected r).2.events = (Event.line r.events).2 := by
  fun_induction line size collected r with
  | case1 collected r f s h hk ih =>
    rw [events_of_failed_fill h,if_pos hk]
    exact ih
  | case2 collected r f s h hk =>
    rw [events_of_failed_fill h,if_neg hk]
    exact ⟨rfl,rfl⟩
  | case3 collected r rs h =>
    rw [line_events_of_empty_fill hsize h]
    exact ⟨by simp [Except.map],rfl⟩
  | case4 collected r b bs rs h hd ih =>
    have hempty : events ⟨[],rs⟩ = Read.events rs := rfl
    rw [hempty] at ih
    rw [events_of_fill h (List.cons_ne_nil b bs),events,Event.line_chunk hd,Event.map_collected]
    exact ih
  | case5 collected r b bs rs h n after hd =>
    rw [events_of_fill h (List.cons_ne_nil b bs),events,Event.line_chunk_newline hd]
    exact ⟨by simp [Except.map],rfl⟩

theorem line_of_events {size : Nat} (hsize : 0 < size) (r : BufferedReader) :
    Event.line r.events = ((line size [] r).1,(line size [] r).2.events) := by
  obtain ⟨h1,h2⟩ := line_events hsize [] r
  rw [h1,h2,Event.map_nil_append]

end BufferedReader
end PascalTokens
