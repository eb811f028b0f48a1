import PascalTokens.Failure

/-! Input that comes by reads. A read gives bytes, or fails; one of no bytes is an end of the
input, for that moment at least. After the last read the input has ended for good. -/
namespace PascalTokens

inductive Read
  | data (bytes : List UInt8)
  | failure (failure : Failure)
  deriving DecidableEq

/-- The reads of the file at each path that can be opened. -/
abbrev Files := String → Except Failure (List Read)

namespace Read

def newline : UInt8 := 0x0A

def byteCount : List Read → Nat
  | [] => 0
  | .data bs :: rs => bs.length + byteCount rs
  | .failure _ :: rs => byteCount rs

/-- The reads that give `bs` and then `rs`, where no bytes take no read. -/
def push (bs : List UInt8) (rs : List Read) : List Read :=
  if bs.isEmpty then rs else .data bs :: rs

@[simp] theorem byteCount_push (bs : List UInt8) (rs : List Read) :
    byteCount (push bs rs) = bs.length + byteCount rs := by
  cases bs <;> simp [push,byteCount]

/-- The bytes up to a newline or the end, and the reads that remain. A failure other than an
interruption takes the bytes collected before it with it. -/
def line (collected : List UInt8) : List Read → Except Failure (List UInt8) × List Read
  | [] => (.ok collected,[])
  | .failure f :: rs => if f.kind = .interrupted then line collected rs else (.error f,rs)
  | .data [] :: rs => (.ok collected,rs)
  | .data (b :: bs) :: rs =>
    match (b :: bs).dropWhile (· != newline) with
    | [] => line (collected ++ b :: bs) rs
    | n :: after => (.ok (collected ++ (b :: bs).takeWhile (· != newline) ++ [n]),push after rs)

theorem byteCount_line {collected bs : List UInt8} {rs after : List Read}
    (h : line collected rs = (.ok bs,after)) :
    bs.length + byteCount after = collected.length + byteCount rs := by
  induction rs generalizing collected with
  | nil =>
    simp only [line,Prod.mk.injEq,Except.ok.injEq] at h
    obtain ⟨rfl,rfl⟩ := h
    simp [byteCount]
  | cons r rs ih =>
    match r with
    | .failure f =>
      simp only [line] at h
      split at h
      · simpa [byteCount] using ih h
      · simp at h
    | .data [] =>
      simp only [line,Prod.mk.injEq,Except.ok.injEq] at h
      obtain ⟨rfl,rfl⟩ := h
      simp [byteCount]
    | .data (b :: cs) =>
      have hs := congrArg List.length
        (List.takeWhile_append_dropWhile (p := (· != newline)) (l := b :: cs))
      simp only [line] at h
      split at h
      · have hi := ih h
        simp only [List.length_append] at hi
        simp only [byteCount]
        omega
      · rename_i n tail hd
        simp only [Prod.mk.injEq,Except.ok.injEq] at h
        obtain ⟨rfl,rfl⟩ := h
        rw [hd] at hs
        simp only [List.length_append,List.length_cons] at hs
        simp only [List.length_append,List.length_cons,List.length_nil,byteCount_push,byteCount]
        omega

end Read

end PascalTokens
