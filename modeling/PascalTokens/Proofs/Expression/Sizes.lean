import Mathlib.Data.List.Basic
import Mathlib.Tactic.Linarith
import PascalTokens.Expression.AutomatonSize

/-! Bounds on the size of the automata for an expression. They count no state as shared. -/
namespace PascalTokens.Expression

theorem mapM_eq_none {α β : Type} {f : α → Option β} {a : α} {as : List α} (ha : a ∈ as)
    (h : f a = none) : as.mapM f = none := by
  induction as with
  | nil => cases ha
  | cons b as ih =>
    rw [List.mapM_cons]
    rcases List.mem_cons.1 ha with rfl | ha
    · rw [h]
      rfl
    · rw [ih ha]
      cases f b <;> rfl

/-- Does a part add at most `n` bytes, whatever is there? -/
def AddsAtMost (n : Nat) (f : Growth) : Prop := ∀ x, (f x).bytes ≤ x.bytes + n

section Growth

variable {m n : Nat} {f g : Growth}

theorem bytes_plain (n : Nat) (x : Extent) : (Extent.plain n x).bytes = x.bytes + 32 * n := by
  simp only [Extent.plain,Extent.plus,Extent.bytes,stateSize]
  omega

theorem bytes_sparse (n : Nat) (x : Extent) : (Extent.sparse n x).bytes = x.bytes + (32 + 8 * n) := by
  simp only [Extent.sparse,Extent.plus,Extent.bytes,stateSize,transitionSize]
  omega

theorem bytes_union (n : Nat) (x : Extent) : (Extent.union n x).bytes = x.bytes + (32 + 4 * n) := by
  simp only [Extent.union,Extent.plus,Extent.bytes,stateSize,successorSize]
  omega

theorem AddsAtMost.mono (h : AddsAtMost m f) (hle : m ≤ n) : AddsAtMost n f :=
  fun x => Nat.le_trans (h x) (Nat.add_le_add_left hle _)

theorem AddsAtMost.comp (hf : AddsAtMost m f) (hg : AddsAtMost n g) :
    AddsAtMost (m + n) fun x => g (f x) := by
  intro x
  have hfirst := hf x
  have hsecond := hg (f x)
  dsimp only
  omega

/-- Parts one after the other, each within one bound. -/
theorem bytes_foldl_le {α : Type} {f : Extent → α → Extent} (as : List α)
    (h : ∀ a ∈ as, ∀ x, (f x a).bytes ≤ x.bytes + n) (x : Extent) :
    (as.foldl f x).bytes ≤ x.bytes + as.length * n := by
  induction as generalizing x with
  | nil => simp
  | cons a as ih =>
    have hfirst := h a List.mem_cons_self x
    have hlater := ih (fun b hb => h b (List.mem_cons_of_mem _ hb)) (f x a)
    rw [List.foldl_cons,List.length_cons]
    nlinarith

end Growth

section Sets

open Unicode (ByteRange)

theorem length_byHead_le (ss : List (List ByteRange)) :
    (byHead ss).length ≤ ((byHead ss).map (·.2.length)).sum ∧
      ((byHead ss).map (·.2.length)).sum ≤ ss.length := by
  induction ss using byHead.induct with
  | case1 => simp [byHead]
  | case2 ss ih =>
    rw [byHead,List.length_cons]
    omega
  | case3 a s ss h ih => simp [byHead,h]
  | case4 s ss a ts gs h ih =>
    rw [h] at ih
    simp only [byHead,h,if_pos,List.map_cons,List.sum_cons,List.length_cons] at *
    omega
  | case5 a s ss b ts gs h hne ih =>
    rw [h] at ih
    simp only [byHead,h,if_neg hne,List.map_cons,List.sum_cons,List.length_cons,List.length_nil] at *
    omega

theorem foldl_addGroup {target n : Nat}
    {read : List (List ByteRange) → Extent × Slots Transitions → Nat × Extent × Slots Transitions}
    (h : ∀ ss x, (read ss x).2.1.bytes ≤ x.1.bytes + (n * ss.length + 32))
    (gs : List (ByteRange × List (List ByteRange))) (y : Transitions × Extent × Slots Transitions) :
    (gs.foldl (addGroup target read) y).1.length = y.1.length + gs.length ∧
      (gs.foldl (addGroup target read) y).2.1.bytes ≤
        y.2.1.bytes + (n * (gs.map (·.2.length)).sum + 32 * gs.length) := by
  induction gs generalizing y with
  | nil => simp
  | cons g gs ih =>
    have hlength : (addGroup target read y g).1.length = y.1.length + 1 := by simp [addGroup]
    have hbytes : (addGroup target read y g).2.1.bytes ≤
        y.2.1.bytes + (n * g.2.length + 32) := by
      rw [addGroup]
      dsimp only
      split
      · exact Nat.le_add_right _ _
      · exact h g.2 y.2
    obtain ⟨hlengths,hlater⟩ := ih (addGroup target read y g)
    rw [List.foldl_cons,hlengths,hlength,List.length_cons,List.map_cons,List.sum_cons,Nat.mul_add]
    constructor <;> omega

theorem bytes_addForwards_le (target n : Nat) (ss : List (List ByteRange))
    (x : Extent × Slots Transitions) :
    (addForwards target n ss x).2.1.bytes ≤ x.1.bytes + (40 * n * ss.length + 32) := by
  induction n generalizing ss x with
  | zero => simp [addForwards]
  | succ n ih =>
    obtain ⟨hnumber,hsum⟩ := length_byHead_le ss
    obtain ⟨hlength,hbytes⟩ := foldl_addGroup ih (byHead ss) ([],x)
    have hmul := Nat.mul_le_mul_left (40 * n) hsum
    rw [addForwards]
    dsimp only
    split
    · rw [bytes_sparse,hlength,List.length_nil]
      linarith
    · linarith

theorem bytes_addBackwards_le (target : Nat) (s : List ByteRange)
    (x : Extent × Slots (Nat × ByteRange)) :
    (addBackwards target s x).1.bytes ≤ x.1.bytes + 32 * s.length := by
  obtain ⟨x,slots⟩ := x
  rw [addBackwards]
  generalize target = next
  induction s generalizing next x slots with
  | nil => simp
  | cons r s ih =>
    rw [List.foldl_cons]
    dsimp only
    refine Nat.le_trans (ih _ _ _) ?_
    rw [List.length_cons]
    split
    · rw [bytes_plain]
      omega
    · dsimp only
      omega

/-- What a set takes at most: its transitions if it is ASCII, else a chain of states for every
sequence. -/
def setBytes (s : CharSet) : Nat :=
  64 + 8 * s.runs.length + 164 * (Unicode.sequences s).length +
    32 * ((Unicode.sequences s).map List.length).sum

theorem addsAtMost_ofSet (d : Direction) (s : CharSet) :
    AddsAtMost (setBytes s) (Part.ofSet d s).growth := by
  intro x
  rw [Part.ofSet,setBytes]
  generalize Unicode.sequences s = ss
  split
  · simp only [Part.ofGrowth,bytes_sparse,bytes_plain]
    omega
  · cases d with
    | forwards =>
      have hread := bytes_addForwards_le x.states maxFormLength ss (.plain 1 x,∅)
      simp only [maxFormLength,bytes_plain] at hread
      simp only [Part.ofGrowth,sequencesGrowth,maxFormLength]
      omega
    | backwards =>
      have hread (ss : List (List ByteRange)) (y : Extent × Slots (Nat × ByteRange)) :
          (ss.foldl (fun y s => addBackwards (x.states + 1) s y) y).1.bytes ≤
            y.1.bytes + 32 * (ss.map List.length).sum := by
        induction ss generalizing y with
        | nil => simp
        | cons s ss ih =>
          have hfirst := bytes_addBackwards_le (x.states + 1) s y
          have hlater := ih (addBackwards (x.states + 1) s y)
          rw [List.foldl_cons,List.map_cons,List.sum_cons]
          omega
      have hall := hread ss (.plain 1 (.union ss.length x),∅)
      simp only [Part.ofGrowth,sequencesGrowth]
      rw [bytes_plain,bytes_union] at hall
      omega

end Sets

/-- Do the parts for an expression add at most `n` bytes in either direction? -/
def Takes (e : Expression) (n : Nat) : Prop :=
  ∀ d, AddsAtMost n (Part.ofBranches (e.branchParts d)).growth

namespace Takes

variable {a b e : Expression} {m n : Nat}

theorem mono (h : e.Takes m) (hle : m ≤ n) : e.Takes n := fun d => (h d).mono hle

theorem empty : Takes .empty 32 := fun _ x => Nat.le_of_eq (bytes_plain 1 x)

theorem one (s : CharSet) : Takes (.one s) (setBytes s) := fun d => addsAtMost_ofSet d s

theorem length_utf8EncodeChar_le (c : Char) : (String.utf8EncodeChar c).length ≤ 4 := by
  rw [String.length_utf8EncodeChar]
  exact c.utf8Size_le_four

theorem text (t : List Char) : Takes (.text t) (128 * t.length) := by
  intro d x
  have hbytes : (t.flatMap String.utf8EncodeChar).length ≤ 4 * t.length := by
    induction t with
    | nil => simp
    | cons c t ih =>
      have := length_utf8EncodeChar_le c
      rw [List.flatMap_cons,List.length_append,List.length_cons]
      omega
  have hplain : ((Part.ofText d t).growth x).bytes =
      x.bytes + 32 * (t.flatMap String.utf8EncodeChar).length := by
    cases d <;> exact bytes_plain _ x
  change ((Part.ofText d t).growth x).bytes ≤ _
  omega

theorem seq (ha : a.Takes m) (hb : b.Takes n) : Takes (.seq a b) (m + n) := by
  intro d
  cases d with
  | forwards => exact (ha .forwards).comp (hb .forwards)
  | backwards => exact Nat.add_comm n m ▸ (hb .backwards).comp (ha .backwards)

theorem opt (h : a.Takes n) (greedy : Bool) : Takes (.times 0 (some 1) greedy a) (n + 72) := by
  intro d x
  have := h d (.union 2 x)
  change (Extent.plain 1 ((Part.ofBranches (a.branchParts d)).growth (.union 2 x))).bytes ≤ _
  rw [bytes_plain]
  rw [bytes_union] at this
  omega

theorem plus (h : a.Takes n) (greedy : Bool) : Takes (.times 1 none greedy a) (n + 40) := by
  intro d x
  change (timesGrowth 1 none a.consumes (Part.ofBranches (a.branchParts d)).growth x).bytes ≤ _
  rw [timesGrowth,bytes_union,Extent.repeated]
  split
  · omega
  · have := h d x
    rw [Extent.repeated]
    omega

theorem star (h : a.Takes n) (greedy : Bool) : Takes (.times 0 none greedy a) (n + 112) := by
  intro d x
  change (timesGrowth 0 none a.consumes (Part.ofBranches (a.branchParts d)).growth x).bytes ≤ _
  rw [timesGrowth]
  split
  · have := h d (.union 2 x)
    rw [bytes_union] at this
    omega
  · have := h d x
    rw [bytes_plain,bytes_union,bytes_union]
    omega

section Choices

theorem branchParts_ofBranches (d : Direction) {es : List Expression} (hne : es ≠ []) :
    (ofBranches es).branchParts d = es.flatMap (·.branchParts d) := by
  induction es with
  | nil => exact absurd rfl hne
  | cons e es ih =>
    cases es with
    | nil => simp [ofBranches]
    | cons f es =>
      rw [ofBranches,branchParts,ih (List.cons_ne_nil _ _),← List.flatMap_cons]
      exact List.cons_ne_nil _ _

/-- What is no choice makes one part, which is a word only if it is a text. -/
theorem branchParts_eq_singleton (h : e.branches = [e]) (d : Direction) :
    ∃ p, e.branchParts d = [p] ∧ ((∀ t, e ≠ .text t) → p.word = none) := by
  cases e with
  | text t => exact ⟨_,rfl,fun h => absurd rfl (h t)⟩
  | one s =>
    refine ⟨_,rfl,fun _ => ?_⟩
    rw [Part.ofSet]
    split <;> rfl
  | alt a b => cases b <;> simp [branches] at h
  | group number a => cases d <;> exact ⟨_,rfl,fun _ => rfl⟩
  | seq a b => cases d <;> exact ⟨_,rfl,fun _ => rfl⟩
  | _ => exact ⟨_,rfl,fun _ => rfl⟩

theorem addsAtMost_ofBranches {ps : List Part} (h : ∀ p ∈ ps, AddsAtMost n p.growth)
    (hword : ∃ p ∈ ps, p.word = none) :
    AddsAtMost (ps.length * (n + 4) + 64) (Part.ofBranches ps).growth := by
  have hwords : ps.mapM (·.word) = none := by
    obtain ⟨p,hp,hnone⟩ := hword
    exact mapM_eq_none hp hnone
  intro x
  rw [Part.ofBranches.eq_def]
  split
  · have := h _ List.mem_cons_self x
    simp only [List.length_singleton]
    omega
  · rw [hwords]
    have hfirst := bytes_foldl_le (ps.take 2) (fun p hp => h p (List.mem_of_mem_take hp)) x
    have hlater := bytes_foldl_le (ps.drop 2) (fun p hp => h p (List.mem_of_mem_drop hp))
      (.plain 1 (.union ps.length ((ps.take 2).foldl (fun x p => p.growth x) x)))
    rw [bytes_plain,bytes_union] at hlater
    have hlength : (ps.take 2).length + (ps.drop 2).length = ps.length := by
      rw [← List.length_append,List.take_append_drop]
    simp only [Part.ofGrowth,Part.branchesGrowth]
    nlinarith

theorem ofBranches {es : List Expression} (h : ∀ e ∈ es, e.branches = [e] ∧ e.Takes n)
    (hes : ∃ e ∈ es, ∀ t, e ≠ .text t) :
    (Expression.ofBranches es).Takes (es.length * (n + 4) + 64) := by
  intro d
  obtain ⟨f,hf,htext⟩ := hes
  have hparts : es.flatMap (·.branchParts d) = es.map fun e => Part.ofBranches (e.branchParts d) := by
    rw [List.map_eq_flatMap]
    refine List.flatMap_congr fun e he => ?_
    obtain ⟨p,hp,-⟩ := branchParts_eq_singleton (h e he).1 d
    rw [hp]
    rfl
  obtain ⟨p,hp,hword⟩ := branchParts_eq_singleton (h f hf).1 d
  rw [branchParts_ofBranches d (List.ne_nil_of_mem hf),hparts,
    ← List.length_map (fun e : Expression => Part.ofBranches (e.branchParts d))]
  refine addsAtMost_ofBranches (fun q hq => ?_) ⟨_,List.mem_map_of_mem hf,?_⟩
  · obtain ⟨e,he,rfl⟩ := List.mem_map.1 hq
    exact (h e he).2 d
  · rw [hp]
    exact hword htext

end Choices

end Takes

theorem isTooLarge_eq_false {e : Expression} {n : Nat} (h : e.Takes n)
    (hn : n + 400 ≤ Extent.maxBytes) : e.isTooLarge = false := by
  have happroach (b : Bool) : (approach b ⟨0,0⟩).bytes ≤ 200 := by
    cases b <;> decide
  have hbytes (d : Direction) : (e.automaton d).bytes ≤ n + 400 := by
    cases d with
    | forwards =>
      have := happroach (e.isAnchored .forwards .lineStart)
      have := h .forwards (.plain 1 (approach (e.isAnchored .forwards .lineStart) ⟨0,0⟩))
      simp only [automaton,bytes_plain] at *
      omega
    | backwards =>
      have := happroach (e.isAnchored .backwards .lineEnd)
      have := h .backwards (approach (e.isAnchored .backwards .lineEnd) ⟨0,0⟩)
      simp only [automaton,bytes_plain] at *
      omega
  have hsmall (d : Direction) : (e.automaton d).isTooLarge = false :=
    decide_eq_false (Nat.not_lt.2 (Nat.le_trans (hbytes d) hn))
  rw [isTooLarge,hsmall,hsmall,Bool.or_false]

end PascalTokens.Expression
