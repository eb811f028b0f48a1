import PascalTokens.Proofs.Pascal.Letters
import PascalTokens.Proofs.Reading.Decoding

/-! The tokens of lines that are taken one by one. Each call asks once for a line, as long as no answer
is a failure; what has failed is never asked again. Tokens taken all at once are those of the calls up
to the first one that gives none. -/
namespace PascalTokens

/-- What is answered for a line, and the number of the line read last once the answer is given. -/
abbrev Answer := Except Error (Option Line) × Nat

def Answer.isFailure : Answer → Bool
  | (.error _,_) => true
  | (.ok _,_) => false

def LineSupply.ask {σ : Type} [LineSupply σ] (s : σ) : Answer × σ :=
  (((next s).1,number (next s).2),(next s).2)

/-- The item that an answer gives: the tokens of the line under its number, none where the lines have
ended, or the failure. -/
def Catalog.item (c : Catalog) : Answer → Option (Except Error (List Token))
  | (.ok (some l),n) => some (.ok (c.tokenizeLine l n))
  | (.ok none,_) => none
  | (.error e,_) => some (.error e)

namespace LineTokens

section Supply

open LineSupply

variable {σ : Type} [LineSupply σ]

/-- The items of `n` calls are those of `k` answers: every call asks once, up to the first failure, and
no later call asks. -/
structure CallsAsk (c : Catalog) (s : σ) (n k : Nat) : Prop where
  le : k ≤ n
  items : (calls next n (ofSource c s)).1 =
    (calls ask k s).1.map c.item ++ List.replicate (n - k) none
  source : (calls next n (ofSource c s)).2.source = (calls ask k s).2
  unbroken : (calls ask k s).1.Pairwise fun a _ => a.isFailure = false
  broken : k < n → ∃ a ∈ (calls ask k s).1, a.isFailure = true

theorem next_live (c : Catalog) (s : σ) :
    next ⟨c,s,false⟩ = (c.item (ask s).1,⟨c,(ask s).2,(ask s).1.isFailure⟩) := by
  rcases h : LineSupply.next s with ⟨e | l,t⟩
  · simp [next,ask,Catalog.item,Answer.isFailure,h]
  · cases l <;> simp [next,ask,Catalog.item,Answer.isFailure,h]

theorem calls_failed (c : Catalog) (s : σ) (n : Nat) :
    calls next n ⟨c,s,true⟩ = (List.replicate n none,⟨c,s,true⟩) := by
  induction n with
  | zero => rfl
  | succ n ih =>
    have hnext : next ⟨c,s,true⟩ = (none,⟨c,s,true⟩) := rfl
    rw [calls,hnext,ih,List.replicate_succ]

theorem calls_of_failure {c : Catalog} {s : σ} (h : (ask s).1.isFailure = true) (n : Nat) :
    calls next (n + 1) (ofSource c s) =
      (c.item (ask s).1 :: List.replicate n none,⟨c,(ask s).2,true⟩) := by
  rw [ofSource,calls,next_live,h,calls_failed]

theorem calls_of_not_failure {c : Catalog} {s : σ} (h : (ask s).1.isFailure = false) (n : Nat) :
    calls next (n + 1) (ofSource c s) =
      (c.item (ask s).1 :: (calls next n (ofSource c (ask s).2)).1,
        (calls next n (ofSource c (ask s).2)).2) := by
  rw [ofSource,calls,next_live,h]
  rfl

theorem exists_callsAsk (c : Catalog) (s : σ) (n : Nat) : ∃ k, CallsAsk c s n k := by
  induction n generalizing s with
  | zero => exact ⟨0,Nat.le_refl 0,rfl,rfl,List.Pairwise.nil,by simp⟩
  | succ n ih =>
    cases hf : (ask s).1.isFailure with
    | true =>
      have hcalls := calls_of_failure (c := c) hf n
      have hask : calls ask 1 s = ([(ask s).1],(ask s).2) := rfl
      refine ⟨1,Nat.le_add_left 1 n,?_,?_,?_,fun _ => ?_⟩
      · rw [hcalls,hask]
        rfl
      · rw [hcalls,hask]
      · rw [hask]
        exact List.pairwise_singleton _ _
      · rw [hask]
        exact ⟨_,List.mem_cons_self,hf⟩
    | false =>
      obtain ⟨k,h⟩ := ih (ask s).2
      have hcalls := calls_of_not_failure (c := c) hf n
      have hask : calls ask (k + 1) s =
          ((ask s).1 :: (calls ask k (ask s).2).1,(calls ask k (ask s).2).2) := rfl
      refine ⟨k + 1,Nat.succ_le_succ h.le,?_,?_,?_,fun hk => ?_⟩
      · rw [hcalls,hask,h.items,Nat.add_sub_add_right]
        rfl
      · rw [hcalls,hask]
        exact h.source
      · rw [hask]
        exact List.pairwise_cons.2 ⟨fun _ _ => hf,h.unbroken⟩
      · obtain ⟨a,ha,haf⟩ := h.broken (Nat.lt_of_succ_lt_succ hk)
        rw [hask]
        exact ⟨a,List.mem_cons_of_mem _ ha,haf⟩

theorem isFailure_of_item {c : Catalog} {a : Answer} {e : Error}
    (h : c.item a = some (.error e)) : a.isFailure = true := by
  rcases a with ⟨f | l,n⟩
  · rfl
  · cases l <;> simp [Catalog.item] at h

theorem pairwise_calls (c : Catalog) (s : σ) (n : Nat) :
    (calls next n (ofSource c s)).1.Pairwise fun a b =>
      (∃ e, a = some (.error e)) → b = none := by
  induction n generalizing s with
  | zero => exact List.Pairwise.nil
  | succ n ih =>
    cases hf : (ask s).1.isFailure with
    | true =>
      rw [calls_of_failure hf]
      refine List.pairwise_cons.2 ⟨fun b hb _ => List.eq_of_mem_replicate hb,?_⟩
      exact List.pairwise_replicate.2 (.inr fun _ => rfl)
    | false =>
      rw [calls_of_not_failure hf]
      refine List.pairwise_cons.2 ⟨fun b _ ⟨e,he⟩ => ?_,ih (ask s).2⟩
      rw [isFailure_of_item he] at hf
      cases hf

end Supply

section Source

variable {σ : Type} [LineSource σ]

theorem calls_read (c : Catalog) (s : σ) :
    (calls next ((LineSource.read s).lines.length + 1) (ofSource c s)).1 =
      (LineSource.read s).lines.map (fun p => some (.ok (c.tokenizeLine p.1 p.2))) ++
        [(LineSource.read s).failure.map .error] := by
  fun_induction LineSource.read s with
  | case1 s e t h => simp [calls,ofSource,next_live,LineSupply.ask,h,Catalog.item]
  | case2 s t h => simp [calls,ofSource,next_live,LineSupply.ask,h,Catalog.item]
  | case3 s l t h r ih =>
    have hask : LineSupply.ask s = ((.ok (some l),LineSource.number t),t) := by
      rw [LineSupply.ask,h]
    have hf : (LineSupply.ask s).1.isFailure = false := by rw [hask]; rfl
    rw [List.length_cons,calls_of_not_failure hf,hask,ih]
    rfl

end Source

/-- Whatever the answers are, calls for the tokens of the next line give the items of as many answers,
up to the first failure, and no more after it. Tokens taken all at once are those of the calls up to
the first that gives no tokens, with its failure if it has one. -/
theorem calls_asks (c : Catalog) :
    (∀ {σ : Type} [LineSupply σ] (s : σ) (n : Nat),
      (∃ k, CallsAsk c s n k) ∧
        (calls next n (ofSource c s)).1.Pairwise fun a b =>
          (∃ e, a = some (.error e)) → b = none) ∧
    ∀ {σ : Type} [LineSource σ] (s : σ), ∃ (tss : List (List Token)) (failure : Option Error),
      (calls next (tss.length + 1) (ofSource c s)).1 =
        tss.map (fun ts => some (.ok ts)) ++ [failure.map .error] ∧
      c.tokenize s = (tss.flatten,failure) := by
  refine ⟨fun s n => ⟨exists_callsAsk c s n,pairwise_calls c s n⟩,fun s => ?_⟩
  have hread := calls_read c s
  refine ⟨(LineSource.read s).lines.map fun p => c.tokenizeLine p.1 p.2,
    (LineSource.read s).failure,?_,?_⟩
  · rw [List.length_map,List.map_map]
    exact hread
  · rw [Catalog.tokenize,List.flatMap_def]

/-- The input pauses after a line, goes on with another, and fails before a third. -/
theorem calls_asks_pause :
    let s := Source.ofReads "two.pas" [.data [0x61,0x0A],.data [],.data [0x62,0x0A],
      .failure ⟨.brokenPipe,"closed"⟩,.data [0x63,0x0A]]
    (∃ k, CallsAsk .pascal s 6 k) ∧
      (calls next 6 (ofSource .pascal s)).1 =
        [some (.ok [⟨.identifier,"a",1,⟨0,1⟩⟩]),none,some (.ok [⟨.identifier,"b",2,⟨0,1⟩⟩]),
          some (.error ⟨.readLine ⟨.brokenPipe,"closed"⟩,⟨3,"two.pas"⟩⟩),none,none] := by
  intro s
  refine ⟨((calls_asks .pascal).1 s 6).1,?_⟩
  rw [Pascal.pascal_eq_spelled]
  decide +kernel

end LineTokens
end PascalTokens
