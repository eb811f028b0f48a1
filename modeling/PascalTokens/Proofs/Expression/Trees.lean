import PascalTokens.Proofs.Expression.Choices

/-! The trees of choices of expressions whose repetitions are written `?`, `*` and `+`. Where what is
repeated without a bound consumes characters, backtracking that makes no choice twice finds what
plain backtracking finds: wherever a choice is met, the same tree follows. -/
namespace PascalTokens.Expression

/-- Are all repetitions written `?`, `*` or `+`, and do all turns consume characters of which there may
be any number? -/
inductive IsPlain : Expression → Prop
  | empty : IsPlain .empty
  | text (t : List Char) : IsPlain (.text t)
  | one (s : CharSet) : IsPlain (.one s)
  | look (a : Anchor) : IsPlain (.look a)
  | group (n : Nat) {a : Expression} (h : IsPlain a) : IsPlain (.group n a)
  | seq {a b : Expression} (ha : IsPlain a) (hb : IsPlain b) : IsPlain (.seq a b)
  | alt {a b : Expression} (ha : IsPlain a) (hb : IsPlain b) : IsPlain (.alt a b)
  | option (greedy : Bool) {a : Expression} (h : IsPlain a) : IsPlain (.times 0 (some 1) greedy a)
  | star (greedy : Bool) {a : Expression} (h : IsPlain a) (hc : a.consumes) :
      IsPlain (.times 0 none greedy a)
  | plus (greedy : Bool) {a : Expression} (h : IsPlain a) (hc : a.consumes) :
      IsPlain (.times 1 none greedy a)

section Consumption

variable {a b : Expression}

theorem consumes_seq (h : (seq a b).consumes) : a.consumes ∨ b.consumes := by
  simp only [consumes,leastLength] at *
  cases ha : a.leastLength with
  | none => simp [ha] at h
  | some m =>
    cases hb : b.leastLength with
    | none => simp [ha,hb] at h
    | some n =>
      simp only [ha,hb,Option.bind_eq_bind,Option.bind_some,Option.pure_def,Option.any_some,
        decide_eq_true_eq] at *
      omega

theorem consumes_alt (h : (alt a b).consumes) : a.consumes ∧ b.consumes := by
  simp only [consumes,leastLength] at *
  cases ha : a.leastLength with
  | none => simp [ha] at h
  | some m =>
    cases hb : b.leastLength with
    | none => simp [ha,hb] at h
    | some n =>
      simp only [ha,hb,Option.bind_eq_bind,Option.bind_some,Option.pure_def,Option.any_some,
        decide_eq_true_eq] at *
      omega

theorem consumes_text {t : List Char} (h : (text t).consumes) : t ≠ [] := by
  rintro rfl
  simp [consumes,leastLength] at h

theorem not_consumes_times_zero (most : Option Nat) (greedy : Bool) (a : Expression) :
    ¬(times 0 most greedy a).consumes := by
  cases h : a.leastLength <;> simp [consumes,leastLength,h]

end Consumption

def branch (greedy : Bool) (turn leave : Tree) : Tree :=
  if greedy then .or turn leave else .or leave turn

def turnsTree (greedy : Bool) (label : Nat) (body : (Place → Tree) → Place → Tree)
    (k : Place → Tree) : Nat → Place → Tree
  | 0, _ => .fail
  | n + 1, p => .choice label p (branch greedy (body (turnsTree greedy label body k n) p) (k p))

def loop (greedy : Bool) (label : Nat) (body : (Place → Tree) → Place → Tree) (k : Place → Tree) :
    Place → Tree :=
  fun p => turnsTree greedy label body k (p.rest.length + 1) p

/-- What is tried from a place where `k` says what is tried after a match. Other repetitions than those
of a plain expression are left out. -/
def tree : Expression → Nat → (Place → Tree) → Place → Tree
  | empty, _, k, p => k p
  | text t, _, k, p =>
    match p.pastText t with
    | some q => k q
    | none => .fail
  | one s, _, k, p =>
    match p.rest with
    | [] => .fail
    | c :: l => if s.contains c then k (p.past c l) else .fail
  | look a, _, k, p => if a.holds p then k p else .fail
  | group _ a, label, k, p => a.tree label k p
  | seq a b, label, k, p => a.tree label (b.tree (label + a.labels) k) p
  | alt a b, label, k, p =>
    .choice label p (.or (a.tree (label + 1) k p) (b.tree (label + 1 + a.labels) k p))
  | times 0 (some 1) greedy a, label, k, p =>
    .choice label p (branch greedy (a.tree (label + 1) k p) (k p))
  | times 0 none greedy a, label, k, p => loop greedy label (a.tree (label + 2)) k p
  | times 1 none greedy a, label, k, p =>
    a.tree (label + 1) (turnsTree greedy label (a.tree (label + 1)) k (p.rest.length + 1)) p
  | times _ _ _ _, _, _, _ => .fail

section Search

variable {a b c k : Course} {s t : Tree} {p : Place}

theorem once_eq_search (h : ∀ made, c p made = t.search made) (label : Nat) (made : Choices) :
    once label c p made = (Tree.choice label p t).search made := by
  rw [once,Tree.search,h]

theorem orElse_eq_search (ha : ∀ made, a p made = s.search made)
    (hb : ∀ made, b p made = t.search made) (made : Choices) :
    orElse a b p made = (Tree.or s t).search made := by
  rw [orElse,Tree.search,ha]
  rcases s.search made with ⟨_ | q,made'⟩
  · exact hb made'
  · rfl

theorem turnOrEnd_eq_search (ha : ∀ made, a p made = s.search made)
    (hb : ∀ made, b p made = t.search made) (greedy : Bool) (made : Choices) :
    turnOrEnd greedy a b p made = (branch greedy s t).search made := by
  cases greedy with
  | true => exact orElse_eq_search ha hb made
  | false => exact orElse_eq_search hb ha made

variable {body : Course → Course} {tbody : (Place → Tree) → Place → Tree} {tk : Place → Tree}

theorem turns_eq_search
    (hbody : ∀ (c : Course) (f : Place → Tree), (∀ p made, c p made = (f p).search made) →
      ∀ p made, body c p made = (tbody f p).search made)
    (hk : ∀ p made, k p made = (tk p).search made) (greedy : Bool) (label n : Nat) (p : Place)
    (made : Choices) :
    turns greedy label body k n p made = (turnsTree greedy label tbody tk n p).search made := by
  induction n generalizing p made with
  | zero => rfl
  | succ n ih =>
    rw [turns,turnsTree]
    exact once_eq_search (turnOrEnd_eq_search (hbody _ _ ih p) (hk p) greedy) label made

/-- Matching is a search in the tree. -/
theorem run_eq_search {e : Expression} (h : e.IsPlain) {label : Nat}
    (hk : ∀ p made, k p made = (tk p).search made) (p : Place) (made : Choices) :
    e.run label k p made = (e.tree label tk p).search made := by
  induction h generalizing label k tk p made with
  | empty => exact hk p made
  | text t =>
    rw [run,tree]
    cases p.pastText t with
    | none => rfl
    | some q => exact hk q made
  | one s =>
    rw [run,tree]
    cases p.rest with
    | nil => rfl
    | cons c l =>
      simp only
      by_cases hc : s.contains c = true
      · rw [if_pos hc,if_pos hc,hk]
      · rw [if_neg hc,if_neg hc,Tree.search]
  | look a =>
    rw [run,tree]
    by_cases ha : a.holds p = true
    · rw [if_pos ha,if_pos ha,hk]
    · rw [if_neg ha,if_neg ha,Tree.search]
  | group n ha iha => exact iha hk p made
  | seq ha hb iha ihb => exact iha (fun q made => ihb hk q made) p made
  | alt ha hb iha ihb =>
    exact once_eq_search (orElse_eq_search (fun made => iha hk p made) fun made => ihb hk p made) _
      made
  | option greedy ha iha =>
    rw [run,tree,Nat.zero_mul]
    exact once_eq_search (turnOrEnd_eq_search (fun made => iha hk p made) (hk p) greedy) _ made
  | star greedy ha hc iha =>
    rw [run,tree,if_pos hc]
    exact turns_eq_search (fun c f h p made => iha h p made) hk greedy _ _ p made
  | plus greedy ha hc iha =>
    rw [run,tree,Nat.zero_mul]
    exact iha (turns_eq_search (fun c f h p made => iha h p made) hk greedy _ _) p made

end Search

theorem pastText_lt {p q : Place} {t : List Char} (h : p.pastText t = some q) (ht : t ≠ []) :
    p.offset < q.offset := by
  cases t with
  | nil => exact absurd rfl ht
  | cons c t =>
    rw [Place.pastText] at h
    split at h
    · cases h
    · rename_i d l e
      split at h
      · have hle := (Place.reaches_pastText h).offset_le
        have := d.utf8Size_pos
        rw [Place.past_offset] at hle
        omega
      · cases h

section Loop

variable {e a : Expression} {k k' : Place → Tree} {p : Place}

theorem turnsTree_congr {body : (Place → Tree) → Place → Tree}
    (hbody : ∀ k k' p, (∀ q, p.Reaches q → k q = k' q) → body k p = body k' p)
    (hk : ∀ q, p.Reaches q → k q = k' q) (greedy : Bool) (label n : Nat) :
    turnsTree greedy label body k n p = turnsTree greedy label body k' n p := by
  induction n generalizing p with
  | zero => rfl
  | succ n ih =>
    have hturn := hbody _ _ p fun q hq => ih fun r hr => hk r (hq.trans hr)
    rw [turnsTree,turnsTree,hturn,hk p (.refl p)]

/-- What is tried after a match counts only at places that are reached, and these lie further on if the
expression consumes characters. -/
theorem tree_congr (h : e.IsPlain) {label : Nat}
    (hk : ∀ q, p.Reaches q → (e.consumes → p.offset < q.offset) → k q = k' q) :
    e.tree label k p = e.tree label k' p := by
  induction h generalizing label k k' p with
  | empty => exact hk p (.refl p) (by simp [consumes,leastLength])
  | text t =>
    rw [tree,tree]
    cases hq : p.pastText t with
    | none => rfl
    | some q =>
      exact hk q (Place.reaches_pastText hq) fun hc => pastText_lt hq (consumes_text hc)
  | one s =>
    rw [tree,tree]
    cases hl : p.rest with
    | nil => rfl
    | cons c l =>
      have hpast := hk (p.past c l) (.past hl (.refl _)) fun _ =>
        Nat.lt_add_of_pos_right c.utf8Size_pos
      simp only [hpast]
  | look a =>
    rw [tree,tree,hk p (.refl p) (by simp [consumes,leastLength])]
  | group n ha iha => exact iha hk
  | seq ha hb iha ihb =>
    refine iha fun q hq hlt => ihb fun r hr hlt' => hk r (hq.trans hr) fun hc => ?_
    have hqr := hr.offset_le
    have hpq := hq.offset_le
    rcases consumes_seq hc with hc | hc
    · have := hlt hc
      omega
    · have := hlt' hc
      omega
  | alt ha hb iha ihb =>
    rw [tree,tree,iha fun q hq hlt => hk q hq fun hc => hlt (consumes_alt hc).1,
      ihb fun q hq hlt => hk q hq fun hc => hlt (consumes_alt hc).2]
  | option greedy ha iha =>
    have hk (q : Place) (hq : p.Reaches q) : k q = k' q :=
      hk q hq fun hc => absurd hc (not_consumes_times_zero _ _ _)
    rw [tree,tree,iha fun q hq _ => hk q hq,hk p (.refl p)]
  | @star greedy a ha hc iha =>
    have hk (q : Place) (hq : p.Reaches q) : k q = k' q :=
      hk q hq fun hc => absurd hc (not_consumes_times_zero _ _ _)
    exact turnsTree_congr (fun _ _ p hk => iha (p := p) fun q hq _ => hk q hq) hk greedy label _
  | @plus greedy a ha hc iha =>
    rw [tree,tree]
    refine iha fun q hq hlt => ?_
    refine turnsTree_congr (fun _ _ p hk => iha (p := p) fun q hq _ => hk q hq) (fun r hr => ?_)
      greedy _ _
    refine hk r (hq.trans hr) fun _ => ?_
    have hqr := hr.offset_le
    have := hlt hc
    omega

theorem tree_congr_of_consumes (h : e.IsPlain) (hc : e.consumes) (label : Nat)
    (hk : ∀ q, p.Reaches q → p.offset < q.offset → k q = k' q) :
    e.tree label k p = e.tree label k' p :=
  tree_congr h fun q hq hlt => hk q hq (hlt hc)

theorem turnsTree_eq_loop (h : a.IsPlain) (hc : a.consumes) (greedy : Bool) (label m n : Nat)
    {p : Place} (hn : p.rest.length < n) :
    turnsTree greedy label (a.tree m) k n p = loop greedy label (a.tree m) k p := by
  induction n using Nat.strongRecOn generalizing p with
  | ind n ih =>
    cases n with
    | zero => omega
    | succ n =>
      have hturn : a.tree m (turnsTree greedy label (a.tree m) k n) p =
          a.tree m (turnsTree greedy label (a.tree m) k p.rest.length) p := by
        refine tree_congr_of_consumes h hc _ fun q hq hlt => ?_
        have hshort := hq.rest_shorter hlt
        rw [ih n (Nat.lt_succ_self n) (by omega),ih p.rest.length hn hshort]
      rw [loop,turnsTree,turnsTree,hturn]

theorem loop_eq (h : a.IsPlain) (hc : a.consumes) (greedy : Bool) (label m : Nat) (p : Place) :
    loop greedy label (a.tree m) k p =
      .choice label p (branch greedy (a.tree m (loop greedy label (a.tree m) k) p) (k p)) := by
  have hturn : a.tree m (turnsTree greedy label (a.tree m) k p.rest.length) p =
      a.tree m (loop greedy label (a.tree m) k) p :=
    tree_congr_of_consumes h hc _ fun q hq hlt =>
      turnsTree_eq_loop h hc greedy label m _ (hq.rest_shorter hlt)
  rw [loop,turnsTree,hturn]

theorem tree_plus (h : a.IsPlain) (hc : a.consumes) (greedy : Bool) (label : Nat) (p : Place) :
    (times 1 none greedy a).tree label k p =
      a.tree (label + 1) (loop greedy label (a.tree (label + 1)) k) p := by
  rw [tree]
  refine tree_congr_of_consumes h hc _ fun q hq hlt => turnsTree_eq_loop h hc _ _ _ _ ?_
  have := hq.rest_shorter hlt
  omega

end Loop

section Charts

variable {start : Place} {e a : Expression} {k : Place → Tree} {label m : Nat}
  {chart follow : Nat → Place → Tree}

theorem follows_branch {s t : Tree} (hs : s.Follows follow start) (ht : t.Follows follow start)
    (greedy : Bool) : (branch greedy s t).Follows follow start := by
  cases greedy with
  | true => exact ⟨hs,ht⟩
  | false => exact ⟨ht,hs⟩

def extend (label : Nat) (t : Place → Tree) (chart : Nat → Place → Tree) : Nat → Place → Tree :=
  fun n => if n = label then t else chart n

theorem of_extend {t : Place → Tree} {size : Nat} (hsize : 0 < size)
    (h : ∀ n, label ≤ n → n < label + size → follow n = extend label t chart n) :
    follow label = t ∧ ∀ n, label < n → n < label + size → follow n = chart n := by
  constructor
  · exact (h label (Nat.le_refl _) (by omega)).trans (if_pos rfl)
  · exact fun n hlt hle => (h n (Nat.le_of_lt hlt) hle).trans (if_neg (by omega))

/-- Does a chart say what follows the choices of an expression? What may be said of other choices makes no
difference. -/
def IsChart (start : Place) (e : Expression) (label : Nat) (k : Place → Tree)
    (chart : Nat → Place → Tree) : Prop :=
  ∀ follow : Nat → Place → Tree, (∀ n, label ≤ n → n < label + e.labels → follow n = chart n) →
    ∀ p, start.Reaches p →
      (∀ q, p.Reaches q → (e.consumes → p.offset < q.offset) → (k q).Follows follow start) →
      (e.tree label k p).Follows follow start

/-- The induction is on what is left of the line, which every turn makes shorter. -/
theorem IsChart.follows_loop (ha : a.IsPlain) (hc : a.consumes) {greedy : Bool}
    (hchart : IsChart start a m (loop greedy label (a.tree m) k) chart)
    (hfollow : ∀ n, m ≤ n → n < m + a.labels → follow n = chart n)
    (hlabel : follow label = fun q => branch greedy (a.tree m (loop greedy label (a.tree m) k) q) (k q))
    {p : Place} (hp : start.Reaches p) (hk : ∀ q, p.Reaches q → (k q).Follows follow start) :
    (loop greedy label (a.tree m) k p).Follows follow start := by
  generalize hn : p.rest.length = n
  induction n using Nat.strongRecOn generalizing p with
  | ind n ih =>
    have hturn : (a.tree m (loop greedy label (a.tree m) k) p).Follows follow start := by
      refine hchart follow hfollow p hp fun q hq hlt => ?_
      have hshort := hq.rest_shorter (hlt hc)
      exact ih q.rest.length (by omega) (hp.trans hq) (fun r hr => hk r (hq.trans hr)) rfl
    rw [loop_eq ha hc]
    exact ⟨congrFun hlabel p,hp,follows_branch hturn (hk p (.refl p)) greedy⟩

namespace IsChart

variable {b : Expression} {first second turn : Nat → Place → Tree}

theorem text (t : List Char) (label : Nat) (k : Place → Tree) :
    IsChart start (.text t) label k fun _ => k := by
  intro follow _ p _ hk
  rw [tree]
  cases hq : p.pastText t with
  | none => trivial
  | some q => exact hk q (Place.reaches_pastText hq) fun hc => pastText_lt hq (consumes_text hc)

theorem one (s : CharSet) (label : Nat) (k : Place → Tree) :
    IsChart start (.one s) label k fun _ => k := by
  intro follow _ p _ hk
  rw [tree]
  cases hl : p.rest with
  | nil => trivial
  | cons c l =>
    simp only
    split
    · exact hk _ (.past hl (.refl _)) fun _ => Nat.lt_add_of_pos_right c.utf8Size_pos
    · trivial

theorem look (anchor : Anchor) (label : Nat) (k : Place → Tree) :
    IsChart start (.look anchor) label k fun _ => k := by
  intro follow _ p _ hk
  rw [tree]
  split
  · exact hk p (.refl p) (by simp [consumes,leastLength])
  · trivial

theorem seq (ha : IsChart start a label (b.tree (label + a.labels) k) first)
    (hb : IsChart start b (label + a.labels) k second) :
    IsChart start (.seq a b) label k
      fun n => if n < label + a.labels then first n else second n := by
  intro follow hfollow p hp hk
  rw [labels] at hfollow
  refine ha follow (fun n hle hlt => ?_) p hp fun q hq hlt => ?_
  · exact (hfollow n hle (by omega)).trans (if_pos hlt)
  · refine hb follow (fun n hle hlt => ?_) q (hp.trans hq) fun r hr hlt' => ?_
    · exact (hfollow n (by omega) (by omega)).trans (if_neg (by omega))
    · refine hk r (hq.trans hr) fun hc => ?_
      have hqr := hr.offset_le
      have hpq := hq.offset_le
      rcases consumes_seq hc with hc | hc
      · have := hlt hc
        omega
      · have := hlt' hc
        omega

theorem alt (ha : IsChart start a (label + 1) k first)
    (hb : IsChart start b (label + 1 + a.labels) k second) :
    IsChart start (.alt a b) label k (extend label
      (fun q => .or (a.tree (label + 1) k q) (b.tree (label + 1 + a.labels) k q))
      fun n => if n < label + 1 + a.labels then first n else second n) := by
  intro follow hfollow p hp hk
  rw [labels] at hfollow
  obtain ⟨hhere,hlater⟩ := of_extend (Nat.succ_pos _) hfollow
  refine ⟨congrFun hhere p,hp,?_,?_⟩
  · refine ha follow (fun n hle hlt => ?_) p hp fun q hq hlt =>
      hk q hq fun hc => hlt (consumes_alt hc).1
    exact (hlater n (by omega) (by omega)).trans (if_pos hlt)
  · refine hb follow (fun n hle hlt => ?_) p hp fun q hq hlt =>
      hk q hq fun hc => hlt (consumes_alt hc).2
    exact (hlater n (by omega) (by omega)).trans (if_neg (by omega))

theorem option {greedy : Bool} (ha : IsChart start a (label + 1) k turn) :
    IsChart start (.times 0 (some 1) greedy a) label k
      (extend label (fun q => branch greedy (a.tree (label + 1) k q) (k q)) turn) := by
  intro follow hfollow p hp hk
  rw [labels] at hfollow
  obtain ⟨hhere,hlater⟩ := of_extend (by omega) hfollow
  have hk (q : Place) (hq : p.Reaches q) : (k q).Follows follow start :=
    hk q hq fun hc => absurd hc (not_consumes_times_zero _ _ _)
  refine ⟨congrFun hhere p,hp,follows_branch ?_ (hk p (.refl p)) greedy⟩
  refine ha follow (fun n hle hlt => ?_) p hp fun q hq _ => hk q hq
  exact hlater n (by omega) (by omega)

theorem star (hplain : a.IsPlain) (hc : a.consumes) {greedy : Bool}
    (ha : IsChart start a (label + 2) (loop greedy label (a.tree (label + 2)) k) turn) :
    IsChart start (.times 0 none greedy a) label k (extend label (fun q =>
      branch greedy (a.tree (label + 2) (loop greedy label (a.tree (label + 2)) k) q) (k q))
      turn) := by
  intro follow hfollow p hp hk
  rw [labels] at hfollow
  obtain ⟨hhere,hlater⟩ := of_extend (Nat.succ_pos _) hfollow
  have hk (q : Place) (hq : p.Reaches q) : (k q).Follows follow start :=
    hk q hq fun hc => absurd hc (not_consumes_times_zero _ _ _)
  exact ha.follows_loop hplain hc (fun n hle hlt => hlater n (by omega) (by omega)) hhere hp hk

theorem plus (hplain : a.IsPlain) (hc : a.consumes) {greedy : Bool}
    (ha : IsChart start a (label + 1) (loop greedy label (a.tree (label + 1)) k) turn) :
    IsChart start (.times 1 none greedy a) label k (extend label (fun q =>
      branch greedy (a.tree (label + 1) (loop greedy label (a.tree (label + 1)) k) q) (k q))
      turn) := by
  intro follow hfollow p hp hk
  rw [labels] at hfollow
  obtain ⟨hhere,hlater⟩ := of_extend (Nat.succ_pos _) hfollow
  have hbody (n : Nat) (hle : label + 1 ≤ n) (hlt : n < label + 1 + a.labels) :
      follow n = turn n := hlater n (by omega) (by omega)
  rw [tree_plus hplain hc]
  refine ha follow hbody p hp fun q hq hlt => ?_
  refine ha.follows_loop hplain hc hbody hhere (hp.trans hq) fun r hr => hk r (hq.trans hr) ?_
  intro _
  have := hr.offset_le
  have := hlt hc
  omega

end IsChart

theorem exists_isChart (h : e.IsPlain) (start : Place) (label : Nat) (k : Place → Tree) :
    ∃ chart, IsChart start e label k chart := by
  induction h generalizing label k with
  | empty => exact ⟨fun _ => k,fun _ _ p _ hk => hk p (.refl p) (by simp [consumes,leastLength])⟩
  | text t => exact ⟨_,.text t label k⟩
  | one s => exact ⟨_,.one s label k⟩
  | look anchor => exact ⟨_,.look anchor label k⟩
  | group n ha iha => exact iha label k
  | @seq a b ha hb iha ihb =>
    obtain ⟨first,hfirst⟩ := iha label (b.tree (label + a.labels) k)
    obtain ⟨second,hsecond⟩ := ihb (label + a.labels) k
    exact ⟨_,hfirst.seq hsecond⟩
  | @alt a b ha hb iha ihb =>
    obtain ⟨first,hfirst⟩ := iha (label + 1) k
    obtain ⟨second,hsecond⟩ := ihb (label + 1 + a.labels) k
    exact ⟨_,hfirst.alt hsecond⟩
  | option greedy ha iha =>
    obtain ⟨turn,hturn⟩ := iha (label + 1) k
    exact ⟨_,hturn.option⟩
  | @star greedy a ha hc iha =>
    obtain ⟨turn,hturn⟩ := iha (label + 2) (loop greedy label (a.tree (label + 2)) k)
    exact ⟨_,hturn.star ha hc⟩
  | @plus greedy a ha hc iha =>
    obtain ⟨turn,hturn⟩ := iha (label + 1) (loop greedy label (a.tree (label + 1)) k)
    exact ⟨_,hturn.plus ha hc⟩

end Charts

/-- Plain backtracking finds the preferred match. -/
theorem endOf?_matcher {e : Expression} (h : e.IsPlain) (p : Place) :
    e.matcher.endOf? p = (e.tree 0 .found p).first? := by
  obtain ⟨chart,hchart⟩ := exists_isChart h p 0 .found
  have hfollows := hchart chart (fun _ _ _ => rfl) p (.refl p) fun q _ _ => trivial
  have hstop (q : Place) (made : Choices) : stop q made = (Tree.found q).search made := rfl
  have hrun : e.run 0 stop p ∅ = (e.tree 0 .found p).search ∅ := run_eq_search h hstop p ∅
  rw [← Tree.search_eq_first? hfollows,← hrun]
  rfl

end PascalTokens.Expression
