import Mathlib.Data.List.MinMax
import PascalTokens.Catalog
import PascalTokens.Proofs.Places
import PascalTokens.Proofs.Search

/-! Scanning a line with one cursor: at every place the definitions are tried in their order, and
the longest match, of several the first, is a token. The cursor goes on at its end, or past one
character where nothing matches. -/
namespace PascalTokens.Scanner

section Longest

variable {α β : Type}

theorem argmax_map (f : β → Nat) (g : α → β) (l : List α) :
    (l.map g).argmax f = (l.argmax (f ∘ g)).map g := by
  induction l with
  | nil => rfl
  | cons a l ih =>
    rw [List.map_cons,List.argmax_cons,List.argmax_cons,ih]
    cases l.argmax (f ∘ g) with
    | none => rfl
    | some b =>
      by_cases h : f (g a) < f (g b)
      · simp [h]
      · simp [h]

theorem argmax_congr {f g : α → Nat} {l : List α}
    (h : ∀ a ∈ l, ∀ b ∈ l, f a < f b ↔ g a < g b) : l.argmax f = l.argmax g := by
  induction l with
  | nil => rfl
  | cons a l ih =>
    have hl := ih fun b hb c hc => h b (List.mem_cons_of_mem a hb) c (List.mem_cons_of_mem a hc)
    rw [List.argmax_cons,List.argmax_cons,hl]
    cases hb : l.argmax g with
    | none => rfl
    | some b =>
      have hab := h a List.mem_cons_self b (List.mem_cons_of_mem a (List.argmax_mem hb))
      simp [hab]

theorem rel_of_mem_argmax {R : α → α → Prop} {f : α → Nat} {l : List α} {a m : α}
    (hl : l.Pairwise R) (hm : l.argmax f = some m) (ha : a ∈ l) (he : f a = f m) :
    a = m ∨ R m a := by
  induction l with
  | nil => cases ha
  | cons b l ih =>
    obtain ⟨hb,hl⟩ := List.pairwise_cons.1 hl
    rw [List.argmax_cons] at hm
    cases hc : l.argmax f with
    | none =>
      rw [hc] at hm
      cases hm
      rw [List.argmax_eq_none.1 hc] at ha
      exact .inl (List.mem_singleton.1 ha)
    | some c =>
      simp only [hc] at hm
      by_cases hlt : f b < f c
      · rw [if_pos hlt] at hm
        cases hm
        rcases List.mem_cons.1 ha with rfl | ha
        · omega
        · exact ih hl hc ha
      · rw [if_neg hlt] at hm
        cases hm
        rcases List.mem_cons.1 ha with rfl | ha
        · exact .inl rfl
        · exact .inr (hb a ha)

end Longest

/-- The matches that begin at a place and are not empty: the kind and the end of each. -/
def matchesAt (ds : List Definition) (p : Place) : List (Kind × Place) :=
  ds.filterMap fun d => (d.matcher.nonemptyEnd? p).map (d.kind,·)

/-- The longest of the matches, and of several the first. -/
def pick (ds : List Definition) (p : Place) : Option (Kind × Place) :=
  (matchesAt ds p).argmax (·.2.offset)

theorem mem_matchesAt {ds : List Definition} {p q : Place} {k : Kind} :
    (k,q) ∈ matchesAt ds p ↔ ∃ d ∈ ds, d.kind = k ∧ d.matcher.nonemptyEnd? p = some q := by
  simp only [matchesAt,List.mem_filterMap,Option.map_eq_some_iff,Prod.mk.injEq]
  constructor
  · rintro ⟨d,hd,q',hq,hk,rfl⟩
    exact ⟨d,hd,hk,hq⟩
  · rintro ⟨d,hd,hk,hq⟩
    exact ⟨d,hd,q,hq,hk,rfl⟩

theorem reaches_of_mem_matchesAt {ds : List Definition} {p q : Place} {k : Kind}
    (h : (k,q) ∈ matchesAt ds p) : p.Reaches q ∧ p.offset < q.offset := by
  obtain ⟨d,-,-,hq⟩ := mem_matchesAt.1 h
  exact Matcher.reaches_nonemptyEnd? hq

theorem reaches_of_pick {ds : List Definition} {p q : Place} {k : Kind}
    (h : pick ds p = some (k,q)) : p.Reaches q ∧ p.offset < q.offset :=
  reaches_of_mem_matchesAt (List.argmax_mem h)

theorem pick_eq_none {ds : List Definition} {p : Place} :
    pick ds p = none ↔ matchesAt ds p = [] :=
  List.argmax_eq_none

theorem pick_of_rest_nil (ds : List Definition) {p : Place} (h : p.rest = []) :
    pick ds p = none := by
  cases hp : pick ds p with
  | none => rfl
  | some m =>
    obtain ⟨hr,hlt⟩ := reaches_of_pick hp
    have := hr.offset_of_rest_nil h
    omega

def scanFrom (ds : List Definition) (line : Nat) (p : Place) : List Token :=
  match _e : p.rest with
  | [] => []
  | c :: l =>
    match _h : pick ds p with
    | none => scanFrom ds line (p.past c l)
    | some (k,q) =>
      ⟨k,String.ofList (p.textTo q),line,⟨p.offset,q.offset⟩⟩ :: scanFrom ds line q
  termination_by p.rest.length
  decreasing_by
    · simp [_e]
    · obtain ⟨hr,hlt⟩ := reaches_of_pick _h
      exact hr.rest_shorter hlt

/-- The tokens of a line. -/
def scan (ds : List Definition) (text : Line) (line : Nat) : List Token :=
  scanFrom ds line (Place.start text)

theorem scanFrom_nil (ds : List Definition) (line : Nat) {p : Place} (h : p.rest = []) :
    scanFrom ds line p = [] := by
  unfold scanFrom
  split
  · rfl
  · rename_i e
    rw [h] at e
    cases e

theorem scanFrom_past {ds : List Definition} {p : Place} {c : Char} {l : Line} (line : Nat)
    (e : p.rest = c :: l) (h : pick ds p = none) :
    scanFrom ds line p = scanFrom ds line (p.past c l) := by
  rw [scanFrom]
  split
  · rename_i e'
    rw [e] at e'
    cases e'
  · rename_i e'
    rw [e] at e'
    cases e'
    split
    · rfl
    · rename_i h'
      rw [h] at h'
      cases h'

theorem scanFrom_pick {ds : List Definition} {p q : Place} {k : Kind} (line : Nat)
    (h : pick ds p = some (k,q)) :
    scanFrom ds line p =
      ⟨k,String.ofList (p.textTo q),line,⟨p.offset,q.offset⟩⟩ :: scanFrom ds line q := by
  rw [scanFrom]
  split
  · rename_i e
    rw [pick_of_rest_nil ds e] at h
    cases h
  · split
    · rename_i h'
      rw [h] at h'
      cases h'
    · rename_i h'
      rw [h] at h'
      cases h'
      rfl

/-- What holds at the end of a line, and at a place where it holds of the place that the cursor
goes on to, holds at every place. -/
theorem cursor_induction (ds : List Definition) {motive : Place → Prop}
    (nil : ∀ p, p.rest = [] → motive p)
    (past : ∀ p c l, p.rest = c :: l → pick ds p = none → motive (p.past c l) → motive p)
    (pick : ∀ p k q, pick ds p = some (k,q) → motive q → motive p) (p : Place) : motive p := by
  induction hn : p.rest.length using Nat.strong_induction_on generalizing p with
  | _ n ih =>
    subst hn
    cases e : p.rest with
    | nil => exact nil p e
    | cons c l =>
      cases h : Scanner.pick ds p with
      | none => exact past p c l e h (ih l.length (by simp [e]) _ rfl)
      | some m =>
        obtain ⟨k,q⟩ := m
        obtain ⟨hr,hlt⟩ := reaches_of_pick h
        exact pick p k q h (ih q.rest.length (hr.rest_shorter hlt) q rfl)

/-- A token is a part of a line: it holds the characters between its ends. -/
def IsPart (text : Line) (line : Nat) (t : Token) : Prop :=
  ∃ a b c : Line, text = a ++ (b ++ c) ∧ b ≠ [] ∧ t.value = String.ofList b ∧ t.line = line ∧
    t.span = ⟨a.bytes,a.bytes + b.bytes⟩

theorem isPart_of_mem_scanFrom {ds : List Definition} {text : Line} {line : Nat} {p : Place}
    (h : (Place.start text).Reaches p) : ∀ t ∈ scanFrom ds line p, IsPart text line t := by
  induction p using cursor_induction ds with
  | nil p e => simp [scanFrom_nil ds line e]
  | past p c l e hn ih =>
    rw [scanFrom_past line e hn]
    exact ih (h.trans (.past e (.refl _)))
  | pick p k q hp ih =>
    obtain ⟨hr,hlt⟩ := reaches_of_pick hp
    obtain ⟨ha,hao⟩ := h.textTo
    obtain ⟨hb,hbo⟩ := hr.textTo
    rw [scanFrom_pick line hp]
    intro t ht
    rcases List.mem_cons.1 ht with rfl | ht
    · refine ⟨(Place.start text).textTo p,p.textTo q,q.rest,?_,?_,rfl,rfl,?_⟩
      · rw [← hb]; exact ha
      · intro hn
        rw [hn] at hbo
        simp at hbo
        omega
      · simp [hbo,hao,Place.start]
    · exact ih (h.trans hr) t ht

theorem isPart_of_mem_scan {ds : List Definition} {text : Line} {line : Nat} {t : Token}
    (h : t ∈ scan ds text line) : IsPart text line t :=
  isPart_of_mem_scanFrom (.refl _) t h

theorem IsPart.fits {text : Line} {line : Nat} {t : Token} (h : IsPart text line t) :
    text.fits t.span := by
  obtain ⟨a,b,c,rfl,-,-,-,hs⟩ := h
  rw [hs]
  exact Line.fits_append a b c

theorem IsPart.token_candidate {text : Line} {line : Nat} {t : Token} (h : IsPart text line t) :
    t.candidate.token text line = t := by
  obtain ⟨a,b,c,rfl,-,hv,hl,hs⟩ := h
  obtain ⟨k,v,n,s⟩ := t
  simp only at hv hl hs
  simp [Token.candidate,Candidate.token,hv,hl,hs,Line.slice_append]

end PascalTokens.Scanner
