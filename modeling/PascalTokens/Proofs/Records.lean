import Mathlib.Data.List.Sort
import PascalTokens.Proofs.Losses

/-! What is logged of the candidates for a line. Each of them becomes a token, or is blocked by a
token, or loses to one that starts with it. Those that are blocked are logged, and no others; they
come by their starts, and what is logged of a token comes after those that start with it. -/
namespace PascalTokens

namespace Resolution

open Candidate

/-- What is logged of the candidates and the tokens that start at `n`: first the candidates that are
blocked, in their order, and then the token, if it is invalid. -/
def recordsAt (line : Nat) (cs : List Candidate) (ts : List Token) (n : Nat) : List Record :=
  (cs.filter fun c => c.span.start = n && isBlocked ts c).map (.suppressed line ·) ++
    (ts.filter fun t => t.span.start = n && t.kind = .invalid).map fun t =>
      .invalidFragment line t.value (t.span.start + 1)

/-- The level of a record and its text. -/
def entry (r : Record) : Level × String := (r.level,r.message)

/-- The entries of what is logged of the candidates and the tokens that start at `n`. -/
def entriesAt (line : Nat) (cs : List Candidate) (ts : List Token) (n : Nat) :
    List (Level × String) :=
  ((cs.filter fun c => c.span.start = n && isBlocked ts c).map fun c =>
    (.trace,"line " ++ toString line ++ ": suppressed " ++ c.kind.name ++ " at " ++
      toString c.span.start ++ ".." ++ toString c.span.stop)) ++
  (ts.filter fun t => t.span.start = n && t.kind = .invalid).map fun t =>
    (.warn,"line " ++ toString line ++ ": invalid fragment '" ++ t.value ++ "' at column " ++
      toString (t.span.start + 1))

theorem map_entry_recordsAt (line : Nat) (cs : List Candidate) (ts : List Token) (n : Nat) :
    (recordsAt line cs ts n).map entry = entriesAt line cs ts n := by
  rw [recordsAt,List.map_append,List.map_map,List.map_map]
  rfl

section Run

variable {text : Line} {line : Nat} {claimed : Option Nat} {g : Group} {gs : List Group}

/-- What is logged of a group after a token that ends at `claimed`, if `ws` are the winners from then
on. -/
def groupRecords (text : Line) (line : Nat) (claimed : Option Nat) (ws : List Candidate)
    (g : Group) : List Record :=
  (g.members.filter fun c => blocked claimed c || ws.any (·.Blocks c)).map (.suppressed line ·) ++
    (ws.filter fun w => w.span.start = g.start && w.kind = .invalid).map fun w =>
      .invalidFragment line (w.token text line).value (w.span.start + 1)

/-- Winners that start with the group or after it are in nobody's way in the group. -/
theorem records_decision (hg : ∀ c ∈ g.members, c.span.start = g.start) {ws : List Candidate}
    (hw : ∀ w ∈ ws, g.start < w.span.start) :
    (decision claimed g).records text line =
      groupRecords text line claimed ((decision claimed g).winner.toList ++ ws) g := by
  have hwinner : ∀ w ∈ (decision claimed g).winner.toList, w.span.start = g.start := by
    intro w hm
    exact hg w (winner_eq_some hg (Option.mem_toList.1 hm)).1
  rw [Decision.records,groupRecords]
  congr 1
  · congr 1
    apply List.filter_congr
    intro c hc
    have hfree : ((decision claimed g).winner.toList ++ ws).any (·.Blocks c) = false := by
      rw [List.any_eq_false]
      intro w hm hb
      have hlt := (of_decide_eq_true hb).1
      rw [hg c hc] at hlt
      rcases List.mem_append.1 hm with hm | hm
      · exact hlt.ne (hwinner w hm)
      · exact Nat.lt_asymm hlt (hw w hm)
    rw [hfree,Bool.or_false]
  · congr 1
    have hlater : ws.filter (fun w => w.span.start = g.start && w.kind = .invalid) = [] := by
      rw [List.filter_eq_nil_iff]
      intro w hm
      simp [(hw w hm).ne']
    rw [List.filter_append,hlater,List.append_nil]
    apply List.filter_congr
    intro w hm
    simp [hwinner w hm]

theorem groupRecords_claims {k : Group} (hg : ∀ c ∈ g.members, c.span.start = g.start)
    (hk : ∀ c ∈ k.members, c.span.start = k.start) (hgk : g.start < k.start) (ws : List Candidate) :
    groupRecords text line ((decision claimed g).claims claimed) ws k =
      groupRecords text line claimed ((decision claimed g).winner.toList ++ ws) k := by
  rw [Decision.claims]
  cases hw : (decision claimed g).winner with
  | none => rfl
  | some v =>
    obtain ⟨hvg,hfree,-⟩ := winner_eq_some hg hw
    have hv : v.span.start = g.start := hg v hvg
    rw [Option.elim_some,Option.toList_some,List.singleton_append,groupRecords,groupRecords]
    congr 1
    · congr 1
      apply List.filter_congr
      intro c hc
      have hlt : v.span.start < c.span.start := by rw [hv,hk c hc]; exact hgk
      have hblocks : blocked (some v.span.stop) c = decide (v.Blocks c) := by
        rw [Bool.eq_iff_iff,blocked_some,decide_eq_true_eq]
        exact (and_iff_right hlt).symm
      -- `v` was free of what was claimed before it, and so reaches beyond that
      have hclaimed : blocked claimed c = true → decide (v.Blocks c) = true := by
        intro hb
        rw [← hblocks]
        by_contra hn
        rw [blocked_of_claims hfree (Bool.eq_false_of_not_eq_true hn)] at hb
        cases hb
      rw [List.any_cons,hblocks]
      cases hb : blocked claimed c with
      | false => rw [Bool.false_or]
      | true => rw [hclaimed hb,Bool.true_or,Bool.true_or]
    · have hne : v.span.start ≠ k.start := by omega
      rw [List.filter_cons_of_neg (by simp [hne])]

/-- The records of all groups. The induction is on the groups; what is blocked in them is blocked by
what was claimed before, or by a winner from then on. -/
theorem records_decisionsAfter (hs : gs.Pairwise fun g h => g.start < h.start)
    (hg : ∀ g ∈ gs, ∀ c ∈ g.members, c.span.start = g.start) :
    (decisionsAfter claimed gs).flatMap (·.records text line) =
      gs.flatMap (groupRecords text line claimed (winnersAfter claimed gs)) := by
  induction gs generalizing claimed with
  | nil => rfl
  | cons g gs ih =>
    obtain ⟨hfirst,hs⟩ := List.pairwise_cons.1 hs
    obtain ⟨hgg,hgs⟩ := List.forall_mem_cons.1 hg
    have hlater : ∀ w ∈ winnersAfter ((decision claimed g).claims claimed) gs,
        g.start < w.span.start := by
      intro w hw
      obtain ⟨-,k,hk,hwk⟩ := mem_winnersAfter hgs w hw
      rw [hgs k hk w hwk]
      exact hfirst k hk
    rw [decisionsAfter,List.flatMap_cons,List.flatMap_cons,winnersAfter_cons,
      records_decision hgg hlater,ih hs hgs]
    congr 1
    apply List.flatMap_congr
    intro k hk
    exact groupRecords_claims hgg (hgs k hk) (hfirst k hk) _

end Run

variable {text : Line} {line : Nat} {cs : List Candidate} {ts : List Token}

theorem start_of_mem_members {g : Group} (hg : g ∈ groups cs) :
    ∀ c ∈ g.members, c.span.start = g.start := by
  intro c hc
  rw [members_of_mem_groups hg] at hc
  exact of_decide_eq_true (List.mem_filter.1 hc).2

theorem records_eq_flatMap_groups (h : tokens? text line cs = some ts) :
    records text line cs = (groups cs).flatMap fun g => recordsAt line cs ts g.start := by
  rw [records,decisions,records_decisionsAfter (pairwise_groups cs) fun _ => start_of_mem_members,
    ← winners_eq_winnersAfter]
  apply List.flatMap_congr
  intro g hg
  rw [groupRecords,recordsAt,members_of_mem_groups hg,List.filter_filter]
  congr 1
  · congr 1
    apply List.filter_congr
    intro c _
    rw [isBlocked_eq_any h,Bool.and_comm]
    rfl
  · obtain ⟨-,rfl⟩ := tokens?_eq_some_iff.1 h
    rw [tokens,List.filter_map,List.map_map]
    rfl

theorem recordsAt_eq_nil {n : Nat} (h : tokens? text line cs = some ts)
    (hn : ∀ c ∈ cs, c.span.start ≠ n) : recordsAt line cs ts n = [] := by
  obtain ⟨-,rfl⟩ := tokens?_eq_some_iff.1 h
  have hc : cs.filter (fun c => c.span.start = n && isBlocked (tokens text line cs) c) = [] := by
    rw [List.filter_eq_nil_iff]
    intro c hc
    simp [hn c hc]
  have ht : (tokens text line cs).filter (fun t => t.span.start = n && t.kind = .invalid) = [] := by
    rw [List.filter_eq_nil_iff]
    intro t ht
    obtain ⟨c,hcw,rfl⟩ := List.mem_map.1 ht
    have hne : (c.token text line).span.start ≠ n := hn c (winners_subset cs hcw)
    simp [hne]
  rw [recordsAt,hc,ht]
  rfl

theorem map_start_groups {m : Nat} (hm : ∀ c ∈ cs, c.span.start < m) :
    (groups cs).map Group.start = (List.range m).filter fun n => cs.any (·.span.start = n) := by
  have hs : ((groups cs).map Group.start).Pairwise (· < ·) :=
    List.pairwise_map.2 (pairwise_groups cs)
  refine hs.eq_of_mem_iff (List.pairwise_lt_range.filter _) fun n => ?_
  rw [List.mem_map,List.mem_filter,List.mem_range,List.any_eq_true]
  constructor
  · rintro ⟨g,hg,rfl⟩
    obtain ⟨c,hc⟩ := List.exists_mem_of_ne_nil _ (members_ne_nil hg)
    rw [members_of_mem_groups hg] at hc
    obtain ⟨hc,he⟩ := List.mem_filter.1 hc
    exact ⟨of_decide_eq_true he ▸ hm c hc,c,hc,he⟩
  · rintro ⟨-,c,hc,he⟩
    obtain ⟨g,hg,hgc⟩ := exists_group hc
    exact ⟨g,hg,hgc.trans (of_decide_eq_true he)⟩

theorem flatMap_filter_of_eq_nil {α β : Type} {p : α → Bool} {f : α → List β} {l : List α}
    (h : ∀ a ∈ l, p a = false → f a = []) : (l.filter p).flatMap f = l.flatMap f := by
  induction l with
  | nil => rfl
  | cons a l ih =>
    obtain ⟨ha,hl⟩ := List.forall_mem_cons.1 h
    rw [List.flatMap_cons,← ih hl]
    cases hp : p a with
    | true => rw [List.filter_cons_of_pos hp,List.flatMap_cons]
    | false => rw [List.filter_cons_of_neg (by simp [hp]),ha hp,List.nil_append]

theorem records_eq_flatMap_range (h : tokens? text line cs = some ts) {m : Nat}
    (hm : ∀ c ∈ cs, c.span.start < m) :
    records text line cs = (List.range m).flatMap (recordsAt line cs ts) := by
  have hnil : ∀ n ∈ List.range m, cs.any (·.span.start = n) = false →
      recordsAt line cs ts n = [] := by
    intro n _ hn
    apply recordsAt_eq_nil h
    intro c hc
    exact of_decide_eq_false (Bool.eq_false_of_not_eq_true (List.any_eq_false.1 hn c hc))
  rw [records_eq_flatMap_groups h,← List.flatMap_map,map_start_groups hm,
    flatMap_filter_of_eq_nil hnil]

theorem flatMap_members_place (c : Candidate) (gs : List Group) :
    ((place c gs).flatMap Group.members).Perm (c :: gs.flatMap Group.members) := by
  induction gs with
  | nil => exact .refl _
  | cons g gs ih =>
    rw [place_cons]
    split
    · exact .refl _
    · split
      · exact .refl _
      · rw [List.flatMap_cons,List.flatMap_cons]
        exact (ih.append_left g.members).trans List.perm_middle

theorem flatMap_members_groups (cs : List Candidate) :
    ((groups cs).flatMap Group.members).Perm cs := by
  induction cs with
  | nil => exact .refl _
  | cons c cs ih => exact (flatMap_members_place c (groups cs)).trans (ih.cons c)

theorem countP_trace_recordsAt (line : Nat) (cs : List Candidate) (ts : List Token) (n : Nat) :
    (recordsAt line cs ts n).countP (·.level = .trace) =
      (cs.filter (·.span.start = n)).countP (isBlocked ts) := by
  have hc : ((fun r : Record => decide (r.level = .trace)) ∘ (.suppressed line ·)) =
      fun _ => true := rfl
  have ht : ((fun r : Record => decide (r.level = .trace)) ∘
      fun t : Token => .invalidFragment line t.value (t.span.start + 1)) = fun _ => false := rfl
  rw [recordsAt,List.countP_append,List.countP_map,List.countP_map,hc,ht,List.countP_true,
    List.countP_false,Function.const_apply,Nat.add_zero,← List.countP_eq_length_filter,
    List.countP_filter]
  simp only [Bool.and_comm]

theorem countP_trace_records (h : tokens? text line cs = some ts) :
    (records text line cs).countP (·.level = .trace) = cs.countP (isBlocked ts) := by
  rw [records_eq_flatMap_groups h,← (flatMap_members_groups cs).countP_eq,List.countP_flatMap,
    List.countP_flatMap]
  congr 1
  apply List.map_congr_left
  intro g hg
  rw [Function.comp_apply,Function.comp_apply,members_of_mem_groups hg,countP_trace_recordsAt]

/-- `rs` is what is logged of the candidates `cs` for a line if they resolve into the tokens `ts`.
Offset by offset it says what is blocked and what is invalid, and nothing else; a candidate that is
neither a token nor logged is lost. -/
structure IsLog (line : Nat) (cs : List Candidate) (ts : List Token) (rs : List Record) : Prop where
  byOffset : ∀ m : Nat, (∀ c ∈ cs, c.span.start < m) →
    rs = (List.range m).flatMap (recordsAt line cs ts)
  entries : ∀ m : Nat, (∀ c ∈ cs, c.span.start < m) →
    rs.map entry = (List.range m).flatMap (entriesAt line cs ts)
  blocked : rs.countP (·.level = .trace) = cs.countP (isBlocked ts)
  parts : cs.length = ts.length + rs.countP (·.level = .trace) + (lost ts cs).length

theorem isLog_records (h : tokens? text line cs = some ts) :
    IsLog line cs ts (records text line cs) where
  byOffset _ hm := records_eq_flatMap_range h hm
  entries m hm := by
    rw [records_eq_flatMap_range h hm,List.map_flatMap]
    exact List.flatMap_congr fun n _ => map_entry_recordsAt line cs ts n
  blocked := countP_trace_records h
  parts := by
    rw [countP_trace_records h]
    exact length_eq_parts h

/-- The records of resolving candidates say exactly which of them are blocked by a token and which
tokens are invalid. The last record of a line counts its candidates, which are its tokens, those
that are logged as blocked and those that are lost, and its tokens. -/
theorem records_split :
    (∀ (text : Line) (line : Nat) (cs : List Candidate) (ts : List Token),
      tokens? text line cs = some ts → IsLog line cs ts (records text line cs)) ∧
    ∀ (c : Catalog) (text : Line) (line : Nat), ∃ rs last,
      IsLog line (c.candidates text) (c.tokenizeLine text line) rs ∧
        c.lineRecords text line = rs ++ [last] ∧
        last = .lineResolved line (c.candidates text).length (c.tokenizeLine text line).length ∧
        entry last = (.debug,"line " ++ toString line ++ ": " ++
          toString (c.candidates text).length ++ " candidates resolved into " ++
          toString (c.tokenizeLine text line).length ++ " tokens") := by
  constructor
  · intro text line cs ts h
    exact isLog_records h
  · intro c text line
    refine ⟨_,_,isLog_records (c.tokens?_candidates text line),?_,rfl,rfl⟩
    rw [Catalog.lineRecords,Catalog.tokenizeLine,tokens,List.length_map]

/-- Of two equal candidates one loses to the other, and both are logged if they are blocked. -/
theorem records_split_duplicates :
    let cs : List Candidate := [⟨.comment,⟨4,3⟩⟩,⟨.separator,⟨2,3⟩⟩,⟨.invalid,⟨1,3⟩⟩,
      ⟨.invalid,⟨4,6⟩⟩,⟨.identifier,⟨0,2⟩⟩,⟨.operator,⟨2,4⟩⟩,⟨.reservedWord,⟨0,1⟩⟩,
      ⟨.identifier,⟨0,2⟩⟩,⟨.invalid,⟨1,3⟩⟩]
    let ts : List Token :=
      [⟨.identifier,"ab",7,⟨0,2⟩⟩,⟨.operator,":=",7,⟨2,4⟩⟩,⟨.invalid,"é",7,⟨4,6⟩⟩]
    let rs : List Record := [.suppressed 7 ⟨.invalid,⟨1,3⟩⟩,.suppressed 7 ⟨.invalid,⟨1,3⟩⟩,
      .suppressed 7 ⟨.comment,⟨4,3⟩⟩,.invalidFragment 7 "é" 5]
    tokens? "ab:=é".toList 7 cs = some ts ∧ IsLog 7 cs ts rs ∧
      rs.map entry = [(.trace,"line 7: suppressed Invalid at 1..3"),
        (.trace,"line 7: suppressed Invalid at 1..3"),(.trace,"line 7: suppressed Comment at 4..3"),
        (.warn,"line 7: invalid fragment 'é' at column 5")] ∧
      lost ts cs = [(⟨.separator,⟨2,3⟩⟩,1),(⟨.reservedWord,⟨0,1⟩⟩,6),(⟨.identifier,⟨0,2⟩⟩,7)] := by
  intro cs ts rs
  have ht : tokens? "ab:=é".toList 7 cs = some ts := by decide
  have hr : records "ab:=é".toList 7 cs = rs := by decide
  exact ⟨ht,hr ▸ records_split.1 _ _ _ _ ht,by decide,by decide⟩

end Resolution
end PascalTokens
