import Mathlib.Data.List.Sort
import PascalTokens.Expression.Text
import PascalTokens.Lexer
import PascalTokens.Proofs.Groups
import PascalTokens.Proofs.Scanner

/-! Two ways to the tokens of a line: to find the candidates of all definitions, group them by their
starts and resolve the groups, or to scan the line with one cursor. Both give the same tokens. -/
namespace PascalTokens

namespace Resolution

/-- Of candidates in order of priority a later one wins only by its length. -/
theorem foldl_beats {c : Candidate} {cs : List Candidate}
    (h : (c :: cs).Pairwise fun c d => c.kind.rank ≤ d.kind.rank) :
    some (cs.foldl (fun d c => if beats c d then c else d) c) =
      cs.foldl (List.argAux fun b d => d.span.stop < b.span.stop) (some c) := by
  induction cs generalizing c with
  | nil => rfl
  | cons d cs ih =>
    obtain ⟨hc,hd⟩ := List.pairwise_cons.1 h
    have hb : beats d c = decide (c.span.stop < d.span.stop) := by
      have hr := hc d List.mem_cons_self
      simp [beats,Kind.outranks,Nat.not_lt.2 hr]
    rw [List.foldl_cons,List.foldl_cons,hb]
    by_cases hlt : c.span.stop < d.span.stop
    · have ha : List.argAux (fun b d => d.span.stop < b.span.stop) (some c) d = some d := by
        simp [List.argAux,hlt]
      rw [ha,decide_eq_true hlt,if_pos rfl]
      exact ih hd
    · have ha : List.argAux (fun b d => d.span.stop < b.span.stop) (some c) d = some c := by
        simp [List.argAux,hlt]
      rw [ha,decide_eq_false hlt,if_neg Bool.false_ne_true]
      refine ih (List.pairwise_cons.2 ⟨?_,(List.pairwise_cons.1 hd).2⟩)
      exact fun e he => hc e (List.mem_cons_of_mem d he)

/-- Where the candidates come in order of priority, the first of the longest is the best. -/
theorem best_eq_argmax {cs : List Candidate}
    (h : cs.Pairwise fun c d => c.kind.rank ≤ d.kind.rank) :
    best cs = cs.argmax (·.span.stop) := by
  cases cs with
  | nil => rfl
  | cons c cs => exact foldl_beats h

def winnersAfter (claimed : Option Nat) (gs : List Group) : List Candidate :=
  (decisionsAfter claimed gs).filterMap (·.winner)

theorem winners_eq_winnersAfter (cs : List Candidate) :
    winners cs = winnersAfter none (groups cs) := rfl

theorem winnersAfter_cons (claimed : Option Nat) (g : Group) (gs : List Group) :
    winnersAfter claimed (g :: gs) =
      (decision claimed g).winner.toList ++
        winnersAfter ((decision claimed g).claims claimed) gs := by
  unfold winnersAfter
  rw [decisionsAfter,List.filterMap_cons]
  cases (decision claimed g).winner <;> rfl

theorem winnersAfter_cons_of_blocked {claimed : Option Nat} {g : Group}
    (h : ∀ c ∈ g.members, blocked claimed c) (gs : List Group) :
    winnersAfter claimed (g :: gs) = winnersAfter claimed gs := by
  have hf : g.members.filter (!blocked claimed ·) = [] :=
    List.filter_eq_nil_iff.2 fun c hc => by simp [h c hc]
  have hw : (decision claimed g).winner = none := by simp [decision,hf,best]
  rw [winnersAfter_cons,hw,Decision.claims,hw]
  rfl

theorem winnersAfter_cons_of_free {claimed : Option Nat} {g : Group} {c : Candidate}
    (h : ∀ c ∈ g.members, blocked claimed c = false) (hb : best g.members = some c)
    (gs : List Group) :
    winnersAfter claimed (g :: gs) = c :: winnersAfter (some c.span.stop) gs := by
  have hf : g.members.filter (!blocked claimed ·) = g.members :=
    List.filter_eq_self.2 fun c hc => by simp [h c hc]
  have hw : (decision claimed g).winner = some c := by simp [decision,hf,hb]
  rw [winnersAfter_cons,hw,Decision.claims,hw]
  rfl

end Resolution

namespace Definition

def candidateAt? (d : Definition) (p : Place) : Option Candidate :=
  (d.matcher.nonemptyEnd? p).map fun q => ⟨d.kind,⟨p.offset,q.offset⟩⟩

theorem candidateAt?_eq_some {d : Definition} {p : Place} {c : Candidate} :
    d.candidateAt? p = some c ↔
      ∃ q, d.matcher.endOf? p = some q ∧ p.offset < q.offset ∧
        c = ⟨d.kind,⟨p.offset,q.offset⟩⟩ := by
  rw [candidateAt?,Option.map_eq_some_iff]
  apply exists_congr
  intro q
  rw [Matcher.nonemptyEnd?_eq_some,and_assoc]
  exact and_congr_right fun _ => and_congr_right fun _ => eq_comm

theorem candidates_eq_filterMap (d : Definition) (l : Line) :
    d.candidates l = (Place.ofLine l).filterMap d.candidateAt? := by
  have hspan : (fun p => (d.matcher.spanAt? p).map fun s => (⟨d.kind,s⟩ : Candidate)) =
      d.candidateAt? := by
    funext p
    rw [Matcher.spanAt?,Option.map_map]
    rfl
  rw [candidates,Matcher.spans,Matcher.spansFrom_eq_filterMap,List.map_filterMap,hspan]

end Definition

namespace Scanner

open Resolution

def candidatesAt (ds : List Definition) (p : Place) : List Candidate :=
  (matchesAt ds p).map fun m => ⟨m.1,⟨p.offset,m.2.offset⟩⟩

def groupAt? (ds : List Definition) (p : Place) : Option Group :=
  if candidatesAt ds p = [] then none else some ⟨p.offset,candidatesAt ds p⟩

theorem candidatesAt_eq_nil {ds : List Definition} {p : Place} :
    candidatesAt ds p = [] ↔ pick ds p = none := by
  rw [candidatesAt,List.map_eq_nil_iff,pick_eq_none]

theorem mem_candidatesAt {ds : List Definition} {p : Place} {c : Candidate}
    (h : c ∈ candidatesAt ds p) : c.span.start = p.offset ∧ p.offset < c.span.stop := by
  obtain ⟨⟨k,q⟩,hm,rfl⟩ := List.mem_map.1 h
  exact ⟨rfl,(reaches_of_mem_matchesAt hm).2⟩

theorem best_candidatesAt {ds : List Definition}
    (hd : ds.Pairwise fun d e => d.kind.rank ≤ e.kind.rank) (p : Place) :
    best (candidatesAt ds p) = (pick ds p).map fun m => ⟨m.1,⟨p.offset,m.2.offset⟩⟩ := by
  have hr : (candidatesAt ds p).Pairwise fun c d => c.kind.rank ≤ d.kind.rank := by
    rw [candidatesAt,List.pairwise_map,matchesAt]
    refine List.Pairwise.filterMap _ ?_ hd
    intro d e hde m hm n hn
    obtain ⟨q,-,rfl⟩ := Option.map_eq_some_iff.1 hm
    obtain ⟨r,-,rfl⟩ := Option.map_eq_some_iff.1 hn
    exact hde
  rw [best_eq_argmax hr,candidatesAt,argmax_map]
  rfl

theorem filter_candidates_definition (d : Definition) {l : Line} {p : Place}
    (hp : p ∈ Place.ofLine l) :
    (d.candidates l).filter (·.span.start = p.offset) = (d.candidateAt? p).toList := by
  obtain ⟨as,bs,hl⟩ := List.append_of_mem hp
  have hs := Place.pairwise_onward (Place.start l)
  have ho : (Place.start l).onward = as ++ p :: bs := hl
  rw [ho,List.pairwise_append] at hs
  obtain ⟨-,hb,hab⟩ := hs
  have none_of (qs : List Place) (h : ∀ q ∈ qs, q.offset ≠ p.offset) :
      (qs.filterMap d.candidateAt?).filter (·.span.start = p.offset) = [] := by
    refine List.filter_eq_nil_iff.2 fun c hc => ?_
    obtain ⟨q,hq,hc⟩ := List.mem_filterMap.1 hc
    obtain ⟨_,-,-,rfl⟩ := Definition.candidateAt?_eq_some.1 hc
    simpa using h q hq
  have ha : ∀ q ∈ as, q.offset ≠ p.offset := fun q hq => (hab q hq p List.mem_cons_self).ne
  have hc : ∀ q ∈ bs, q.offset ≠ p.offset := fun q hq => ((List.pairwise_cons.1 hb).1 q hq).ne'
  rw [d.candidates_eq_filterMap,hl,List.filterMap_append,List.filter_append,none_of as ha,List.nil_append]
  cases he : d.candidateAt? p with
  | none =>
    rw [List.filterMap_cons_none he,none_of bs hc]
    rfl
  | some c =>
    obtain ⟨_,-,-,rfl⟩ := Definition.candidateAt?_eq_some.1 he
    rw [List.filterMap_cons_some he,List.filter_cons_of_pos (by simp),none_of bs hc]
    rfl

theorem filter_candidates (c : Catalog) {l : Line} {p : Place} (hp : p ∈ Place.ofLine l) :
    (c.candidates l).filter (·.span.start = p.offset) = candidatesAt c.definitions p := by
  rw [Catalog.candidates,List.filter_flatMap,candidatesAt,matchesAt]
  induction c.definitions with
  | nil => rfl
  | cons d ds ih =>
    rw [List.flatMap_cons,ih,filter_candidates_definition d hp,List.filterMap_cons,
      Definition.candidateAt?]
    cases d.matcher.nonemptyEnd? p with
    | none => rfl
    | some q => rfl

theorem start_of_mem_candidates {c : Catalog} {l : Line} {k : Candidate}
    (h : k ∈ c.candidates l) : ∃ p ∈ Place.ofLine l, k.span.start = p.offset := by
  obtain ⟨d,-,hk⟩ := List.mem_flatMap.1 h
  rw [d.candidates_eq_filterMap] at hk
  obtain ⟨p,hp,hk⟩ := List.mem_filterMap.1 hk
  obtain ⟨_,-,-,rfl⟩ := Definition.candidateAt?_eq_some.1 hk
  exact ⟨p,hp,rfl⟩

theorem mem_groupAt? {ds : List Definition} {p : Place} {g : Group} :
    groupAt? ds p = some g ↔ candidatesAt ds p ≠ [] ∧ g = ⟨p.offset,candidatesAt ds p⟩ := by
  by_cases h : candidatesAt ds p = []
  · simp [groupAt?,h]
  · simp [groupAt?,h,eq_comm]

theorem groups_candidates (c : Catalog) (l : Line) :
    groups (c.candidates l) = (Place.ofLine l).filterMap (groupAt? c.definitions) := by
  have : Std.Antisymm fun g h : Group => g.start < h.start :=
    ⟨fun g h hgh hhg => absurd hgh (Nat.lt_asymm hhg)⟩
  have : Std.Irrefl fun g h : Group => g.start < h.start := ⟨fun g => Nat.lt_irrefl g.start⟩
  refine (pairwise_groups _).eq_of_mem_iff ?_ ?_
  · refine List.Pairwise.filterMap _ ?_ (Place.pairwise_onward (Place.start l))
    intro p q hpq g hg h hh
    obtain ⟨-,rfl⟩ := mem_groupAt?.1 hg
    obtain ⟨-,rfl⟩ := mem_groupAt?.1 hh
    exact hpq
  · intro g
    rw [mem_groups,List.mem_filterMap]
    constructor
    · rintro ⟨hm,hne⟩
      obtain ⟨k,hk⟩ := List.exists_mem_of_ne_nil _ hne
      rw [hm,List.mem_filter] at hk
      obtain ⟨p,hp,hs⟩ := start_of_mem_candidates hk.1
      have hg : g.start = p.offset := (of_decide_eq_true hk.2).symm.trans hs
      rw [hg,filter_candidates c hp] at hm
      refine ⟨p,hp,mem_groupAt?.2 ⟨hm ▸ hne,?_⟩⟩
      rw [← hg,← hm]
    · rintro ⟨p,hp,hg⟩
      obtain ⟨hne,rfl⟩ := mem_groupAt?.1 hg
      exact ⟨(filter_candidates c hp).symm,hne⟩

theorem winnersAfter_skip (ds : List Definition) {e : Nat} {ps : List Place}
    (h : ∀ p ∈ ps, p.offset < e) (gs : List Group) :
    winnersAfter (some e) (ps.filterMap (groupAt? ds) ++ gs) = winnersAfter (some e) gs := by
  induction ps with
  | nil => rfl
  | cons p ps ih =>
    have hp := h p List.mem_cons_self
    have ht := ih fun q hq => h q (List.mem_cons_of_mem p hq)
    cases hg : groupAt? ds p with
    | none => rw [List.filterMap_cons_none hg,ht]
    | some g =>
      obtain ⟨-,rfl⟩ := mem_groupAt?.1 hg
      rw [List.filterMap_cons_some hg,List.cons_append,winnersAfter_cons_of_blocked,ht]
      intro c hc
      have hs := (mem_candidatesAt hc).1
      have hlt : c.span.start < e := hs ▸ hp
      simp [blocked,hlt]

/-- From a place that no token reaches beyond, the winners among the groups are the tokens of the
scanner. -/
theorem winnersAfter_onward {ds : List Definition}
    (hd : ds.Pairwise fun d e => d.kind.rank ≤ e.kind.rank) (line : Nat) (p : Place)
    {claimed : Option Nat} (h : ∀ e ∈ claimed, e ≤ p.offset) :
    winnersAfter claimed (p.onward.filterMap (groupAt? ds)) =
      (scanFrom ds line p).map Token.candidate := by
  induction p using cursor_induction ds generalizing claimed with
  | nil p e =>
    have hg : groupAt? ds p = none := by
      rw [groupAt?,if_pos (candidatesAt_eq_nil.2 (pick_of_rest_nil ds e))]
    rw [Place.onward_nil e,scanFrom_nil ds line e,List.filterMap_cons_none hg]
    rfl
  | past p c l e hn ih =>
    have hg : groupAt? ds p = none := by rw [groupAt?,if_pos (candidatesAt_eq_nil.2 hn)]
    rw [Place.onward_cons e,scanFrom_past line e hn,List.filterMap_cons_none hg]
    refine ih fun s hs => ?_
    have := h s hs
    rw [Place.past_offset]
    omega
  | pick p k q hp ih =>
    obtain ⟨hr,hlt⟩ := reaches_of_pick hp
    have hne : candidatesAt ds p ≠ [] := by
      intro hn
      rw [candidatesAt_eq_nil,hp] at hn
      cases hn
    have hb : best (candidatesAt ds p) = some ⟨k,⟨p.offset,q.offset⟩⟩ := by
      rw [best_candidatesAt hd,hp]
      rfl
    have hfree : ∀ c ∈ candidatesAt ds p, blocked claimed c = false := by
      intro c hc
      obtain ⟨hs,hpos⟩ := mem_candidatesAt hc
      cases claimed with
      | none => rfl
      | some e =>
        have he := h e rfl
        simp [blocked]
        omega
    -- the cursor leaves `p` by a character, and meets only places within the token before `q`
    cases hr with
    | refl => omega
    | @past _ _ c l e hr =>
      obtain ⟨ps,hps,hlts⟩ := hr.onward
      rw [Place.onward_cons e,List.filterMap_cons_some (mem_groupAt?.2 ⟨hne,rfl⟩),
        winnersAfter_cons_of_free hfree hb,hps,List.filterMap_append,winnersAfter_skip ds hlts,
        scanFrom_pick line hp,ih fun s hs => (Option.mem_some_iff.1 hs).symm.le]
      rfl

theorem winners_candidates (c : Catalog) (text : Line) (line : Nat) :
    winners (c.candidates text) = (scan c.definitions text line).map Token.candidate := by
  rw [winners_eq_winnersAfter,groups_candidates]
  exact winnersAfter_onward c.ordered line (Place.start text) (by simp)

/-- Resolving the candidates of a line is scanning it. -/
theorem tokens_candidates (c : Catalog) (text : Line) (line : Nat) :
    Resolution.tokens text line (c.candidates text) = scan c.definitions text line := by
  rw [Resolution.tokens,winners_candidates c text line,List.map_map]
  refine (List.map_congr_left fun t ht => ?_).trans (List.map_id _)
  exact (isPart_of_mem_scan ht).token_candidate

end Scanner

namespace Catalog

theorem mapM_of_definitionsAfter {compile : Compiler} {k : Kind} {rs : List Rule}
    {ds : List Definition} (h : Rule.definitionsAfter compile k rs = .ok ds) :
    rs.mapM (Rule.definition compile) = .ok ds := by
  induction rs generalizing k ds with
  | nil => exact h
  | cons r rs ih =>
    obtain ⟨-,d,es,hd,hs,rfl⟩ := Rule.definitionsAfter_cons_eq_ok.1 h
    rw [List.mapM_cons,hd,ih hs]
    rfl

theorem definitions_ofRules {compile : Compiler} {rs : List Rule} {c : Catalog}
    (h : ofRules compile rs = .ok c) : rs.mapM (Rule.definition compile) = .ok c.definitions := by
  unfold ofRules at h
  split at h
  · rename_i ds hd
    cases h
    exact mapM_of_definitionsAfter hd
  · cases h

/-- Whatever a catalog's definitions are, the tokens of a line are those of the plain scanner; and
the definitions of a catalog of rules are those that the rules say, in their order. -/
theorem tokenizeLine_eq_scan (c : Catalog) (text : Line) (line : Nat) :
    c.tokenizeLine text line = Scanner.scan c.definitions text line ∧
      ∀ compile rs, ofRules compile rs = .ok c →
        rs.mapM (Rule.definition compile) = .ok c.definitions :=
  ⟨Scanner.tokens_candidates c text line,fun _ _ => definitions_ofRules⟩

theorem tokenizeLine_eq_scan_let :
    let rs : List Rule := [⟨.reservedWord,"let"⟩,⟨.identifier,"[a-z]*"⟩]
    ∃ c, ofRules ExpressionText.compile rs = .ok c ∧
      rs.mapM (Rule.definition ExpressionText.compile) = .ok c.definitions ∧
      c.tokenizeLine "let é letter".toList 1 =
        Scanner.scan c.definitions "let é letter".toList 1 := by
  intro rs
  cases hc : ofRules ExpressionText.compile rs with
  | error e =>
    have ho : (ofRules ExpressionText.compile rs).toBool := by decide +kernel
    rw [hc] at ho
    cases ho
  | ok c =>
    obtain ⟨ht,hd⟩ := tokenizeLine_eq_scan c "let é letter".toList 1
    exact ⟨c,rfl,hd _ rs hc,ht⟩

end Catalog
end PascalTokens
