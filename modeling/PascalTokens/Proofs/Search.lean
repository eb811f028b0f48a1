import PascalTokens.Matcher

/-! What searching a line finds: the matches that are not empty, one for every place where one
begins. Going on from the place after a match loses none. -/
namespace PascalTokens.Matcher

/-- Where the match that begins at `p` ends, if it is not empty. -/
def nonemptyEnd? (m : Matcher) (p : Place) : Option Place :=
  (m.endOf? p).filter (p.offset < ·.offset)

def spanAt? (m : Matcher) (p : Place) : Option Span :=
  (m.nonemptyEnd? p).map fun q => ⟨p.offset,q.offset⟩

theorem nonemptyEnd?_eq_some {m : Matcher} {p q : Place} :
    m.nonemptyEnd? p = some q ↔ m.endOf? p = some q ∧ p.offset < q.offset := by
  simp [nonemptyEnd?,Option.filter_eq_some_iff]

theorem reaches_nonemptyEnd? {m : Matcher} {p q : Place} (h : m.nonemptyEnd? p = some q) :
    p.Reaches q ∧ p.offset < q.offset := by
  obtain ⟨he,hlt⟩ := nonemptyEnd?_eq_some.1 h
  exact ⟨m.reaches p q he,hlt⟩

theorem filterMap_spanAt?_eq_nil {m : Matcher} {ps : List Place}
    (h : ∀ p ∈ ps, m.endOf? p = none) : ps.filterMap m.spanAt? = [] := by
  refine List.filterMap_eq_nil_iff.2 fun p hp => ?_
  simp [spanAt?,nonemptyEnd?,h p hp]

theorem search?_eq_none {m : Matcher} {ps : List Place} (h : m.search? ps = none) :
    ∀ p ∈ ps, m.endOf? p = none := by
  induction ps with
  | nil => simp
  | cons p ps ih =>
    simp only [search?] at h
    split at h
    · cases h
    · rename_i hp
      intro q hq
      rcases List.mem_cons.1 hq with rfl | hq
      · exact hp
      · exact ih h q hq

/-- A search skips only places where no match begins. -/
theorem search?_eq_some {m : Matcher} {ps later : List Place} {p q : Place}
    (h : m.search? ps = some (p,q,later)) :
    m.endOf? p = some q ∧
      ∃ skipped, ps = skipped ++ p :: later ∧ ∀ r ∈ skipped, m.endOf? r = none := by
  induction ps with
  | nil => simp [search?] at h
  | cons r ps ih =>
    simp only [search?] at h
    split at h
    · rename_i hr
      cases h
      exact ⟨hr,[],rfl,by simp⟩
    · rename_i hr
      obtain ⟨hp,skipped,rfl,hs⟩ := ih h
      refine ⟨hp,r :: skipped,rfl,?_⟩
      intro s hm
      rcases List.mem_cons.1 hm with rfl | hm
      · exact hr
      · exact hs s hm

theorem spansFrom_eq_filterMap (m : Matcher) (ps : List Place) :
    m.spansFrom ps = ps.filterMap m.spanAt? := by
  fun_induction spansFrom m ps with
  | case1 ps h => exact (filterMap_spanAt?_eq_nil (search?_eq_none h)).symm
  | case2 ps p q later h hlt ih =>
    obtain ⟨hp,skipped,rfl,hs⟩ := search?_eq_some h
    have hsp : m.spanAt? p = some ⟨p.offset,q.offset⟩ := by
      simp [spanAt?,nonemptyEnd?_eq_some.2 ⟨hp,hlt⟩]
    rw [List.filterMap_append,filterMap_spanAt?_eq_nil hs,List.nil_append,
      List.filterMap_cons_some hsp,ih]
  | case3 ps p q later h hlt ih =>
    obtain ⟨hp,skipped,rfl,hs⟩ := search?_eq_some h
    have hsp : m.spanAt? p = none := by
      simpa [spanAt?,nonemptyEnd?,hp] using hlt
    rw [List.filterMap_append,filterMap_spanAt?_eq_nil hs,List.nil_append,
      List.filterMap_cons_none hsp,ih]

end PascalTokens.Matcher
