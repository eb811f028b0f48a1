import PascalTokens.Resolution

/-! The groups of candidates: their starts ascend, and a group holds the candidates of its start in
the order they are given in. -/
namespace PascalTokens.Resolution

@[simp] theorem place_nil (c : Candidate) : place c [] = [⟨c.span.start,[c]⟩] := rfl

theorem place_cons (c : Candidate) (g : Group) (gs : List Group) :
    place c (g :: gs) =
      if c.span.start < g.start then ⟨c.span.start,[c]⟩ :: g :: gs
      else if c.span.start = g.start then { g with members := c :: g.members } :: gs
      else g :: place c gs := rfl

theorem mem_place {c : Candidate} {g : Group} {gs : List Group} (h : g ∈ place c gs)
    (hs : gs.Pairwise fun g h => g.start < h.start) :
    (g ∈ gs ∧ g.start ≠ c.span.start) ∨
      (∃ ms, ⟨c.span.start,ms⟩ ∈ gs ∧ g = ⟨c.span.start,c :: ms⟩) ∨
      ((∀ k ∈ gs, k.start ≠ c.span.start) ∧ g = ⟨c.span.start,[c]⟩) := by
  induction gs with
  | nil =>
    simp only [place_nil,List.mem_singleton] at h
    exact .inr (.inr ⟨by simp,h⟩)
  | cons k gs ih =>
    obtain ⟨hk,hs⟩ := List.pairwise_cons.1 hs
    simp only [place_cons] at h
    split at h
    · rename_i hlt
      have hne : ∀ j ∈ k :: gs, j.start ≠ c.span.start := by
        intro j hj
        rcases List.mem_cons.1 hj with rfl | hj
        · omega
        · have := hk j hj
          omega
      rcases List.mem_cons.1 h with rfl | h
      · exact .inr (.inr ⟨hne,rfl⟩)
      · exact .inl ⟨h,hne g h⟩
    · split at h
      · rename_i heq
        rcases List.mem_cons.1 h with rfl | h
        · refine .inr (.inl ⟨k.members,?_,by rw [heq]⟩)
          rw [heq]
          exact List.mem_cons_self
        · have := hk g h
          exact .inl ⟨List.mem_cons_of_mem k h,by omega⟩
      · rename_i hlt heq
        rcases List.mem_cons.1 h with rfl | h
        · exact .inl ⟨List.mem_cons_self,by omega⟩
        · rcases ih h hs with ⟨hg,hne⟩ | ⟨ms,hm,hg⟩ | ⟨hne,hg⟩
          · exact .inl ⟨List.mem_cons_of_mem k hg,hne⟩
          · exact .inr (.inl ⟨ms,List.mem_cons_of_mem k hm,hg⟩)
          · refine .inr (.inr ⟨?_,hg⟩)
            intro j hj
            rcases List.mem_cons.1 hj with rfl | hj
            · omega
            · exact hne j hj

theorem start_of_mem_place {c : Candidate} {g : Group} {gs : List Group}
    (h : g ∈ place c gs) : g.start = c.span.start ∨ ∃ k ∈ gs, k.start = g.start := by
  induction gs with
  | nil =>
    simp only [place_nil,List.mem_singleton] at h
    exact .inl (by rw [h])
  | cons k gs ih =>
    simp only [place_cons] at h
    split at h
    · rcases List.mem_cons.1 h with rfl | h
      · exact .inl rfl
      · exact .inr ⟨g,h,rfl⟩
    · split at h
      · rcases List.mem_cons.1 h with rfl | h
        · exact .inr ⟨k,List.mem_cons_self,rfl⟩
        · exact .inr ⟨g,List.mem_cons_of_mem k h,rfl⟩
      · rcases List.mem_cons.1 h with rfl | h
        · exact .inr ⟨g,List.mem_cons_self,rfl⟩
        · rcases ih h with he | ⟨j,hj,he⟩
          · exact .inl he
          · exact .inr ⟨j,List.mem_cons_of_mem k hj,he⟩

theorem pairwise_place (c : Candidate) {gs : List Group}
    (hs : gs.Pairwise fun g h => g.start < h.start) :
    (place c gs).Pairwise fun g h => g.start < h.start := by
  induction gs with
  | nil => simp
  | cons k gs ih =>
    obtain ⟨hk,ht⟩ := List.pairwise_cons.1 hs
    simp only [place_cons]
    split
    · rename_i hlt
      refine List.pairwise_cons.2 ⟨?_,hs⟩
      intro j hj
      rcases List.mem_cons.1 hj with rfl | hj
      · exact hlt
      · exact Nat.lt_trans hlt (hk j hj)
    · split
      · exact List.pairwise_cons.2 ⟨hk,ht⟩
      · refine List.pairwise_cons.2 ⟨?_,ih ht⟩
        intro j hj
        rcases start_of_mem_place hj with he | ⟨i,hi,he⟩
        · omega
        · have := hk i hi
          omega

theorem pairwise_groups (cs : List Candidate) :
    (groups cs).Pairwise fun g h => g.start < h.start := by
  induction cs with
  | nil => exact List.Pairwise.nil
  | cons c cs ih => exact pairwise_place c ih

theorem exists_mem_place (c : Candidate) (gs : List Group) :
    ∃ g ∈ place c gs, g.start = c.span.start := by
  induction gs with
  | nil => exact ⟨_,List.mem_singleton_self _,rfl⟩
  | cons k gs ih =>
    simp only [place_cons]
    split
    · exact ⟨_,List.mem_cons_self,rfl⟩
    · split
      · rename_i heq
        exact ⟨_,List.mem_cons_self,heq.symm⟩
      · obtain ⟨g,hg,he⟩ := ih
        exact ⟨g,List.mem_cons_of_mem k hg,he⟩

theorem exists_mem_place_of_mem (c : Candidate) {g : Group} {gs : List Group} (h : g ∈ gs) :
    ∃ k ∈ place c gs, k.start = g.start := by
  induction gs with
  | nil => cases h
  | cons j gs ih =>
    simp only [place_cons]
    split
    · exact ⟨g,List.mem_cons_of_mem _ h,rfl⟩
    · rcases List.mem_cons.1 h with rfl | h
      · split
        · exact ⟨_,List.mem_cons_self,rfl⟩
        · exact ⟨g,List.mem_cons_self,rfl⟩
      · split
        · exact ⟨g,List.mem_cons_of_mem _ h,rfl⟩
        · obtain ⟨k,hk,he⟩ := ih h
          exact ⟨k,List.mem_cons_of_mem j hk,he⟩

theorem exists_group {c : Candidate} {cs : List Candidate} (h : c ∈ cs) :
    ∃ g ∈ groups cs, g.start = c.span.start := by
  induction cs with
  | nil => cases h
  | cons d cs ih =>
    rcases List.mem_cons.1 h with rfl | h
    · exact exists_mem_place c (groups cs)
    · obtain ⟨g,hg,he⟩ := ih h
      obtain ⟨k,hk,hkg⟩ := exists_mem_place_of_mem d hg
      exact ⟨k,hk,hkg.trans he⟩

theorem members_of_mem_groups {cs : List Candidate} {g : Group} (h : g ∈ groups cs) :
    g.members = cs.filter (·.span.start = g.start) := by
  induction cs generalizing g with
  | nil => cases h
  | cons c cs ih =>
    rcases mem_place h (pairwise_groups cs) with ⟨hg,hne⟩ | ⟨ms,hm,rfl⟩ | ⟨hne,rfl⟩
    · rw [ih hg,List.filter_cons_of_neg (by simpa using hne.symm)]
    · rw [List.filter_cons_of_pos (by simp),← ih hm]
    · rw [List.filter_cons_of_pos (by simp)]
      have hf : cs.filter (·.span.start = c.span.start) = [] := by
        refine List.filter_eq_nil_iff.2 fun d hd he => ?_
        obtain ⟨g,hg,hs⟩ := exists_group hd
        exact hne g hg (hs.trans (of_decide_eq_true he))
      exact congrArg _ hf.symm

theorem members_ne_nil {cs : List Candidate} {g : Group} (h : g ∈ groups cs) :
    g.members ≠ [] := by
  induction cs generalizing g with
  | nil => cases h
  | cons c cs ih =>
    rcases mem_place h (pairwise_groups cs) with ⟨hg,-⟩ | ⟨ms,-,rfl⟩ | ⟨-,rfl⟩
    · exact ih hg
    · simp
    · simp

/-- The groups of candidates are those, and only those, of the starts that occur. -/
theorem mem_groups {cs : List Candidate} {g : Group} :
    g ∈ groups cs ↔ g.members = cs.filter (·.span.start = g.start) ∧ g.members ≠ [] := by
  constructor
  · intro h
    exact ⟨members_of_mem_groups h,members_ne_nil h⟩
  · rintro ⟨hm,hne⟩
    obtain ⟨c,hc⟩ := List.exists_mem_of_ne_nil _ hne
    rw [hm] at hc
    obtain ⟨hc,hs⟩ := List.mem_filter.1 hc
    obtain ⟨k,hk,he⟩ := exists_group hc
    have hkg : k.start = g.start := he.trans (of_decide_eq_true hs)
    have hkm : k.members = g.members := by rw [members_of_mem_groups hk,hm,hkg]
    have : k = g := by
      cases k; cases g
      simp_all
    exact this ▸ hk

end PascalTokens.Resolution
