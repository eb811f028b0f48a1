import PascalTokens.Expression.Text

/-! What is read from expressions in writing that are made of words. -/
namespace PascalTokens.ExpressionText

/-- Does the character stand for itself? -/
def isLiteral (c : Char) : Bool := !"()|*+?[.^$\\\x7b".toList.contains c

/-- The piece that a character of a list of words makes, where bars stand between the words. -/
def wordPiece (c : Char) : Piece := if c = '|' then .bar else .character c

section Pieces

variable {t u : List Char} {xs : List Symbol} {ps : List Piece}

theorem symbols_append (h : '\\' ∉ t) (hu : symbols u = .ok xs) :
    symbols (t ++ u) = .ok (t.map .plain ++ xs) := by
  induction t with
  | nil => exact hu
  | cons c t ih =>
    rw [List.mem_cons,not_or] at h
    have hlater := ih h.2
    rw [List.cons_append,symbols,hlater]
    · rfl
    · exact fun hc _ => h.1 hc.symm
    · exact fun _ _ hc _ => h.1 hc.symm

theorem symbols_escaped (c : Char) (hu : symbols u = .ok xs) :
    symbols ('\\' :: c :: u) = .ok (.escaped c :: xs) := by
  rw [symbols,hu]
  rfl

theorem piece_plain {c : Char} (h : c = '|' ∨ isLiteral c = true) (xs : List Symbol) :
    piece (.plain c) xs = .ok (wordPiece c,xs) := by
  rcases h with rfl | h
  · rfl
  · have hne {d : Char} (hd : isLiteral d = false) : c ≠ d := by
      rintro rfl
      rw [h] at hd
      cases hd
    rw [wordPiece,if_neg (hne rfl),piece]
    all_goals
      intros
      rename_i hc
      exact hne rfl hc

theorem piecesWithin_cons {x : Symbol} {p : Piece} {after : List Symbol} {n : Nat}
    (hp : piece x xs = .ok (p,after)) (hps : piecesWithin n after = .ok ps) :
    piecesWithin (n + 1) (x :: xs) = .ok (p :: ps) := by
  rw [piecesWithin,hp]
  change (do return p :: (← piecesWithin n after)) = _
  rw [hps]
  rfl

theorem piecesWithin_append (h : ∀ c ∈ t, c = '|' ∨ isLiteral c = true) {n : Nat}
    (hxs : piecesWithin n xs = .ok ps) :
    piecesWithin (t.length + n) (t.map .plain ++ xs) = .ok (t.map wordPiece ++ ps) := by
  induction t with
  | nil => rwa [List.length_nil,Nat.zero_add]
  | cons c t ih =>
    have hfirst := piece_plain (h c List.mem_cons_self) (t.map .plain ++ xs)
    have hlater := ih fun d hd => h d (List.mem_cons_of_mem _ hd)
    rw [List.length_cons,Nat.add_right_comm]
    exact piecesWithin_cons hfirst hlater

theorem eq_or_mem_of_mem_intercalate {ws : List (List Char)} {c : Char}
    (h : c ∈ List.intercalate ['|'] ws) : c = '|' ∨ ∃ w ∈ ws, c ∈ w := by
  induction ws with
  | nil => cases h
  | cons w ws ih =>
    cases ws with
    | nil =>
      rw [List.intercalate_singleton] at h
      exact .inr ⟨w,List.mem_cons_self,h⟩
    | cons v ws =>
      rw [List.intercalate_cons_cons,List.mem_append,List.mem_append,List.mem_singleton] at h
      rcases h with (h | h) | h
      · exact .inr ⟨w,List.mem_cons_self,h⟩
      · exact .inl h
      · exact (ih h).imp id fun ⟨u,hu,hc⟩ => ⟨u,List.mem_cons_of_mem _ hu,hc⟩

end Pieces

section Groups

def word (ignoreCase : Bool) (w : List Char) : Nested :=
  .sequence (w.map fun c => ⟨0,character ignoreCase c⟩)

namespace Group

def choices (g : Group) : List Nested := (g.branch :: g.branches).reverse

theorem nest_characters (next : Nat) (g : Group) (outer : List Group) (w : List Char)
    (ps : List Piece) :
    ∃ h : Group, nest next g outer (w.map .character ++ ps) = nest next h outer ps ∧
      h.number = g.number ∧ h.ignoreCase = g.ignoreCase ∧ h.branches = g.branches ∧
      h.parts = (w.map fun c => ⟨0,character g.ignoreCase c⟩).reverse ++ g.parts := by
  induction w generalizing g with
  | nil => exact ⟨g,rfl,rfl,rfl,rfl,rfl⟩
  | cons c w ih =>
    obtain ⟨h,hnest,hnumber,hcase,hbranches,hparts⟩ := ih (g.push ⟨0,character g.ignoreCase c⟩)
    refine ⟨h,hnest,hnumber,hcase,hbranches,?_⟩
    rw [hparts,List.map_cons,List.reverse_cons,List.append_assoc]
    rfl

theorem map_wordPiece {w : List Char} (h : '|' ∉ w) : w.map wordPiece = w.map .character :=
  List.map_congr_left fun _ hc => if_neg (ne_of_mem_of_not_mem hc h)

/-- Reading words with bars between them adds a branch for each. -/
theorem nest_words (next : Nat) (g : Group) (outer : List Group) {ws : List (List Char)}
    (hne : ws ≠ []) (hws : ∀ w ∈ ws, '|' ∉ w) (hg : g.parts = []) (ps : List Piece) :
    ∃ h : Group, nest next g outer ((List.intercalate ['|'] ws).map wordPiece ++ ps) =
        nest next h outer ps ∧ h.number = g.number ∧ h.ignoreCase = g.ignoreCase ∧
      h.choices = g.branches.reverse ++ ws.map (word g.ignoreCase) := by
  induction ws generalizing g with
  | nil => exact absurd rfl hne
  | cons w ws ih =>
    have hw := map_wordPiece (hws w List.mem_cons_self)
    -- the branch is complete at the bar after the word, or at the end
    have hbranch {h : Group}
        (hparts : h.parts = (w.map fun c => ⟨0,character g.ignoreCase c⟩).reverse ++ g.parts) :
        h.branch = word g.ignoreCase w := by
      rw [branch,hparts,hg,List.append_nil,List.reverse_reverse]
      rfl
    cases ws with
    | nil =>
      obtain ⟨h,hnest,hnumber,hcase,hbranches,hparts⟩ := nest_characters next g outer w ps
      rw [List.intercalate_singleton,hw]
      refine ⟨h,hnest,hnumber,hcase,?_⟩
      rw [choices,hbranch hparts,hbranches,List.reverse_cons]
      rfl
    | cons v ws =>
      rw [List.intercalate_cons_cons,List.map_append,List.map_append,hw,List.append_assoc,
        List.append_assoc]
      obtain ⟨h,hnest,hnumber,hcase,hbranches,hparts⟩ := nest_characters next g outer w
        (['|'].map wordPiece ++ ((List.intercalate ['|'] (v :: ws)).map wordPiece ++ ps))
      obtain ⟨i,hlater,hinumber,hicase,hchoices⟩ := ih
        { h with branches := h.branch :: h.branches, parts := [], repeatable := false }
        (List.cons_ne_nil _ _) (fun u hu => hws u (List.mem_cons_of_mem _ hu)) rfl
      refine ⟨i,hnest.trans hlater,hinumber.trans hnumber,hicase.trans hcase,?_⟩
      rw [hchoices,hbranch hparts,hbranches,hcase,List.reverse_cons,List.append_assoc]
      rfl

end Group

theorem depthOf_le {ns : List Nested} {d : Nat} (h : ∀ n ∈ ns, n.depth ≤ d) :
    Nested.depthOf ns ≤ d + 1 := by
  have hfold (m : Nat) (hm : m ≤ d) : ns.foldl (fun n m => max n m.depth) m ≤ d := by
    induction ns generalizing m with
    | nil => exact hm
    | cons n ns ih =>
      exact ih (fun k hk => h k (List.mem_cons_of_mem _ hk)) _
        (Nat.max_le.2 ⟨hm,h n List.mem_cons_self⟩)
  have hdeepest := hfold 0 (Nat.zero_le d)
  rw [Nested.depthOf]
  split <;> omega

theorem depth_branch_le {ns : List Nested} {d : Nat} (h : ∀ n ∈ ns, n.depth ≤ d) :
    (Nested.choice [.sequence ns]).depth ≤ d + 2 := by
  have hone : ∀ n ∈ [Nested.sequence ns], n.depth ≤ d + 1 := by
    intro n hn
    rw [List.mem_singleton.1 hn]
    exact depthOf_le h
  change Nested.depthOf [Nested.sequence ns] ≤ _
  exact depthOf_le hone

end Groups

theorem read_eq_ok {s : String} {xs : List Symbol} {ps : List Piece} {n : Nested}
    (hxs : symbols s.toList = .ok xs) (hps : pieces xs = .ok ps)
    (hn : nest 1 (.opened none false) [] ps = .ok n) : read s = .ok n := by
  rw [read,hxs]
  change (pieces xs >>= fun ps => _) = _
  rw [hps]
  exact hn

theorem parse_eq_ok {s : String} {n : Nested} (hn : read s = .ok n) (hdepth : n.depth ≤ maxDepth)
    (hsize : n.expression.isTooLarge = false) : parse s = .ok n.expression := by
  rw [parse,hn]
  change (if maxDepth < n.depth then Except.error Fault.tooDeep else _) = _
  rw [if_neg (Nat.not_lt.2 hdepth),hsize]
  rfl

end PascalTokens.ExpressionText
