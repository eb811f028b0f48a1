import PascalTokens.Proofs.Coverage
import PascalTokens.Proofs.Cuts
import PascalTokens.Proofs.Layout.Lexemes

/-! Lines in another layout. The white space between the tokens of a line may be replaced by other
white space: the tokens stay the same, and move by as much as the white space before them grows. -/
namespace PascalTokens

/-- May `g'` stand in the place of the white space `g` within a line? -/
structure Replaces (g g' : Line) : Prop where
  spacing : ∀ c ∈ g', Spacing c
  empty : g' = [] ↔ g = []

instance (g g' : Line) : Decidable (Replaces g g') :=
  decidable_of_iff (g'.all (Spacing ·) ∧ (g' = [] ↔ g = []))
    ⟨fun h => ⟨by simpa using h.1,h.2⟩,fun h => ⟨by simpa using h.spacing,h.empty⟩⟩

/-- Is `u` the token `t`, moved from behind `m` bytes of white space to behind `n`? -/
structure Token.Moved (m n : Nat) (t u : Token) : Prop where
  kind : u.kind = t.kind
  value : u.value = t.value
  line : u.line = t.line
  start : u.span.start + m = t.span.start + n
  stop : u.span.stop + m = t.span.stop + n

/-- Are `us` the tokens `ts`, each moved by what the gaps `gs'` before it have more than the gaps
`gs`? -/
structure Line.AreMoved (gs gs' : List Line) (ts us : List Token) : Prop where
  length_eq : us.length = ts.length
  moved : ∀ (i : Nat) (t u : Token), ts[i]? = some t → us[i]? = some u →
    t.Moved (Line.bytes (gs.take (i + 1)).flatten) (Line.bytes (gs'.take (i + 1)).flatten) u

namespace Catalog

/-- What lies before, between and after the tokens of a line. -/
def gaps (c : Catalog) (text : Line) (line : Nat) : List Line :=
  text.gaps ((c.tokenizeLine text line).map (·.span))

/-- The tokens of a line with other gaps. -/
def relay (c : Catalog) (text : Line) (line : Nat) (gs : List Line) : Line :=
  Line.weave gs ((c.tokenizeLine text line).map (·.value.toList))

end Catalog

namespace Piece

variable {rs : List (Kind × Pattern)}

def lexemes (ps : List Piece) : List (Kind × Line) := ps.filterMap fun p => p.kind?.map (·,p.text)

def spread (gs : List Line) (ls : List (Kind × Line)) : Line := Line.weave gs (ls.map (·.2))

def placed (line : Nat) : Nat → List Line → List (Kind × Line) → List Token
  | offset, g :: gs, (k,l) :: ls =>
    ⟨k,String.ofList l,line,⟨offset + g.bytes,offset + g.bytes + l.bytes⟩⟩ ::
      placed line (offset + g.bytes + l.bytes) gs ls
  | _, _, _ => []

/-- Is each lexeme the longest match of the text that begins with it? -/
inductive Spaced (rs : List (Kind × Pattern)) : List Line → List (Kind × Line) → Prop
  | nil (g : Line) : Spaced rs [g] []
  | cons (g : Line) {k : Kind} {l : Line} {gs : List Line} {ls : List (Kind × Line)}
      (h : longest? rs (l ++ spread gs ls) = some (k,l.length)) (t : Spaced rs gs ls) :
      Spaced rs (g :: gs) ((k,l) :: ls)

theorem spread_nil (g : Line) : spread [g] [] = g := List.append_nil g

theorem spread_cons (g : Line) (gs : List Line) (k : Kind) (l : Line) (ls : List (Kind × Line)) :
    spread (g :: gs) ((k,l) :: ls) = g ++ (l ++ spread gs ls) := rfl

theorem lexemes_some (k : Kind) (l : Line) (ps : List Piece) :
    lexemes (⟨some k,l⟩ :: ps) = (k,l) :: lexemes ps := rfl

theorem values_tokensFrom (line offset : Nat) (ps : List Piece) :
    (tokensFrom line offset ps).map (·.value.toList) = (lexemes ps).map (·.2) := by
  induction ps using pieces_induction generalizing offset with
  | nil => rfl
  | gap l ps ih => exact ih _
  | lexeme k l ps ih =>
    rw [tokensFrom_some,List.map_cons,ih,String.toList_ofList,lexemes_some,List.map_cons]

theorem spread_gapsAfter (g : Line) (ps : List Piece) :
    spread (gapsAfter g ps) (lexemes ps) = g ++ ps.flatMap text := by
  rw [spread,← values_tokensFrom 0 0,weave_gapsAfter]

theorem spaced_ofLine (g l : Line) :
    Spaced rs (gapsAfter g (ofLine rs l)) (lexemes (ofLine rs l)) := by
  induction l using line_induction rs generalizing g with
  | nil =>
    rw [ofLine]
    exact .nil g
  | gap c l hn ih =>
    rw [ofLine_none hn]
    exact ih (g ++ [c])
  | lexeme l k n hm ih =>
    have hlen : (l.take n).length = n := by
      rw [List.length_take]
      exact Nat.min_eq_left (longest?_bounds hm).2
    rw [ofLine_some hm,lexemes_some,gapsAfter]
    refine .cons g ?_ (ih [])
    rw [spread_gapsAfter,flatMap_text_ofLine,List.nil_append,List.take_append_drop,hlen]
    exact hm

section Tokens

theorem longest?_of_not_visible (hrs : ∀ r ∈ rs, r.2.Begins Visible) {c : Char} (hc : ¬Visible c)
    (l : Line) : longest? rs (c :: l) = none := by
  cases h : longest? rs (c :: l) with
  | none => rfl
  | some m =>
    obtain ⟨r,hr,hn⟩ := longest?_eq_some h
    obtain ⟨d,k,htake,hd⟩ := (hrs _ hr).of_length? hn
    obtain ⟨j,hj⟩ := Nat.exists_eq_succ_of_ne_zero (Nat.ne_of_gt (Pattern.length?_bounds hn).1)
    rw [hj,List.take_succ_cons] at htake
    exact absurd ((List.cons.inj htake).1 ▸ hd) hc

theorem tokensFrom_ofLine_append (hrs : ∀ r ∈ rs, r.2.Begins Visible) (line offset : Nat)
    {g : Line} (hg : ∀ c ∈ g, ¬Visible c) (l : Line) :
    tokensFrom line offset (ofLine rs (g ++ l)) =
      tokensFrom line (offset + g.bytes) (ofLine rs l) := by
  induction g generalizing offset with
  | nil => rfl
  | cons c g ih =>
    obtain ⟨hc,hg⟩ := List.forall_mem_cons.1 hg
    rw [List.cons_append,ofLine_none (longest?_of_not_visible hrs hc _),tokensFrom_none,ih _ hg]
    simp [Nat.add_assoc]

theorem tokensFrom_ofLine_spread (hrs : ∀ r ∈ rs, r.2.Begins Visible) (line offset : Nat)
    {gs : List Line} {ls : List (Kind × Line)} (h : Spaced rs gs ls)
    (hg : ∀ g ∈ gs, ∀ c ∈ g, ¬Visible c) :
    tokensFrom line offset (ofLine rs (spread gs ls)) = placed line offset gs ls := by
  induction h generalizing offset with
  | nil g =>
    have he := tokensFrom_ofLine_append hrs line offset (hg g (by simp)) []
    rw [List.append_nil] at he
    rw [spread_nil,he,ofLine]
    rfl
  | @cons g k l gs ls hm _ ih =>
    obtain ⟨hg,hgs⟩ := List.forall_mem_cons.1 hg
    rw [spread_cons,tokensFrom_ofLine_append hrs line offset hg,ofLine_some hm,tokensFrom_some,
      List.take_left,List.drop_left,ih _ hgs,placed]

theorem length_placed (line offset : Nat) {gs : List Line} {ls : List (Kind × Line)}
    (h : Spaced rs gs ls) : (placed line offset gs ls).length = ls.length := by
  induction h generalizing offset with
  | nil g => rfl
  | cons g _ _ ih => rw [placed,List.length_cons,ih,List.length_cons]

theorem moved_placed (line : Nat) {offset offset' i : Nat} {gs gs' : List Line}
    {ls : List (Kind × Line)} (h : Spaced rs gs ls) (h' : Spaced rs gs' ls) {t u : Token}
    (ht : (placed line offset gs ls)[i]? = some t)
    (hu : (placed line offset' gs' ls)[i]? = some u) :
    t.Moved (offset + Line.bytes (gs.take (i + 1)).flatten)
      (offset' + Line.bytes (gs'.take (i + 1)).flatten) u := by
  induction h generalizing offset offset' i gs' with
  | nil g => simp [placed] at ht
  | @cons g k l gs ls _ _ ih =>
    cases h' with
    | @cons g' _ _ gs' _ _ hs' =>
      rw [placed] at ht hu
      cases i with
      | zero =>
        simp only [List.getElem?_cons_zero,Option.some.injEq] at ht hu
        subst ht hu
        refine ⟨rfl,rfl,rfl,?_,?_⟩
        · simp
          omega
        · simp
          omega
      | succ i =>
        rw [List.getElem?_cons_succ] at ht hu
        obtain ⟨hkind,hvalue,hline,hstart,hstop⟩ := ih hs' ht hu
        rw [List.take_succ_cons,List.take_succ_cons,List.flatten_cons,List.flatten_cons,
          Line.bytes_append,Line.bytes_append]
        exact ⟨hkind,hvalue,hline,by omega,by omega⟩

end Tokens

section Layout

theorem longest?_relaid (hrs : ∀ r ∈ rs, r.2.Settled) {l k k' : Line} {kind : Kind}
    (hk : Relaid k k') (hnl : '\n' ∉ l ++ k) (h : longest? rs (l ++ k) = some (kind,l.length)) :
    longest? rs (l ++ k') = some (kind,l.length) := by
  have hle : ∀ m ∈ lengths rs (l ++ k), m.2 ≤ l.length := fun m hm => List.le_of_mem_argmax hm h
  have hle' : ∀ m ∈ lengths rs (l ++ k'), m.2 ≤ l.length := by
    intro m hm
    obtain ⟨r,hr,hn⟩ := mem_lengths.1 hm
    refine hrs _ hr l k k' hk hnl (fun n hn => ?_) m.2 hn
    exact hle (m.1,n) (mem_lengths.2 ⟨r,hr,hn⟩)
  rwa [longest?,← lengths_of_append hle',lengths_of_append hle]

theorem relaid_of_replaces {g g' : Line} (h : Replaces g g') (hg : ∀ c ∈ g, Spacing c) :
    Relaid g g' := by
  by_cases hne : g = []
  · rw [hne,h.empty.2 hne]
    exact .nil
  · have hne' : g' ≠ [] := fun he => hne (h.empty.1 he)
    simpa using Relaid.spacing hne hne' hg h.spacing .nil

theorem relaid_spread {gs gs' : List Line} {ls : List (Kind × Line)} (h : Spaced rs gs ls)
    (hg : ∀ g ∈ gs, ∀ c ∈ g, Spacing c) (hr : List.Forall₂ Replaces gs gs') :
    Relaid (spread gs ls) (spread gs' ls) := by
  induction h generalizing gs' with
  | nil g =>
    obtain ⟨g',_,hgg,hnil,rfl⟩ := List.forall₂_cons_left_iff.1 hr
    rw [List.forall₂_nil_left_iff.1 hnil,spread_nil,spread_nil]
    exact relaid_of_replaces hgg (hg g (by simp))
  | @cons g k l gs ls _ _ ih =>
    obtain ⟨g',gs',hgg,hrs,rfl⟩ := List.forall₂_cons_left_iff.1 hr
    obtain ⟨hg,hgs⟩ := List.forall_mem_cons.1 hg
    exact (relaid_of_replaces hgg hg).append ((Relaid.refl l).append (ih hgs hrs))

theorem mem_spread {gs : List Line} {ls : List (Kind × Line)} (h : Spaced rs gs ls) :
    ∀ g ∈ gs, ∀ c ∈ g, c ∈ spread gs ls := by
  induction h with
  | nil g =>
    rw [spread_nil]
    exact List.forall_mem_singleton.2 fun c hc => hc
  | cons g _ _ ih =>
    rw [spread_cons]
    refine List.forall_mem_cons.2 ⟨fun c hc => List.mem_append_left _ hc,fun g' hg' c hc => ?_⟩
    exact List.mem_append_right _ (List.mem_append_right _ (ih g' hg' c hc))

theorem Spaced.replace (hrs : ∀ r ∈ rs, r.2.Settled) {gs gs' : List Line}
    {ls : List (Kind × Line)} (h : Spaced rs gs ls) (hg : ∀ g ∈ gs, ∀ c ∈ g, Spacing c)
    (hnl : '\n' ∉ spread gs ls) (hr : List.Forall₂ Replaces gs gs') : Spaced rs gs' ls := by
  induction h generalizing gs' with
  | nil g =>
    obtain ⟨g',_,-,hnil,rfl⟩ := List.forall₂_cons_left_iff.1 hr
    rw [List.forall₂_nil_left_iff.1 hnil]
    exact .nil g'
  | @cons g k l gs ls hm hs ih =>
    obtain ⟨g',gs',-,hrest,rfl⟩ := List.forall₂_cons_left_iff.1 hr
    obtain ⟨-,hgs⟩ := List.forall_mem_cons.1 hg
    rw [spread_cons] at hnl
    have hnl' : '\n' ∉ l ++ spread gs ls := fun hc => hnl (List.mem_append_right _ hc)
    have hnls : '\n' ∉ spread gs ls := fun hc => hnl' (List.mem_append_right _ hc)
    exact .cons g' (longest?_relaid hrs (relaid_spread hs hgs hrest) hnl' hm) (ih hgs hnls hrest)

end Layout

end Piece

namespace Pascal

variable {text : Line} {line : Nat}

theorem gaps_pascal (text : Line) (line : Nat) :
    Catalog.pascal.gaps text line = Piece.gapsAfter [] (Piece.ofLine lexemes text) := by
  have h := Piece.gapsFrom_tokensFrom line [] [] (Piece.ofLine lexemes text)
  rw [Piece.flatMap_text_ofLine] at h
  rw [Catalog.gaps,tokenizeLine_pascal]
  exact h

theorem relay_pascal (text : Line) (line : Nat) (gs : List Line) :
    Catalog.pascal.relay text line gs =
      Piece.spread gs (Piece.lexemes (Piece.ofLine lexemes text)) := by
  rw [Catalog.relay,tokenizeLine_pascal,Piece.values_tokensFrom,Piece.spread]

theorem not_visible_of_mem_gaps : ∀ g ∈ Catalog.pascal.gaps text line, ∀ c ∈ g, ¬Visible c := by
  rw [gaps_pascal]
  refine Piece.forall_mem_gapsAfter (by simp) fun p hp hk c hc hv => ?_
  exact hv ((isProper_of_mem_ofLine hp).blank hk c hc)

theorem relay_gaps (text : Line) (line : Nat) :
    Catalog.pascal.relay text line (Catalog.pascal.gaps text line) = text := by
  rw [relay_pascal,gaps_pascal,Piece.spread_gapsAfter,Piece.flatMap_text_ofLine,List.nil_append]

theorem tokenizeLine_spread {gs : List Line} {ls : List (Kind × Line)}
    (h : Piece.Spaced lexemes gs ls) (hg : ∀ g ∈ gs, ∀ c ∈ g, ¬Visible c) (line : Nat) :
    Catalog.pascal.tokenizeLine (Piece.spread gs ls) line = Piece.placed line 0 gs ls := by
  rw [tokenizeLine_pascal,Piece.tokensFrom_ofLine_spread begins_lexemes line 0 h hg]

theorem not_visible_of_replaces {gs gs' : List Line} (h : List.Forall₂ Replaces gs gs') :
    ∀ g ∈ gs', ∀ c ∈ g, ¬Visible c := by
  induction h with
  | nil => simp
  | cons hg _ ih =>
    exact List.forall_mem_cons.2 ⟨fun c hc hv => hv.not_spacing (hg.spacing c hc),ih⟩

end Pascal

namespace Catalog

/-- Layout has no bearing on the tokens of a line. The gaps between them are White_Space, and with
other white space in their place the tokens are the same, moved with the gaps before them. -/
theorem tokenizeLine_relay {text : Line} (hnl : '\n' ∉ text) (line : Nat) {gs : List Line}
    (h : List.Forall₂ Replaces (pascal.gaps text line) gs) :
    pascal.relay text line (pascal.gaps text line) = text ∧
      (∀ g ∈ pascal.gaps text line, ∀ c ∈ g, Unicode.isWhiteSpace c) ∧
      Line.AreMoved (pascal.gaps text line) gs (pascal.tokenizeLine text line)
        (pascal.tokenizeLine (pascal.relay text line gs) line) := by
  have hrelay := Pascal.relay_gaps text line
  have hgaps : ∀ g ∈ pascal.gaps text line, ∀ c ∈ g, ¬Visible c := Pascal.not_visible_of_mem_gaps
  have hwhite : ∀ g ∈ pascal.gaps text line, ∀ c ∈ g, Unicode.isWhiteSpace c :=
    fun g hg c hc => not_not.1 (hgaps g hg c hc)
  refine ⟨hrelay,hwhite,?_⟩
  have hspaced : Piece.Spaced Pascal.lexemes (pascal.gaps text line)
      (Piece.lexemes (Piece.ofLine Pascal.lexemes text)) := by
    rw [Pascal.gaps_pascal]
    exact Piece.spaced_ofLine [] text
  have hspread := hrelay
  rw [Pascal.relay_pascal] at hspread
  rw [Pascal.relay_pascal]
  -- from here on the text is its gaps and lexemes in turn
  generalize pascal.gaps text line = gs₀ at *
  generalize Piece.lexemes (Piece.ofLine Pascal.lexemes text) = ls at *
  have hspacing : ∀ g ∈ gs₀, ∀ c ∈ g, Spacing c := by
    refine fun g hg c hc => ⟨hwhite g hg c hc,?_⟩
    rintro rfl
    exact hnl (hspread ▸ Piece.mem_spread hspaced g hg _ hc)
  have hspaced' : Piece.Spaced Pascal.lexemes gs ls :=
    hspaced.replace Pascal.settled_lexemes hspacing (hspread ▸ hnl) h
  rw [← hspread,Pascal.tokenizeLine_spread hspaced hgaps,
    Pascal.tokenizeLine_spread hspaced' (Pascal.not_visible_of_replaces h)]
  refine ⟨?_,fun i t u ht hu => ?_⟩
  · rw [Piece.length_placed line 0 hspaced',Piece.length_placed line 0 hspaced]
  · have hmoved := Piece.moved_placed line hspaced hspaced' ht hu
    rwa [Nat.zero_add,Nat.zero_add] at hmoved

/-- An open comment and an open string stay open, however the blanks behind them look. -/
theorem tokenizeLine_relay_unclosed :
    pascal.gaps "(* 'a".toList 1 = [[],[],[' '],[],[]] ∧
      pascal.relay "(* 'a".toList 1 [[],[],['\t','\u3000'],[],[]] = "(*\t\u3000'a".toList ∧
      Line.AreMoved [[],[],[' '],[],[]] [[],[],['\t','\u3000'],[],[]]
        (pascal.tokenizeLine "(* 'a".toList 1)
        (pascal.tokenizeLine "(*\t\u3000'a".toList 1) := by
  have hts : pascal.tokenizeLine "(* 'a".toList 1 =
      [⟨.separator,"(",1,⟨0,1⟩⟩,⟨.operator,"*",1,⟨1,2⟩⟩,⟨.invalid,"'",1,⟨3,4⟩⟩,
        ⟨.identifier,"a",1,⟨4,5⟩⟩] := by
    rw [Pascal.pascal_eq_spelled]
    decide +kernel
  have hgaps : pascal.gaps "(* 'a".toList 1 = [[],[],[' '],[],[]] := by
    rw [gaps,hts]
    decide
  have hrelay : pascal.relay "(* 'a".toList 1 [[],[],['\t','\u3000'],[],[]] =
      "(*\t\u3000'a".toList := by
    rw [relay,hts]
    decide
  have hreplaces : List.Forall₂ Replaces (pascal.gaps "(* 'a".toList 1)
      [[],[],['\t','\u3000'],[],[]] := by
    rw [hgaps]
    decide
  have h := (tokenizeLine_relay (by decide) 1 hreplaces).2.2
  rw [hgaps,hrelay] at h
  exact ⟨hgaps,hrelay,h⟩

end Catalog

end PascalTokens
