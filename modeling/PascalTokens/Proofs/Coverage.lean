import PascalTokens.Proofs.Pascal.Characters

/-! What the tokens of a line leave out. Pieces between lexemes are White_Space, so every other
character is in one token, and the line is its tokens with White_Space between them. -/
namespace PascalTokens

/-- Does the token extend over the span? -/
def Token.covers (t : Token) (s : Span) : Bool := t.span.start ≤ s.start && s.stop ≤ t.span.stop

theorem Token.covers_iff {t : Token} {s : Span} :
    t.covers s ↔ t.span.start ≤ s.start ∧ s.stop ≤ t.span.stop := by
  simp [covers]

namespace Line

/-- What lies between spans, from `start` on up to the end of the line. -/
def gapsFrom (text : Line) : Nat → List Span → List Line
  | start, [] => [text.slice ⟨start,text.bytes⟩]
  | start, s :: ss => text.slice ⟨start,s.start⟩ :: gapsFrom text s.stop ss

/-- What lies before, between and after spans. -/
def gaps (text : Line) (ss : List Span) : List Line := gapsFrom text 0 ss

/-- Gaps and values in turn. -/
def weave : List Line → List Line → Line
  | g :: gs, v :: vs => g ++ (v ++ weave gs vs)
  | gs, [] => gs.flatten
  | [], vs => vs.flatten

/-- Do the tokens of a line lose nothing? A visible character is in exactly one token, White_Space
between the tokens completes the line, and few kinds of tokens hold White_Space themselves. -/
structure IsCovered (text : Line) (ts : List Token) : Prop where
  once : ∀ a c b, text = a ++ c :: b → Visible c →
    ts.countP (·.covers ⟨bytes a,bytes a + c.utf8Size⟩) = 1
  recovered : weave (text.gaps (ts.map (·.span))) (ts.map (·.value.toList)) = text
  blank : ∀ g ∈ text.gaps (ts.map (·.span)), ∀ c ∈ g, Unicode.isWhiteSpace c
  begins : ∀ t ∈ ts, ∃ c l, t.value.toList = c :: l ∧ Visible c
  within : ∀ t ∈ ts, t.kind ∉ Pascal.spacedKinds → ∀ c ∈ t.value.toList, Visible c

end Line

namespace Piece

def gapsAfter (g : Line) : List Piece → List Line
  | [] => [g]
  | ⟨none,l⟩ :: ps => gapsAfter (g ++ l) ps
  | ⟨some _,_⟩ :: ps => g :: gapsAfter [] ps

theorem gapsFrom_tokensFrom (line : Nat) (a g : Line) (ps : List Piece) :
    Line.gapsFrom (a ++ (g ++ ps.flatMap text)) a.bytes
        ((tokensFrom line (a.bytes + g.bytes) ps).map (·.span)) = gapsAfter g ps := by
  induction ps using pieces_induction generalizing a g with
  | nil =>
    have hs := Line.slice_append a g []
    rw [List.append_nil] at hs
    simp [Line.gapsFrom,gapsAfter,hs]
  | gap l ps ih =>
    have hi := ih a (g ++ l)
    rw [Line.bytes_append,← Nat.add_assoc,List.append_assoc] at hi
    rw [tokensFrom_none,List.flatMap_cons,gapsAfter,hi]
  | lexeme k l ps ih =>
    have hi := ih (a ++ (g ++ l)) []
    rw [Line.bytes_append,Line.bytes_append,Line.bytes_nil,Nat.add_zero,← Nat.add_assoc,
      List.append_assoc,List.append_assoc,List.nil_append] at hi
    rw [tokensFrom_some,List.flatMap_cons,gapsAfter,List.map_cons,Line.gapsFrom,hi,
      Line.slice_append]

theorem weave_gapsAfter (line offset : Nat) (g : Line) (ps : List Piece) :
    Line.weave (gapsAfter g ps) ((tokensFrom line offset ps).map (·.value.toList)) =
      g ++ ps.flatMap text := by
  induction ps using pieces_induction generalizing offset g with
  | nil => simp [gapsAfter,Line.weave]
  | gap l ps ih => rw [tokensFrom_none,gapsAfter,ih,List.flatMap_cons,List.append_assoc]
  | lexeme k l ps ih =>
    rw [tokensFrom_some,gapsAfter,List.map_cons,Line.weave,ih,List.flatMap_cons,
      String.toList_ofList,List.nil_append]

theorem forall_mem_gapsAfter {s : Char → Prop} {g : Line} {ps : List Piece} (hg : ∀ c ∈ g, s c)
    (h : ∀ p ∈ ps, p.kind? = none → ∀ c ∈ p.text, s c) :
    ∀ w ∈ gapsAfter g ps, ∀ c ∈ w, s c := by
  induction ps using pieces_induction generalizing g with
  | nil => simpa [gapsAfter] using hg
  | gap l ps ih =>
    obtain ⟨hl,hps⟩ := List.forall_mem_cons.1 h
    exact ih (List.forall_mem_append.2 ⟨hg,hl rfl⟩) hps
  | lexeme k l ps ih =>
    obtain ⟨-,hps⟩ := List.forall_mem_cons.1 h
    exact List.forall_mem_cons.2 ⟨hg,ih (by simp) hps⟩

theorem offset_le_start (line offset : Nat) (ps : List Piece) :
    ∀ t ∈ tokensFrom line offset ps, offset ≤ t.span.start := by
  induction ps using pieces_induction generalizing offset with
  | nil => simp
  | gap l ps ih => exact fun t ht => Nat.le_of_add_right_le (ih _ t ht)
  | lexeme k l ps ih =>
    refine List.forall_mem_cons.2 ⟨Nat.le_refl _,?_⟩
    exact fun t ht => Nat.le_of_add_right_le (ih _ t ht)

theorem append_eq_append_cons {l m a b : Line} {c : Char} (h : l ++ m = a ++ c :: b) :
    (∃ a', a = l ++ a' ∧ m = a' ++ c :: b) ∨ ∃ k, l = a ++ c :: k := by
  rcases List.append_eq_append_iff.1 h with h | ⟨k,hl,hk⟩
  · exact .inl h
  · cases k with
    | nil => exact .inl ⟨[],by simpa using hl.symm,hk.symm⟩
    | cons d k =>
      obtain ⟨rfl,-⟩ := List.cons.inj hk
      exact .inr ⟨k,hl⟩

theorem countP_covers (line offset : Nat) {ps : List Piece} {a b : Line} {c : Char}
    (h : ∀ p ∈ ps, p.kind? = none → c ∉ p.text) (e : ps.flatMap text = a ++ c :: b) :
    (tokensFrom line offset ps).countP
      (·.covers ⟨offset + a.bytes,offset + a.bytes + c.utf8Size⟩) = 1 := by
  have hc := c.utf8Size_pos
  induction ps using pieces_induction generalizing offset a with
  | nil => simp at e
  | gap l ps ih =>
    obtain ⟨hl,hps⟩ := List.forall_mem_cons.1 h
    rcases append_eq_append_cons e with ⟨a',rfl,e'⟩ | ⟨m,hm⟩
    · have hi := ih (offset + Line.bytes l) hps e'
      rwa [Nat.add_assoc offset,← Line.bytes_append] at hi
    · have hcl : l = a ++ c :: m := hm
      exact absurd (by simp [hcl]) (hl rfl)
  | lexeme k l ps ih =>
    obtain ⟨-,hps⟩ := List.forall_mem_cons.1 h
    rcases append_eq_append_cons e with ⟨a',rfl,e'⟩ | ⟨m,hm⟩
    · -- The first token ends before the character.
      have hi := ih (offset + Line.bytes l) hps e'
      rw [Nat.add_assoc offset,← Line.bytes_append] at hi
      rw [tokensFrom_some,List.countP_cons_of_neg,hi]
      simp only [Token.covers_iff,Line.bytes_append]
      omega
    · -- The first token covers the character, and all others start after it.
      have hcl : l = a ++ c :: m := hm
      have hbytes : Line.bytes l = Line.bytes a + (c.utf8Size + Line.bytes m) := by
        rw [hcl,Line.bytes_append,Line.bytes_cons]
      have htail : (tokensFrom line (offset + Line.bytes l) ps).countP
          (·.covers ⟨offset + a.bytes,offset + a.bytes + c.utf8Size⟩) = 0 := by
        refine List.countP_eq_zero.2 fun t ht => ?_
        have := offset_le_start line _ ps t ht
        simp only [Token.covers_iff]
        omega
      rw [tokensFrom_some,List.countP_cons_of_pos,htail]
      simp only [Token.covers_iff]
      omega

end Piece

namespace Catalog

theorem countP_covers_tokenizeLine {text a b : Line} {c : Char} (line : Nat) (e : text = a ++ c :: b)
    (hc : Visible c) :
    (pascal.tokenizeLine text line).countP (·.covers ⟨a.bytes,a.bytes + c.utf8Size⟩) = 1 := by
  have hn : ∀ p ∈ Piece.ofLine Pascal.lexemes text, p.kind? = none → c ∉ p.text :=
    fun p hp hk hm => hc ((Pascal.isProper_of_mem_ofLine hp).blank hk c hm)
  have h := Piece.countP_covers line 0 hn ((Piece.flatMap_text_ofLine text).trans e)
  rwa [Nat.zero_add,← Pascal.tokenizeLine_pascal] at h

/-- The tokens of a line of Pascal lose nothing of it. -/
theorem isCovered_tokenizeLine (text : Line) (line : Nat) :
    text.IsCovered (pascal.tokenizeLine text line) := by
  have hproper : ∀ p ∈ Piece.ofLine Pascal.lexemes text, Pascal.IsProper p :=
    fun p hp => Pascal.isProper_of_mem_ofLine hp
  have hgaps : text.gaps ((pascal.tokenizeLine text line).map (·.span)) =
      Piece.gapsAfter [] (Piece.ofLine Pascal.lexemes text) := by
    have h := Piece.gapsFrom_tokensFrom line [] [] (Piece.ofLine Pascal.lexemes text)
    rw [Piece.flatMap_text_ofLine] at h
    rw [Pascal.tokenizeLine_pascal]
    exact h
  have hlexeme : ∀ t ∈ pascal.tokenizeLine text line,
      ∃ p, Pascal.IsProper p ∧ p.kind? = some t.kind ∧ t.value.toList = p.text := by
    intro t ht
    rw [Pascal.tokenizeLine_pascal] at ht
    obtain ⟨p,hp,k,n,hk,rfl⟩ := Piece.exists_of_mem_tokensFrom ht
    exact ⟨p,hproper p hp,hk,String.toList_ofList⟩
  refine ⟨?_,?_,?_,?_,?_⟩
  · exact fun a c b e hc => countP_covers_tokenizeLine line e hc
  · rw [hgaps,Pascal.tokenizeLine_pascal,Piece.weave_gapsAfter,Piece.flatMap_text_ofLine,
      List.nil_append]
  · rw [hgaps]
    exact Piece.forall_mem_gapsAfter (by simp) fun p hp => (hproper p hp).blank
  · intro t ht
    obtain ⟨p,hp,hk,hv⟩ := hlexeme t ht
    rw [hv]
    exact hp.begins t.kind hk
  · intro t ht hs
    obtain ⟨p,hp,hk,hv⟩ := hlexeme t ht
    rw [hv]
    exact hp.within t.kind hk hs

/-- A comment and a string that do not end fall into shorter tokens. -/
theorem isCovered_tokenizeLine_unclosed :
    (pascal.tokenizeLine "\x7bé 'x".toList 1).countP (·.covers ⟨1,3⟩) = 1 ∧
      Line.weave [[],[],[' '],[],[]] ["\x7b".toList,"é".toList,"'".toList,"x".toList] =
        "\x7bé 'x".toList := by
  have hc := isCovered_tokenizeLine "\x7bé 'x".toList 1
  have hts : pascal.tokenizeLine "\x7bé 'x".toList 1 =
      [⟨.separator,"\x7b",1,⟨0,1⟩⟩,⟨.invalid,"é",1,⟨1,3⟩⟩,⟨.invalid,"'",1,⟨4,5⟩⟩,
        ⟨.identifier,"x",1,⟨5,6⟩⟩] := by
    rw [Pascal.pascal_eq_spelled]
    decide +kernel
  have hr := hc.recovered
  rw [hts] at hr
  exact ⟨hc.once ['{'] 'é' " 'x".toList (by decide) (by decide),hr⟩

end Catalog
end PascalTokens
