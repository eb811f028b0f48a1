import PascalTokens.Proofs.Pascal.Letters
import PascalTokens.Proofs.Pascal.Lexemes
import PascalTokens.Proofs.Streams

/-! Lines cut in two. Where no token stands across the cut, the tokens of a line are those of its two
parts: no lexeme of Pascal depends on what stands before it or after it. -/
namespace PascalTokens

/-- The token as it stands `n` bytes further on. -/
def Token.shift (t : Token) (n : Nat) : Token :=
  { t with span := ⟨t.span.start + n,t.span.stop + n⟩ }

/-- Does the token stand on both sides of the offset? -/
def Token.Crosses (t : Token) (n : Nat) : Prop := t.span.start < n ∧ n < t.span.stop

instance (t : Token) (n : Nat) : Decidable (t.Crosses n) :=
  inferInstanceAs (Decidable (t.span.start < n ∧ n < t.span.stop))

namespace Piece

variable {rs : List (Kind × Pattern)}

/-- If no match goes beyond a part of a text, the part has the same matches. -/
theorem lengths_of_append {l k : Line} (h : ∀ m ∈ lengths rs (l ++ k), m.2 ≤ l.length) :
    lengths rs l = lengths rs (l ++ k) := by
  refine List.filterMap_congr fun r hr => ?_
  rw [Pattern.length?_of_append]
  intro n hn
  exact h (r.1,n) (mem_lengths.2 ⟨r.2,hr,hn⟩)

theorem longest?_of_append_none {l k : Line} (h : longest? rs (l ++ k) = none) :
    longest? rs l = none := by
  have hn : lengths rs (l ++ k) = [] := List.argmax_eq_none.1 h
  rw [longest?,lengths_of_append (k := k) (by simp [hn]),hn]
  rfl

theorem longest?_of_append_some {l k : Line} {m : Kind × Nat}
    (h : longest? rs (l ++ k) = some m) (hm : m.2 ≤ l.length) : longest? rs l = some m := by
  have hl : lengths rs l = lengths rs (l ++ k) :=
    lengths_of_append fun n hn => (List.le_of_mem_argmax hn h).trans hm
  rw [longest?,hl]
  exact h

theorem tokensFrom_append (line offset : Nat) (ps qs : List Piece) :
    tokensFrom line offset (ps ++ qs) =
      tokensFrom line offset ps ++
        tokensFrom line (offset + Line.bytes (ps.flatMap text)) qs := by
  induction ps using pieces_induction generalizing offset with
  | nil => simp
  | gap l ps ih => simp [ih,Nat.add_assoc]
  | lexeme k l ps ih => simp [ih,Nat.add_assoc]

theorem tokensFrom_shift (line offset n : Nat) (ps : List Piece) :
    tokensFrom line (offset + n) ps = (tokensFrom line offset ps).map (·.shift n) := by
  induction ps using pieces_induction generalizing offset with
  | nil => rfl
  | gap l ps ih => rw [tokensFrom_none,tokensFrom_none,Nat.add_right_comm,ih]
  | lexeme k l ps ih =>
    rw [tokensFrom_some,tokensFrom_some,Nat.add_right_comm,ih]
    rfl

/-- Where no token stands across the end of a text, the text falls into pieces as it does alone. -/
theorem ofLine_append (line offset : Nat) (l k : Line)
    (h : ∀ t ∈ tokensFrom line offset (ofLine rs (l ++ k)), ¬t.Crosses (offset + l.bytes)) :
    ofLine rs (l ++ k) = ofLine rs l ++ ofLine rs k := by
  generalize e : l ++ k = t at h ⊢
  induction t using line_induction rs generalizing l offset with
  | nil =>
    obtain ⟨rfl,rfl⟩ := List.append_eq_nil_iff.1 e
    rw [ofLine]
    rfl
  | gap c t hm ih =>
    cases l with
    | nil => rw [← e]; simp [ofLine]
    | cons d l =>
      rw [List.cons_append] at e
      obtain ⟨rfl,rfl⟩ := List.cons.inj e
      have hl : longest? rs (d :: l) = none := longest?_of_append_none (k := k) hm
      rw [ofLine_none hm] at h
      have hrest : ofLine rs (l ++ k) = ofLine rs l ++ ofLine rs k := by
        apply ih (offset + d.utf8Size) l rfl
        intro t ht
        have ht' := h t (by simpa using ht)
        rwa [Line.bytes_cons,← Nat.add_assoc] at ht'
      rw [ofLine_none hm,ofLine_none hl,hrest,List.cons_append]
  | lexeme t kind n hm ih =>
    have hb := longest?_bounds hm
    cases l with
    | nil => rw [← e]; simp [ofLine]
    | cons d l =>
      have hpos : 0 < Line.bytes (d :: l) := Line.bytes_pos (by simp)
      generalize d :: l = l at e h hpos ⊢
      subst e
      by_cases hle : n ≤ l.length
      · have hl : longest? rs l = some (kind,n) := longest?_of_append_some hm hle
        have hbytes : Line.bytes l = Line.bytes (l.take n) + Line.bytes (l.drop n) := by
          rw [← Line.bytes_append,List.take_append_drop]
        have htake : (l ++ k).take n = l.take n := List.take_append_of_le_length hle
        have hdrop : (l ++ k).drop n = l.drop n ++ k := List.drop_append_of_le_length hle
        rw [ofLine_some hm,htake,hdrop,tokensFrom_some] at h
        have hrest : ofLine rs (l.drop n ++ k) = ofLine rs (l.drop n) ++ ofLine rs k := by
          rw [hdrop] at ih
          apply ih (offset + Line.bytes (l.take n)) (l.drop n) rfl
          intro t ht
          have ht' := h t (List.mem_cons_of_mem _ ht)
          rwa [hbytes,← Nat.add_assoc] at ht'
        rw [ofLine_some hm,ofLine_some hl,htake,hdrop,hrest,List.cons_append]
      · -- The lexeme would stand across the end of the text.
        have hlt : Line.bytes l < Line.bytes ((l ++ k).take n) :=
          Line.bytes_lt_bytes_take (by omega) hb.2
        rw [ofLine_some hm,tokensFrom_some] at h
        refine absurd ⟨?_,?_⟩ (h _ List.mem_cons_self)
        · show offset < offset + Line.bytes l
          omega
        · show offset + Line.bytes l < offset + Line.bytes ((l ++ k).take n)
          omega

theorem ofLine_lexeme {l : Line} {p : Piece} (h : p ∈ ofLine rs l) (hk : p.kind?.isSome) :
    ofLine rs p.text = [p] := by
  induction l using line_induction rs with
  | nil => simp [ofLine] at h
  | gap c l hn ih =>
    rw [ofLine_none hn] at h
    rcases List.mem_cons.1 h with rfl | h
    · cases hk
    · exact ih h
  | lexeme l k n hm ih =>
    rw [ofLine_some hm] at h
    rcases List.mem_cons.1 h with rfl | h
    · have hlen : (l.take n).length = n := by
        rw [List.length_take]
        exact Nat.min_eq_left (longest?_bounds hm).2
      have hl : longest? rs (l.take n) = some (k,n) := by
        refine longest?_of_append_some (k := l.drop n) ?_ hlen.symm.le
        rw [List.take_append_drop]
        exact hm
      have hd : (l.take n).drop n = [] := by simp
      rw [ofLine_some hl,List.take_of_length_le hlen.le,hd,ofLine]
    · exact ih h

end Piece

namespace Catalog

/-- Are the tokens of a line those of the parts before and after an offset, each in its place? -/
def CutsAt (c : Catalog) (text : Line) (line n : Nat) : Prop :=
  c.tokenizeLine text line =
    c.tokenizeLine (text.before n) line ++ (c.tokenizeLine (text.after n) line).map (·.shift n)

theorem not_crosses_ends {c : Catalog} {text : Line} {line : Nat} {s t : Token}
    (hs : s ∈ c.tokenizeLine text line) (ht : t ∈ c.tokenizeLine text line) :
    ¬s.Crosses t.span.start ∧ ¬s.Crosses t.span.stop := by
  have hpos : ∀ u ∈ c.tokenizeLine text line, u.span.start < u.span.stop :=
    fun u hu => (isPart_of_mem_tokenizeLine hu).start_lt_stop
  have hpair := c.pairwise_tokenizeLine text line
  refine List.Pairwise.forall_of_forall_of_flip
    (R := fun s t => ¬s.Crosses t.span.start ∧ ¬s.Crosses t.span.stop) ?_ ?_ ?_ hs ht
  · intro u hu
    exact ⟨fun h => Nat.lt_irrefl _ h.1,fun h => Nat.lt_irrefl _ h.2⟩
  · refine hpair.imp_of_mem fun {u v} hu hv h => ?_
    have := hpos v hv
    unfold Token.Crosses
    omega
  · refine hpair.imp_of_mem fun {u v} hu hv h => ?_
    have := hpos u hu
    unfold flip Token.Crosses
    omega

theorem cutsAt_pascal {text : Line} {line n : Nat} (hn : text.isBoundary n)
    (h : ∀ t ∈ pascal.tokenizeLine text line, ¬t.Crosses n) : pascal.CutsAt text line n := by
  obtain ⟨a,b,rfl,rfl⟩ := Line.isBoundary_iff.1 hn
  rw [Pascal.tokenizeLine_pascal] at h
  have hpieces : Piece.ofLine Pascal.lexemes (a ++ b) =
      Piece.ofLine Pascal.lexemes a ++ Piece.ofLine Pascal.lexemes b := by
    apply Piece.ofLine_append line 0 a b
    rwa [Nat.zero_add]
  have hlater : Piece.tokensFrom line (0 + Line.bytes a) (Piece.ofLine Pascal.lexemes b) =
      (Piece.tokensFrom line 0 (Piece.ofLine Pascal.lexemes b)).map (·.shift (Line.bytes a)) :=
    Piece.tokensFrom_shift line 0 (Line.bytes a) _
  rw [CutsAt,Line.before_bytes_append,Line.after_bytes_append,Pascal.tokenizeLine_pascal,
    Pascal.tokenizeLine_pascal,Pascal.tokenizeLine_pascal,hpieces,Piece.tokensFrom_append,
    Piece.flatMap_text_ofLine,hlater]

theorem CutsAt.filter {c : Catalog} {text : Line} {line n : Nat} (h : c.CutsAt text line n)
    (hn : text.isBoundary n) :
    (c.tokenizeLine text line).filter (n ≤ ·.span.start) =
      (c.tokenizeLine (text.after n) line).map (·.shift n) := by
  have hbefore : ∀ t ∈ c.tokenizeLine (text.before n) line, ¬n ≤ t.span.start := by
    intro t ht
    have hpart := isPart_of_mem_tokenizeLine ht
    have hfits := hpart.fits
    simp only [Line.fits,Bool.and_eq_true] at hfits
    have hle := Line.le_bytes_of_isBoundary hfits.2
    rw [Line.bytes_before hn] at hle
    have := hpart.start_lt_stop
    omega
  have hafter : ∀ t ∈ (c.tokenizeLine (text.after n) line).map (·.shift n), n ≤ t.span.start := by
    intro t ht
    obtain ⟨s,-,rfl⟩ := List.mem_map.1 ht
    exact Nat.le_add_left _ _
  rw [h,List.filter_append,List.filter_eq_nil_iff.2 (by simpa using hbefore),
    List.filter_eq_self.2 (by simpa using hafter),List.nil_append]

/-- A line may be cut wherever no token stands across, as at both ends of each token. What a token
holds has no bearing on the tokens after it, and its text alone makes the token. -/
theorem tokenizeLine_cut (text : Line) (line : Nat) :
    (∀ n, text.isBoundary n → (∀ t ∈ pascal.tokenizeLine text line, ¬t.Crosses n) →
      pascal.CutsAt text line n) ∧
    ∀ t ∈ pascal.tokenizeLine text line,
      pascal.CutsAt text line t.span.start ∧ pascal.CutsAt text line t.span.stop ∧
      (pascal.tokenizeLine text line).filter (t.span.stop ≤ ·.span.start) =
        (pascal.tokenizeLine (text.after t.span.stop) line).map (·.shift t.span.stop) ∧
      pascal.tokenizeLine t.value.toList line = [{ t with span := ⟨0,t.length⟩ }] := by
  refine ⟨fun n => cutsAt_pascal,fun t ht => ?_⟩
  have hfits := (isPart_of_mem_tokenizeLine ht).fits
  simp only [Line.fits,Bool.and_eq_true] at hfits
  have hstart := cutsAt_pascal hfits.1.2 fun s hs => (not_crosses_ends hs ht).1
  have hstop := cutsAt_pascal hfits.2 fun s hs => (not_crosses_ends hs ht).2
  refine ⟨hstart,hstop,hstop.filter hfits.2,?_⟩
  rw [Pascal.tokenizeLine_pascal] at ht
  obtain ⟨p,hp,k,n,hk,rfl⟩ := Piece.exists_of_mem_tokensFrom ht
  have he : p = ⟨some k,p.text⟩ := by rw [← hk]
  rw [String.toList_ofList,Pascal.tokenizeLine_pascal,Piece.ofLine_lexeme hp (by rw [hk]; rfl),he,
    Piece.tokensFrom_some,Piece.tokensFrom_nil,Token.length,Nat.add_sub_cancel_left,Nat.zero_add]

/-- Neither the brace in the text nor the quote in the comment has a bearing on what follows. -/
theorem tokenizeLine_cut_quotes :
    pascal.CutsAt "'\x7b'é\x7b'\x7d".toList 1 5 ∧
      pascal.tokenizeLine "\x7b'\x7d".toList 1 = [⟨.comment,"\x7b'\x7d",1,⟨0,3⟩⟩] := by
  have hts : pascal.tokenizeLine "'\x7b'é\x7b'\x7d".toList 1 =
      [⟨.stringOrCharacter,"'\x7b'",1,⟨0,3⟩⟩,⟨.invalid,"é",1,⟨3,5⟩⟩,
        ⟨.comment,"\x7b'\x7d",1,⟨5,8⟩⟩] := by
    rw [Pascal.pascal_eq_spelled]
    decide +kernel
  have hcut := tokenizeLine_cut "'\x7b'é\x7b'\x7d".toList 1
  rw [hts] at hcut
  refine ⟨hcut.1 5 (by decide) (by decide),?_⟩
  exact (hcut.2 ⟨.comment,"\x7b'\x7d",1,⟨5,8⟩⟩ (by simp)).2.2.2

end Catalog
end PascalTokens
