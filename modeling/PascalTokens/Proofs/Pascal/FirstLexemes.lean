import PascalTokens.Proofs.Pascal.Characters

/-! The first lexeme of a line of Pascal. A token is the first lexeme of the line from its start on, so
what the line is there decides its kind and its text. -/
namespace PascalTokens.Pascal

open Pattern

/-- Is `a`, of kind `k`, the lexeme with which the line begins? -/
def IsFirst (l : Line) (k : Kind) (a : Line) : Prop :=
  ∃ n, Piece.longest? lexemes l = some (k,n) ∧ l.take n = a

variable {l a b : Line} {j k : Kind} {c : Char}

theorem exists_isFirst (l : Line) (hc : Visible c) : ∃ k a, IsFirst (c :: l) k a := by
  obtain ⟨m,hm⟩ := Option.isSome_iff_exists.1 (isSome_longest? l hc)
  exact ⟨m.1,(c :: l).take m.2,m.2,hm,rfl⟩

namespace IsFirst

theorem unique (h : IsFirst l k a) (h' : IsFirst l j b) : k = j ∧ a = b := by
  obtain ⟨m,hm,rfl⟩ := h
  obtain ⟨n,hn,rfl⟩ := h'
  rw [hm] at hn
  cases hn
  exact ⟨rfl,rfl⟩

theorem begins (h : IsFirst l k a) : a <+: l := by
  obtain ⟨n,-,rfl⟩ := h
  exact List.take_prefix n l

theorem longest?_eq (h : IsFirst l k a) : Piece.longest? lexemes l = some (k,a.length) := by
  obtain ⟨n,hn,rfl⟩ := h
  rw [hn,List.length_take_of_le (Piece.longest?_bounds hn).2]

theorem exists_length? (h : IsFirst l k a) :
    ∃ r, (k,r) ∈ lexemes ∧ r.length? l = some a.length :=
  Piece.longest?_eq_some h.longest?_eq

theorem spells (h : IsFirst l k a) {r : Pattern} (hr : r.length? l = some a.length) :
    r.Spells a := by
  obtain ⟨x,y,hxy,hx,hs⟩ := mem_ends.1 (mem_ends_of_length? hr)
  have hpre : x <+: l := ⟨y,hxy.symm⟩
  have he : x = a :=
    (List.prefix_of_prefix_length_le hpre h.begins (Nat.le_of_eq hx)).eq_of_length hx
  rwa [he] at hs

theorem opens (h : IsFirst (c :: l) k a) : opens k c := by
  obtain ⟨d,hd,ho⟩ := opens_of_longest? h.longest?_eq
  cases hd
  exact ho

theorem exists_cons (h : IsFirst l k a) :
    ∃ c b m, a = c :: b ∧ l = c :: m ∧ b <+: m ∧ Pascal.opens k c := by
  obtain ⟨c,b,rfl⟩ := List.exists_cons_of_length_pos (Piece.longest?_bounds h.longest?_eq).1
  obtain ⟨x,rfl⟩ := h.begins
  exact ⟨c,b,b ++ x,rfl,rfl,List.prefix_append b x,h.opens⟩

theorem isLongest (h : IsFirst l k a) {r : Pattern} (hr : ∀ s, (k,s) ∈ lexemes → s = r)
    (hl : r.Longest) : IsLongest r.Spells l a := by
  obtain ⟨n,hn,rfl⟩ := h
  exact isLongest_of_longest? hr hl hn

theorem length_le (h : IsFirst l k a) {r : Pattern} (hr : (j,r) ∈ lexemes) (hl : r.Longest)
    (hb : b <+: l) (hs : r.Spells b) : b.length ≤ a.length ∧ (b.length = a.length → k.rank ≤ j.rank) :=
  length_le_of_spells h.longest?_eq hr hl hb hs

theorem ne_invalid (h : IsFirst l k a) {r : Pattern} (hr : (j,r) ∈ lexemes) (hj : j ≠ .invalid)
    (hb : b <+: l) (hs : r.Spells b) : k ≠ .invalid :=
  ne_invalid_of_spells hr hj hb hs h.longest?_eq

theorem eq_singleton (h : IsFirst (c :: l) k a) (ha : a.length = 1) : a = [c] := by
  obtain ⟨d,rfl⟩ := List.length_eq_one_iff.1 ha
  rw [(List.cons_prefix_cons.1 h.begins).1]

theorem invalid (h : IsFirst (c :: l) .invalid a) (hc : c ∉ strays) : a = [c] := by
  obtain ⟨r,hr,hn⟩ := h.exists_length?
  have he : r = Pascal.invalid := by simpa [lexemes] using hr
  subst he
  exact h.eq_singleton (eq_one_of_length?_invalid hc hn)

end IsFirst

section Tokens

variable {text : Line} {line : Nat} {t : Token}

theorem exists_isFirst_of_mem (h : t ∈ Catalog.pascal.tokenizeLine text line) :
    ∃ a, IsFirst (text.after t.span.start) t.kind a ∧ t.Takes t.kind a := by
  obtain ⟨n,-,hn,ht,-⟩ := exists_takes h
  exact ⟨_,⟨n,hn,rfl⟩,ht⟩

theorem tokensFrom_ofLine (h : IsFirst (a ++ b) k a) (line offset : Nat) :
    Piece.tokensFrom line offset (Piece.ofLine lexemes (a ++ b)) =
      ⟨k,String.ofList a,line,⟨offset,offset + a.bytes⟩⟩ ::
        Piece.tokensFrom line (offset + a.bytes) (Piece.ofLine lexemes b) := by
  rw [Piece.ofLine_some h.longest?_eq,List.take_left,List.drop_left,Piece.tokensFrom_some]

theorem exists_eq_tokensFrom (h : t ∈ Catalog.pascal.tokenizeLine text line)
    (hl : text.after t.span.start = a ++ b) (hf : IsFirst (a ++ b) k a) :
    ∃ ts, Catalog.pascal.tokenizeLine text line =
      ts ++ t :: Piece.tokensFrom line t.span.stop (Piece.ofLine lexemes b) := by
  obtain ⟨n,ts,hn,-,hts⟩ := exists_takes h
  rw [hl,hf.longest?_eq] at hn
  cases hn
  rw [hl,List.drop_left] at hts
  exact ⟨ts,hts⟩

/-- A token is the first lexeme of the line from its start on. -/
theorem takes_of_isFirst (h : t ∈ Catalog.pascal.tokenizeLine text line)
    (hf : IsFirst (text.after t.span.start) k a) : t.Takes k a := by
  obtain ⟨b,hb,ht⟩ := exists_isFirst_of_mem h
  obtain ⟨rfl,rfl⟩ := hf.unique hb
  exact ht

end Tokens

end PascalTokens.Pascal
