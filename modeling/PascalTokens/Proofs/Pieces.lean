import PascalTokens.Proofs.OnePass
import PascalTokens.Proofs.Pattern.Prefixes

/-! Lines in pieces. A scanner whose definitions are patterns looks at no more than the text ahead,
so it cuts a line into pieces with no regard to where they stand: lexemes, and characters between
them. The tokens are the lexemes with their places. -/
namespace PascalTokens

/-- Is the token of the kind, and is `a` its text, to the end of its span? -/
structure Token.Takes (t : Token) (k : Kind) (a : Line) : Prop where
  kind : t.kind = k
  value : t.value = String.ofList a
  stop : t.span.stop = t.span.start + a.bytes

/-- A lexeme, or with no kind a character that belongs to none. -/
structure Piece where
  kind? : Option Kind
  text : Line

namespace Piece

variable {rs : List (Kind × Pattern)}

def definitions (rs : List (Kind × Pattern)) : List Definition :=
  rs.map fun r => ⟨r.1,r.2.matcher⟩

/-- The matches with which a text begins and that are not empty. -/
def lengths (rs : List (Kind × Pattern)) (l : Line) : List (Kind × Nat) :=
  rs.filterMap fun r => (r.2.length? l).map (r.1,·)

def longest? (rs : List (Kind × Pattern)) (l : Line) : Option (Kind × Nat) :=
  (lengths rs l).argmax (·.2)

theorem mem_lengths {l : Line} {k : Kind} {n : Nat} :
    (k,n) ∈ lengths rs l ↔ ∃ r, (k,r) ∈ rs ∧ r.length? l = some n := by
  simp only [lengths,List.mem_filterMap,Option.map_eq_some_iff,Prod.mk.injEq,Prod.exists]
  constructor
  · rintro ⟨k',r,hr,n',hn,rfl,rfl⟩
    exact ⟨r,hr,hn⟩
  · rintro ⟨r,hr,hn⟩
    exact ⟨k,r,hr,n,hn,rfl,rfl⟩

theorem longest?_eq_some {l : Line} {k : Kind} {n : Nat} (h : longest? rs l = some (k,n)) :
    ∃ r, (k,r) ∈ rs ∧ r.length? l = some n :=
  mem_lengths.1 (List.argmax_mem h)

theorem longest?_bounds {l : Line} {k : Kind} {n : Nat} (h : longest? rs l = some (k,n)) :
    0 < n ∧ n ≤ l.length := by
  obtain ⟨r,-,hn⟩ := longest?_eq_some h
  exact Pattern.length?_bounds hn

theorem le_of_longest? (hr : rs.Pairwise fun r s => r.1.rank ≤ s.1.rank) {l : Line} {j k : Kind}
    {m n : Nat} (h : longest? rs l = some (k,n)) (hm : (j,m) ∈ lengths rs l) :
    m ≤ n ∧ (m = n → k.rank ≤ j.rank) := by
  have hp : (lengths rs l).Pairwise fun a b => a.1.rank ≤ b.1.rank := by
    refine List.Pairwise.filterMap _ ?_ hr
    intro r s hrs a ha b hb
    obtain ⟨i,-,rfl⟩ := Option.map_eq_some_iff.1 ha
    obtain ⟨i',-,rfl⟩ := Option.map_eq_some_iff.1 hb
    exact hrs
  refine ⟨List.le_of_mem_argmax hm h,fun he => ?_⟩
  rcases Scanner.rel_of_mem_argmax hp h hm he with hjk | hjk
  · cases hjk
    exact Nat.le_refl _
  · exact hjk

def ofLine (rs : List (Kind × Pattern)) : Line → List Piece
  | [] => []
  | c :: l =>
    match _h : longest? rs (c :: l) with
    | none => ⟨none,[c]⟩ :: ofLine rs l
    | some (k,n) => ⟨some k,(c :: l).take n⟩ :: ofLine rs ((c :: l).drop n)
  termination_by l => l.length
  decreasing_by
    · simp
    · have := longest?_bounds _h
      simp
      omega

theorem ofLine_none {c : Char} {l : Line} (h : longest? rs (c :: l) = none) :
    ofLine rs (c :: l) = ⟨none,[c]⟩ :: ofLine rs l := by
  rw [ofLine]
  split
  · rfl
  · rename_i h'
    rw [h] at h'
    cases h'

theorem ofLine_some {l : Line} {k : Kind} {n : Nat} (h : longest? rs l = some (k,n)) :
    ofLine rs l = ⟨some k,l.take n⟩ :: ofLine rs (l.drop n) := by
  cases l with
  | nil =>
    have := longest?_bounds h
    simp at this
    omega
  | cons c l =>
    rw [ofLine]
    split
    · rename_i h'
      rw [h] at h'
      cases h'
    · rename_i h'
      rw [h] at h'
      cases h'
      rfl

/-- What holds of the empty line, and of a line where it holds of what follows the first piece,
holds of every line. -/
theorem line_induction (rs : List (Kind × Pattern)) {motive : Line → Prop} (nil : motive [])
    (gap : ∀ c l, longest? rs (c :: l) = none → motive l → motive (c :: l))
    (lexeme : ∀ l k n, longest? rs l = some (k,n) → motive (l.drop n) → motive l)
    (l : Line) : motive l := by
  induction hn : l.length using Nat.strong_induction_on generalizing l with
  | _ n ih =>
    subst hn
    cases l with
    | nil => exact nil
    | cons c l =>
      cases h : longest? rs (c :: l) with
      | none => exact gap c l h (ih l.length (by simp) l rfl)
      | some m =>
        obtain ⟨k,n⟩ := m
        have hb := longest?_bounds h
        refine lexeme (c :: l) k n h (ih _ ?_ _ rfl)
        simp
        omega

@[simp] theorem flatMap_text_ofLine (l : Line) : (ofLine rs l).flatMap text = l := by
  induction l using line_induction rs with
  | nil => simp [ofLine]
  | gap c l h ih => rw [ofLine_none h,List.flatMap_cons,ih]; rfl
  | lexeme l k n h ih =>
    rw [ofLine_some h,List.flatMap_cons,ih]
    exact List.take_append_drop n l

def tokensFrom (line : Nat) : Nat → List Piece → List Token
  | _, [] => []
  | offset, p :: ps =>
    (p.kind?.map fun k =>
      (⟨k,String.ofList p.text,line,⟨offset,offset + p.text.bytes⟩⟩ : Token)).toList ++
      tokensFrom line (offset + p.text.bytes) ps

@[simp] theorem tokensFrom_nil (line offset : Nat) : tokensFrom line offset [] = [] := rfl

@[simp] theorem tokensFrom_none (line offset : Nat) (l : Line) (ps : List Piece) :
    tokensFrom line offset (⟨none,l⟩ :: ps) = tokensFrom line (offset + l.bytes) ps := rfl

@[simp] theorem tokensFrom_some (line offset : Nat) (k : Kind) (l : Line) (ps : List Piece) :
    tokensFrom line offset (⟨some k,l⟩ :: ps) =
      ⟨k,String.ofList l,line,⟨offset,offset + l.bytes⟩⟩ ::
        tokensFrom line (offset + l.bytes) ps := rfl

theorem pieces_induction {motive : List Piece → Prop} (nil : motive [])
    (gap : ∀ l ps, motive ps → motive (⟨none,l⟩ :: ps))
    (lexeme : ∀ k l ps, motive ps → motive (⟨some k,l⟩ :: ps)) (ps : List Piece) : motive ps := by
  induction ps with
  | nil => exact nil
  | cons p ps ih =>
    obtain ⟨kind?,l⟩ := p
    cases kind? with
    | none => exact gap l ps ih
    | some k => exact lexeme k l ps ih

theorem exists_of_mem_tokensFrom {line offset : Nat} {ps : List Piece} {t : Token}
    (h : t ∈ tokensFrom line offset ps) :
    ∃ p ∈ ps, ∃ k n, p.kind? = some k ∧
      t = ⟨k,String.ofList p.text,line,⟨n,n + p.text.bytes⟩⟩ := by
  induction ps using pieces_induction generalizing offset with
  | nil => cases h
  | gap l ps ih =>
    obtain ⟨q,hq,hk⟩ := ih h
    exact ⟨q,List.mem_cons_of_mem _ hq,hk⟩
  | lexeme k l ps ih =>
    rw [tokensFrom_some] at h
    rcases List.mem_cons.1 h with rfl | h
    · exact ⟨_,List.mem_cons_self,k,offset,rfl,rfl⟩
    · obtain ⟨q,hq,hk⟩ := ih h
      exact ⟨q,List.mem_cons_of_mem _ hq,hk⟩

/-- A token of a line is the longest match where it starts, and what follows its text makes the tokens
after it. -/
theorem exists_tokensFrom_append {line offset : Nat} {l : Line} {t : Token}
    (h : t ∈ tokensFrom line offset (ofLine rs l)) :
    ∃ a b n ts, l = a ++ b ∧ t.span.start = offset + Line.bytes a ∧
      longest? rs b = some (t.kind,n) ∧ t.Takes t.kind (b.take n) ∧
      tokensFrom line offset (ofLine rs l) =
        ts ++ t :: tokensFrom line t.span.stop (ofLine rs (b.drop n)) := by
  induction l using line_induction rs generalizing offset with
  | nil =>
    rw [ofLine] at h
    cases h
  | gap c l hn ih =>
    rw [ofLine_none hn,tokensFrom_none] at h ⊢
    obtain ⟨a,b,n,ts,rfl,hs,hb,ht,hts⟩ := ih h
    refine ⟨c :: a,b,n,ts,rfl,?_,hb,ht,hts⟩
    rw [hs,Line.bytes_cons,Line.bytes_cons,Line.bytes_nil]
    omega
  | lexeme l k n hk ih =>
    rw [ofLine_some hk,tokensFrom_some] at h ⊢
    rcases List.mem_cons.1 h with rfl | h
    · exact ⟨[],l,n,[],rfl,rfl,hk,⟨rfl,rfl,rfl⟩,rfl⟩
    · obtain ⟨a,b,m,ts,hl,hs,hb,ht,hts⟩ := ih h
      refine ⟨l.take n ++ a,b,m,_ :: ts,?_,?_,hb,ht,congrArg (List.cons _) hts⟩
      · rw [List.append_assoc,← hl,List.take_append_drop]
      · rw [hs,Line.bytes_append]
        omega

theorem pick_definitions (rs : List (Kind × Pattern)) (p : Place) :
    Scanner.pick (definitions rs) p =
      (longest? rs p.rest).map fun m => (m.1,p.skip m.2) := by
  have hm : Scanner.matchesAt (definitions rs) p =
      (lengths rs p.rest).map fun m => (m.1,p.skip m.2) := by
    rw [Scanner.matchesAt,definitions,List.filterMap_map,lengths,List.map_filterMap]
    refine List.filterMap_congr fun r _ => ?_
    rw [Function.comp_apply,Pattern.nonemptyEnd?_matcher,Option.map_map,Option.map_map]
    rfl
  have hlt : ∀ m ∈ lengths rs p.rest, ∀ n ∈ lengths rs p.rest,
      (p.skip m.2).offset < (p.skip n.2).offset ↔ m.2 < n.2 := by
    rintro ⟨j,m⟩ hj ⟨k,n⟩ hk
    obtain ⟨r,-,hr⟩ := mem_lengths.1 hj
    obtain ⟨s,-,hs⟩ := mem_lengths.1 hk
    exact Place.offset_skip_lt_iff (Pattern.length?_bounds hr).2 (Pattern.length?_bounds hs).2
  rw [Scanner.pick,hm,Scanner.argmax_map,longest?]
  exact congrArg _ (Scanner.argmax_congr hlt)

theorem scanFrom_definitions (rs : List (Kind × Pattern)) (line : Nat) (p : Place) :
    Scanner.scanFrom (definitions rs) line p = tokensFrom line p.offset (ofLine rs p.rest) := by
  induction p using Scanner.cursor_induction (definitions rs) with
  | nil p e =>
    rw [Scanner.scanFrom_nil _ line e,e,ofLine]
    rfl
  | past p c l e hn ih =>
    rw [pick_definitions,e,Option.map_eq_none_iff] at hn
    have hp : Scanner.pick (definitions rs) p = none := by
      rw [pick_definitions,e,hn]
      rfl
    rw [Scanner.scanFrom_past line e hp,ih,e,ofLine_none hn,tokensFrom_none,Place.past_rest,
      Place.past_offset]
    simp
  | pick p k q hp ih =>
    have hq := hp
    rw [pick_definitions] at hq
    obtain ⟨⟨k',n⟩,hn,he⟩ := Option.map_eq_some_iff.1 hq
    cases he
    rw [Scanner.scanFrom_pick line hp,ih,ofLine_some hn,tokensFrom_some,Place.textTo_skip,
      Place.rest_skip,Place.offset_skip]

end Piece
end PascalTokens
