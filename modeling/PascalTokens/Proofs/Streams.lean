import PascalTokens.Proofs.OnePass
import PascalTokens.Source

/-! Streams of tokens. Whatever the catalog, the winners of every line fit the line, so no token is
ever refused; and a stream's tokens are parts of its lines, in ascending order and apart. -/
namespace PascalTokens

namespace Resolution

theorem tokensAfter?_eq_some {text : Line} {line : Nat} {claimed : Option Nat} {gs : List Group}
    (h : ∀ c ∈ winnersAfter claimed gs, text.fits c.span) :
    tokensAfter? text line claimed gs =
      some ((winnersAfter claimed gs).map (·.token text line)) := by
  induction gs generalizing claimed with
  | nil => rfl
  | cons g gs ih =>
    rw [winnersAfter_cons,Decision.claims] at h ⊢
    rw [tokensAfter?]
    cases hw : (decision claimed g).winner with
    | none =>
      rw [hw] at h
      exact ih h
    | some c =>
      rw [hw] at h
      have hc : c.token? text line = some (c.token text line) :=
        if_pos (h c (List.mem_append_left _ (by simp)))
      have ht : tokensAfter? text line (some c.span.stop) gs =
          some ((winnersAfter (some c.span.stop) gs).map (·.token text line)) :=
        ih fun d hd => h d (List.mem_append_right _ hd)
      simp only [hc,ht]
      rfl

theorem tokens?_eq_some {text : Line} {cs : List Candidate} (line : Nat)
    (h : ∀ c ∈ winners cs, text.fits c.span) :
    tokens? text line cs = some (tokens text line cs) :=
  tokensAfter?_eq_some h

end Resolution

namespace Scanner

theorem offset_le_start (ds : List Definition) (line : Nat) (p : Place) :
    ∀ t ∈ scanFrom ds line p, p.offset ≤ t.span.start := by
  induction p using cursor_induction ds with
  | nil p e => simp [scanFrom_nil ds line e]
  | past p c l e hn ih =>
    rw [scanFrom_past line e hn]
    intro t ht
    have := ih t ht
    rw [Place.past_offset] at this
    omega
  | pick p k q hp ih =>
    have hlt := (reaches_of_pick hp).2
    rw [scanFrom_pick line hp]
    intro t ht
    rcases List.mem_cons.1 ht with rfl | ht
    · exact Nat.le_refl _
    · have := ih t ht
      omega

theorem pairwise_scanFrom (ds : List Definition) (line : Nat) (p : Place) :
    (scanFrom ds line p).Pairwise fun s t => s.span.stop ≤ t.span.start := by
  induction p using cursor_induction ds with
  | nil p e => simp [scanFrom_nil ds line e]
  | past p c l e hn ih =>
    rw [scanFrom_past line e hn]
    exact ih
  | pick p k q hp ih =>
    rw [scanFrom_pick line hp]
    exact List.pairwise_cons.2 ⟨offset_le_start ds line q,ih⟩

theorem IsPart.start_lt_stop {text : Line} {line : Nat} {t : Token} (h : IsPart text line t) :
    t.span.start < t.span.stop := by
  obtain ⟨a,b,c,-,hb,-,-,hs⟩ := h
  have := Line.bytes_pos hb
  rw [hs]
  exact Nat.lt_add_of_pos_right this

theorem IsPart.length_eq {text : Line} {line : Nat} {t : Token} (h : IsPart text line t) :
    t.length = t.value.utf8ByteSize := by
  obtain ⟨a,b,c,-,-,hv,-,hs⟩ := h
  rw [Token.length,hv,hs,Line.utf8ByteSize_ofList,Nat.add_sub_cancel_left]

theorem IsPart.line_eq {text : Line} {line : Nat} {t : Token} (h : IsPart text line t) :
    t.line = line := by
  obtain ⟨-,-,-,-,-,-,hl,-⟩ := h
  exact hl

theorem IsPart.value_eq {text : Line} {line : Nat} {t : Token} (h : IsPart text line t) :
    t.value = String.ofList (text.slice t.span) :=
  (congrArg Token.value h.token_candidate).symm

end Scanner

namespace Catalog

/-- The tokens of numbered lines, if no token is refused. -/
def tokenizeNumbered? (c : Catalog) (lines : List (Line × Nat)) : Option (List Token) :=
  (lines.mapM fun p => Resolution.tokens? p.1 p.2 (c.candidates p.1)).map List.flatten

/-- The tokens `ts` are what a catalog makes of numbered lines without a refusal. They are parts of
the lines, they ascend, and those of one line lie apart. -/
structure IsStream (c : Catalog) (lines : List (Line × Nat)) (ts : List Token) : Prop where
  resolved : c.tokenizeNumbered? lines = some ts
  located : ∀ t ∈ ts, ∃ p ∈ lines, t.line = p.2 ∧ p.1.fits t.span ∧ t.span.start < t.span.stop ∧
    t.value = String.ofList (p.1.slice t.span) ∧ t.length = t.value.utf8ByteSize
  ordered : ts.Pairwise fun s t => s.line < t.line ∨
    s.line = t.line ∧ s.span.start < t.span.start ∧ s.span.stop ≤ t.span.start

theorem isPart_of_mem_tokenizeLine {c : Catalog} {text : Line} {line : Nat} {t : Token}
    (h : t ∈ c.tokenizeLine text line) : Scanner.IsPart text line t := by
  rw [tokenizeLine,Scanner.tokens_candidates] at h
  exact Scanner.isPart_of_mem_scan h

/-- What resolves the candidates of a line never meets a winner that does not fit the line. -/
theorem tokens?_candidates (c : Catalog) (text : Line) (line : Nat) :
    Resolution.tokens? text line (c.candidates text) = some (c.tokenizeLine text line) := by
  refine Resolution.tokens?_eq_some line fun k hk => ?_
  rw [Scanner.winners_candidates c text line] at hk
  obtain ⟨t,ht,rfl⟩ := List.mem_map.1 hk
  exact (Scanner.isPart_of_mem_scan ht).fits

theorem pairwise_tokenizeLine (c : Catalog) (text : Line) (line : Nat) :
    (c.tokenizeLine text line).Pairwise fun s t => s.span.stop ≤ t.span.start := by
  rw [tokenizeLine,Scanner.tokens_candidates]
  exact Scanner.pairwise_scanFrom c.definitions line (Place.start text)

theorem tokenizeNumbered?_eq_some (c : Catalog) (lines : List (Line × Nat)) :
    c.tokenizeNumbered? lines = some (lines.flatMap fun p => c.tokenizeLine p.1 p.2) := by
  have hm : (lines.mapM fun p => Resolution.tokens? p.1 p.2 (c.candidates p.1)) =
      some (lines.map fun p => c.tokenizeLine p.1 p.2) := by
    simp only [tokens?_candidates]
    exact List.mapM_pure
  rw [tokenizeNumbered?,hm,Option.map_some,List.flatMap_def]

theorem isStream_flatMap (c : Catalog) {lines : List (Line × Nat)}
    (h : lines.Pairwise fun p q => p.2 < q.2) :
    c.IsStream lines (lines.flatMap fun p => c.tokenizeLine p.1 p.2) where
  resolved := c.tokenizeNumbered?_eq_some lines
  located t ht := by
    obtain ⟨p,hp,ht⟩ := List.mem_flatMap.1 ht
    have hpart := isPart_of_mem_tokenizeLine ht
    exact ⟨p,hp,hpart.line_eq,hpart.fits,hpart.start_lt_stop,hpart.value_eq,hpart.length_eq⟩
  ordered := by
    refine List.pairwise_flatMap.2 ⟨?_,?_⟩
    · intro p hp
      refine (c.pairwise_tokenizeLine p.1 p.2).imp_of_mem fun {s t} hs ht hst => .inr ?_
      have ps := isPart_of_mem_tokenizeLine hs
      have pt := isPart_of_mem_tokenizeLine ht
      exact ⟨ps.line_eq.trans pt.line_eq.symm,Nat.lt_of_lt_of_le ps.start_lt_stop hst,hst⟩
    · refine h.imp fun hpq s hs t ht => .inl ?_
      rw [(isPart_of_mem_tokenizeLine hs).line_eq,(isPart_of_mem_tokenizeLine ht).line_eq]
      exact hpq

end Catalog

namespace LineSource

/-- Every line that is read has the next number. -/
def CountsLines (σ : Type) [LineSource σ] : Prop :=
  ∀ (s t : σ) (l : Line), next s = (.ok (some l),t) → number t = number s + 1

theorem pairwise_read {σ : Type} [LineSource σ] (h : CountsLines σ) (s : σ) :
    (∀ p ∈ (read s).lines, number s < p.2) ∧ (read s).lines.Pairwise fun p q => p.2 < q.2 := by
  fun_induction read s with
  | case1 s e t hn => simp
  | case2 s t hn => simp
  | case3 s l t hn r ih =>
    have ht := h s t l hn
    refine ⟨?_,List.pairwise_cons.2 ⟨ih.1,ih.2⟩⟩
    intro p hp
    rcases List.mem_cons.1 hp with rfl | hp
    · exact ht ▸ Nat.lt_succ_self _
    · have := ih.1 p hp
      omega

end LineSource

theorem Source.countsLines : LineSource.CountsLines Source := by
  intro s t l h
  change s.nextLine = (.ok (some l),t) at h
  simp only [nextLine] at h
  split at h
  · simp at h
  · simp at h
  · split at h
    · simp at h
    · simp only [Prod.mk.injEq] at h
      obtain ⟨-,rfl⟩ := h
      rfl

namespace Catalog

/-- No catalog ever makes a token that does not fit its line, and all tokens of a line, of a text, and
of a source up to its end or its first failure are a stream. -/
theorem isStream_tokenize (c : Catalog) {σ : Type} [LineSource σ]
    (h : LineSource.CountsLines σ) :
    (∀ text line, c.IsStream [(text,line)] (c.tokenizeLine text line)) ∧
      (∀ text, c.IsStream ((Text.lines text).zipIdx 1) (c.tokenizeText text)) ∧
      ∀ s : σ, c.IsStream (LineSource.read s).lines (c.tokenize s).1 := by
  refine ⟨?_,?_,?_⟩
  · intro text line
    have hs := c.isStream_flatMap (List.pairwise_singleton (fun p q => p.2 < q.2) (text,line))
    rwa [List.flatMap_singleton] at hs
  · intro text
    refine c.isStream_flatMap ?_
    have hr : (((Text.lines text).zipIdx 1).map Prod.snd).Pairwise (· < ·) := by
      rw [List.zipIdx_map_snd]
      exact List.pairwise_lt_range'
    exact List.pairwise_map.1 hr
  · intro s
    exact c.isStream_flatMap (LineSource.pairwise_read h s).2

/-- A source that fails within its second line. -/
theorem isStream_tokenize_failure :
    LineSource.CountsLines Source ∧
      ∃ s : Source, (LineSource.read s).lines = [("é:=1".toList,1)] ∧
        (pascal.tokenize s).2.isSome ∧ pascal.IsStream [("é:=1".toList,1)] (pascal.tokenize s).1 := by
  have hl : (LineSource.read (Source.ofReads "broken.pas"
      [.data [0xC3,0xA9,0x3A,0x3D],.data [0x31,0x0A,0x79],.failure ⟨.brokenPipe,"closed"⟩])).lines =
      [("é:=1".toList,1)] := by decide +kernel
  refine ⟨Source.countsLines,_,hl,by decide +kernel,?_⟩
  have hs := (isStream_tokenize pascal Source.countsLines).2.2 (Source.ofReads "broken.pas"
    [.data [0xC3,0xA9,0x3A,0x3D],.data [0x31,0x0A,0x79],.failure ⟨.brokenPipe,"closed"⟩])
  rwa [hl] at hs

end Catalog
end PascalTokens
