import PascalTokens.Proofs.Pieces

/-! The lexemes of Pascal: the patterns of the built-in catalog with their kinds. -/
namespace PascalTokens.Pascal

def lexemes : List (Kind × Pattern) :=
  [(.compilerDirective,directive), (.comment,braceComment), (.comment,starComment),
   (.comment,lineComment), (.reservedWord,reservedWord), (.operator,operator), (.number,number),
   (.stringOrCharacter,stringOrCharacter), (.separator,separator), (.identifier,identifier),
   (.invalid,invalid)]

theorem definitions_pascal : Catalog.pascal.definitions = Piece.definitions lexemes := rfl

theorem tokenizeLine_pascal (text : Line) (line : Nat) :
    Catalog.pascal.tokenizeLine text line =
      Piece.tokensFrom line 0 (Piece.ofLine lexemes text) := by
  rw [Catalog.tokenizeLine,Scanner.tokens_candidates,definitions_pascal,Scanner.scan,
    Piece.scanFrom_definitions]
  rfl

theorem ranked_lexemes : lexemes.Pairwise fun r s => r.1.rank ≤ s.1.rank := by
  have h := Catalog.pascal.ordered
  rw [definitions_pascal,Piece.definitions,List.pairwise_map] at h
  exact h

/-- A token is the longest lexeme where it starts, and the tokens after it are those of what follows. -/
theorem exists_takes {text : Line} {line : Nat} {t : Token}
    (h : t ∈ Catalog.pascal.tokenizeLine text line) :
    ∃ n ts, Piece.longest? lexemes (text.after t.span.start) = some (t.kind,n) ∧
      t.Takes t.kind ((text.after t.span.start).take n) ∧
      Catalog.pascal.tokenizeLine text line = ts ++ t :: Piece.tokensFrom line t.span.stop
        (Piece.ofLine lexemes ((text.after t.span.start).drop n)) := by
  rw [tokenizeLine_pascal] at h ⊢
  obtain ⟨a,b,n,ts,rfl,hs,hn,ht,hts⟩ := Piece.exists_tokensFrom_append h
  have hafter : Line.after (a ++ b) t.span.start = b := by
    rw [hs,Nat.zero_add,Line.after_bytes_append]
  rw [hafter]
  exact ⟨n,ts,hn,ht,hts⟩

theorem longest?_of_mem_tokenizeLine {text : Line} {line : Nat} {t : Token}
    (h : t ∈ Catalog.pascal.tokenizeLine text line) :
    ∃ n, Piece.longest? lexemes (text.after t.span.start) = some (t.kind,n) ∧
      t.value.toList = (text.after t.span.start).take n := by
  obtain ⟨n,-,hn,ht,-⟩ := exists_takes h
  refine ⟨n,hn,?_⟩
  rw [ht.value,String.toList_ofList]

end PascalTokens.Pascal
