import PascalTokens.Proofs.Joins
import PascalTokens.Proofs.LineByLine
import PascalTokens.Proofs.Pascal.Letters

/-! Texts made of lines. However each line is ended, with or without a carriage return, the text is
taken apart into the same lines, and calls for the next line answer with these. -/
namespace PascalTokens

namespace Text

inductive Terminator
  | newline | returnNewline
  deriving DecidableEq

def Terminator.text : Terminator → List Char
  | newline => ['\n']
  | returnNewline => ['\r', '\n']

/-- Does the text hold the lines, each of them ended? The last one need not be, if it is not empty. -/
inductive Holds : List Line → List Char → Prop
  | nil : Holds [] []
  | unended {l : Line} (h : l ≠ []) : Holds [l] l
  | ended (l : Line) (e : Terminator) {ls : List Line} {t : List Char} (h : Holds ls t) :
    Holds (l :: ls) (l ++ (e.text ++ t))

/-- Can the line be told from what ends it? -/
structure IsLine (l : Line) : Prop where
  no_newline : '\n' ∉ l
  no_return : l.getLast? ≠ some '\r'

variable {l : Line} {ls : List Line} {t : List Char}

theorem terminated_line (h : '\n' ∉ l) : terminated (l ++ ['\n']) = [l ++ ['\n']] := by
  have hlen := length_terminated_newline l
  rw [List.count_eq_zero_of_not_mem h] at hlen
  obtain ⟨m,hm⟩ := List.length_eq_one_iff.1 hlen
  have hflat := terminated_flatten (l ++ ['\n'])
  rw [hm,List.flatten_singleton] at hflat
  rw [hm,hflat]

theorem terminated_unended (h : '\n' ∉ l) (hne : l ≠ []) : terminated l = [l] := by
  induction l with
  | nil => exact absurd rfl hne
  | cons c l ih =>
    obtain ⟨hc,hl⟩ := List.ne_and_not_mem_of_not_mem_cons h
    rw [terminated,if_neg (Ne.symm hc)]
    cases l with
    | nil => rfl
    | cons d l => rw [ih hl (List.cons_ne_nil d l)]

theorem lines_line (h : '\n' ∉ l) (t : List Char) :
    lines (l ++ '\n' :: t) = unterminated (l ++ ['\n']) :: lines t := by
  rw [lines_newline,lines,terminated_line h]
  rfl

theorem lines_ended (h : IsLine l) (e : Terminator) (t : List Char) :
    lines (l ++ (e.text ++ t)) = l :: lines t := by
  cases e with
  | newline =>
    have hline := lines_line h.no_newline t
    have hend : unterminated (l ++ ['\n']) = l := by simp [unterminated,h.no_return]
    rwa [hend] at hline
  | returnNewline =>
    have hn : '\n' ∉ l ++ ['\r'] := List.not_mem_append h.no_newline (by decide)
    have hline := lines_line hn t
    have hend : unterminated (l ++ ['\r'] ++ ['\n']) = l := by simp [unterminated]
    rwa [hend,List.append_assoc] at hline

theorem lines_unended (h : IsLine l) (hne : l ≠ []) : lines l = [l] := by
  have hend : unterminated l = l :=
    if_neg fun hlast => h.no_newline (List.mem_of_getLast? hlast)
  rw [lines,terminated_unended h.no_newline hne,List.map_singleton,hend]

theorem Holds.lines_eq (h : Holds ls t) (hl : ∀ l ∈ ls, IsLine l) : lines t = ls := by
  induction h with
  | nil => rfl
  | unended hne => exact lines_unended (hl _ List.mem_cons_self) hne
  | ended l e h ih =>
    obtain ⟨hline,hls⟩ := List.forall_mem_cons.1 hl
    rw [lines_ended hline,ih hls]

end Text

namespace Source

open LineSupply

theorem ask_of_nextLine {s t : Source} {a : Except Error (Option Line)} (h : s.nextLine = (a,t)) :
    ask s = ((a,t.number),t) := by
  change ((s.nextLine.1,s.nextLine.2.number),s.nextLine.2) = _
  rw [h]

theorem calls_ask_of_gives_nil {s : Source} (h : Read.Gives s.reads []) (m : Nat) :
    (calls ask m s).1 = List.replicate m (.ok none,s.number) := by
  induction m generalizing s with
  | zero => rfl
  | succ m ih =>
    obtain ⟨t,hnext,hnumber,hgives⟩ := nextLine_of_gives_nil h
    rw [calls,ask_of_nextLine hnext,ih hgives,hnumber,List.replicate_succ]

theorem calls_ask_of_gives {s : Source} {bs : List UInt8} {ts : List (List Char)}
    (h : Read.Gives s.reads bs) (hl : byteLines bs = ts.map Text.encode) (m : Nat) :
    (calls ask (ts.length + m) s).1 =
      ((ts.map Text.unterminated).zipIdx (s.number + 1)).map (fun p => (.ok (some p.1),p.2)) ++
        List.replicate m (.ok none,s.number + ts.length) := by
  induction ts generalizing s bs with
  | nil =>
    have hnil : bs = [] := by rw [← flatten_byteLines bs,hl]; rfl
    rw [List.length_nil,Nat.zero_add,calls_ask_of_gives_nil (hnil ▸ h)]
    rfl
  | cons u ts ih =>
    obtain ⟨hne,t,rest,hrest,hgives,-,hnext,hnumber⟩ := nextLine_of_gives h hl
    rw [Counted.answer_of_decode_some hne (decode_eq_some.2 rfl)] at hnext hnumber
    have ht : t.number = s.number + 1 := hnumber
    have hcount : s.number + 1 + ts.length = s.number + (ts.length + 1) := by omega
    rw [List.length_cons,Nat.add_right_comm,calls,ask_of_nextLine hnext,ih hgives hrest,ht,hcount]
    rfl

theorem calls_ask_of_text {s : Source} {t : List Char} (h : Read.Gives s.reads (Text.encode t))
    (m : Nat) :
    (calls ask ((Text.lines t).length + m) s).1 =
      ((Text.lines t).zipIdx (s.number + 1)).map (fun p => (.ok (some p.1),p.2)) ++
        List.replicate m (.ok none,s.number + (Text.lines t).length) := by
  have hcalls := calls_ask_of_gives h (byteLines_encode t) m
  have hlen : (Text.terminated t).length = (Text.lines t).length := (List.length_map _).symm
  rw [hlen] at hcalls
  exact hcalls

end Source

/-- Is the text that of the lines? Calls on its bytes, in whatever reads they come, answer with the
lines, numbered from 1, and from then on with nothing, and the tokens are those of the lines. -/
structure Text.ReadsLines (ls : List Line) (t : List Char) : Prop where
  lines : Text.lines t = ls
  answers : ∀ name rs m, Read.Gives rs (encode t) →
    (calls LineSupply.ask (ls.length + m) (Source.ofReads name rs)).1 =
      (ls.zipIdx 1).map (fun p => (.ok (some p.1),p.2)) ++ List.replicate m (.ok none,ls.length)
  tokens : ∀ c : Catalog, c.tokenizeText t = c.tokenizeLines ls 1

namespace Text

/-- A text of lines, whichever way each of them is ended, is read as these lines. -/
theorem Holds.readsLines {ls : List Line} {t : List Char} (h : Holds ls t) (hl : ∀ l ∈ ls, IsLine l) :
    ReadsLines ls t := by
  have hlines := h.lines_eq hl
  refine ⟨hlines,fun name rs m hgives => ?_,fun c => by rw [Catalog.tokenizeText,hlines]⟩
  have hcalls := Source.calls_ask_of_text (s := Source.ofReads name rs) hgives m
  have hnumber : (Source.ofReads name rs).number = 0 := rfl
  rwa [hlines,hnumber,Nat.zero_add,Nat.zero_add] at hcalls

/-- An empty line, a carriage return within a line, and a last line without an end. -/
theorem Holds.readsLines_mixed :
    Holds [['a'], [], ['\r', 'é'], ['b']] "a\r\n\n\ré\r\nb".toList ∧
      (calls LineSupply.ask 6 (Source.ofReads "mixed.pas"
        [.data [0x61,0x0D],.data [0x0A,0x0A,0x0D,0xC3],.data [0xA9,0x0D,0x0A,0x62]])).1 =
        [(.ok (some ['a']),1),(.ok (some []),2),(.ok (some ['\r', 'é']),3),(.ok (some ['b']),4),
          (.ok none,4),(.ok none,4)] ∧
      Catalog.pascal.tokenizeText "a\r\n\n\ré\r\nb".toList =
        [⟨.identifier,"a",1,⟨0,1⟩⟩,⟨.invalid,"é",3,⟨1,3⟩⟩,⟨.identifier,"b",4,⟨0,1⟩⟩] := by
  have hholds : Holds [['a'], [], ['\r', 'é'], ['b']] "a\r\n\n\ré\r\nb".toList :=
    .ended ['a'] .returnNewline (.ended [] .newline (.ended ['\r', 'é'] .returnNewline
      (.unended (by decide))))
  have hlines : ∀ l ∈ [['a'], [], ['\r', 'é'], ['b']], IsLine l := by
    simp only [List.forall_mem_cons]
    exact ⟨⟨by decide,by decide⟩,⟨by decide,by decide⟩,⟨by decide,by decide⟩,⟨by decide,by decide⟩,
      by simp⟩
  have h := hholds.readsLines hlines
  refine ⟨hholds,h.answers _ _ 2 ⟨0,?_⟩,?_⟩
  · decide
  · rw [h.tokens,Pascal.pascal_eq_spelled]
    decide +kernel

end Text
end PascalTokens
