import PascalTokens.Proofs.Pascal.Letters
import PascalTokens.Proofs.Reading.Calls
import PascalTokens.Proofs.Reading.Encoding

/-! Bytes that are read line by line, and the text that they are. Each line is decoded on its own, and
still the lines, with their numbers and their tokens, are those of the text; where the bytes are no
text, they are those of the text before the first line that is none. -/
namespace PascalTokens

/-- Do the reads give these bytes, without a failure, and then end for good? -/
def Read.Gives (rs : List Read) (bs : List UInt8) : Prop :=
  ∃ n, events rs = bs.map .byte ++ List.replicate n .pause

theorem Read.gives_data (bs : List UInt8) : Gives [.data bs] bs := by
  cases bs with
  | nil => exact ⟨1,rfl⟩
  | cons b bs => exact ⟨0,rfl⟩

theorem Event.line_of_byteLines {bs l : List UInt8} {ls : List (List UInt8)}
    (h : byteLines bs = l :: ls) (n : Nat) : l ≠ [] ∧ ∃ rest m, byteLines rest = ls ∧
      Event.line (bs.map byte ++ List.replicate n pause) =
        (.ok l,rest.map byte ++ List.replicate m pause) := by
  obtain ⟨rest,rfl,hrest,⟨k,hk,rfl⟩ | ⟨hl,hne,rfl⟩⟩ := exists_of_byteLines_cons h
  · refine ⟨by simp,rest,n,hrest,?_⟩
    rw [List.append_assoc,List.map_append,List.append_assoc,line_append hk]
    rfl
  · refine ⟨hne,[],n - 1,hrest,?_⟩
    rw [List.append_nil,line_append hl]
    cases n with
    | zero => simp [Except.map]
    | succ n => simp [List.replicate_succ,Except.map]

namespace LineSource

variable {σ : Type} [LineSource σ]

theorem read_of_none {s t : σ} (h : next s = (.ok none,t)) : read s = ⟨[],none,t⟩ := by
  rw [read]
  split <;> rename_i h' <;> rw [h] at h' <;> cases h'
  rfl

theorem read_of_error {s t : σ} {e : Error} (h : next s = (.error e,t)) :
    read s = ⟨[],some e,t⟩ := by
  rw [read]
  split <;> rename_i h' <;> rw [h] at h' <;> cases h'
  rfl

theorem read_of_line {s t : σ} {l : Line} (h : next s = (.ok (some l),t)) :
    read s = { read t with lines := (l,number t) :: (read t).lines } := by
  rw [read]
  split <;> rename_i h' <;> rw [h] at h' <;> cases h'
  rfl

end LineSource

namespace Source

theorem nextLine_of_gives_nil {s : Source} (h : Read.Gives s.reads []) :
    ∃ t, s.nextLine = (.ok none,t) ∧ t.number = s.number ∧ Read.Gives t.reads [] := by
  obtain ⟨n,hn⟩ := h
  obtain ⟨ha,-,hnumber,hreads⟩ := s.nextLine_events
  have hl : Event.line (Read.events s.reads) = (.ok [],List.replicate (n - 1) .pause) := by
    rw [hn]
    cases n <;> rfl
  rw [hl] at ha hreads
  rw [ha] at hnumber
  exact ⟨s.nextLine.2,Prod.ext ha rfl,hnumber,n - 1,hreads⟩

theorem nextLine_of_gives {s : Source} {bs l : List UInt8} {ls : List (List UInt8)}
    (h : Read.Gives s.reads bs) (hl : byteLines bs = l :: ls) : l ≠ [] ∧
      ∃ t rest, byteLines rest = ls ∧ Read.Gives t.reads rest ∧ t.name = s.name ∧
        s.nextLine = (Counted.answer s.name s.number (.ok l),t) ∧
        t.number = s.number + (isLine (Counted.answer s.name s.number (.ok l))).toNat := by
  obtain ⟨n,hn⟩ := h
  obtain ⟨hne,rest,m,hrest,hline⟩ := Event.line_of_byteLines hl n
  obtain ⟨ha,hname,hnumber,hreads⟩ := s.nextLine_events
  rw [hn,hline] at ha hreads
  rw [ha] at hnumber
  exact ⟨hne,s.nextLine.2,rest,hrest,⟨m,hreads⟩,hname,Prod.ext ha rfl,hnumber⟩

theorem read_of_texts {s : Source} {bs : List UInt8} {ts : List (List Char)}
    {ls : List (List UInt8)} (h : Read.Gives s.reads bs)
    (hl : byteLines bs = ts.map Text.encode ++ ls) :
    ∃ (t : Source) (rest : List UInt8), byteLines rest = ls ∧ Read.Gives t.reads rest ∧
      t.name = s.name ∧ t.number = s.number + ts.length ∧
      (LineSource.read s).lines =
        (ts.map Text.unterminated).zipIdx (s.number + 1) ++ (LineSource.read t).lines ∧
      (LineSource.read s).failure = (LineSource.read t).failure := by
  induction ts generalizing s bs with
  | nil => exact ⟨s,bs,hl,h,rfl,rfl,rfl,rfl⟩
  | cons u ts ih =>
    obtain ⟨hne,t,rest,hrest,hgives,hname,hnext,hnumber⟩ := nextLine_of_gives h hl
    rw [Counted.answer_of_decode_some hne (decode_eq_some.2 rfl)] at hnext hnumber
    have hread := LineSource.read_of_line (σ := Source) hnext
    have ht : LineSource.number t = s.number + 1 := hnumber
    obtain ⟨t',rest',hrest',hgives',hname',hnumber',hlines,hfailure⟩ := ih hgives hrest
    refine ⟨t',rest',hrest',hgives',hname'.trans hname,?_,?_,?_⟩
    · rw [hnumber',hnumber,List.length_cons]
      simp only [isLine,Bool.toNat_true]
      omega
    · have hn : t.number = s.number + 1 := hnumber
      rw [hread,hlines,ht,hn]
      rfl
    · rw [hread]
      exact hfailure

theorem read_of_decode_some {s : Source} {bs : List UInt8} {text : List Char}
    (h : Read.Gives s.reads bs) (ht : decode bs = some text) :
    (LineSource.read s).lines = (Text.lines text).zipIdx (s.number + 1) ∧
      (LineSource.read s).failure = none := by
  have hl : byteLines bs = (Text.terminated text).map Text.encode ++ [] := by
    rw [decode_eq_some.1 ht,byteLines_encode,List.append_nil]
  obtain ⟨t,rest,hrest,hgives,-,-,hlines,hfailure⟩ := read_of_texts h hl
  have hnil : rest = [] := by rw [← flatten_byteLines rest,hrest]; rfl
  obtain ⟨t',hnext,-⟩ := nextLine_of_gives_nil (hnil ▸ hgives)
  have hread := LineSource.read_of_none (σ := Source) hnext
  rw [hlines,hfailure,hread]
  exact ⟨List.append_nil _,rfl⟩

/-- Is the line after the first `n` lines of the bytes the first that is no text, and `text` what is
before it? -/
structure BreaksAfter (bs : List UInt8) (n : Nat) (text : List Char) : Prop where
  valid : ∀ l ∈ (byteLines bs).take n, (decode l).isSome
  invalid : ∃ l, (byteLines bs)[n]? = some l ∧ decode l = none
  before : decode ((byteLines bs).take n).flatten = some text

theorem read_of_breaksAfter {s : Source} {bs : List UInt8} {n : Nat} {text : List Char}
    (h : Read.Gives s.reads bs) (hb : BreaksAfter bs n text) :
    (LineSource.read s).lines = (Text.lines text).zipIdx (s.number + 1) ∧
      (LineSource.read s).failure =
        some ⟨.readLine invalidText,⟨s.number + n + 1,s.name⟩⟩ := by
  obtain ⟨bad,hbad,hnone⟩ := hb.invalid
  obtain ⟨hlt,hget⟩ := List.getElem?_eq_some_iff.1 hbad
  have htake : (byteLines bs).take n = (Text.terminated text).map Text.encode := by
    rw [← byteLines_take,decode_eq_some.1 hb.before,byteLines_encode]
  have hlength : (Text.terminated text).length = n := by
    have hmin := congrArg List.length htake
    rw [List.length_take,List.length_map,Nat.min_eq_left hlt.le] at hmin
    exact hmin.symm
  have hl : byteLines bs =
      (Text.terminated text).map Text.encode ++ bad :: (byteLines bs).drop (n + 1) := by
    rw [← htake,← hget,List.getElem_cons_drop,List.take_append_drop]
  obtain ⟨t,rest,hrest,hgives,hname,hnumber,hlines,hfailure⟩ := read_of_texts h hl
  obtain ⟨hne,t',-,-,-,-,hnext,-⟩ := nextLine_of_gives hgives hrest
  rw [Counted.answer_of_decode_none hne hnone,hname,hnumber,hlength] at hnext
  have hread := LineSource.read_of_error (σ := Source) hnext
  rw [hlines,hfailure,hread]
  exact ⟨List.append_nil _,rfl⟩

theorem exists_decode_flatten {ls : List (List UInt8)} (h : ∀ l ∈ ls, (decode l).isSome) :
    ∃ text, decode ls.flatten = some text := by
  induction ls with
  | nil => exact ⟨[],decode_eq_some.2 rfl⟩
  | cons l ls ih =>
    obtain ⟨hl,hls⟩ := List.forall_mem_cons.1 h
    obtain ⟨t,ht⟩ := Option.isSome_iff_exists.1 hl
    obtain ⟨text,htext⟩ := ih hls
    refine ⟨t ++ text,decode_eq_some.2 ?_⟩
    rw [List.flatten_cons,Text.encode_append,← decode_eq_some.1 ht,← decode_eq_some.1 htext]

theorem exists_breaksAfter {bs : List UInt8} (h : decode bs = none) :
    ∃ n text, BreaksAfter bs n text := by
  have hsplit := List.takeWhile_append_dropWhile (p := fun l => (decode l).isSome) (l := byteLines bs)
  have hvalid : ∀ l ∈ (byteLines bs).takeWhile fun l => (decode l).isSome, (decode l).isSome :=
    fun l => List.mem_takeWhile_imp
  have hfirst := List.head?_dropWhile_not (fun l => (decode l).isSome) (byteLines bs)
  generalize (byteLines bs).takeWhile (fun l => (decode l).isSome) = good at hsplit hvalid
  obtain ⟨text,htext⟩ := exists_decode_flatten hvalid
  cases hd : (byteLines bs).dropWhile fun l => (decode l).isSome with
  | nil =>
    rw [hd,List.append_nil] at hsplit
    rw [hsplit,flatten_byteLines,h] at htext
    cases htext
  | cons bad later =>
    rw [hd] at hsplit hfirst
    refine ⟨good.length,text,?_,⟨bad,?_,?_⟩,?_⟩
    · simpa [← hsplit] using hvalid
    · simp [← hsplit]
    · simpa using hfirst
    · simpa [← hsplit] using htext

end Source

namespace Catalog

theorem tokenizeFile_of_tokenize (c : Catalog) {files : Files} {path : String} {rs : List Read}
    (hf : files path = .ok rs) {ts : List Token} {failure : Option Error}
    (h : c.tokenize (Source.ofReads path rs) = (ts,failure)) :
    c.tokenizeFile files path = failure.elim (.ok ts) .error := by
  have ho : Source.openFile files path = .ok (Source.ofReads path rs) := by
    rw [Source.openFile,hf]
  rw [tokenizeFile,ho,Except.bind,tokenizeWhole,h]
  cases failure <;> rfl

/-- Bytes that are a text, read line by line, give the tokens of the text. Other bytes give those of
the text before the first line that is none, and fail there. -/
theorem tokenize_gives (c : Catalog) {rs : List Read} {bs : List UInt8} (h : Read.Gives rs bs)
    (name : String) :
    (∀ text, Source.decode bs = some text →
      (LineSource.read (Source.ofReads name rs)).lines = (Text.lines text).zipIdx 1 ∧
      c.tokenize (Source.ofReads name rs) = (c.tokenizeText text,none) ∧
      ∀ files : Files, files name = .ok rs →
        c.tokenizeFile files name = .ok (c.tokenizeText text)) ∧
    (Source.decode bs = none → ∃ n text, Source.BreaksAfter bs n text ∧
      let e : Error := ⟨.readLine Source.invalidText,⟨n + 1,name⟩⟩
      c.tokenize (Source.ofReads name rs) = (c.tokenizeText text,some e) ∧
      ∀ files : Files, files name = .ok rs → c.tokenizeFile files name = .error e) := by
  have hgives : Read.Gives (Source.ofReads name rs).reads bs := h
  refine ⟨fun text ht => ?_,fun hnone => ?_⟩
  · obtain ⟨hlines,hfailure⟩ := Source.read_of_decode_some hgives ht
    have htokens : c.tokenize (Source.ofReads name rs) = (c.tokenizeText text,none) := by
      rw [tokenize,hlines,hfailure]
      rfl
    exact ⟨hlines,htokens,fun files hf => c.tokenizeFile_of_tokenize hf htokens⟩
  · obtain ⟨n,text,hbreaks⟩ := Source.exists_breaksAfter hnone
    obtain ⟨hlines,hfailure⟩ := Source.read_of_breaksAfter hgives hbreaks
    have htokens : c.tokenize (Source.ofReads name rs) =
        (c.tokenizeText text,some ⟨.readLine Source.invalidText,⟨n + 1,name⟩⟩) := by
      have hnumber : (Source.ofReads name rs).number + n = n := Nat.zero_add n
      rw [tokenize,hlines,hfailure,hnumber]
      rfl
    exact ⟨n,text,hbreaks,htokens,fun files hf => c.tokenizeFile_of_tokenize hf htokens⟩

/-- A carriage return ends no line by itself, doubled or not, within a line or at the end of the file;
and a file that ends within a character keeps the tokens of the lines before. -/
theorem tokenize_gives_within_character :
    let whole : List UInt8 := [0x61,0x0D,0x0A,0x0A,0x62,0x0D,0x0D,0x0A,0x0D,0x63,0x0D]
    let broken : List UInt8 := [0x61,0x0D,0x0D,0x0A,0x62,0xC3]
    let e : Error := ⟨.readLine Source.invalidText,⟨2,"cut.pas"⟩⟩
    (LineSource.read (Source.ofReads "whole.pas" [.data whole])).lines =
        [(['a'],1),([],2),(['b', '\r'],3),(['\r', 'c', '\r'],4)] ∧
      pascal.tokenizeFile (fun _ => .ok [.data whole]) "whole.pas" =
        .ok [⟨.identifier,"a",1,⟨0,1⟩⟩,⟨.identifier,"b",3,⟨0,1⟩⟩,⟨.identifier,"c",4,⟨1,2⟩⟩] ∧
      pascal.tokenize (Source.ofReads "cut.pas" [.data broken]) =
        ([⟨.identifier,"a",1,⟨0,1⟩⟩],some e) ∧
      pascal.tokenizeFile (fun _ => .ok [.data broken]) "cut.pas" = .error e := by
  intro whole broken e
  have htext : Source.decode whole = some "a\r\n\nb\r\r\n\rc\r".toList := by decide
  obtain ⟨hlines,-,hwhole⟩ :=
    (tokenize_gives pascal (Read.gives_data whole) "whole.pas").1 _ htext
  obtain ⟨n,text,hbreaks,htokens,hfile⟩ :=
    (tokenize_gives pascal (Read.gives_data broken) "cut.pas").2 (by decide)
  have hn : n = 1 := by
    obtain ⟨l,hl,hnone⟩ := hbreaks.invalid
    rcases n with _ | _ | n
    · cases hl
      exact absurd hnone (by decide)
    · rfl
    · cases hl
  subst hn
  have hbefore : Source.decode ((byteLines broken).take 1).flatten =
      some ['a', '\r', '\r', '\n'] := by decide
  obtain rfl : ['a', '\r', '\r', '\n'] = text := Option.some.inj (hbefore.symm.trans hbreaks.before)
  refine ⟨hlines.trans (by decide),(hwhole _ rfl).trans ?_,htokens.trans ?_,hfile _ rfl⟩
  · rw [Pascal.pascal_eq_spelled]
    exact congrArg Except.ok (by decide +kernel)
  · rw [Pascal.pascal_eq_spelled]
    exact congrArg (·,some e) (by decide +kernel)

end Catalog
end PascalTokens
