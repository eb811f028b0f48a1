import PascalTokens.Program
import PascalTokens.Proofs.Pascal.Letters
import PascalTokens.Proofs.Reading.Decoding
import PascalTokens.Proofs.Sinks

/-! Calls that tokenize a file: what they write, what they tell of and how they end, where the file
cannot be opened, a line of it is no text, or the output is refused. -/
namespace PascalTokens

namespace Source

/-- The bytes of the lines before the first one that is no text. -/
def textPart (bs : List UInt8) : List UInt8 :=
  ((byteLines bs).takeWhile fun l => (decode l).isSome).flatten

/-- The number of the first line that is no text. -/
def brokenLine? (bs : List UInt8) : Option Nat :=
  ((byteLines bs).findIdx? fun l => (decode l).isNone).map (· + 1)

theorem textPart_of_isSome {bs : List UInt8} (h : (decode bs).isSome) :
    textPart bs = bs ∧ brokenLine? bs = none := by
  obtain ⟨text,ht⟩ := Option.isSome_iff_exists.1 h
  have hlines : ∀ l ∈ byteLines bs, (decode l).isSome := by
    intro l hl
    rw [decode_eq_some.1 ht,byteLines_encode] at hl
    obtain ⟨t,-,rfl⟩ := List.mem_map.1 hl
    rw [decode_eq_some.2 rfl]
    rfl
  constructor
  · rw [textPart,List.takeWhile_eq_self_iff.2 hlines,flatten_byteLines]
  · rw [brokenLine?,List.findIdx?_eq_none_iff.2 fun l hl => by simpa using hlines l hl]
    rfl

theorem textPart_of_breaksAfter {bs : List UInt8} {n : Nat} {text : List Char}
    (h : BreaksAfter bs n text) :
    textPart bs = ((byteLines bs).take n).flatten ∧ brokenLine? bs = some (n + 1) := by
  obtain ⟨bad,hbad,hnone⟩ := h.invalid
  obtain ⟨hlt,hget⟩ := List.getElem?_eq_some_iff.1 hbad
  constructor
  · have hsplit := List.take_append_drop n (byteLines bs)
    rw [← List.getElem_cons_drop hlt,hget] at hsplit
    rw [textPart,← hsplit,List.takeWhile_append_of_pos h.valid,
      List.takeWhile_cons_of_neg (by simp [hnone]),List.append_nil,hsplit]
  · have hfirst : (byteLines bs).findIdx? (fun l => (decode l).isNone) = some n := by
      refine List.findIdx?_eq_some_iff_getElem.2 ⟨hlt,by simp [hget,hnone],fun j hj => ?_⟩
      have hmem : (byteLines bs)[j] ∈ (byteLines bs).take n :=
        List.mem_take_iff_getElem.2 ⟨j,by omega,rfl⟩
      simpa [Option.isSome_iff_ne_none] using h.valid _ hmem
    rw [brokenLine?,hfirst]
    rfl

def unreadable (path : String) (line : Nat) : Error := ⟨.readLine invalidText,⟨line,path⟩⟩

/-- What is reported of a file of which line `k` is no text. -/
def unreadableText (path : String) (k : Nat) : String :=
  "Error: ReadLine (Source files must be valid UTF-8)\n-> " ++ (path ++ ":" ++ toString k) ++
    "\n   cannot read line: stream did not contain valid UTF-8\n"

/-- Lines count from 1, and so the report always names the line. -/
theorem report_unreadable {bs : List UInt8} {k : Nat} (h : brokenLine? bs = some k)
    (path : String) : (unreadable path k).report = unreadableText path k := by
  obtain ⟨n,-,rfl⟩ := Option.map_eq_some_iff.1 h
  have hposition : toString (⟨n + 1,path⟩ : Position) = path ++ ":" ++ toString (n + 1) :=
    if_neg (Nat.succ_ne_zero n)
  have hhead : "Error: " ++ (Cause.readLine invalidText).name ++
      ((Cause.readLine invalidText).tip?.elim "" fun tip => " (" ++ tip ++ ")") ++ "\n-> " =
      "Error: ReadLine (Source files must be valid UTF-8)\n-> " := by decide
  have htail : "\n   " ++ ((Cause.readLine invalidText).message ++ "\n") =
      "\n   cannot read line: stream did not contain valid UTF-8\n" := by decide
  rw [unreadable,Error.report,hposition,hhead]
  unfold unreadableText
  rw [← htail]
  simp only [String.append_assoc]

def openAdvice : FailureKind → String
  | .notFound => " (Check that the file path is correct)"
  | .permissionDenied => " (Check the file permissions)"
  | _ => ""

/-- What is reported of a file that cannot be opened. -/
def unopenedText (path : String) (f : Failure) : String :=
  "Error: FileOpen" ++ openAdvice f.kind ++ "\n-> " ++ path ++ "\n   cannot open source: " ++
    f.reason ++ "\n"

theorem tip_fileOpen (f : Failure) :
    ((Cause.fileOpen f).tip?.elim "" fun tip => " (" ++ tip ++ ")") = openAdvice f.kind := by
  have hmissing : " (" ++ "Check that the file path is correct" ++ ")" =
      " (Check that the file path is correct)" := by decide
  have hdenied : " (" ++ "Check the file permissions" ++ ")" =
      " (Check the file permissions)" := by decide
  obtain ⟨kind,reason⟩ := f
  cases kind with
  | notFound => exact hmissing
  | permissionDenied => exact hdenied
  | _ => rfl

theorem report_unopened (path : String) (f : Failure) :
    Error.report ⟨.fileOpen f,⟨0,path⟩⟩ = unopenedText path f := by
  have hposition : toString (⟨0,path⟩ : Position) = path := rfl
  have hhead : "Error: " ++ "FileOpen" = "Error: FileOpen" := by decide
  have htail : "\n   " ++ "cannot open source: " = "\n   cannot open source: " := by decide
  calc
    _ = "Error: " ++ "FileOpen" ++ openAdvice f.kind ++ "\n-> " ++ path ++ "\n   " ++
          ("cannot open source: " ++ f.reason) ++ "\n" := by
      rw [Error.report,tip_fileOpen,hposition]
      rfl
    _ = "Error: FileOpen" ++ openAdvice f.kind ++ "\n-> " ++ path ++
          ("\n   " ++ "cannot open source: ") ++ f.reason ++ "\n" := by
      rw [hhead]
      simp only [String.append_assoc]
    _ = _ := by
      rw [htail]
      rfl

theorem exists_decode_textPart (bs : List UInt8) : ∃ text, decode (textPart bs) = some text :=
  exists_decode_flatten fun _ => List.mem_takeWhile_imp

theorem tokenize_of_gives (c : Catalog) {rs : List Read} {bs : List UInt8} (h : Read.Gives rs bs)
    {text : List Char} (ht : decode (textPart bs) = some text) (path : String) :
    c.tokenize (ofReads path rs) =
      (c.tokenizeText text,(brokenLine? bs).map (unreadable path)) := by
  have hgives : Read.Gives (ofReads path rs).reads bs := h
  cases hbs : decode bs with
  | some whole =>
    obtain ⟨hpart,hbroken⟩ := textPart_of_isSome (Option.isSome_of_eq_some hbs)
    obtain ⟨hlines,hfailure⟩ := read_of_decode_some hgives (hpart ▸ ht)
    rw [Catalog.tokenize,hlines,hfailure,hbroken]
    rfl
  | none =>
    obtain ⟨n,before,hbreaks⟩ := exists_breaksAfter hbs
    obtain ⟨hpart,hbroken⟩ := textPart_of_breaksAfter hbreaks
    obtain ⟨hlines,hfailure⟩ := read_of_breaksAfter hgives ⟨hbreaks.valid,hbreaks.invalid,hpart ▸ ht⟩
    have hnumber : (ofReads path rs).number + n = n := Nat.zero_add n
    rw [Catalog.tokenize,hlines,hfailure,hbroken,hnumber]
    rfl

end Source

namespace Catalog

theorem level_of_mem_lineRecords (c : Catalog) (text : Line) (line : Nat) {rec : Record}
    (h : rec ∈ c.lineRecords text line) : rec.level ≠ .error := by
  obtain h | h := List.mem_append.1 h
  · obtain ⟨d,-,h⟩ := List.mem_flatMap.1 h
    obtain h | h := List.mem_append.1 h
    · obtain ⟨candidate,-,rfl⟩ := List.mem_map.1 h
      simp [Record.level]
    · obtain ⟨candidate,-,rfl⟩ := List.mem_map.1 h
      simp [Record.level]
  · obtain rfl := List.mem_singleton.1 h
    simp [Record.level]

theorem level_of_mem_records (c : Catalog) (s : Source) {rec : Record} (h : rec ∈ c.records s) :
    rec.level ≠ .error := by
  obtain h | h := List.mem_append.1 h
  · obtain ⟨p,-,h⟩ := List.mem_flatMap.1 h
    exact c.level_of_mem_lineRecords p.1 p.2 h
  · split at h
    · obtain rfl := List.mem_singleton.1 h
      simp [Record.level]
    · cases h

end Catalog

namespace Program

/-- What is told at last: that the output was refused or, if it was not, that a line could not be
read. -/
def errors : Option Failure → Option Error → List Notice
  | some f, _ => [.logged (.writeFailed f.reason)]
  | none, some e => [.reported e]
  | none, none => []

theorem execute_of_tokenize {files : Files} {r : Request} {rs : List Read}
    (hf : files r.file = .ok rs) {ts : List Token} {unread : Option Error}
    (ht : Catalog.pascal.tokenize (Source.ofReads r.file rs) = (ts,unread)) (s : Sink) :
    let w := s.writeTokens ts r.listing r.summary
    ∃ log : List Record, (∀ rec ∈ log, rec.level ≠ .error) ∧
      execute files s r =
        ((errors w.1 unread).length,w.2,log.map Notice.logged ++ errors w.1 unread) := by
  intro w
  have ho : Source.openFile files r.file = .ok (Source.ofReads r.file rs) := by
    rw [Source.openFile,hf]
  let log := .sourceOpened r.file :: .catalogBuilt Catalog.pascal.definitions.length ::
    Catalog.pascal.records (Source.ofReads r.file rs)
  have hlog : ∀ rec ∈ log, rec.level ≠ .error := by
    intro rec hrec
    obtain rfl | hrec := List.mem_cons.1 hrec
    · simp [Record.level]
    obtain rfl | hrec := List.mem_cons.1 hrec
    · simp [Record.level]
    exact Catalog.level_of_mem_records _ _ hrec
  rw [execute,ho]
  simp only [ht]
  rcases hw : s.writeTokens ts r.listing r.summary with ⟨_ | f,sink⟩
  · cases unread with
    | none =>
      refine ⟨log ++ [.sourceTokenized r.file ts.length],?_,?_⟩
      · exact List.forall_mem_append.2
          ⟨hlog,List.forall_mem_singleton.2 (by simp [Record.level])⟩
      · simp only [w,hw,errors,List.append_nil,List.map_append]
        rfl
    | some e => exact ⟨log,hlog,by simp only [w,hw]; rfl⟩
  · exact ⟨log,hlog,by simp only [w,hw]; rfl⟩

section Telling

variable (env : Environment) (r : Request)

def noticesText (ns : List Notice) : String := String.join (ns.map (noticeText env r))

theorem noticesText_append (ms ns : List Notice) :
    noticesText env r (ms ++ ns) = noticesText env r ms ++ noticesText env r ns := by
  rw [noticesText,List.map_append,String.join_append]
  rfl

theorem noticesText_logged (log : List Record) :
    noticesText env r (log.map Notice.logged) = env.logger.printed (logFilter env r) log := by
  induction log with
  | nil => rfl
  | cons rec log ih =>
    rw [Logger.printed_cons,← ih,List.map_cons,noticesText,List.map_cons,String.join_cons]
    rfl

theorem noticesText_singleton (n : Notice) : noticesText env r [n] = noticeText env r n := by
  rw [noticesText,List.map_singleton,String.join_cons,String.join_nil,String.append_empty]

/-- What a call tells on its error output ends with this, and before it is a log in which there is no
error. -/
def Tells (s : Sink) (last : String) : Prop :=
  ∃ log : List Record, (∀ rec ∈ log, rec.level ≠ .error) ∧
    (run env s (.tokenize r)).stderr = env.logger.printed (logFilter env r) log ++ last

variable {env r}

theorem printed_error (h : env.logFilter = none) {rec : Record} (hrec : rec.level = .error) :
    env.logger.printed (logFilter env r) [rec] = env.logger.print rec := by
  have hfilter : logFilter env r = (leastLevel r).word := by rw [logFilter,h]; rfl
  have hpasses : env.logger.passes (logFilter env r) rec = true := by
    rw [hfilter,env.logger.passes_word,hrec,leastLevel]
    split <;> rfl
  rw [Logger.printed,List.filter_cons_of_pos hpasses,List.filter_nil,List.map_singleton,
    String.join_cons,String.join_nil,String.append_empty]

end Telling

variable {env : Environment} {r : Request} {rs : List Read} {bs : List UInt8} {text : List Char}

theorem run_of_gives (hf : env.files r.file = .ok rs) (hg : Read.Gives rs bs)
    (ht : Source.decode (Source.textPart bs) = some text) (s : Sink) :
    let w := s.writeTokens (Catalog.pascal.tokenizeText text) r.listing r.summary
    let es := errors w.1 ((Source.brokenLine? bs).map (Source.unreadable r.file))
    (run env s (.tokenize r)).stdout = w.2 ∧
      (run env s (.tokenize r)).exitCode = es.length ∧ Tells env r s (noticesText env r es) := by
  intro w es
  obtain ⟨log,hlog,hexecute⟩ :=
    execute_of_tokenize hf (Source.tokenize_of_gives Catalog.pascal hg ht r.file) s
  have hrun : run env s (.tokenize r) =
      ⟨es.length,w.2,noticesText env r (log.map Notice.logged ++ es)⟩ := by
    rw [run,tokenize,hexecute]
    rfl
  refine ⟨by rw [hrun],by rw [hrun],log,hlog,?_⟩
  rw [hrun,noticesText_append,noticesText_logged]

def unreadText (path : String) (bs : List UInt8) : String :=
  (Source.brokenLine? bs).elim "" (Source.unreadableText path)

/-- What a call does with a file of these bytes where the output takes all. -/
structure Prints (env : Environment) (s : Sink) (r : Request) (bs : List UInt8)
    (ts : List Token) : Prop where
  stdout : (run env s (.tokenize r)).stdout = (s.writeTokens ts r.listing r.summary).2
  taken : (run env s (.tokenize r)).stdout.taken = s.taken ++ outputBytes ts r.listing r.summary
  exitCode : (run env s (.tokenize r)).exitCode = if Source.brokenLine? bs = none then 0 else 1
  tells : Tells env r s (unreadText r.file bs)
  cut : ∀ (env' : Environment) (rs : List Read), env'.files r.file = .ok rs →
    Read.Gives rs (Source.textPart bs) →
    (run env' s (.tokenize r)).stdout = (run env s (.tokenize r)).stdout ∧
      (run env' s (.tokenize r)).exitCode = 0

/-- Does the error output end with the record of an error, that output was refused? The record is
shown unless the user asks for another filter. -/
structure TellsRefusal (env : Environment) (r : Request) (s : Sink) (rec : Record) : Prop where
  level : rec.level = .error
  message : rec.message = "cannot write tokens: " ++ s.refused.reason
  tells : Tells env r s (env.logger.printed (logFilter env r) [rec])
  shown : env.logFilter = none → Tells env r s (env.logger.print rec)

/-- What a call does with a file of these bytes where the output takes nothing. -/
structure Refused (env : Environment) (s : Sink) (r : Request) (bs : List UInt8)
    (ts : List Token) : Prop where
  stdout : (run env s (.tokenize r)).stdout = s
  exitCode : (run env s (.tokenize r)).exitCode =
    if outputBytes ts r.listing r.summary = [] ∧ Source.brokenLine? bs = none then 0 else 1
  /-- A line that is no text is told of only if there was nothing to refuse. -/
  unrefused : outputBytes ts r.listing r.summary = [] → Tells env r s (unreadText r.file bs)
  refused : outputBytes ts r.listing r.summary ≠ [] → ∃ rec, TellsRefusal env r s rec

theorem noticesText_unrefused (env : Environment) (r : Request) (bs : List UInt8) :
    noticesText env r (errors none ((Source.brokenLine? bs).map (Source.unreadable r.file))) =
      unreadText r.file bs := by
  rw [unreadText]
  cases hk : Source.brokenLine? bs with
  | none => rfl
  | some k => exact (noticesText_singleton env r _).trans (Source.report_unreadable hk r.file)

theorem prints_of_gives (hf : env.files r.file = .ok rs) (hg : Read.Gives rs bs)
    (ht : Source.decode (Source.textPart bs) = some text) {s : Sink} (hs : s.TakesAll) :
    Prints env s r bs (Catalog.pascal.tokenizeText text) := by
  obtain ⟨hstdout,hexit,htells⟩ := run_of_gives hf hg ht s
  rw [hs.writeTokens] at hexit htells
  refine ⟨hstdout,?_,?_,?_,fun env' rs' hf' hg' => ?_⟩
  · rw [hstdout,hs.writeTokens]
  · rw [hexit]
    cases Source.brokenLine? bs <;> rfl
  · rwa [noticesText_unrefused] at htells
  · obtain ⟨hsame,hwhole⟩ := Source.textPart_of_isSome (Option.isSome_of_eq_some ht)
    obtain ⟨hstdout',hexit',-⟩ := run_of_gives hf' hg' (hsame.symm ▸ ht) s
    rw [hs.writeTokens,hwhole] at hexit'
    exact ⟨hstdout'.trans hstdout.symm,hexit'⟩

theorem refused_of_gives (hf : env.files r.file = .ok rs) (hg : Read.Gives rs bs)
    (ht : Source.decode (Source.textPart bs) = some text) {s : Sink} (hs : s.TakesNothing) :
    Refused env s r bs (Catalog.pascal.tokenizeText text) := by
  obtain ⟨hstdout,hexit,htells⟩ := run_of_gives hf hg ht s
  rw [hs.writeTokens] at hstdout hexit htells
  by_cases hout : outputBytes (Catalog.pascal.tokenizeText text) r.listing r.summary = []
  · rw [if_pos hout] at hexit htells
    refine ⟨hstdout,?_,fun _ => ?_,fun hne => absurd hout hne⟩
    · rw [hexit]
      cases Source.brokenLine? bs <;> simp [hout,errors]
    · rwa [noticesText_unrefused] at htells
  · rw [if_neg hout] at hexit htells
    refine ⟨hstdout,?_,fun h => absurd h hout,fun _ => ?_⟩
    · rw [hexit,if_neg fun h => hout h.1]
      rfl
    · have htold : Tells env r s
          (env.logger.printed (logFilter env r) [.writeFailed s.refused.reason]) := by
        rwa [errors,noticesText_singleton] at htells
      refine ⟨.writeFailed s.refused.reason,rfl,rfl,htold,fun hnone => ?_⟩
      rwa [printed_error hnone rfl] at htold

/-- A call prints the tokens of the lines before the first one that is no text, and fails if there is
one, if output is refused, or if the file cannot be opened. It tells of one failure only, that of the
output before that of the input. That it is verbose changes neither its output nor its end. -/
theorem run_tokenize (env : Environment) (r : Request) :
    (∀ (rs : List Read) (bs : List UInt8), env.files r.file = .ok rs → Read.Gives rs bs →
      ∃ text, Source.decode (Source.textPart bs) = some text ∧
        (∀ s : Sink, s.TakesAll → Prints env s r bs (Catalog.pascal.tokenizeText text)) ∧
        ∀ s : Sink, s.TakesNothing → Refused env s r bs (Catalog.pascal.tokenizeText text)) ∧
    (∀ (f : Failure), env.files r.file = .error f → ∀ s : Sink,
      run env s (.tokenize r) = ⟨1,s,Source.unopenedText r.file f⟩) ∧
    ∀ (s : Sink) (verbose : Bool),
      let o := run env s (.tokenize r)
      let o' := run env s (.tokenize { r with verbose })
      o'.stdout = o.stdout ∧ o'.exitCode = o.exitCode := by
  refine ⟨fun rs bs hf hg => ?_,fun f hf s => ?_,fun s verbose => ⟨rfl,rfl⟩⟩
  · obtain ⟨text,ht⟩ := Source.exists_decode_textPart bs
    exact ⟨text,ht,fun s => prints_of_gives hf hg ht,fun s => refused_of_gives hf hg ht⟩
  · have ho : Source.openFile env.files r.file = .error ⟨.fileOpen f,⟨0,r.file⟩⟩ := by
      rw [Source.openFile,hf]
    have htold : noticesText env r [.reported ⟨.fileOpen f,⟨0,r.file⟩⟩] =
        Source.unopenedText r.file f :=
      (noticesText_singleton env r _).trans (Source.report_unopened r.file f)
    rw [run,tokenize,execute,ho,← htold]
    rfl

/-- The second line ends within a character, and a file of another name is missing. -/
theorem run_tokenize_within_character :
    let files : Files := fun path =>
      if path = "cut.pas" then .ok [.data [0x78,0x0A,0xC3]] else .error .notFound
    let env : Environment := ⟨files,none,.plain⟩
    let r : Request := ⟨"cut.pas",⟨false,true⟩,true,true⟩
    let bs : List UInt8 := [0x78,0x0A,0xC3]
    let ts : List Token := [⟨.identifier,"x",1,⟨0,1⟩⟩]
    Source.brokenLine? bs = some 2 ∧ Prints env .unlimited r bs ts ∧
      Refused env (.full .noSpace (by decide)) r bs ts ∧
      run env .unlimited (.tokenize { r with file := "none.pas" }) =
        ⟨1,.unlimited,"Error: FileOpen (Check that the file path is correct)\n-> none.pas\n" ++
          "   cannot open source: No such file or directory (os error 2)\n"⟩ := by
  intro files env r bs ts
  have hfile : files r.file = .ok [.data bs] := if_pos rfl
  have hmissing : files "none.pas" = .error .notFound := if_neg (by decide)
  obtain ⟨text,htext,hprints,hrefused⟩ :=
    (run_tokenize env r).1 [.data bs] bs hfile (Read.gives_data bs)
  have hpart : Source.decode (Source.textPart bs) = some ['x','\n'] := by decide
  obtain rfl : ['x','\n'] = text := Option.some.inj (hpart.symm.trans htext)
  have hts : Catalog.pascal.tokenizeText ['x','\n'] = ts := by
    rw [Pascal.pascal_eq_spelled]
    decide +kernel
  rw [hts] at hprints hrefused
  refine ⟨by decide,hprints _ ⟨rfl,rfl⟩,hrefused _ ⟨rfl,rfl⟩,?_⟩
  rw [(run_tokenize env { r with file := "none.pas" }).2.1 .notFound hmissing]
  exact congrArg (Outcome.mk 1 _) (by decide)

end Program
end PascalTokens
