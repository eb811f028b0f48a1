import PascalTokens.Pascal.Expressions
import PascalTokens.Proofs.Acceptance
import PascalTokens.Proofs.Expression.Words
import PascalTokens.Proofs.Pascal.Letters

/-! The rules of Pascal in writing make the catalog of Pascal: every expression has the matches of
the pattern for its kind. -/
namespace PascalTokens

namespace ExpressionText

open Expression

/-- Is the expression in writing accepted, with the matches of the pattern? -/
def Reads (s : String) (r : Pattern) : Prop := ∃ e, parse s = .ok e ∧ e.Means r

theorem Reads.compile_eq {s : String} {r : Pattern} (h : Reads s r) :
    compile s = .ok r.matcher := by
  obtain ⟨e,he,hr⟩ := h
  rw [compile,he]
  exact congrArg Except.ok hr.matcher_eq

theorem eq_ok_of_toOption {α : Type} {x : Except Fault α} {a : α} (h : x.toOption = some a) :
    x = .ok a := by
  cases x with
  | error f => cases h
  | ok b => exact congrArg Except.ok (Option.some.inj h)

end ExpressionText

namespace Pascal

open CharSet Expression ExpressionText

section Sets

variable (c : Char)

theorem contains_except (d : Char) (h : (ofList [d]).isApart = true) :
    (ofList [d]).complement.contains c = (c != d) := by
  rw [contains_complement h,contains_ofList,bne,Bool.eq_iff_iff]
  simp

theorem contains_notSpace :
    whiteSpace.complement.contains c = !Unicode.isWhiteSpace c := by
  rw [contains_complement (by decide),contains_whiteSpace]

theorem contains_upper : (range 'A' 'Z').contains c = c.isUpper :=
  (contains_range _ _ c).trans (Bool.decide_and _ _).symm

theorem contains_lower : (range 'a' 'z').contains c = c.isLower := contains_range _ _ c

theorem contains_digit : (range '0' '9').contains c = c.isDigit := contains_range _ _ c

def hexDigits : CharSet := union (range '0' '9') (union (range 'A' 'F') (range 'a' 'f'))

theorem contains_hexDigits : hexDigits.contains c = isHexDigit c := by
  rw [hexDigits,contains_union,contains_union,contains_range,contains_range,contains_range,
    isHexDigit,← Bool.or_assoc]
  rfl

end Sets

section Short

/-- The expressions that name no words, as they are read. -/
def shortExpressions : List (String × Expression) := [
  ("\\\x7b(?:[^$\x7d][^\x7d]*)?\\\x7d",
    .seq (.text ['{']) (.seq (.times 0 (some 1) true (.seq (.one (ofList ['$','}']).complement)
      (.times 0 none true (.one (ofList ['}']).complement)))) (.text ['}']))),
  ("\\(\\*.*?\\*\\)",
    .seq (.text ['(','*']) (.seq (.times 0 none false (.one (ofList ['\n']).complement))
      (.text ['*',')']))),
  ("//.*", .seq (.text ['/','/']) (.times 0 none true (.one (ofList ['\n']).complement))),
  (":=|<=|>=|<>|><|\\*\\*|\\+=|-=|\\*=|/=|\\.\\.|[-+*/=<>\\[\\]^@$#&%]",
    .ofBranches (pairedOperators.map (.text ·.toList) ++ [.one (ofList operatorSigns)])),
  ("[\x7b\x7d(),;:.]", .one (ofList separators)),
  ("[A-Za-z_][A-Za-z0-9_]*",
    .seq (.one (.union (.range 'A' 'Z') (.union (.range 'a' 'z') (.singleton '_'))))
      (.times 0 none true (.one (.union (.range 'A' 'Z') (.union (.range 'a' 'z')
        (.union (.range '0' '9') (.singleton '_'))))))),
  ("[\"~\x60]+|\\S",
    .alt (.times 1 none true (.one (ofList strays))) (.one whiteSpace.complement))]

/-- The expressions that stand for many ranges of characters, so that their automata are large. -/
def digitExpressions : List (String × Expression) := [
  ("\\$[0-9A-Fa-f]+|&[0-7]+|%[01]+|\\d+(?:\\.\\d+)?(?:[eE][-+]?\\d+)?",
    .ofBranches [.seq (.text ['$']) (.times 1 none true (.one hexDigits)),
      .seq (.text ['&']) (.times 1 none true (.one (range '0' '7'))),
      .seq (.text ['%']) (.times 1 none true (.one (ofList ['0','1']))),
      .seq (.times 1 none true (.one decimalDigits)) (.seq
        (.times 0 (some 1) true (.seq (.text ['.']) (.times 1 none true (.one decimalDigits))))
        (.times 0 (some 1) true (.seq (.one (ofList ['e','E']))
          (.seq (.times 0 (some 1) true (.one (ofList ['-','+'])))
            (.times 1 none true (.one decimalDigits))))))]),
  ("(?:'(?:[^']|'')*'|#\\$[0-9A-Fa-f]+|#\\d+)+",
    .times 1 none true (.ofBranches [
      .seq (.text ['\'']) (.seq
        (.times 0 none true (.ofBranches [.one (ofList ['\'']).complement,.text ['\'','\'']]))
        (.text ['\''])),
      .seq (.text ['#','$']) (.times 1 none true (.one hexDigits)),
      .seq (.text ['#']) (.times 1 none true (.one decimalDigits))]))]

theorem read_expressions :
    (∀ p ∈ shortExpressions, (parse p.1).toOption = some p.2) ∧
    ∀ p ∈ digitExpressions, (read p.1).toOption.any fun n =>
      n.depth ≤ maxDepth && n.expression = p.2 := by decide +kernel

theorem reads_short {s : String} {e : Expression} {r : Pattern} (i : Nat)
    (hi : shortExpressions[i]? = some (s,e)) (hr : e.Means r) : Reads s r :=
  ⟨e,eq_ok_of_toOption (read_expressions.1 (s,e) (List.mem_of_getElem? hi)),hr⟩

theorem reads_digits {s : String} {e : Expression} {r : Pattern} {n : Nat} (i : Nat)
    (hi : digitExpressions[i]? = some (s,e)) (he : e.Takes n) (hn : n + 400 ≤ Extent.maxBytes)
    (hr : e.Means r) : Reads s r := by
  obtain ⟨m,hm,hread⟩ :=
    (Option.any_eq_true _ _).1 (read_expressions.2 (s,e) (List.mem_of_getElem? hi))
  obtain ⟨hdepth,hexpression⟩ := Bool.and_eq_true_iff.1 hread
  obtain rfl := of_decide_eq_true hexpression
  exact ⟨_,parse_eq_ok (eq_ok_of_toOption hm) (of_decide_eq_true hdepth)
    (isTooLarge_eq_false he hn),hr⟩

theorem reads_braceComment : Reads "\\\x7b(?:[^$\x7d][^\x7d]*)?\\\x7d" braceComment := by
  have hfirst (c : Char) : (ofList ['$','}']).complement.contains c = (c != '$' && c != '}') := by
    rw [contains_complement (by decide),contains_ofList,Bool.eq_iff_iff]
    simp
  have hrest : Means _ (.many0 (· != '}')) := .many0 (contains_except · _ (by decide)) rfl
  exact reads_short 0 rfl (.seq (.char _) (.seq (.opt (.seq (.one hfirst) hrest)) (.char _)))

theorem reads_starComment : Reads "\\(\\*.*?\\*\\)" starComment :=
  reads_short 1 rfl
    (.seq (.text _) (.seq (.lazyMany0 (contains_except · _ (by decide)) rfl) (.text _)))

theorem reads_lineComment : Reads "//.*" lineComment :=
  reads_short 2 rfl (.seq (.text _) (.many0 (contains_except · _ (by decide)) rfl))

theorem reads_operator :
    Reads ":=|<=|>=|<>|><|\\*\\*|\\+=|-=|\\*=|/=|\\.\\.|[-+*/=<>\\[\\]^@$#&%]" operator := by
  refine reads_short 3 rfl (.ofBranches (List.rel_append ?_ ?_) (by simp))
  · rw [List.forall₂_map_left_iff,List.forall₂_map_right_iff,List.forall₂_same]
    exact fun w _ => .text w.toList
  · exact .cons (.one (contains_ofList _)) .nil

theorem means_digits : (Expression.times 1 none true (.one decimalDigits)).Means digits :=
  .many contains_decimalDigits rfl true

theorem takes_digits : (Expression.times 1 none true (.one decimalDigits)).Takes 30000 :=
  ((Takes.one _).plus true).mono (by decide)

theorem takes_radix (c : Char) {s : CharSet} (hs : setBytes s ≤ 1000) :
    (Expression.seq (.text [c]) (.times 1 none true (.one s))).Takes 100000 :=
  ((Takes.text [c]).seq ((Takes.one s).plus true)).mono (by simp; omega)

theorem reads_number :
    Reads "\\$[0-9A-Fa-f]+|&[0-7]+|%[01]+|\\d+(?:\\.\\d+)?(?:[eE][-+]?\\d+)?" number := by
  have hbinary (c : Char) : (ofList ['0','1']).contains c = isBinaryDigit c := by
    rw [contains_ofList,isBinaryDigit,Bool.eq_iff_iff]
    simp
  refine reads_digits 0 rfl
    (.ofBranches (n := 100000) ?_ ⟨_,List.mem_cons_self,fun _ => Expression.noConfusion⟩)
    (by decide) (.alt ?_ (.alt ?_ (.alt ?_ ?_)))
  · have hfraction := ((Takes.text ['.']).seq takes_digits).opt true
    have hexponent := ((Takes.one (ofList ['e','E'])).seq
      (((Takes.one (ofList ['-','+'])).opt true).seq takes_digits)).opt true
    have hdecimal := (takes_digits.seq (hfraction.seq hexponent)).mono (n := 100000) (by decide)
    simp only [List.forall_mem_cons]
    exact ⟨⟨rfl,takes_radix _ (by decide)⟩,⟨rfl,takes_radix _ (by decide)⟩,
      ⟨rfl,takes_radix _ (by decide)⟩,⟨rfl,hdecimal⟩,by simp⟩
  · exact .seq (.char _) (.many contains_hexDigits rfl true)
  · exact .seq (.char _) (.many (contains_range _ _) rfl true)
  · exact .seq (.char _) (.many hbinary rfl true)
  · exact .seq means_digits (.seq (.opt (.seq (.char _) means_digits))
      (.opt (.seq (.one (contains_ofList _)) (.seq (.opt (.one (contains_ofList _))) means_digits))))

theorem reads_stringOrCharacter :
    Reads "(?:'(?:[^']|'')*'|#\\$[0-9A-Fa-f]+|#\\d+)+" stringOrCharacter := by
  have hquoted : Means _ quoted := .seq (.char _) (.seq
    (.star (.alt (.one (contains_except · _ (by decide))) (.text _)) rfl) (.char _))
  have hcode : Means _ characterCode := .alt (.seq (.text _) (.many contains_hexDigits rfl true))
    (.seq (.char _) means_digits)
  have hquotes : Takes (.ofBranches [.one (ofList ['\'']).complement,.text ['\'','\'']])
      (2 * (20000 + 4) + 64) := by
    refine .ofBranches ?_ ⟨_,List.mem_cons_self,fun _ => Expression.noConfusion⟩
    simp only [List.forall_mem_cons]
    exact ⟨⟨rfl,(Takes.one _).mono (by decide)⟩,⟨rfl,(Takes.text _).mono (by decide)⟩,by simp⟩
  refine reads_digits 1 rfl
    ((Takes.ofBranches (n := 100000) ?_ ⟨_,List.mem_cons_self,fun _ => Expression.noConfusion⟩).plus
      true) (by decide) (.plus (.alt hquoted hcode) rfl)
  simp only [List.forall_mem_cons]
  refine ⟨⟨rfl,?_⟩,⟨rfl,?_⟩,⟨rfl,?_⟩,by simp⟩
  · exact ((Takes.text _).seq ((hquotes.star true).seq (Takes.text _))).mono (by decide)
  · exact ((Takes.text _).seq ((Takes.one hexDigits).plus true)).mono (by decide)
  · exact ((Takes.text _).seq takes_digits).mono (by decide)

theorem reads_separator : Reads "[\x7b\x7d(),;:.]" separator :=
  reads_short 4 rfl (.one (contains_ofList _))

theorem reads_identifier : Reads "[A-Za-z_][A-Za-z0-9_]*" identifier := by
  refine reads_short 5 rfl (.seq (.one fun c => ?_) (.many0 (fun c => ?_) rfl))
  · rw [contains_union,contains_union,contains_upper,contains_lower,contains_singleton,isNameStart,
      Char.isAlpha,Bool.or_assoc,beq_eq_decide]
  · rw [contains_union,contains_union,contains_union,contains_upper,contains_lower,contains_digit,
      contains_singleton,isNamePart,Char.isAlphanum,Char.isAlpha,Bool.or_assoc,Bool.or_assoc,
      beq_eq_decide]

theorem reads_invalid : Reads "[\"~\x60]+|\\S" invalid :=
  reads_short 6 rfl (.alt (.many (contains_ofList _) rfl true) (.one contains_notSpace))

end Short

section Words

theorem areWords_reservedWords : AreWords (reservedWords.map String.toList) where
  alphanum := List.forall_mem_map.2 fun _ hw _ hc => alphanum_of_mem_reservedWords hw hc
  short := List.forall_mem_map.2 fun _ hw => length_le_of_mem (List.mem_append_right _ hw)
  few := List.length_map String.toList ▸ length_names_le.2
  differ := by
    refine ⟨_,_,_,rfl,?_,?_,'i',?_,'r',?_,.ofList (Unicode.asciiOrbit 'i'),
      .ofList (Unicode.asciiOrbit 'r'),?_,?_,?_⟩
    all_goals decide

theorem reads_reservedWord : Reads reservedWordExpression reservedWord := by
  have hws := areWords_reservedWords
  refine ⟨_,hws.parse_eq ?_,?_⟩
  · rw [reservedWordExpression,String.toList_append,String.toList_append,String.toList_intercalate,
      List.append_assoc]
    rfl
  · have hmeans := hws.means
    rw [List.map_map] at hmeans
    exact .ofBranches hmeans (by decide)

theorem areWords_directiveNames : AreWords (directiveNames.map String.toList) where
  alphanum := List.forall_mem_map.2 fun _ hw _ hc => alphanum_of_mem_directiveNames hw hc
  short := List.forall_mem_map.2 fun _ hw => length_le_of_mem (List.mem_append_left _ hw)
  few := List.length_map String.toList ▸ length_names_le.1
  differ := by
    refine ⟨_,_,_,rfl,?_,?_,'I',?_,'S',?_,.ofList (Unicode.asciiOrbit 'I'),
      .ofList (Unicode.asciiOrbit 'S'),?_,?_,?_⟩
    all_goals decide

def letterRanges : List CharSet := [range 'A' 'J',range 'L' 'T',range 'V' 'Z']

/-- Letter case makes no difference to the sets of a directive. -/
theorem members_directive :
    members true false letterRanges = .one (ofList directiveLetters) ∧
    members true false [.singleton '+',.singleton '-'] = .one (ofList ['+','-']) ∧
    members true true [.singleton '\x7d'] = .one (ofList ['\x7d']).complement := by decide +kernel

/-- The sign after the name of a directive, or the text up to the closing brace. -/
def switch : Nested :=
  ((Nested.choice [.sequence [⟨2,members true false [.singleton '+',.singleton '-']⟩],
    .sequence [⟨0,.ofSet .whiteSpace⟩,
      (⟨1,members true true [.singleton '\x7d']⟩ : Nested).within (.repetition 0 none true)]]).within
        id).within (.repetition 0 (some 1) true)

theorem switch_expression : switch.expression = .times 0 (some 1) true
    (.alt (.one (ofList ['+','-'])) (.seq (.one whiteSpace)
      (.times 0 none true (.one (ofList ['\x7d']).complement)))) := by
  obtain ⟨-,hsigns,hrest⟩ := members_directive
  rw [switch,hsigns,hrest]
  rfl

theorem means_switch : switch.expression.Means
    (.opt (.alt (.among ['+','-'])
      (.sequence [.one Unicode.isWhiteSpace,.many0 (· != '\x7d')]))) := by
  rw [switch_expression]
  exact .opt (.alt (.one (contains_ofList _)) (.seq (.one contains_whiteSpace)
    (.many0 (contains_except · _ (by decide)) rfl)))

theorem takes_switch : switch.expression.Takes 20000 := by
  rw [switch_expression]
  have hsigns : Takes (.one (ofList ['+','-'])) 9000 := (Takes.one _).mono (by decide)
  have hrest : Takes (.seq (.one whiteSpace)
      (.times 0 none true (.one (ofList ['\x7d']).complement))) 9000 :=
    ((Takes.one _).seq ((Takes.one _).star true)).mono (by decide)
  have hboth : (Expression.ofBranches [.one (ofList ['+','-']),.seq (.one whiteSpace)
      (.times 0 none true (.one (ofList ['\x7d']).complement))]).Takes (2 * (9000 + 4) + 64) :=
    Takes.ofBranches (by simpa using ⟨⟨rfl,hsigns⟩,rfl,hrest⟩)
      ⟨_,List.mem_cons_self,fun _ => Expression.noConfusion⟩
  exact (hboth.opt true).mono (by decide)

section Directives

def beforeNames : List Char := "(?i)\\\x7b\\$(?:".toList

def beforeNamesSymbols : List Symbol :=
  [.plain '(',.plain '?',.plain 'i',.plain ')',.escaped '\x7b',.escaped '$',.plain '(',.plain '?',
    .plain ':']

def afterNames : List Char := "|[A-JL-TV-Z])(?:[+-]|\\s[^\x7d]*)?\\\x7d".toList

def afterNamesPieces : List Piece :=
  [.bar,.members false letterRanges,.closing,.opening false,
    .members false [.singleton '+',.singleton '-'],.bar,.set .whiteSpace,
    .members true [.singleton '\x7d'],.times 0 none true,.closing,.times 0 (some 1) true,
    .character '\x7d']

theorem character_signs : character true '\x7b' = .text ['\x7b'] ∧
    character true '$' = .text ['$'] ∧ character true '\x7d' = .text ['\x7d'] := by decide

theorem read_afterNames : ∃ xs, symbols afterNames = .ok xs ∧ xs.length = 30 ∧
    piecesWithin 35 xs = .ok afterNamesPieces := by
  have h : ((symbols afterNames).toOption.map fun xs => (xs.length,(piecesWithin 35 xs).toOption)) =
      some (30,some afterNamesPieces) := by decide +kernel
  obtain ⟨xs,hxs,hread⟩ := Option.map_eq_some_iff.1 h
  obtain ⟨hlength,hps⟩ := Prod.mk.inj hread
  exact ⟨xs,eq_ok_of_toOption hxs,hlength,eq_ok_of_toOption hps⟩

/-- The directive as it is read, with what is read for its names. -/
def directiveNested (names : Nested) : Nested :=
  .choice [.sequence [⟨0,.empty⟩,⟨0,character true '\x7b'⟩,⟨0,character true '$'⟩,names,switch,
    ⟨0,character true '\x7d'⟩]]

theorem depth_directiveNested_le {names : Nested} (hnames : names.depth ≤ 10) :
    (directiveNested names).depth ≤ maxDepth := by
  have hparts : ∀ n ∈ [⟨0,.empty⟩,⟨0,character true '\x7b'⟩,⟨0,character true '$'⟩,names,switch,
      ⟨0,character true '\x7d'⟩], n.depth ≤ 10 := by
    have hswitch : switch.depth ≤ 10 := by decide
    simpa [hswitch] using hnames
  exact Nat.le_trans (depth_branch_le hparts) (by decide)

variable {ws : List (List Char)} (h : AreWords ws)
include h

theorem pieces_directive {xs : List Symbol} (hlength : xs.length = 30)
    (hps : piecesWithin 35 xs = .ok afterNamesPieces) :
    pieces (beforeNamesSymbols ++ ((List.intercalate ['|'] ws).map .plain ++ xs)) =
      .ok (.ignoreCase :: .character '\x7b' :: .character '$' :: .opening false ::
        ((List.intercalate ['|'] ws).map wordPiece ++ afterNamesPieces)) := by
  have hall (t : List Char) : (beforeNamesSymbols ++ (t.map Symbol.plain ++ xs)).length =
      t.length + 35 + 1 + 1 + 1 + 1 := by
    simp [beforeNamesSymbols,hlength]
  rw [pieces,hall]
  exact piecesWithin_cons rfl (piecesWithin_cons rfl (piecesWithin_cons rfl
    (piecesWithin_cons rfl (piecesWithin_append h.literal hps))))

theorem nest_directive : ∃ names : Nested,
    nest 1 (.opened none false) [] (.ignoreCase :: .character '\x7b' :: .character '$' ::
      .opening false :: ((List.intercalate ['|'] ws).map wordPiece ++ afterNamesPieces)) =
      .ok (directiveNested names) ∧
    names.expression = .ofBranches (words ws ++ [.one (ofList directiveLetters)]) ∧
    names.depth ≤ 10 := by
  let g : Group := (({ (Group.opened none false).push ⟨0,.empty⟩ with
    ignoreCase := true, repeatable := false }).push ⟨0,character true '\x7b'⟩).push
      ⟨0,character true '$'⟩
  obtain ⟨i,hnest,hnumber,hcase,hchoices⟩ := Group.nest_words 1 (.opened none true) [g] h.ne_nil
    h.bar_not_mem rfl afterNamesPieces
  let letters : Nested := ⟨2,members i.ignoreCase false letterRanges⟩
  let j : Group := { i with
    branches := i.branch :: i.branches, parts := [letters], repeatable := true }
  have hletters : (Nested.sequence [letters]).expression = .one (ofList directiveLetters) := by
    change Expression.sequence [members i.ignoreCase false letterRanges] = _
    rw [hcase,Group.opened,members_directive.1]
    rfl
  have hnames : j.choices = ws.map (word true) ++ [.sequence [letters]] := by
    have hsplit : j.choices = i.choices ++ [.sequence [letters]] := List.reverse_cons
    rw [hsplit,hchoices]
    rfl
  obtain ⟨hclosed,hdepth⟩ := h.closed_choices (g := j) hnumber hnames
    (by simp [Nested.sequence,Nested.depthOf,letters]) (by simp [hletters,branches])
  rw [List.map_singleton,hletters] at hclosed
  exact ⟨j.closed,hnest,hclosed,Nat.le_trans hdepth (by decide)⟩

theorem expression_directiveNested {names : Nested}
    (hnames : names.expression = .ofBranches (words ws ++ [.one (ofList directiveLetters)])) :
    (directiveNested names).expression = .seq (.text ['\x7b','$']) (.seq
      (.ofBranches (words ws ++ [.one (ofList directiveLetters)]))
      (.seq switch.expression (.text ['\x7d']))) := by
  obtain ⟨a,b,es,s,t,hwords,-⟩ := h.exists_seq
  change choice [Expression.sequence [.empty,character true '\x7b',character true '$',
    names.expression,switch.expression,character true '\x7d']] = _
  rw [hnames,hwords,character_signs.1,character_signs.2.1,character_signs.2.2,switch_expression]
  rfl

theorem parse_directive {r : String}
    (hr : r.toList = beforeNames ++ (List.intercalate ['|'] ws ++ afterNames)) :
    parse r = .ok (.seq (.text ['\x7b','$']) (.seq
      (.ofBranches (words ws ++ [.one (ofList directiveLetters)]))
      (.seq switch.expression (.text ['\x7d'])))) := by
  obtain ⟨xs,hxs,hlength,hps⟩ := read_afterNames
  have hsymbols : symbols r.toList =
      .ok (beforeNamesSymbols ++ ((List.intercalate ['|'] ws).map .plain ++ xs)) := by
    rw [hr]
    exact symbols_append (t := ['(','?','i',')']) (by decide) (symbols_escaped _ (symbols_escaped _
      (symbols_append (t := ['(','?',':']) (by decide) (h.symbols_append hxs))))
  obtain ⟨names,hnest,hnames,hdepth⟩ := nest_directive h
  have hexpression := expression_directiveNested h hnames
  rw [← hexpression]
  refine parse_eq_ok (read_eq_ok hsymbols (pieces_directive h hlength hps) hnest)
    (depth_directiveNested_le hdepth) ?_
  rw [hexpression]
  have hletter : ∀ e ∈ [Expression.one (ofList directiveLetters)],
      e.branches = [e] ∧ e.Takes 20000 := by
    simpa using ⟨rfl,(Takes.one _).mono (by decide)⟩
  have htext := (Takes.text ['\x7b','$']).seq ((h.takes_choice hletter (Nat.le_refl 1)).seq
    (takes_switch.seq (Takes.text ['\x7d'])))
  exact isTooLarge_eq_false htext (by decide)

end Directives

theorem reads_directive : Reads directiveExpression directive := by
  have hws := areWords_directiveNames
  refine ⟨_,parse_directive hws ?_,?_⟩
  · rw [directiveExpression,String.toList_append,String.toList_append,String.toList_intercalate,
      List.append_assoc]
    rfl
  · have hnames := hws.means
    rw [List.map_map] at hnames
    have hall := List.rel_append hnames (.cons (.one (contains_ofList directiveLetters)) .nil)
    exact .seq (.text _) (.seq (.ofBranches hall (by simp)) (.seq means_switch (.char _)))

end Words

theorem definition_eq_ok {k : Kind} {s : String} {r : Pattern} (h : Reads s r) :
    Rule.definition compile ⟨k,s⟩ = .ok ⟨k,r.matcher⟩ :=
  Rule.definition_eq_ok.2 ⟨_,h.compile_eq,rfl⟩

/-- The rules in writing are those of the catalog. -/
theorem ofRules_rules : Catalog.ofRules compile rules = .ok .pascal := by
  refine Catalog.ofRules_eq_ok_iff.2 (Rule.definitions_eq_ok_iff.2 ⟨?_,by decide⟩)
  exact .cons (definition_eq_ok reads_directive) <| .cons (definition_eq_ok reads_braceComment) <|
    .cons (definition_eq_ok reads_starComment) <| .cons (definition_eq_ok reads_lineComment) <|
    .cons (definition_eq_ok reads_reservedWord) <| .cons (definition_eq_ok reads_operator) <|
    .cons (definition_eq_ok reads_number) <| .cons (definition_eq_ok reads_stringOrCharacter) <|
    .cons (definition_eq_ok reads_separator) <| .cons (definition_eq_ok reads_identifier) <|
    .cons (definition_eq_ok reads_invalid) .nil

end Pascal
end PascalTokens
