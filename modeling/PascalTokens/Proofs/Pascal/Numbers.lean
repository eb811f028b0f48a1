import PascalTokens.Proofs.Pascal.Punctuation

/-! Numbers as tokens. A decimal number takes a fraction or an exponent only if it is complete, so two
points after a number are left to an operator; the sign of another base with no digit after it is an
operator too. -/
namespace PascalTokens

namespace Pascal

open Pattern

def IsDigits (l : Line) : Prop := l ≠ [] ∧ ∀ c ∈ l, Unicode.isDecimalDigit c

def IsFraction (l : Line) : Prop := ∃ ds, l = '.' :: ds ∧ IsDigits ds

/-- Is the text digits, after a sign or none? -/
def IsSigned (l : Line) : Prop :=
  ∃ s ds, l = s ++ ds ∧ ((∃ c ∈ ['-','+'], s = [c]) ∨ s = []) ∧ IsDigits ds

def IsExponent (l : Line) : Prop := ∃ c m, l = c :: m ∧ c ∈ ['e','E'] ∧ IsSigned m

def IsDecimal (l : Line) : Prop :=
  ∃ ds f e, l = ds ++ (f ++ e) ∧ IsDigits ds ∧ (IsFraction f ∨ f = []) ∧ (IsExponent e ∨ e = [])

/-- The signs of the other bases, and their digits. -/
def radixes : List (Char × (Char → Bool)) :=
  [('$',isHexDigit), ('&',isOctalDigit), ('%',isBinaryDigit)]

section Texts

variable {l m a b : Line} {c : Char}

theorem IsDigits.isDecimal (h : IsDigits l) : IsDecimal l :=
  ⟨l,[],[],by simp,h,.inr rfl,.inr rfl⟩

theorem spells_char_many1 {s : Char → Bool} :
    (sequence [char c,many1 s]).Spells l ↔ ∃ ds, l = c :: ds ∧ ds ≠ [] ∧ ∀ d ∈ ds, s d := by
  constructor
  · rintro ⟨_,ds,rfl,hc,hds⟩
    rw [spells_char.1 hc]
    exact ⟨ds,rfl,hds⟩
  · rintro ⟨ds,rfl,hds⟩
    exact ⟨[c],ds,rfl,spells_char.2 rfl,hds⟩

theorem spells_signed : (sequence [opt (among ['-', '+']),digits]).Spells l ↔ IsSigned l := by
  refine exists_congr fun s => exists_congr fun ds => and_congr_right fun _ =>
    and_congr_left fun _ => ?_
  rw [spells_opt,spells_among]

theorem spells_exponent :
    (sequence [among ['e', 'E'],opt (among ['-', '+']),digits]).Spells l ↔ IsExponent l := by
  constructor
  · rintro ⟨_,m,rfl,hletter,hm⟩
    obtain ⟨c,hc,rfl⟩ := spells_among.1 hletter
    exact ⟨c,m,rfl,hc,spells_signed.1 hm⟩
  · rintro ⟨c,m,rfl,hc,hm⟩
    exact ⟨[c],m,rfl,spells_among.2 ⟨c,hc,rfl⟩,spells_signed.2 hm⟩

theorem spells_decimalNumber : decimalNumber.Spells l ↔ IsDecimal l := by
  constructor
  · rintro ⟨ds,_,rfl,hds,f,e,rfl,hf,he⟩
    exact ⟨ds,f,e,rfl,hds,hf.imp_left spells_char_many1.1,he.imp_left spells_exponent.1⟩
  · rintro ⟨ds,f,e,rfl,hds,hf,he⟩
    exact ⟨ds,f ++ e,rfl,hds,f,e,rfl,hf.imp_left spells_char_many1.2,
      he.imp_left spells_exponent.2⟩

theorem not_isDecimalDigit_of_mem_radixes : ∀ p ∈ radixes, ¬Unicode.isDecimalDigit p.1 := by
  decide

theorem number_eq : number =
    choice (radixes.map (fun p => sequence [char p.1,many1 p.2]) ++ [decimalNumber]) := rfl

theorem spells_number : number.Spells l ↔
    (∃ p ∈ radixes, ∃ ds, l = p.1 :: ds ∧ ds ≠ [] ∧ ∀ d ∈ ds, p.2 d) ∨ IsDecimal l := by
  rw [number_eq,spells_choice]
  simp only [List.mem_append,or_and_right,exists_or,List.mem_map,exists_exists_and_eq_and,
    List.mem_singleton,exists_eq_left,spells_char_many1,spells_decimalNumber]

theorem IsDecimal.exists_cons (h : IsDecimal l) :
    ∃ c m, l = c :: m ∧ Unicode.isDecimalDigit c := by
  obtain ⟨ds,f,e,rfl,hds,-⟩ := h
  obtain ⟨c,m,rfl⟩ := List.exists_cons_of_ne_nil hds.1
  exact ⟨c,m ++ (f ++ e),rfl,hds.2 c List.mem_cons_self⟩

theorem IsDigits.not_mem (h : IsDigits l) (hc : ¬Unicode.isDecimalDigit c) : c ∉ l :=
  fun hmem => hc (h.2 c hmem)

theorem IsSigned.not_mem (h : IsSigned l) (hc : ¬Unicode.isDecimalDigit c)
    (hs : c ∉ ['-','+']) : c ∉ l := by
  obtain ⟨s,ds,rfl,hsign,hds⟩ := h
  refine List.not_mem_append ?_ (hds.not_mem hc)
  rcases hsign with ⟨d,hd,rfl⟩ | rfl
  · exact fun h => hs (List.mem_singleton.1 h ▸ hd)
  · exact List.not_mem_nil

theorem not_isDecimalDigit_of_letter (hc : c ∈ ['e','E']) : ¬Unicode.isDecimalDigit c := by
  rcases List.mem_pair.1 hc with rfl | rfl
  · decide
  · decide

theorem IsExponent.point_not_mem (h : IsExponent l) : '.' ∉ l := by
  obtain ⟨c,m,rfl,hc,hm⟩ := h
  refine List.not_mem_cons_of_ne_of_not_mem ?_ (hm.not_mem (by decide) (by decide))
  rintro rfl
  exact absurd hc (by decide)

theorem IsDecimal.digit_of_point (h : IsDecimal (a ++ '.' :: b)) :
    ∃ d m, b = d :: m ∧ Unicode.isDecimalDigit d := by
  obtain ⟨ds,f,e,hl,hds,hf,he⟩ := h
  have hwhole : '.' ∉ ds := hds.not_mem (by decide)
  have hexponent : '.' ∉ e := by
    rcases he with he | rfl
    · exact he.point_not_mem
    · exact List.not_mem_nil
  rcases hf with ⟨gs,rfl,hgs⟩ | rfl
  · have hrest : '.' ∉ gs ++ e := List.not_mem_append (hgs.not_mem (by decide)) hexponent
    obtain ⟨-,-,rfl⟩ := (List.append_cons_inj_of_notMem hwhole hrest).1 hl.symm
    obtain ⟨d,m,rfl⟩ := List.exists_cons_of_ne_nil hgs.1
    exact ⟨d,m ++ e,rfl,hgs.2 d List.mem_cons_self⟩
  · have hnone : '.' ∉ ds ++ ([] ++ e) := List.not_mem_append hwhole hexponent
    rw [← hl] at hnone
    exact absurd (by simp) hnone

theorem IsDecimal.signed_of_letter (h : IsDecimal (a ++ c :: b)) (hc : c ∈ ['e','E']) :
    IsSigned b := by
  have hdigit := not_isDecimalDigit_of_letter hc
  have hsign : c ∉ ['-','+'] := not_mem_of_all (by decide) hc
  have hpoint : c ∉ ['.'] := not_mem_of_all (by decide) hc
  obtain ⟨ds,f,e,hl,hds,hf,he⟩ := h
  have hmantissa : c ∉ ds ++ f := by
    refine List.not_mem_append (hds.not_mem hdigit) ?_
    rcases hf with ⟨gs,rfl,hgs⟩ | rfl
    · exact List.not_mem_cons_of_ne_of_not_mem (List.ne_of_not_mem_cons hpoint)
        (hgs.not_mem hdigit)
    · exact List.not_mem_nil
  rw [← List.append_assoc] at hl
  rcases he with ⟨d,m,rfl,-,hm⟩ | rfl
  · obtain ⟨-,-,rfl⟩ :=
      (List.append_cons_inj_of_notMem hmantissa (hm.not_mem hdigit hsign)).1 hl.symm
    exact hm
  · rw [List.append_nil] at hl
    rw [← hl] at hmantissa
    exact absurd (by simp) hmantissa

theorem IsDecimal.isLongest (h : IsDecimal a) : IsLongest IsDecimal (a ++ '.' :: '.' :: m) a := by
  refine ⟨⟨_,rfl⟩,h,fun b hb hdecimal => ?_⟩
  by_contra hlt
  obtain ⟨x,rfl⟩ : a <+: b := List.prefix_of_prefix_length_le ⟨_,rfl⟩ hb (by omega)
  rw [List.prefix_append_right_inj] at hb
  obtain ⟨c,x,rfl⟩ : ∃ c x', x = c :: x' := by
    refine List.exists_cons_of_ne_nil fun hx => hlt ?_
    simp [hx]
  obtain ⟨rfl,hx⟩ := List.cons_prefix_cons.1 hb
  obtain ⟨d,y,rfl,hd⟩ := hdecimal.digit_of_point
  obtain ⟨rfl,-⟩ := List.cons_prefix_cons.1 hx
  exact absurd hd (by decide)

end Texts

section Longest

theorem longest_digits : digits.Longest := (ordered_many _).longest

theorem begins_digits : digits.Begins (Unicode.isDecimalDigit ·) := fun _ hc => hc

theorem longest_char_many1 (c : Char) (s : Char → Bool) :
    (sequence [char c,many1 s]).Longest :=
  longest_seq_of_single (single_one _) (ordered_many s).longest

theorem longest_exponent :
    (sequence [among ['e', 'E'],opt (among ['-', '+']),digits]).Longest := by
  refine longest_seq_of_single (single_one _) ?_
  refine longest_opt_seq (begins_among.2 fun _ hc => hc) begins_digits ?_
    (longest_seq_of_single (single_one _) longest_digits) longest_digits
  intro c hc
  rcases List.mem_pair.1 hc with rfl | rfl
  · decide
  · decide

/-- What may follow the digits of a decimal number does not begin with one. -/
theorem longest_decimalNumber : decimalNumber.Longest := by
  have hfraction : (sequence [char '.',digits]).Begins (· = '.') :=
    begins_sequence_cons.2 (begins_char.2 rfl)
  have hexponent : (sequence [among ['e', 'E'],opt (among ['-', '+']),digits]).Begins
      (· ∈ ['e','E']) := begins_sequence_cons.2 (begins_among.2 fun _ hc => hc)
  have hpoint : '.' ∉ ['e','E'] := by decide
  have hdigit : ∀ c, Unicode.isDecimalDigit c → c ∉ ['e','E'] :=
    fun c hc h => not_isDecimalDigit_of_letter h hc
  have hafter : (sequence [opt (sequence [char '.',digits]),
      opt (sequence [among ['e', 'E'],opt (among ['-', '+']),digits])]).Longest := by
    refine longest_seq_of_within (s := fun c => c = '.' ∨ Unicode.isDecimalDigit c)
      (longest_opt (longest_char_many1 _ _)) (longest_opt longest_exponent) (.inr rfl) ?_ ?_
    · exact within_opt.2 ⟨within_char.2 (.inl rfl),fun c hc => .inr hc⟩
    · rintro c k (rfl | hc)
      · exact eq_zero_of_mem_ends_opt hexponent hpoint
      · exact eq_zero_of_mem_ends_opt hexponent (hdigit c hc)
  refine longest_seq_of_within longest_digits hafter ⟨[],[],rfl,.inr rfl,.inr rfl⟩
    (s := (Unicode.isDecimalDigit ·)) (fun _ hc => hc) ?_
  intro c k hc j hj
  have hne : c ≠ '.' := ne_of_holds hc (by decide)
  obtain ⟨i,hi,i',hi',rfl⟩ := mem_ends_seq.1 hj
  obtain rfl := eq_zero_of_mem_ends_opt hfraction hne i hi
  rw [eq_zero_of_mem_ends_opt hexponent (hdigit c hc) i' hi']

theorem digit_of_point {a b : Line} (h : number.Spells (a ++ '.' :: b)) :
    ∃ d m, b = d :: m ∧ Unicode.isDecimalDigit d := by
  rcases spells_number.1 h with ⟨p,hp,ds,hl,-,hds⟩ | h
  · have hpoint : ∀ p ∈ radixes, p.1 ≠ '.' ∧ ¬p.2 '.' := by decide
    obtain ⟨hsign,hdigit⟩ := hpoint p hp
    have hmem : '.' ∈ p.1 :: ds := hl ▸ by simp
    rcases List.mem_cons.1 hmem with he | hmem
    · exact absurd he.symm hsign
    · exact absurd (hds _ hmem) hdigit
  · exact h.digit_of_point

theorem longest_number : number.Longest := by
  have hbegins : ∀ p : Char × (Char → Bool), (sequence [char p.1,many1 p.2]).Begins (· = p.1) :=
    fun p => begins_sequence_cons.2 (begins_char.2 rfl)
  rw [number_eq]
  apply longest_choice
  · refine List.forall_mem_append.2 ⟨List.forall_mem_map.2 fun p _ => longest_char_many1 _ _,?_⟩
    exact List.forall_mem_singleton.2 longest_decimalNumber
  · refine List.pairwise_append.2 ⟨?_,List.pairwise_singleton _ _,?_⟩
    · have hne : radixes.Pairwise fun p q => p.1 ≠ q.1 := by decide
      refine List.pairwise_map.2 (hne.imp fun h => ?_)
      exact ends_eq_nil_or_of_begins (hbegins _) (hbegins _) fun c hp hq => h (hp.symm.trans hq)
    · rintro r hr s hs
      obtain ⟨p,hp,rfl⟩ := List.mem_map.1 hr
      rw [List.mem_singleton.1 hs]
      refine ends_eq_nil_or_of_begins (hbegins p)
        (begins_sequence_cons.2 begins_digits : decimalNumber.Begins _) ?_
      rintro c rfl
      exact not_isDecimalDigit_of_mem_radixes p hp

end Longest

section First

variable {l m a : Line} {k : Kind} {c : Char} {p : Char × (Char → Bool)}

theorem number_mem : (Kind.number,number) ∈ lexemes := by simp [lexemes]

theorem IsFirst.number (h : IsFirst l .number a) : IsLongest number.Spells l a :=
  h.isLongest (by simp [lexemes]) longest_number

theorem kind_of_isDecimalDigit (hc : Unicode.isDecimalDigit c) (h : opens k c)
    (hk : k ≠ .invalid) : k = .number := by
  cases k with
  | compilerDirective => exact absurd (of_decide_eq_true h ▸ hc) (by decide)
  | comment => exact absurd h (not_contains_of_all (by decide) hc)
  | reservedWord =>
    rcases Bool.or_eq_true_iff.1 h with h | h
    · exact absurd h (not_isNameStart_of_isDecimalDigit hc)
    · exact absurd h (not_contains_of_all (by decide) hc)
  | operator => exact absurd h (not_contains_of_all (by decide) hc)
  | number => rfl
  | stringOrCharacter => exact absurd h (not_contains_of_all (by decide) hc)
  | separator => exact absurd h (not_contains_of_all (by decide) hc)
  | identifier => exact absurd h (not_isNameStart_of_isDecimalDigit hc)
  | invalid => exact absurd rfl hk

theorem exists_isFirst_decimal (m : Line) (hc : Unicode.isDecimalDigit c) :
    ∃ a, IsFirst (c :: m) .number a ∧ IsLongest IsDecimal (c :: m) a := by
  have hdigits : IsDigits [c] := ⟨List.cons_ne_nil c [],List.forall_mem_singleton.2 hc⟩
  obtain ⟨k,a,h⟩ := exists_isFirst m (visible_of_isDecimalDigit hc)
  have hne : k ≠ .invalid := h.ne_invalid number_mem (by decide) (List.prefix_append [c] m)
    (spells_number.2 (.inr hdigits.isDecimal))
  obtain rfl := kind_of_isDecimalDigit hc h.opens hne
  refine ⟨a,h,h.number.congr fun b hb => spells_number.trans (or_iff_right ?_)⟩
  rintro ⟨p,hp,ds,rfl,-⟩
  obtain ⟨rfl,-⟩ := List.cons_prefix_cons.1 hb
  exact not_isDecimalDigit_of_mem_radixes p hp hc

theorem isFirst_decimal (hl : IsLongest IsDecimal l a) : IsFirst l .number a := by
  obtain ⟨c,m,rfl,hc⟩ := hl.holds.exists_cons
  obtain ⟨x,rfl⟩ := hl.begins
  obtain ⟨b,hb,hlong⟩ := exists_isFirst_decimal (m ++ x) hc
  rwa [hlong.unique hl] at hb

theorem spells_number_radix (hp : p ∈ radixes) : number.Spells (p.1 :: m) ↔
    m ≠ [] ∧ ∀ d ∈ m, p.2 d := by
  rw [spells_number]
  constructor
  · rintro (⟨q,hq,ds,he,hds⟩ | h)
    · obtain ⟨hpq,rfl⟩ := List.cons.inj he
      obtain rfl : p = q :=
        List.inj_on_of_nodup_map (by decide : (radixes.map Prod.fst).Nodup) hp hq hpq
      exact hds
    · obtain ⟨c,b,he,hc⟩ := h.exists_cons
      rw [← (List.cons.inj he).1] at hc
      exact absurd hc (not_isDecimalDigit_of_mem_radixes p hp)
  · exact fun h => .inl ⟨p,hp,m,rfl,h⟩

theorem isLongest_radix (hp : p ∈ radixes) (hrun : m.takeWhile p.2 ≠ []) :
    IsLongest number.Spells (p.1 :: m) (p.1 :: m.takeWhile p.2) := by
  have hlong := isLongest_takeWhile p.2 m
  refine ⟨(List.prefix_cons_inj _).2 hlong.begins,
    (spells_number_radix hp).2 ⟨hrun,hlong.holds⟩,fun b hb hs => ?_⟩
  obtain rfl | ⟨ds,rfl,hpre⟩ := List.prefix_cons_iff.1 hb
  · exact Nat.zero_le _
  · exact Nat.succ_le_succ (hlong.longest ds hpre ((spells_number_radix hp).1 hs).2)

theorem IsFirst.radix (h : IsFirst (p.1 :: m) k a) (hp : p ∈ radixes) :
    k = .number ∨ k = .operator ∧ a = [p.1] := by
  have hkinds : ∀ p ∈ radixes, ∀ k ∈ Kind.all, Pascal.opens k p.1 →
      k = .number ∨ k = .operator ∨ k = .invalid := by decide
  have hsigns : ∀ p ∈ radixes, p.1 ∈ operatorSigns ∧ p.1 ∉ signs := by decide
  obtain ⟨hoperator,hsign⟩ := hsigns p hp
  rcases hkinds p hp k k.mem_all h.opens with rfl | rfl | rfl
  · exact .inl rfl
  · exact .inr ⟨rfl,h.operatorSign hsign⟩
  · exact absurd rfl (h.ne_invalid_of_sign (.inr hoperator))

theorem exists_isFirst_radix (m : Line) (hp : p ∈ radixes) :
    ∃ k a, IsFirst (p.1 :: m) k a := by
  have hvisible : ∀ p ∈ radixes, Visible p.1 := by decide
  exact exists_isFirst m (hvisible p hp)

theorem isFirst_radix (hp : p ∈ radixes) (hrun : m.takeWhile p.2 ≠ []) :
    IsFirst (p.1 :: m) .number (p.1 :: m.takeWhile p.2) := by
  have hlong := isLongest_radix hp hrun
  obtain ⟨k,a,h⟩ := exists_isFirst_radix m hp
  rcases h.radix hp with rfl | ⟨-,rfl⟩
  · rwa [h.number.unique hlong] at h
  · have hle := (h.length_le number_mem longest_number hlong.begins hlong.holds).1
    have hpos := List.length_pos_iff.2 hrun
    rw [List.length_cons,List.length_singleton] at hle
    omega

theorem isFirst_radixSign (hp : p ∈ radixes) (hrun : m.takeWhile p.2 = []) :
    IsFirst (p.1 :: m) .operator [p.1] := by
  obtain ⟨k,a,h⟩ := exists_isFirst_radix m hp
  rcases h.radix hp with rfl | ⟨rfl,rfl⟩
  · obtain ⟨c,ds,x,rfl,hx,hpre,-⟩ := h.exists_cons
    obtain ⟨rfl,rfl⟩ := List.cons.inj hx
    obtain ⟨hne,hds⟩ := (spells_number_radix hp).1 h.number.holds
    have hle := (isLongest_takeWhile p.2 m).longest ds hpre hds
    rw [hrun] at hle
    exact absurd (List.length_eq_zero_iff.1 (Nat.le_zero.1 hle)) hne
  · exact h

end First

/-- Is the token the number or the sign of a base with which `l` begins? -/
structure ReadsNumber (l : Line) (t : Token) : Prop where
  decimal : ∀ c m, l = c :: m → Unicode.isDecimalDigit c →
    ∃ a, IsLongest IsDecimal l a ∧ t.Takes .number a
  radix : ∀ p ∈ radixes, ∀ m, l = p.1 :: m → m.takeWhile p.2 ≠ [] →
    t.Takes .number (p.1 :: m.takeWhile p.2)
  radixSign : ∀ p ∈ radixes, ∀ m, l = p.1 :: m → m.takeWhile p.2 = [] → t.Takes .operator [p.1]
  opens : t.kind = .number →
    ∃ c m, l = c :: m ∧ (Unicode.isDecimalDigit c ∨ c ∈ ['$', '&', '%'])
  point : t.kind = .number → ∀ a b, t.value.toList = a ++ '.' :: b →
    ∃ c m, b = c :: m ∧ Unicode.isDecimalDigit c
  exponent : ∀ c m, l = c :: m → Unicode.isDecimalDigit c →
    ∀ a e b, t.value.toList = a ++ e :: b → e ∈ ['e','E'] → IsSigned b

/-- Are the tokens from `t` on a number, two points, and the longest number of the line `m`, side by
side? -/
def ReadsRange (ts : List Token) (t : Token) (a m : Line) : Prop :=
  ∃ before u v later b, ts = before ++ t :: u :: v :: later ∧ t.Takes .number a ∧
    u.Takes .operator ['.','.'] ∧ u.span.start = t.span.stop ∧
    IsLongest IsDecimal m b ∧ v.Takes .number b ∧ v.span.start = u.span.stop

end Pascal

namespace Catalog

open Pascal

/-- Where a token starts with a digit, it is the longest decimal number that begins there; with the sign
of another base it takes all the digits of the base that follow. Numbers do not begin otherwise. A
point or the letter of an exponent is taken only with digits after it, so in a range the two points
stand alone. -/
theorem tokenizeLine_numbers {text : Line} {line : Nat} {t : Token}
    (h : t ∈ pascal.tokenizeLine text line) :
    ReadsNumber (text.after t.span.start) t ∧
      ∀ a c m, text.after t.span.start = a ++ '.' :: '.' :: c :: m → IsDecimal a →
        Unicode.isDecimalDigit c → ReadsRange (pascal.tokenizeLine text line) t a (c :: m) := by
  obtain ⟨a,ha,ht⟩ := exists_isFirst_of_mem h
  constructor
  · constructor
    · intro c m hl hc
      obtain ⟨b,hb,hlong⟩ := exists_isFirst_decimal m hc
      rw [← hl] at hb hlong
      exact ⟨b,hlong,takes_of_isFirst h hb⟩
    · intro p hp m hl hrun
      exact takes_of_isFirst h (hl ▸ isFirst_radix hp hrun)
    · intro p hp m hl hrun
      exact takes_of_isFirst h (hl ▸ isFirst_radixSign hp hrun)
    · intro hk
      obtain ⟨c,b,m,-,hl,-,ho⟩ := ha.exists_cons
      rw [hk] at ho
      exact ⟨c,m,hl,(Bool.or_eq_true_iff.1 ho).symm.imp_right List.contains_iff_mem.1⟩
    · intro hk b x hb
      rw [hk] at ha
      rw [ht.value,String.toList_ofList] at hb
      exact digit_of_point (hb ▸ ha.number.holds)
    · intro c m hl hc b e x hb he
      obtain ⟨d,hd,hlong⟩ := exists_isFirst_decimal m hc
      rw [← hl] at hd
      obtain ⟨-,rfl⟩ := ha.unique hd
      rw [ht.value,String.toList_ofList] at hb
      exact (hb ▸ hlong.holds).signed_of_letter he
  · intro b c m hl hb hc
    have hf : IsFirst (b ++ '.' :: '.' :: c :: m) .number b := isFirst_decimal hb.isLongest
    have hpair : IsFirst (['.','.'] ++ c :: m) .operator ['.','.'] :=
      isFirst_pair (w := "..") (by decide) (List.prefix_append _ _)
    obtain ⟨d,hd,hlong⟩ := exists_isFirst_decimal m hc
    obtain ⟨x,hx⟩ := hlong.begins
    rw [← hx] at hd
    obtain ⟨before,hts⟩ := exists_eq_tokensFrom h hl hf
    have hafter := tokensFrom_ofLine hpair line t.span.stop
    rw [← hx,tokensFrom_ofLine hd] at hafter
    rw [hx] at hafter
    exact ⟨before,_,_,_,d,hts.trans (congrArg (before ++ t :: ·) hafter),
      takes_of_isFirst h (hl ▸ hf),⟨rfl,rfl,rfl⟩,rfl,hlong,⟨rfl,rfl,rfl⟩,rfl⟩

/-- A range, an exponent without digits, and the signs of two bases. -/
theorem tokenizeLine_numbers_range :
    pascal.tokenizeLine "0..1e&9$e".toList 1 =
        [⟨.number,"0",1,⟨0,1⟩⟩,⟨.operator,"..",1,⟨1,3⟩⟩,⟨.number,"1",1,⟨3,4⟩⟩,
          ⟨.identifier,"e",1,⟨4,5⟩⟩,⟨.operator,"&",1,⟨5,6⟩⟩,⟨.number,"9",1,⟨6,7⟩⟩,
          ⟨.number,"$e",1,⟨7,9⟩⟩] ∧
      ReadsRange (pascal.tokenizeLine "0..1e&9$e".toList 1) ⟨.number,"0",1,⟨0,1⟩⟩ ['0']
        "1e&9$e".toList ∧
      (∃ a, IsLongest IsDecimal "1e&9$e".toList a ∧
        Token.Takes ⟨.number,"1",1,⟨3,4⟩⟩ .number a) ∧
      Token.Takes ⟨.operator,"&",1,⟨5,6⟩⟩ .operator ['&'] ∧
      Token.Takes ⟨.number,"$e",1,⟨7,9⟩⟩ .number ['$','e'] := by
  have hts : pascal.tokenizeLine "0..1e&9$e".toList 1 =
      [⟨.number,"0",1,⟨0,1⟩⟩,⟨.operator,"..",1,⟨1,3⟩⟩,⟨.number,"1",1,⟨3,4⟩⟩,
        ⟨.identifier,"e",1,⟨4,5⟩⟩,⟨.operator,"&",1,⟨5,6⟩⟩,⟨.number,"9",1,⟨6,7⟩⟩,
        ⟨.number,"$e",1,⟨7,9⟩⟩] := by
    rw [pascal_eq_spelled]
    decide +kernel
  have hzero := tokenizeLine_numbers (hts ▸ List.mem_cons_self)
  have hnumbers : ∀ t ∈ [⟨.number,"0",1,⟨0,1⟩⟩,⟨.operator,"..",1,⟨1,3⟩⟩,⟨.number,"1",1,⟨3,4⟩⟩,
        ⟨.identifier,"e",1,⟨4,5⟩⟩,⟨.operator,"&",1,⟨5,6⟩⟩,⟨.number,"9",1,⟨6,7⟩⟩,
        ⟨.number,"$e",1,⟨7,9⟩⟩],
      ReadsNumber (Line.after "0..1e&9$e".toList t.span.start) t := by
    intro t ht
    exact (tokenizeLine_numbers (hts ▸ ht)).1
  simp only [List.forall_mem_cons] at hnumbers
  obtain ⟨-,-,hone,-,hsign,-,hhex,-⟩ := hnumbers
  have hdigits : IsDigits ['0'] := ⟨by decide,List.forall_mem_singleton.2 (by decide)⟩
  exact ⟨hts,hzero.2 ['0'] '1' "e&9$e".toList rfl hdigits.isDecimal (by decide),
    hone.decimal '1' _ rfl (by decide),hsign.radixSign ('&',isOctalDigit) (by simp [radixes]) _ rfl rfl,
    hhex.radix ('$',isHexDigit) (by simp [radixes]) _ rfl (by decide)⟩

end Catalog
end PascalTokens
