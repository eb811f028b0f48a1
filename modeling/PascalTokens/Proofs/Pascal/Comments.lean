import PascalTokens.Proofs.Pascal.Characters
import PascalTokens.Proofs.Pattern.Preference

/-! What comments of Pascal are, and where comments and directives end: between braces at the first
closing brace, between parentheses and stars at the first end, else with the line. -/
namespace PascalTokens.Pascal

open Pattern

/-- A directive with a name from the list. -/
def directiveOf (names : List String) : Pattern :=
  sequence [text "\x7b$",
    choice (names.map caselessText ++ [among directiveLetters]),
    opt (alt (among ['+', '-'])
      (sequence [one Unicode.isWhiteSpace,many0 (· != '\x7d')])),
    char '\x7d']

section Names

variable {names : List String}

theorem within_directiveName (h : ∀ w ∈ names, w ∈ directiveNames) :
    (choice (names.map caselessText ++ [among directiveLetters])).Within
      fun c => Visible c ∧ c ≠ '\x7d' := by
  refine within_choice.2 (List.forall_mem_append.2 ⟨List.forall_mem_map.2 fun w hw => ?_,?_⟩)
  · exact within_caselessText.2 fun c hc =>
      visible_of_mem_asciiOrbit (alphanum_of_mem_directiveNames (h w hw) hc)
  · refine List.forall_mem_singleton.2 (within_among.2 fun c hc => ?_)
    exact ⟨visible_of_allVisible (by decide) c hc,
      ne_of_mem_of_not_mem hc (by decide)⟩

theorem stopsAt_directiveOf (h : ∀ w ∈ names, w ∈ directiveNames) :
    (directiveOf names).StopsAt '\x7d' := by
  have hopen : (text "\x7b$").Within (· ≠ '\x7d') := within_text.2 fun c hc =>
    ne_of_mem_of_not_mem hc (by decide)
  have hname := (within_directiveName h).imp fun _ h => h.2
  have hblank : (sequence [one Unicode.isWhiteSpace,many0 (· != '\x7d')]).Within (· ≠ '\x7d') :=
    ⟨fun c hc => ne_of_holds hc (by decide),within_opt.2 fun c => bne_iff_ne.1⟩
  have hrest : (opt (alt (among ['+', '-'])
      (sequence [one Unicode.isWhiteSpace,many0 (· != '\x7d')]))).Within (· ≠ '\x7d') :=
    within_opt.2 ⟨within_among.2 fun c hc => ne_of_mem_of_not_mem hc (by decide),hblank⟩
  exact stopsAt_seq hopen (stopsAt_seq hname (stopsAt_seq hrest (stopsAt_char _)))

end Names

theorem stopsAt_directive : directive.StopsAt '\x7d' := stopsAt_directiveOf fun _ h => h

theorem stopsAt_braceComment : braceComment.StopsAt '\x7d' := by
  have hinner : (opt (sequence [one fun c => c != '$' && c != '\x7d',
      many0 (· != '\x7d')])).Within (· ≠ '\x7d') := by
    refine within_opt.2 ⟨fun c hc => ?_,within_opt.2 fun c => bne_iff_ne.1⟩
    exact bne_iff_ne.1 (Bool.and_eq_true_iff.1 hc).2
  exact stopsAt_seq (within_char.2 (by decide)) (stopsAt_seq hinner (stopsAt_char _))

section Texts

variable {l : Line}

theorem spells_braceComment : braceComment.Spells l ↔
    ∃ a, l = '\x7b' :: (a ++ ['\x7d']) ∧ '\x7d' ∉ a ∧ a.head? ≠ some '$' := by
  have hinner : ∀ a, (opt (sequence [one fun c => c != '$' && c != '\x7d',
      many0 (· != '\x7d')])).Spells a ↔ '\x7d' ∉ a ∧ a.head? ≠ some '$' := by
    intro a
    rw [spells_opt,spells_one_many0]
    simp only [forall_mem_bne]
    cases a with
    | nil => simp
    | cons c a => grind
  constructor
  · rintro ⟨_,_,rfl,ho,a,_,rfl,ha,hc⟩
    rw [spells_char.1 ho,spells_char.1 hc]
    exact ⟨a,rfl,(hinner a).1 ha⟩
  · rintro ⟨a,rfl,ha⟩
    exact ⟨['\x7b'],_,rfl,spells_char.2 rfl,a,['\x7d'],rfl,(hinner a).2 ha,spells_char.2 rfl⟩

theorem spells_starComment : starComment.Spells l ↔
    ∃ a, l = '(' :: '*' :: (a ++ ['*',')']) ∧ '\n' ∉ a := by
  have hinner : ∀ a, (alt empty (many false (· != '\n'))).Spells a ↔ '\n' ∉ a := by
    intro a
    rw [← forall_mem_bne]
    exact or_comm.trans spells_many0
  constructor
  · rintro ⟨_,_,rfl,ho,a,_,rfl,ha,hc⟩
    rw [spells_text.1 ho,spells_text.1 hc]
    exact ⟨a,rfl,(hinner a).1 ha⟩
  · rintro ⟨a,rfl,ha⟩
    exact ⟨['(','*'],_,rfl,spells_text.2 rfl,a,['*',')'],rfl,(hinner a).2 ha,spells_text.2 rfl⟩

theorem spells_lineComment : lineComment.Spells l ↔ ∃ a, l = '/' :: '/' :: a ∧ '\n' ∉ a := by
  constructor
  · rintro ⟨_,a,rfl,ho,ha⟩
    rw [spells_text.1 ho]
    exact ⟨a,rfl,forall_mem_bne.1 (spells_many0.1 ha)⟩
  · rintro ⟨a,rfl,ha⟩
    exact ⟨['/','/'],a,rfl,spells_text.2 rfl,spells_many0.2 (forall_mem_bne.2 ha)⟩

end Texts

theorem ordered_starComment : starComment.Ordered (· ≤ ·) := by
  have hle : ∀ j m n : Nat, m ≤ n → j + m ≤ j + n := fun j _ _ h => Nat.add_le_add_left h j
  refine ordered_seq_of_single hle (single_text _) ?_
  refine ordered_seq_of_length Nat.le_refl hle (j := 2) (ordered_opt_lazy (ordered_many_lazy _)) ?_
  intro l hl
  rw [spells_text.1 hl]
  rfl

theorem ordered_lineComment : lineComment.Ordered (· ≥ ·) :=
  ordered_seq_of_single (fun j _ _ h => Nat.add_le_add_left h j) (single_text _)
    (ordered_opt (ordered_many _))

end PascalTokens.Pascal
