import PascalTokens.Catalog
import PascalTokens.Proofs.CaseFolding
import PascalTokens.Proofs.Reading.Encoding

/-! The words of Pascal are made of ASCII letters and digits, and the catalog of Pascal is made of their
letters. -/
namespace PascalTokens

theorem Text.encode_map_ofNat {bs : List UInt8} (h : bs.all (·.toNat < 128)) :
    encode (bs.map (Char.ofNat ·.toNat)) = bs := by
  have hbyte : ∀ n < 128, String.utf8EncodeChar (Char.ofNat n) = [UInt8.ofNat n] := by decide
  induction bs with
  | nil => rfl
  | cons b bs ih =>
    obtain ⟨hb,hbs⟩ := Bool.and_eq_true_iff.1 (List.all_cons ▸ h)
    rw [List.map_cons,encode_cons,hbyte _ (of_decide_eq_true hb),ih hbs,UInt8.ofNat_toNat]
    rfl

namespace Pascal

/-- The letters of a word by its bytes, which are quicker to evaluate than its characters. -/
def letters (w : String) : List Char := w.toByteArray.data.toList.map (Char.ofNat ·.toNat)

theorem toList_eq_letters {w : String} (h : w.toByteArray.data.toList.all (·.toNat < 128)) :
    w.toList = letters w := by
  have hw : String.ofList (letters w) = w := by
    refine String.toByteArray_inj.1 ?_
    rw [← Text.toByteArray_encode,letters,Text.encode_map_ofNat h]
    exact ByteArray.ext (List.data_toByteArray.trans Array.toArray_toList)
  exact (congrArg String.toList hw).symm.trans String.toList_ofList

theorem toList_of_mem {w : String} (hw : w ∈ directiveNames ++ reservedWords) :
    w.toList = letters w := by
  have h : (directiveNames ++ reservedWords).all fun w =>
      w.toByteArray.data.toList.all (·.toNat < 128) := by decide +kernel
  exact toList_eq_letters (List.all_eq_true.1 h w hw)

theorem length_le_of_mem {w : String} (hw : w ∈ directiveNames ++ reservedWords) :
    w.toList.length ≤ 20 := by
  have h : (directiveNames ++ reservedWords).all fun w => (letters w).length ≤ 20 := by
    decide +kernel
  rw [toList_of_mem hw]
  exact of_decide_eq_true (List.all_eq_true.1 h w hw)

theorem length_names_le : directiveNames.length ≤ 400 ∧ reservedWords.length ≤ 400 := by
  decide +kernel

/-- Reserved words are small letters and digits, with a letter at the start. -/
theorem letters_of_mem_reservedWords {w : String} (hw : w ∈ reservedWords) :
    (∃ c ∈ w.toList.head?, c.isLower) ∧ ∀ c ∈ w.toList, c.isLower ∨ c.isDigit := by
  have h : reservedWords.all fun w => (letters w).head?.any Char.isLower &&
      (letters w).all fun c => c.isLower || c.isDigit := by decide
  rw [toList_of_mem (List.mem_append_right _ hw)]
  obtain ⟨hhead,hall⟩ := Bool.and_eq_true_iff.1 (List.all_eq_true.1 h w hw)
  refine ⟨(Option.any_eq_true _ _).1 hhead,fun c hc => ?_⟩
  exact Bool.or_eq_true_iff.1 (List.all_eq_true.1 hall c hc)

theorem alphanum_of_mem_reservedWords {w : String} (hw : w ∈ reservedWords) {c : Char}
    (hc : c ∈ w.toList) : c.isAlphanum := by
  rcases (letters_of_mem_reservedWords hw).2 c hc with h | h <;>
    simp [Char.isAlphanum,Char.isAlpha,h]

theorem alphanum_of_mem_directiveNames {w : String} (hw : w ∈ directiveNames) {c : Char}
    (hc : c ∈ w.toList) : c.isAlphanum := by
  have h : directiveNames.all fun w => (letters w).all Char.isAlphanum := by decide +kernel
  rw [toList_of_mem (List.mem_append_left _ hw)] at hc
  exact List.all_eq_true.1 (List.all_eq_true.1 h w hw) c hc

section Spelled

open Pattern

def spelledWord (w : String) : Pattern := sequence ((letters w).map caseless)

theorem map_spelledWord {ws : List String} (h : ws ⊆ directiveNames ++ reservedWords) :
    ws.map spelledWord = ws.map caselessText :=
  List.map_congr_left fun w hw => by rw [spelledWord,caselessText,toList_of_mem (h hw)]

def spelledDirective : Pattern :=
  sequence [text "\x7b$",
    choice (directiveNames.map spelledWord ++ [among directiveLetters]),
    opt (alt (among ['+', '-'])
      (sequence [one Unicode.isWhiteSpace,many0 (· != '\x7d')])),
    char '\x7d']

theorem spelledDirective_eq : spelledDirective = directive := by
  rw [spelledDirective,map_spelledWord (List.subset_append_left _ _)]
  rfl

def spelledReservedWord : Pattern := choice (reservedWords.map spelledWord)

theorem spelledReservedWord_eq : spelledReservedWord = reservedWord := by
  rw [spelledReservedWord,map_spelledWord (List.subset_append_right _ _),reservedWord]

def spelledDefinitions : List Definition :=
  (Catalog.pascal.definitions.set 0 ⟨.compilerDirective,spelledDirective.matcher⟩).set 4
    ⟨.reservedWord,spelledReservedWord.matcher⟩

theorem spelledDefinitions_eq : spelledDefinitions = Catalog.pascal.definitions := by
  rw [spelledDefinitions,spelledDirective_eq,spelledReservedWord_eq]
  rfl

/-- The catalog of Pascal with its words letter by letter, which is quicker to evaluate. -/
def spelled : Catalog := ⟨spelledDefinitions,spelledDefinitions_eq ▸ Catalog.pascal.ordered⟩

theorem pascal_eq_spelled : Catalog.pascal = spelled :=
  (Catalog.mk.injEq _ _ _ _).mpr spelledDefinitions_eq.symm

end Spelled

end Pascal
end PascalTokens
