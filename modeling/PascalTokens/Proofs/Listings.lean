import PascalTokens.Listing
import PascalTokens.Proofs.LineEnds
import PascalTokens.Proofs.Pascal.Letters
import PascalTokens.Proofs.Reading.Newlines
import PascalTokens.Proofs.Streams

/-! The lines of a listing. As long as no token's text holds a newline, each token that is shown has
a line of its own, and from the line one can tell the token: numbers hold no punctuation, the names
of kinds hold no space, and the text is all that is left but for a quote at either end. -/
namespace PascalTokens

theorem append_cons_inj {c : Char} {a b x y : List Char} (ha : c ∉ a) (hb : c ∉ b)
    (h : a ++ c :: x = b ++ c :: y) : a = b ∧ x = y := by
  have hsplit := congrArg (List.splitOn c) h
  rw [List.splitOn_append_cons_self_of_not_mem ha,List.splitOn_append_cons_self_of_not_mem hb]
    at hsplit
  obtain rfl := (List.cons.inj hsplit).1
  exact ⟨rfl,(List.cons.inj (List.append_cancel_left h)).2⟩

section Numbers

variable {m n : Nat} {c : Char}

theorem toString_toList_inj (h : (toString m).toList = (toString n).toList) : m = n := by
  rw [Nat.toString_eq_repr,Nat.toString_eq_repr,Nat.toList_repr,Nat.toList_repr] at h
  have hn := congrArg (Nat.ofDigitChars 10 · 0) h
  simpa only [Nat.ofDigitChars_toDigits (by decide : 1 < 10) (Nat.le_refl 10)] using hn

theorem not_mem_toString (h : c.isDigit = false) (n : Nat) : c ∉ (toString n).toList := by
  intro hm
  rw [Nat.toString_eq_repr,Nat.toList_repr] at hm
  rw [Nat.isDigit_of_mem_toDigits (by decide) (by decide) hm] at h
  cases h

/-- A number ends where punctuation follows it. -/
theorem toString_append_inj (hc : c.isDigit = false) {x y : List Char}
    (h : (toString m).toList ++ c :: x = (toString n).toList ++ c :: y) : m = n ∧ x = y := by
  obtain ⟨hmn,hxy⟩ := append_cons_inj (not_mem_toString hc m) (not_mem_toString hc n) h
  exact ⟨toString_toList_inj hmn,hxy⟩

end Numbers

namespace Kind

theorem space_not_mem_name (k : Kind) : ' ' ∉ k.name.toList := by
  cases k <;> decide

theorem newline_not_mem_name (k : Kind) : '\n' ∉ k.name.toList := by
  cases k <;> decide

theorem name_injective {j k : Kind} (h : j.name = k.name) : j = k := by
  revert h
  cases j <;> cases k <;> decide

end Kind

namespace Token

def IsUnbroken (t : Token) : Prop := '\n' ∉ t.value.toList

instance (t : Token) : Decidable t.IsUnbroken := inferInstanceAs (Decidable ('\n' ∉ t.value.toList))

def place (t : Token) : Line :=
  (toString t.line).toList ++ ':' :: ((toString t.span.start).toList ++
    '-' :: (toString t.span.stop).toList)

/-- The kind and the text of a token. -/
def content (t : Token) : Kind × String := (t.kind,t.value)

def label (p : Kind × String) : Line :=
  p.1.name.toList ++ ' ' :: '\'' :: (p.2.toList ++ ['\''])

variable {t u : Token}

theorem toList_toString (t : Token) : (toString t).toList = label t.content := by
  change (t.kind.name ++ " '" ++ t.value ++ "'").toList = _
  simp [label,content]

theorem not_mem_place {c : Char} (h : c.isDigit = false) (hc : c ≠ ':') (hd : c ≠ '-') (t : Token) :
    c ∉ t.place := by
  have hn := fun n => not_mem_toString h n
  simp only [place,List.mem_append,List.mem_cons,not_or]
  exact ⟨hn _,hc,hn _,hd,hn _⟩

theorem place_inj (h : t.place = u.place) : t.line = u.line ∧ t.span = u.span := by
  obtain ⟨hline,h⟩ := toString_append_inj rfl h
  obtain ⟨hstart,h⟩ := toString_append_inj rfl h
  have hstop := toString_toList_inj h
  refine ⟨hline,?_⟩
  rcases hs : t.span
  rcases hu : u.span
  simp_all

theorem label_injective : Function.Injective label := by
  intro p q h
  obtain ⟨hname,h⟩ := append_cons_inj p.1.space_not_mem_name q.1.space_not_mem_name h
  have hvalue := List.append_cancel_right (List.cons.inj h).2
  exact Prod.ext (Kind.name_injective (String.toList_inj.1 hname)) (String.toList_inj.1 hvalue)

theorem newline_not_mem_label (h : t.IsUnbroken) : '\n' ∉ label t.content := by
  simp only [label,List.mem_append,List.mem_cons,not_or]
  exact ⟨t.kind.newline_not_mem_name,by decide,by decide,h,by decide,by simp⟩

end Token

namespace ListingOptions

variable (o : ListingOptions)

/-- The line of a token in the listing. -/
def line (t : Token) : Line :=
  (if o.positions then t.place ++ [' '] else []) ++ Token.label t.content

theorem line_of_positions (h : o.positions = true) (t : Token) :
    o.line t = t.place ++ ' ' :: Token.label t.content := by
  rw [line,if_pos h,List.append_assoc]
  rfl

theorem line_of_not_positions (h : o.positions = false) (t : Token) :
    o.line t = Token.label t.content := by
  rw [line,h]
  rfl

theorem toList_entry (t : Token) :
    (o.entry t).toList = o.line t ++ Text.Terminator.newline.text := by
  cases hp : o.positions with
  | false => simp [entry,line,hp,Token.toList_toString,Text.Terminator.text]
  | true => simp [entry,line,hp,Token.toList_toString,Token.place,Text.Terminator.text]

theorem isLine_line {t : Token} (h : t.IsUnbroken) : Text.IsLine (o.line t) := by
  constructor
  · have hplace := Token.not_mem_place (c := '\n') rfl (by decide) (by decide) t
    have hlabel := Token.newline_not_mem_label h
    cases hp : o.positions with
    | false => rwa [o.line_of_not_positions hp]
    | true =>
      rw [o.line_of_positions hp]
      exact List.not_mem_append hplace (List.not_mem_cons_of_ne_of_not_mem (by decide) hlabel)
  · have hlast : (o.line t).getLast? = some '\'' := by
      simp [line,Token.label,Token.content,List.getLast?_cons]
    rw [hlast]
    decide

theorem holds_entries (ts : List Token) :
    Text.Holds (ts.map o.line) (String.join (ts.map o.entry)).toList := by
  induction ts with
  | nil => exact .nil
  | cons t ts ih =>
    rw [String.toList_join] at ih ⊢
    rw [List.map_cons,List.map_cons,List.flatMap_cons,toList_entry,List.append_assoc]
    exact .ended _ _ ih

theorem lines_listing {ts : List Token} (h : ∀ t ∈ ts, t.IsUnbroken) :
    Text.lines (listing ts o).toList = (ts.filter o.shows).map o.line := by
  apply (o.holds_entries (ts.filter o.shows)).lines_eq
  intro l hl
  obtain ⟨t,ht,rfl⟩ := List.mem_map.1 hl
  exact o.isLine_line (h t (List.mem_of_mem_filter ht))

theorem filter_shows (h : o.showComments = true) (ts : List Token) : ts.filter o.shows = ts := by
  refine List.filter_eq_self.2 fun t _ => ?_
  rw [shows,h,Bool.or_true]

theorem line_injective (h : o.positions = true) : Function.Injective o.line := by
  intro t u he
  rw [o.line_of_positions h,o.line_of_positions h] at he
  have hspace := Token.not_mem_place (c := ' ') rfl (by decide) (by decide)
  obtain ⟨hplace,hlabel⟩ := append_cons_inj (hspace t) (hspace u) he
  obtain ⟨hline,hspan⟩ := Token.place_inj hplace
  obtain ⟨hkind,hvalue⟩ := Prod.mk.inj (Token.label_injective hlabel)
  obtain ⟨kind,value,line,span⟩ := t
  cases hkind
  cases hvalue
  cases hline
  cases hspan
  rfl

end ListingOptions

namespace Catalog

variable (c : Catalog)

theorem isUnbroken_of_mem_tokenizeLine {text : Line} {line : Nat} {t : Token} (h : '\n' ∉ text)
    (ht : t ∈ c.tokenizeLine text line) : t.IsUnbroken := by
  obtain ⟨before,value,after,rfl,-,hvalue,-,-⟩ := isPart_of_mem_tokenizeLine ht
  rw [Token.IsUnbroken,hvalue,String.toList_ofList]
  exact fun hm => h (by simp [hm])

theorem isUnbroken_of_mem_tokenizeText (text : List Char) :
    ∀ t ∈ c.tokenizeText text, t.IsUnbroken := by
  intro t ht
  obtain ⟨p,hp,ht⟩ := List.mem_flatMap.1 ht
  have hl : p.1 ∈ Text.lines text := List.fst_mem_of_mem_zipIdx hp
  exact c.isUnbroken_of_mem_tokenizeLine (Text.newline_not_mem_of_mem_lines hl) ht

theorem isUnbroken_of_mem_tokenize (s : Source) : ∀ t ∈ (c.tokenize s).1, t.IsUnbroken := by
  intro t ht
  obtain ⟨p,hp,ht⟩ := List.mem_flatMap.1 ht
  exact c.isUnbroken_of_mem_tokenizeLine (s.newline_not_mem_of_mem_read p hp) ht

end Catalog

/-- A listing with comments and places tells all there is to tell of its tokens, and without places
it still tells their kinds and texts, whatever the texts look like; only a newline could not be told
from the end of a line, and no token of a text or a source holds one. -/
theorem listing_injective :
    (∀ ts us : List Token, (∀ t ∈ ts, t.IsUnbroken) → (∀ u ∈ us, u.IsUnbroken) →
      (listing ts ⟨true,true⟩ = listing us ⟨true,true⟩ → ts = us) ∧
      (listing ts ⟨true,false⟩ = listing us ⟨true,false⟩ →
        ts.map Token.content = us.map Token.content)) ∧
    ∀ c : Catalog, (∀ text, ∀ t ∈ c.tokenizeText text, t.IsUnbroken) ∧
      ∀ s : Source, ∀ t ∈ (c.tokenize s).1, t.IsUnbroken := by
  refine ⟨fun ts us ht hu => ?_,fun c =>
    ⟨c.isUnbroken_of_mem_tokenizeText,c.isUnbroken_of_mem_tokenize⟩⟩
  have hlines : ∀ o : ListingOptions, o.showComments = true → listing ts o = listing us o →
      ts.map o.line = us.map o.line := by
    intro o ho h
    have hl := congrArg (fun s => Text.lines s.toList) h
    simp only [o.lines_listing ht,o.lines_listing hu,o.filter_shows ho] at hl
    exact hl
  constructor
  · intro h
    exact (ListingOptions.line_injective ⟨true,true⟩ rfl).list_map (hlines ⟨true,true⟩ rfl h)
  · intro h
    have hl := hlines ⟨true,false⟩ rfl h
    have hline : ListingOptions.line ⟨true,false⟩ = Token.label ∘ Token.content := by
      funext t
      exact ListingOptions.line_of_not_positions ⟨true,false⟩ rfl t
    rw [hline,← List.map_map,← List.map_map] at hl
    exact Token.label_injective.list_map hl

/-- A comment that looks like the end of its line and a line for a number. -/
theorem listing_injective_lookalike :
    let ts : List Token := [⟨.identifier,"x",1,⟨0,1⟩⟩,⟨.comment,"(*' 1:5-6 Number '1*)",2,⟨1,22⟩⟩]
    let us : List Token :=
      [⟨.identifier,"x",1,⟨0,1⟩⟩,⟨.comment,"(*",2,⟨1,22⟩⟩,⟨.number,"1*)",1,⟨5,6⟩⟩]
    Catalog.pascal.tokenizeText "x\n (*' 1:5-6 Number '1*)".toList = ts ∧
      listing ts ⟨true,true⟩ ≠ listing us ⟨true,true⟩ ∧
      listing ts ⟨true,false⟩ ≠ listing us ⟨true,false⟩ := by
  intro ts us
  have hts : ∀ t ∈ ts, t.IsUnbroken := by decide
  have hus : ∀ u ∈ us, u.IsUnbroken := by decide
  obtain ⟨hplaces,hcontents⟩ := listing_injective.1 ts us hts hus
  refine ⟨?_,fun h => absurd (hplaces h) (by decide),fun h => absurd (hcontents h) (by decide)⟩
  apply (listing_injective.1 _ ts ((listing_injective.2 .pascal).1 _) hts).1
  rw [Pascal.pascal_eq_spelled]
  decide +kernel

end PascalTokens
