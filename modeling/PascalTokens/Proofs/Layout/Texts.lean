import PascalTokens.Proofs.Pascal.Characters
import PascalTokens.Proofs.Pattern.Language

/-! Texts that differ in their white space only, and patterns that do not tell them apart. -/
namespace PascalTokens

def Spacing (c : Char) : Prop := Unicode.isWhiteSpace c ∧ c ≠ '\n'

instance : DecidablePred Spacing :=
  fun c => inferInstanceAs (Decidable (Unicode.isWhiteSpace c ∧ c ≠ '\n'))

theorem Visible.not_spacing {c : Char} (hc : Visible c) : ¬Spacing c := fun h => hc h.1

/-- Is the second text the first one with runs of white space replaced by others? No run comes, and
none goes. -/
inductive Relaid : Line → Line → Prop
  | nil : Relaid [] []
  | same (c : Char) {l m : Line} (h : Relaid l m) : Relaid (c :: l) (c :: m)
  | spacing {g g' l m : Line} (hne : g ≠ []) (hne' : g' ≠ []) (hg : ∀ c ∈ g, Spacing c)
      (hg' : ∀ c ∈ g', Spacing c) (h : Relaid l m) : Relaid (g ++ l) (g' ++ m)

namespace Relaid

variable {a b l m : Line} {c : Char}

theorem refl (l : Line) : Relaid l l := by
  induction l with
  | nil => exact .nil
  | cons c l ih => exact .same c ih

theorem symm (h : Relaid l m) : Relaid m l := by
  induction h with
  | nil => exact .nil
  | same c _ ih => exact .same c ih
  | spacing hne hne' hg hg' _ ih => exact .spacing hne' hne hg' hg ih

theorem append {a' : Line} (ha : Relaid a a') (h : Relaid l m) : Relaid (a ++ l) (a' ++ m) := by
  induction ha with
  | nil => exact h
  | same c _ ih => exact .same c ih
  | spacing hne hne' hg hg' _ ih =>
    rw [List.append_assoc,List.append_assoc]
    exact .spacing hne hne' hg hg' ih

theorem eq_nil (h : Relaid [] m) : m = [] := by
  generalize hl : ([] : Line) = l at h
  cases h with
  | nil => rfl
  | same c _ => cases hl
  | spacing hne _ _ _ _ => exact absurd (List.append_eq_nil_iff.1 hl.symm).1 hne

theorem ne_nil (h : Relaid l m) (hl : l ≠ []) : m ≠ [] := by
  rintro rfl
  exact hl h.symm.eq_nil

theorem exists_append_cons (hc : Visible c) (h : Relaid (a ++ c :: b) m) :
    ∃ a' b', m = a' ++ c :: b' ∧ Relaid a a' ∧ Relaid b b' := by
  generalize hl : a ++ c :: b = l at h
  induction h generalizing a with
  | nil => simp at hl
  | @same d l m h ih =>
    cases a with
    | nil =>
      obtain ⟨rfl,rfl⟩ := List.cons.inj hl
      exact ⟨[],m,rfl,.nil,h⟩
    | cons e a =>
      obtain ⟨rfl,htail⟩ := List.cons.inj hl
      obtain ⟨a',b',rfl,ha,hb⟩ := ih htail
      exact ⟨e :: a',b',rfl,.same e ha,hb⟩
  | @spacing g g' l m hne hne' hg hg' _ ih =>
    -- the run lies before the character, since it does not hold it
    rcases List.append_eq_append_iff.1 hl with ⟨x,rfl,hx⟩ | ⟨x,rfl,rfl⟩
    · cases x with
      | nil =>
        obtain ⟨a',b',rfl,ha,hb⟩ := ih (a := []) hx
        rw [List.append_nil] at hg hne
        refine ⟨g' ++ a',b',(List.append_assoc ..).symm,?_,hb⟩
        simpa using Relaid.spacing hne hne' hg hg' ha
      | cons d x =>
        obtain ⟨rfl,-⟩ := List.cons.inj hx
        exact absurd (hg c (by simp)) hc.not_spacing
    · obtain ⟨a',b',rfl,ha,hb⟩ := ih rfl
      exact ⟨g' ++ a',b',(List.append_assoc ..).symm,.spacing hne hne' hg hg' ha,hb⟩

theorem exists_cons (hc : Visible c) (h : Relaid (c :: b) m) : ∃ b', m = c :: b' ∧ Relaid b b' := by
  obtain ⟨a',b',rfl,ha,hb⟩ := exists_append_cons (a := []) hc h
  rw [ha.eq_nil]
  exact ⟨b',rfl,hb⟩

theorem exists_append (ha : ∀ c ∈ a, Visible c) (h : Relaid (a ++ b) m) :
    ∃ b', m = a ++ b' ∧ Relaid b b' := by
  induction a generalizing m with
  | nil => exact ⟨m,rfl,h⟩
  | cons c a ih =>
    obtain ⟨hc,ha⟩ := List.forall_mem_cons.1 ha
    obtain ⟨m,rfl,hm⟩ := exists_cons hc h
    obtain ⟨b',rfl,hb⟩ := ih ha hm
    exact ⟨b',rfl,hb⟩

theorem eq_of_visible (h : Relaid l m) (hl : ∀ c ∈ l, Visible c) : m = l := by
  obtain ⟨b,rfl,hb⟩ := exists_append hl ((List.append_nil l).symm ▸ h)
  rw [hb.eq_nil,List.append_nil]

theorem forall_mem {s : Char → Prop} (h : Relaid l m) (hs : ∀ c, Spacing c → s c)
    (hl : ∀ c ∈ l, s c) : ∀ c ∈ m, s c := by
  induction h with
  | nil => exact hl
  | same c _ ih =>
    obtain ⟨hc,hl⟩ := List.forall_mem_cons.1 hl
    exact List.forall_mem_cons.2 ⟨hc,ih hl⟩
  | spacing _ _ _ hg' _ ih =>
    obtain ⟨-,hl⟩ := List.forall_mem_append.1 hl
    exact List.forall_mem_append.2 ⟨fun c hc => hs c (hg' c hc),ih hl⟩

theorem exists_cons_or (h : Relaid (c :: l) m) :
    ∃ d m', m = d :: m' ∧ (d = c ∨ Spacing c ∧ Spacing d) := by
  generalize hl : c :: l = k at h
  cases h with
  | nil => cases hl
  | @same d _ m _ =>
    obtain ⟨rfl,-⟩ := List.cons.inj hl
    exact ⟨c,m,rfl,.inl rfl⟩
  | @spacing g g' _ m hne hne' hg hg' _ =>
    obtain ⟨d,g,rfl⟩ := List.exists_cons_of_ne_nil hne
    obtain ⟨d',g',rfl⟩ := List.exists_cons_of_ne_nil hne'
    obtain ⟨rfl,-⟩ := List.cons.inj hl
    exact ⟨d',g' ++ m,rfl,.inr ⟨hg c List.mem_cons_self,hg' d' List.mem_cons_self⟩⟩

theorem exists_visible (h : Relaid l m) : ∃ v l' m', l = v ++ l' ∧ m = v ++ m' ∧
    (∀ c ∈ l'.head?, ¬Visible c) ∧ ∀ c ∈ m'.head?, ¬Visible c := by
  induction h with
  | nil => exact ⟨[],[],[],rfl,rfl,by simp,by simp⟩
  | @same c l m _ ih =>
    by_cases hc : Visible c
    · obtain ⟨v,l',m',rfl,rfl,hl,hm⟩ := ih
      exact ⟨c :: v,l',m',rfl,rfl,hl,hm⟩
    · exact ⟨[],c :: l,c :: m,rfl,rfl,by simpa using hc,by simpa using hc⟩
  | @spacing g g' l m hne hne' hg hg' _ _ =>
    obtain ⟨d,g,rfl⟩ := List.exists_cons_of_ne_nil hne
    obtain ⟨d',g',rfl⟩ := List.exists_cons_of_ne_nil hne'
    have hd : ¬Visible d := fun h => h.not_spacing (hg d List.mem_cons_self)
    have hd' : ¬Visible d' := fun h => h.not_spacing (hg' d' List.mem_cons_self)
    exact ⟨[],_,_,rfl,rfl,by simpa using hd,by simpa using hd'⟩

end Relaid

namespace Pattern

/-- Does the pattern match with a text every text that is the same but for white space? -/
def Steady (r : Pattern) : Prop := ∀ l m, Relaid l m → r.Spells l → r.Spells m

variable {a b r : Pattern}

theorem steady_of_within (h : r.Within Visible) : r.Steady := by
  intro l m hlm hl
  rwa [hlm.eq_of_visible (h.forall_mem hl)]

theorem steady_many {greedy : Bool} {s : Char → Bool} (h : ∀ c, Spacing c → s c) :
    (many greedy s).Steady :=
  fun _ _ hlm hl => ⟨hlm.ne_nil hl.1,hlm.forall_mem h hl.2⟩

theorem steady_alt (ha : a.Steady) (hb : b.Steady) : (alt a b).Steady :=
  fun l m hlm hl => hl.imp (ha l m hlm) (hb l m hlm)

theorem steady_empty : empty.Steady := by
  rintro _ m h rfl
  exact h.eq_nil

theorem steady_opt (hr : r.Steady) : (opt r).Steady := steady_alt hr steady_empty

theorem steady_seq_of_within (ha : a.Within Visible) (hb : b.Steady) : (seq a b).Steady := by
  rintro _ m h ⟨x,y,rfl,hx,hy⟩
  obtain ⟨z,rfl,hz⟩ := Relaid.exists_append (ha.forall_mem hx) h
  exact ⟨x,z,rfl,hx,hb y z hz hy⟩

theorem steady_seq_of_begins (ha : a.Steady) (hb : b.Steady) (hv : b.Begins Visible) :
    (seq a b).Steady := by
  rintro _ m h ⟨x,y,rfl,hx,hy⟩
  obtain ⟨c,k,rfl,hc⟩ := hv.exists_cons hy
  obtain ⟨x',k',rfl,hx',hk⟩ := Relaid.exists_append_cons hc h
  exact ⟨x',c :: k',rfl,ha x x' hx' hx,hb _ _ (.same c hk) hy⟩

theorem steady_plus (ha : a.Steady) (hv : a.Begins Visible) : (plus a).Steady := by
  intro l m h hl
  have hp : (plus a).Begins Visible := hv
  induction hl generalizing m with
  | one hx => exact .one (ha _ m h hx)
  | more hx hy ih =>
    obtain ⟨c,k,rfl,hc⟩ := hp.exists_cons hy
    obtain ⟨x',k',rfl,hx',hk⟩ := Relaid.exists_append_cons hc h
    exact .more (ha _ x' hx' hx) (ih _ (.same c hk))

end Pattern
end PascalTokens
