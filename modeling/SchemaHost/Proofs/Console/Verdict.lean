import Mathlib.Data.List.Forall2
import SchemaHost.Console.Statement
import SchemaHost.Proofs.Text.Blank
import SchemaHost.Proofs.Text.Case
import SchemaHost.Proofs.Text.Word

/-! # Which statements are turned down

The check comes to this: somewhere in the text a threat stands apart from the words around it. A
threat is one of two words, or one of three verbs with a gap and one of two objects behind it. The
verdict is the same in capitals and in small letters, and whatever white space fills the gaps.
-/

namespace SchemaHost.Console

open Text

variable {b : Bool} {c d l : Char} {w s t a p g g' r : List Char}

/-! ## Threats -/

/-- What a letter may be written as: a small letter or a capital, and an s may be long. The words
below hold no i and no k, which have kin of their own. -/
def IsFormOf (l c : Char) : Prop :=
  c = l ∨ c = l.toUpper ∨ l = 's' ∧ c = '\u017f'

def Spells (w s : List Char) : Prop :=
  List.Forall₂ IsFormOf w s

structure IsGap (g : List Char) : Prop where
  ne_nil : g ≠ []
  blank : ∀ c ∈ g, isBlank c = true

/-- The words that are not to be said, and the commands that are not to be given. -/
inductive IsThreat : List Char → Prop
  | word {w : String} {s : List Char} : w ∈ ["shutdown", "restart"] → Spells w.toList s → IsThreat s
  | command {v o : String} {a g s : List Char} : v ∈ ["drop", "create", "alter"] →
      o ∈ ["database", "schema"] → Spells v.toList a → IsGap g → Spells o.toList s →
      IsThreat (a ++ (g ++ s))

def EndsWord (s : List Char) : Prop :=
  ∀ c ∈ s.head?, isWord c = false

/-- A threat stands in the text, and no word goes on across either of its ends. -/
def Threatens (s : List Char) : Prop :=
  ∃ before p behind, s = before ++ (p ++ behind) ∧ IsThreat p ∧
    (∀ c ∈ before.getLast?, isWord c = false) ∧ EndsWord behind

/-! ## Letters -/

def IsPlainLetter (l : Char) : Prop :=
  97 ≤ l.toNat ∧ l.toNat ≤ 122 ∧ l ≠ 'i' ∧ l ≠ 'k'

instance (l : Char) : Decidable (IsPlainLetter l) :=
  inferInstanceAs (Decidable (_ ∧ _ ∧ _ ∧ _))

theorem IsPlainLetter.lt (h : IsPlainLetter l) : l.toNat < 128 :=
  Nat.lt_of_le_of_lt h.2.1 (by decide)

theorem lowerChar_form (h : l.toNat < 128) : IsPlainLetter l →
    lowerChar l = l ∧ lowerChar l.toUpper = l := by
  revert h
  apply forall_ascii
  decide +kernel

theorem eq_form_of_lowerChar (h : c.toNat < 128) :
    c = lowerChar c ∨ c = (lowerChar c).toUpper := by
  revert h
  apply forall_ascii
  decide +kernel

theorem isWord_form (h : l.toNat < 128) : IsPlainLetter l →
    isWord l = true ∧ isWord l.toUpper = true := by
  revert h
  apply forall_ascii
  decide +kernel

theorem isLetter_iff (hl : IsPlainLetter l) : isLetter l c = true ↔ IsFormOf l c := by
  obtain ⟨hsmall, hcapital⟩ := lowerChar_form hl.lt hl
  obtain ⟨hlow, hhigh, hi, hk⟩ := hl
  simp only [isLetter, Bool.or_eq_true, Bool.and_eq_true, beq_iff_eq, hi, false_and, or_false]
  constructor
  · rintro (rfl | hs)
    · have hc : c.toNat < 128 := by
        apply isAscii_of_lowerChar
        simp only [isOwnLower, Bool.and_eq_true, decide_eq_true_eq, bne_iff_ne]
        exact ⟨⟨by omega, by omega⟩, hk⟩
      rcases eq_form_of_lowerChar hc with h | h
      · exact .inl h
      · exact .inr (.inl h)
    · exact .inr (.inr hs)
  · rintro (rfl | rfl | hs)
    · exact .inl hsmall
    · exact .inl hcapital
    · exact .inr hs

theorem isWord_of_isFormOf (hl : IsPlainLetter l) (h : IsFormOf l c) : isWord c = true := by
  obtain ⟨hsmall, hcapital⟩ := isWord_form hl.lt hl
  rcases h with rfl | rfl | ⟨-, rfl⟩
  · exact hsmall
  · exact hcapital
  · decide +kernel

/-! ## Words -/

theorem dropWord_eq_some_iff (hw : ∀ l ∈ w, IsPlainLetter l) :
    dropWord w s = some r ↔ ∃ a, s = a ++ r ∧ Spells w a := by
  induction w generalizing s with
  | nil =>
    constructor
    · rintro ⟨⟩
      exact ⟨[], rfl, .nil⟩
    · rintro ⟨a, rfl, ⟨⟩⟩
      rfl
  | cons l w ih =>
    obtain ⟨hl, hw⟩ := List.forall_mem_cons.mp hw
    constructor
    · intro h
      cases s with
      | nil => cases h
      | cons c s =>
        rw [dropWord] at h
        split at h
        · next hc =>
          obtain ⟨a, rfl, ha⟩ := (ih hw).mp h
          exact ⟨c :: a, rfl, .cons ((isLetter_iff hl).mp hc) ha⟩
        · cases h
    · rintro ⟨a, rfl, ha⟩
      cases ha with
      | cons hc ha =>
        rw [List.cons_append, dropWord, if_pos ((isLetter_iff hl).mpr hc)]
        exact (ih hw).mpr ⟨_, rfl, ha⟩

theorem any_head_eq_false_iff : (!s.head?.any isWord) = true ↔ EndsWord s := by
  cases s <;> simp [EndsWord]

theorem Spells.isWord (h : Spells w s) (hw : ∀ l ∈ w, IsPlainLetter l) :
    ∀ c ∈ s, isWord c = true := by
  induction h with
  | nil => simp
  | cons hc _ ih =>
    obtain ⟨hl, hw⟩ := List.forall_mem_cons.mp hw
    exact List.forall_mem_cons.mpr ⟨isWord_of_isFormOf hl hc, ih hw⟩

structure IsPlainWord (w : String) : Prop where
  ne_nil : w.toList ≠ []
  letters : ∀ l ∈ w.toList, IsPlainLetter l

theorem isPlainWord_of_word : ∀ w ∈ dangerousWords, IsPlainWord w := by
  have h : ∀ w ∈ dangerousWords, w.toList ≠ [] ∧ ∀ l ∈ w.toList, IsPlainLetter l := by decide
  exact fun w hw => ⟨(h w hw).1, (h w hw).2⟩

theorem isPlainWord_of_verb : ∀ v ∈ dangerousVerbs, IsPlainWord v := by
  have h : ∀ v ∈ dangerousVerbs, v.toList ≠ [] ∧ ∀ l ∈ v.toList, IsPlainLetter l := by decide
  exact fun v hv => ⟨(h v hv).1, (h v hv).2⟩

theorem isPlainWord_of_object : ∀ o ∈ guardedObjects, IsPlainWord o := by
  have h : ∀ o ∈ guardedObjects, o.toList ≠ [] ∧ ∀ l ∈ o.toList, IsPlainLetter l := by decide
  exact fun o ho => ⟨(h o ho).1, (h o ho).2⟩

namespace IsPlainWord

variable {w : String} (hw : IsPlainWord w)
include hw

theorem takeWord_eq_some_iff :
    takeWord w s = some r ↔ ∃ a, s = a ++ r ∧ Spells w.toList a ∧ EndsWord r := by
  rw [takeWord, Option.filter_eq_some_iff, dropWord_eq_some_iff hw.letters,
    any_head_eq_false_iff]
  constructor
  · rintro ⟨⟨a, ha, hs⟩, hr⟩
    exact ⟨a, ha, hs, hr⟩
  · rintro ⟨a, ha, hs, hr⟩
    exact ⟨⟨a, ha, hs⟩, hr⟩

theorem ne_nil_of_spells (h : Spells w.toList s) : s ≠ [] := by
  rintro rfl
  exact hw.ne_nil (List.forall₂_nil_right_iff.mp h)

theorem isWord_of_spells (h : Spells w.toList s) : ∀ c ∈ s, isWord c = true :=
  h.isWord hw.letters

end IsPlainWord

/-! ## The search -/

theorem IsGap.endsWord (h : IsGap g) (s : List Char) : EndsWord (g ++ s) := by
  obtain ⟨c, g, rfl⟩ := List.exists_cons_of_ne_nil h.ne_nil
  rintro d ⟨⟩
  rw [Bool.eq_false_iff]
  intro hw
  have hb := h.blank c List.mem_cons_self
  rw [isBlank_of_isWord hw] at hb
  cases hb

theorem IsGap.trimStart (h : IsGap g) (hs : ∀ c ∈ s.head?, isBlank c = false) :
    Text.trimStart (g ++ s) = s :=
  dropWhile_append_of_stop h.blank hs

theorem exists_gap (h : r.head?.any isBlank = true) :
    ∃ g, IsGap g ∧ r = g ++ Text.trimStart r := by
  refine ⟨r.takeWhile isBlank, ⟨?_, fun c hc => List.mem_takeWhile_imp hc⟩,
    List.takeWhile_append_dropWhile.symm⟩
  cases r with
  | nil => cases h
  | cons c r =>
    rw [List.takeWhile_cons_of_pos (by simpa using h)]
    exact List.cons_ne_nil _ _

theorem isDangerousHere_iff :
    isDangerousHere s = true ↔ ∃ p r, s = p ++ r ∧ IsThreat p ∧ EndsWord r := by
  rw [isDangerousHere, Bool.or_eq_true, List.any_eq_true, List.any_eq_true]
  constructor
  · rintro (⟨w, hw, h⟩ | ⟨v, hv, h⟩)
    · obtain ⟨r, hr⟩ := Option.isSome_iff_exists.mp h
      obtain ⟨a, rfl, ha, hr⟩ := (isPlainWord_of_word w hw).takeWord_eq_some_iff.mp hr
      exact ⟨a, r, rfl, .word hw ha, hr⟩
    · split at h
      · next r hr =>
        rw [Bool.and_eq_true, List.any_eq_true] at h
        obtain ⟨hblank, o, ho, h⟩ := h
        obtain ⟨r', hr'⟩ := Option.isSome_iff_exists.mp h
        obtain ⟨a, rfl, ha, -⟩ := (isPlainWord_of_verb v hv).takeWord_eq_some_iff.mp hr
        obtain ⟨s, hs, hspells, hr'⟩ := (isPlainWord_of_object o ho).takeWord_eq_some_iff.mp hr'
        obtain ⟨g, hg, hr⟩ := exists_gap hblank
        refine ⟨a ++ (g ++ s), r', ?_, .command hv ho ha hg hspells, hr'⟩
        rw [hr, hs]
        simp
      · cases h
  · rintro ⟨p, r, rfl, hp, hr⟩
    cases hp with
    | @word w _ hw hs =>
      refine .inl ⟨w, hw, ?_⟩
      rw [(isPlainWord_of_word w hw).takeWord_eq_some_iff.mpr ⟨p, rfl, hs, hr⟩]
      rfl
    | @command v o a g s hv ho ha hg hs =>
      have hverb : takeWord v (a ++ (g ++ s) ++ r) = some (g ++ (s ++ r)) := by
        apply (isPlainWord_of_verb v hv).takeWord_eq_some_iff.mpr
        exact ⟨a, by simp, ha, hg.endsWord _⟩
      have htrim : Text.trimStart (g ++ (s ++ r)) = s ++ r := by
        apply hg.trimStart
        intro c hc
        rw [List.head?_append_of_ne_nil _ ((isPlainWord_of_object o ho).ne_nil_of_spells hs)] at hc
        apply isBlank_of_isWord
        exact (isPlainWord_of_object o ho).isWord_of_spells hs c (List.mem_of_mem_head? hc)
      have hobject : takeWord o (s ++ r) = some r :=
        (isPlainWord_of_object o ho).takeWord_eq_some_iff.mpr ⟨s, rfl, hs, hr⟩
      refine .inr ⟨v, hv, ?_⟩
      rw [hverb]
      dsimp only
      rw [Bool.and_eq_true, List.any_eq_true]
      constructor
      · obtain ⟨c, g, rfl⟩ := List.exists_cons_of_ne_nil hg.ne_nil
        exact hg.blank c List.mem_cons_self
      · refine ⟨o, ho, ?_⟩
        rw [htrim, hobject]
        rfl

theorem IsThreat.ne_nil (h : IsThreat p) : p ≠ [] := by
  cases h with
  | word hw hs => exact (isPlainWord_of_word _ hw).ne_nil_of_spells hs
  | command _ _ _ hg _ => simp [hg.ne_nil]

/-- One step of the search for each character that stands before the threat. -/
theorem isDangerous_eq_true_iff : isDangerous b s = true ↔
    ∃ a p r, s = a ++ (p ++ r) ∧ IsThreat p ∧ (a = [] → b = false) ∧
      (∀ c ∈ a.getLast?, isWord c = false) ∧ EndsWord r := by
  induction s generalizing b with
  | nil =>
    constructor
    · rintro ⟨⟩
    · rintro ⟨a, p, r, h, hp, -⟩
      have := hp.ne_nil
      simp_all
  | cons c s ih =>
    rw [isDangerous, Bool.or_eq_true, Bool.and_eq_true, isDangerousHere_iff, ih]
    constructor
    · rintro (⟨hb, p, r, hs, hp, hr⟩ | ⟨a, p, r, rfl, hp, ha, hlast, hr⟩)
      · exact ⟨[], p, r, hs, hp, fun _ => by simpa using hb, by simp, hr⟩
      · refine ⟨c :: a, p, r, rfl, hp, by simp, ?_, hr⟩
        cases a with
        | nil =>
          rintro d ⟨⟩
          exact ha rfl
        | cons d a => simpa using hlast
    · rintro ⟨a, p, r, hs, hp, ha, hlast, hr⟩
      cases a with
      | nil => exact .inl ⟨by simp [ha rfl], p, r, hs, hp, hr⟩
      | cons d a =>
        obtain ⟨rfl, rfl⟩ := List.cons.inj hs
        refine .inr ⟨a, p, r, rfl, hp, ?_, ?_, hr⟩
        · rintro rfl
          exact hlast c rfl
        · intro x hx
          apply hlast x
          rw [List.getLast?_cons, hx]
          rfl

theorem isDangerous_iff : isDangerous false s = true ↔ Threatens s := by
  rw [isDangerous_eq_true_iff]
  constructor
  · rintro ⟨a, p, r, hs, hp, -, ha, hr⟩
    exact ⟨a, p, r, hs, hp, ha, hr⟩
  · rintro ⟨a, p, r, hs, hp, ha, hr⟩
    exact ⟨a, p, r, hs, hp, fun _ => rfl, ha, hr⟩

/-! ## Texts in another style -/

/-- The same character, or the same letter of ASCII in another case. -/
def IsSame (c d : Char) : Prop :=
  c = d ∨ isAsciiLetter c = true ∧ isAsciiLetter d = true ∧ lowerChar c = lowerChar d

/-- The same text but for the case of its ASCII letters and for what fills its gaps. -/
inductive Restyled : List Char → List Char → Prop
  | nil : Restyled [] []
  | char {c d : Char} {s t : List Char} : IsSame c d → Restyled s t → Restyled (c :: s) (d :: t)
  | gap {g g' s t : List Char} : IsGap g → IsGap g' → Restyled s t → Restyled (g ++ s) (g' ++ t)

instance (c d : Char) : Decidable (IsSame c d) :=
  inferInstanceAs (Decidable (_ ∨ _))

namespace IsSame

theorem symm (h : IsSame c d) : IsSame d c := by
  rcases h with rfl | ⟨hc, hd, he⟩
  · exact .inl rfl
  · exact .inr ⟨hd, hc, he.symm⟩

theorem isWord_eq (h : IsSame c d) : isWord c = isWord d := by
  rcases h with rfl | ⟨hc, hd, -⟩
  · rfl
  · rw [isWord_of_isAsciiLetter hc, isWord_of_isAsciiLetter hd]

theorem isBlank_eq (h : IsSame c d) : isBlank c = isBlank d := by
  rcases h with rfl | ⟨hc, hd, -⟩
  · rfl
  · rw [isBlank_of_isWord (isWord_of_isAsciiLetter hc),
      isBlank_of_isWord (isWord_of_isAsciiLetter hd)]

theorem isFormOf (h : IsSame c d) (hl : IsPlainLetter l) (hc : IsFormOf l c) : IsFormOf l d := by
  rcases h with rfl | ⟨hletter, -, he⟩
  · exact hc
  · apply (isLetter_iff hl).mp
    rcases hc with rfl | rfl | ⟨-, rfl⟩
    · simp [isLetter, ← he, (lowerChar_form hl.lt hl).1]
    · simp [isLetter, ← he, (lowerChar_form hl.lt hl).2]
    · cases hletter

end IsSame

theorem IsGap.reverse (h : IsGap g) : IsGap g.reverse :=
  ⟨by simpa using h.ne_nil, fun c hc => h.blank c (List.mem_reverse.mp hc)⟩

namespace Restyled

theorem symm (h : Restyled s t) : Restyled t s := by
  induction h with
  | nil => exact .nil
  | char hc _ ih => exact .char hc.symm ih
  | gap hg hg' _ ih => exact .gap hg' hg ih

theorem eq_nil (h : Restyled [] t) : t = [] := by
  generalize hs : ([] : List Char) = s at h
  cases h with
  | nil => rfl
  | char => cases hs
  | gap hg => exact absurd (List.append_eq_nil_iff.mp hs.symm).1 hg.ne_nil

theorem of_gaps (hg : IsGap g) (hg' : IsGap g') : Restyled g g' := by
  simpa using Restyled.gap hg hg' .nil

theorem of_chars (h : List.Forall₂ IsSame s t) : Restyled s t := by
  induction h with
  | nil => exact .nil
  | cons hc _ ih => exact .char hc ih

theorem append {s' t' : List Char} (h : Restyled s t) (h' : Restyled s' t') :
    Restyled (s ++ s') (t ++ t') := by
  induction h with
  | nil => exact h'
  | char hc _ ih => exact .char hc ih
  | gap hg hg' _ ih =>
    rw [List.append_assoc, List.append_assoc]
    exact .gap hg hg' ih

theorem reverse (h : Restyled s t) : Restyled s.reverse t.reverse := by
  induction h with
  | nil => exact .nil
  | char hc _ ih =>
    rw [List.reverse_cons, List.reverse_cons]
    exact ih.append (.char hc .nil)
  | gap hg hg' _ ih =>
    rw [List.reverse_append, List.reverse_append]
    exact ih.append (of_gaps hg.reverse hg'.reverse)

/-! ### Ends -/

theorem trimStart (h : Restyled s t) : Restyled (Text.trimStart s) (Text.trimStart t) := by
  induction h with
  | nil => exact .nil
  | @char c d s t hc hs ih =>
    simp only [Text.trimStart, List.dropWhile_cons, ← hc.isBlank_eq] at ih ⊢
    split
    · exact ih
    · exact .char hc hs
  | gap hg hg' _ ih =>
    simp only [Text.trimStart] at ih ⊢
    rwa [List.dropWhile_append_of_pos hg.blank, List.dropWhile_append_of_pos hg'.blank]

theorem trimEnd (h : Restyled s t) : Restyled (Text.trimEnd s) (Text.trimEnd t) := by
  rw [trimEnd_eq_rdropWhile, trimEnd_eq_rdropWhile]
  exact h.reverse.trimStart.reverse

theorem trim (h : Restyled s t) : Restyled (Text.trim s) (Text.trim t) :=
  h.trimStart.trimEnd

theorem endsWord (h : Restyled s t) (hs : EndsWord s) : EndsWord t := by
  cases h with
  | nil => exact hs
  | char hc _ =>
    rintro x ⟨⟩
    rw [← hc.isWord_eq]
    exact hs _ rfl
  | gap _ hg' _ => exact hg'.endsWord _

theorem isWord_last (h : Restyled s t) (hs : ∀ c ∈ s.getLast?, isWord c = false) :
    ∀ c ∈ t.getLast?, isWord c = false := by
  rw [← List.head?_reverse] at hs ⊢
  exact h.reverse.endsWord hs

/-! ### Parts -/

/-- A text may be cut wherever this leaves its gaps whole. -/
theorem split (h : Restyled (a ++ s) t)
    (hcut : (∀ c ∈ a.getLast?, isBlank c = false) ∨ ∀ c ∈ s.head?, isBlank c = false) :
    ∃ a' s', t = a' ++ s' ∧ Restyled a a' ∧ Restyled s s' := by
  generalize hu : a ++ s = u at h
  induction h generalizing a with
  | nil =>
    obtain ⟨rfl, rfl⟩ := List.append_eq_nil_iff.mp hu
    exact ⟨[], [], rfl, .nil, .nil⟩
  | @char c d u t hc hu' ih =>
    cases a with
    | nil =>
      obtain rfl : s = c :: u := hu
      exact ⟨[], d :: t, rfl, .nil, .char hc hu'⟩
    | cons x a =>
      obtain ⟨rfl, rfl⟩ := List.cons.inj hu
      have hcut' : (∀ c ∈ a.getLast?, isBlank c = false) ∨ ∀ c ∈ s.head?, isBlank c = false := by
        refine hcut.imp_left fun hlast y hy => hlast y ?_
        rw [List.getLast?_cons, hy]
        rfl
      obtain ⟨a', s', rfl, ha, hs⟩ := ih hcut' rfl
      exact ⟨d :: a', s', rfl, .char hc ha, hs⟩
  | @gap g g' u t hg hg' hu' ih =>
    rcases List.append_eq_append_iff.mp hu with ⟨x, rfl, rfl⟩ | ⟨x, rfl, rfl⟩
    · -- the cut is within the gap or at one of its ends
      rcases List.eq_nil_or_concat a with rfl | ⟨a, y, rfl⟩
      · exact ⟨[], g' ++ t, rfl, .nil, .gap hg hg' hu'⟩
      cases x with
      | nil =>
        rw [List.append_nil] at hg
        exact ⟨g', t, rfl, of_gaps hg hg', hu'⟩
      | cons z x =>
        rcases hcut with hlast | hhead
        · have hy := hg.blank y (by simp)
          rw [hlast y (by simp)] at hy
          cases hy
        · have hz := hg.blank z (by simp)
          rw [hhead z rfl] at hz
          cases hz
    · have hcut' : (∀ c ∈ x.getLast?, isBlank c = false) ∨ ∀ c ∈ s.head?, isBlank c = false := by
        refine hcut.imp_left fun hlast y hy => hlast y ?_
        rw [List.getLast?_append, hy]
        rfl
      obtain ⟨a', s', rfl, ha, hs⟩ := ih hcut' rfl
      exact ⟨g' ++ a', s', by simp, .gap hg hg' ha, hs⟩

theorem spells (h : Restyled s t) (hw : ∀ l ∈ w, IsPlainLetter l) (hs : Spells w s) :
    Spells w t := by
  induction h generalizing w with
  | nil => exact hs
  | char hc _ ih =>
    cases hs with
    | cons hform hs =>
      obtain ⟨hl, hw⟩ := List.forall_mem_cons.mp hw
      exact .cons (hc.isFormOf hl hform) (ih hw hs)
  | @gap g _ _ _ hg _ _ _ =>
    obtain ⟨c, g, rfl⟩ := List.exists_cons_of_ne_nil hg.ne_nil
    have hb := hg.blank c List.mem_cons_self
    rw [isBlank_of_isWord (hs.isWord hw c List.mem_cons_self)] at hb
    cases hb

theorem isGap (h : Restyled s t) (hs : IsGap s) : IsGap t := by
  constructor
  · rintro rfl
    exact hs.ne_nil h.symm.eq_nil
  · have hblank := hs.blank
    clear hs
    induction h with
    | nil => exact hblank
    | char hc _ ih =>
      obtain ⟨hb, hs⟩ := List.forall_mem_cons.mp hblank
      exact List.forall_mem_cons.mpr ⟨hc.isBlank_eq ▸ hb, ih hs⟩
    | gap _ hg' _ ih =>
      intro c hc
      rcases List.mem_append.mp hc with hc | hc
      · exact hg'.blank c hc
      · exact ih (fun x hx => hblank x (List.mem_append_right _ hx)) c hc

end Restyled

theorem IsThreat.solid (h : IsThreat p) :
    (∀ c ∈ p.head?, isBlank c = false) ∧ ∀ c ∈ p.getLast?, isBlank c = false := by
  have solid {w : String} (hw : IsPlainWord w) {s : List Char} (hs : Spells w.toList s) :
      s ≠ [] ∧ ∀ c ∈ s, isBlank c = false :=
    ⟨hw.ne_nil_of_spells hs, fun c hc => isBlank_of_isWord (hw.isWord_of_spells hs c hc)⟩
  cases h with
  | word hw hs =>
    obtain ⟨-, hs⟩ := solid (isPlainWord_of_word _ hw) hs
    exact ⟨fun c hc => hs c (List.mem_of_mem_head? hc), fun c hc => hs c (List.mem_of_getLast? hc)⟩
  | command hv ho ha _ hs =>
    obtain ⟨hane, ha⟩ := solid (isPlainWord_of_verb _ hv) ha
    obtain ⟨hsne, hs⟩ := solid (isPlainWord_of_object _ ho) hs
    constructor
    · intro c hc
      rw [List.head?_append_of_ne_nil _ hane] at hc
      exact ha c (List.mem_of_mem_head? hc)
    · intro c hc
      rw [← List.append_assoc, List.getLast?_append_of_ne_nil _ hsne] at hc
      exact hs c (List.mem_of_getLast? hc)

theorem Restyled.isThreat (h : Restyled s t) (hs : IsThreat s) : IsThreat t := by
  cases hs with
  | word hw hs => exact .word hw (h.spells (isPlainWord_of_word _ hw).letters hs)
  | @command v o a g s hv ho ha hg hs =>
    have hverb := isPlainWord_of_verb v hv
    have hobject := isPlainWord_of_object o ho
    obtain ⟨a', t, rfl, ha', h⟩ := h.split (.inl fun c hc =>
      isBlank_of_isWord (hverb.isWord_of_spells ha c (List.mem_of_getLast? hc)))
    obtain ⟨g', s', rfl, hg', hs'⟩ := h.split (.inr fun c hc =>
      isBlank_of_isWord (hobject.isWord_of_spells hs c (List.mem_of_mem_head? hc)))
    exact .command hv ho (ha'.spells hverb.letters ha) (hg'.isGap hg)
      (hs'.spells hobject.letters hs)

theorem Restyled.threatens (h : Restyled s t) (hs : Threatens s) : Threatens t := by
  obtain ⟨before, p, behind, rfl, hp, hbefore, hbehind⟩ := hs
  obtain ⟨hhead, hlast⟩ := hp.solid
  obtain ⟨before', t, rfl, hb, h⟩ := h.split (.inr fun c hc => hhead c (by
    rwa [List.head?_append_of_ne_nil _ hp.ne_nil] at hc))
  obtain ⟨p', behind', rfl, hp', hr⟩ := h.split (.inl hlast)
  exact ⟨before', p', behind', rfl, hp'.isThreat hp, hb.isWord_last hbefore, hr.endsWord hbehind⟩

/-! ## The verdict -/

/-- A query is turned down if nothing is left of it or if a threat stands in it. Otherwise it goes
on as it is between the white space at its ends. The style of the text is of no account. -/
theorem validateQuery_verdict (query : String) :
    (validateQuery query = .error .dangerous ↔
        trim query.toList ≠ [] ∧ Threatens (trim query.toList)) ∧
      (validateQuery query = .error .empty ↔ trim query.toList = []) ∧
      (trim query.toList ≠ [] → ¬ Threatens (trim query.toList) →
        validateQuery query = .ok (String.ofList (trim query.toList))) ∧
      ∀ query' : String, Restyled query.toList query'.toList →
        (validateQuery query').map (fun _ => ()) = (validateQuery query).map fun _ => () := by
  have verdict (q : String) : validateQuery q =
      if trim q.toList = [] then .error .empty
      else if isDangerous false (trim q.toList) then .error .dangerous
      else .ok (String.ofList (trim q.toList)) := by
    unfold validateQuery validate
    dsimp only
    split_ifs <;> rfl
  refine ⟨?_, ?_, ?_, ?_⟩
  · rw [verdict, ← isDangerous_iff]
    split_ifs with he hd
    · simp [he]
    · simp [he, hd]
    · simp [hd]
  · rw [verdict]
    split_ifs with he hd
    · simp [he]
    · simp [he]
    · simp [he]
  · intro he hd
    rw [← isDangerous_iff] at hd
    rw [verdict, if_neg he, if_neg hd]
  · intro query' h
    have ht := h.trim
    have hempty : trim query'.toList = [] ↔ trim query.toList = [] := by
      constructor
      · intro he
        exact (he ▸ ht.symm).eq_nil
      · intro he
        exact (he ▸ ht).eq_nil
    have hdangerous : isDangerous false (trim query'.toList) = true ↔
        isDangerous false (trim query.toList) = true := by
      rw [isDangerous_iff, isDangerous_iff]
      exact ⟨ht.symm.threatens, ht.threatens⟩
    rw [verdict, verdict]
    simp only [hempty, hdangerous]
    split_ifs <;> rfl

/-- Where the word goes on there is no threat, in any style. -/
theorem validateQuery_verdict_databases :
    trim " Drop\n databases".toList ≠ [] ∧ ¬ Threatens (trim " Drop\n databases".toList) ∧
      validateQuery " Drop\n databases" =
        .ok (String.ofList (trim " Drop\n databases".toList)) ∧
      Restyled " Drop\n databases".toList "\u3000DROP\tdataBases".toList ∧
      (validateQuery "\u3000DROP\tdataBases").map (fun _ => ()) =
        (validateQuery " Drop\n databases").map fun _ => () := by
  have hne : trim " Drop\n databases".toList ≠ [] := by decide
  have hno : ¬ Threatens (trim " Drop\n databases".toList) := by
    rw [← isDangerous_iff]
    decide +kernel
  have hrestyled : Restyled " Drop\n databases".toList "\u3000DROP\tdataBases".toList := by
    apply Restyled.append (s := [' ']) (t := ['\u3000'])
    · exact .of_gaps ⟨by decide, by decide⟩ ⟨by decide, by decide⟩
    apply Restyled.append (s := "Drop".toList) (t := "DROP".toList)
    · exact .of_chars (by decide)
    apply Restyled.append (s := ['\n', ' ']) (t := ['\t'])
    · exact .of_gaps ⟨by decide, by decide⟩ ⟨by decide, by decide⟩
    · exact .of_chars (by decide)
  obtain ⟨-, -, hok, hsame⟩ := validateQuery_verdict " Drop\n databases"
  exact ⟨hne, hno, hok hne hno, hrestyled, hsame _ hrestyled⟩

example : Threatens "x;dRop \u00a0\nDataBa\u017fe--".toList :=
  isDangerous_iff.mp (by decide +kernel)

end SchemaHost.Console
