import SchemaHost.Proofs.Schema.Columns
import SchemaHost.Proofs.Schema.Locality

/-! # Definitions up to their attributes

A definition is a stem, which is a name, a type and maybe a length, and a list of attributes or the
end of the text behind it. What the stem says does not depend on the list, and every text that is
read as a definition is made up that way.
-/

namespace SchemaHost.Schema

open Text

variable {q x : Char} {s t p r rest inner back attributes name type line : List Char}
  {length : Option (List Char)} {shape : Shape}

/-- A letter or low line, then word characters and dots, and the brackets of an array. -/
def IsTypeText (s : List Char) : Prop :=
  ∃ x xs array, s = x :: (xs ++ array) ∧ startsName false x = true ∧
    (∀ y ∈ xs, isTypeChar y = true) ∧ (array = [] ∨ array = ['[', ']'])

structure Stem where
  name : List Char
  gap : List Char
  type : List Char
  behind : List Char
  deriving DecidableEq, Repr

namespace Stem

def chars (s : Stem) : List Char :=
  s.name ++ (s.gap ++ (s.type ++ s.behind))

structure IsRead (s : Stem) (length : Option (List Char)) : Prop where
  name : takeName false s.name = some (s.name, [])
  gap_ne_nil : s.gap ≠ []
  gap : ∀ x ∈ s.gap, isBlank x = true
  type : IsTypeText s.type
  behind : ∃ r, takeLength (trimStart s.behind) = some (length, r) ∧ ∀ x ∈ r, isBlank x = true

end Stem

theorem cutAtLast_append (h : q ∉ t) : cutAtLast q (s ++ q :: t) = some (s, t) := by
  have hrev : (s ++ q :: t).reverse = t.reverse ++ q :: s.reverse := by simp
  rw [cutAtLast, hrev, cutAt_append (by simpa using h)]
  simp

theorem eq_comma_of_isTail (h : isTail s = true) : ∀ x ∈ s, isBlank x = false → x = ',' := by
  intro x hx hblank
  have hx : x ∈ trim s := mem_trim hx hblank
  unfold isTail at h
  split at h
  · next hs => simp [hs] at hx
  · next hs => simpa [hs] using hx
  · cases h

theorem isTail_trimStart (h : isTail s = true) : isTail (trimStart s) = true := by
  have htrim : trim (trimStart s) = trim s := by
    rw [trim, trim, trimStart, trimStart, List.dropWhile_idempotent]
  rw [isTail, htrim]
  exact h

theorem takeAttributes_tail (h : isTail s = true) : takeAttributes s = some [] := by
  unfold takeAttributes
  split
  · cases eq_comma_of_isTail h '[' List.mem_cons_self (by decide)
  · rw [if_pos h]

theorem takeAttributes_listed (hi : '\n' ∉ inner) (hb : isTail back = true) :
    takeAttributes ('[' :: (inner ++ ']' :: back)) = some inner := by
  have hclose : ']' ∉ back := by
    intro hm
    cases eq_comma_of_isTail hb ']' hm (by decide)
  rw [takeAttributes, cutAtLast_append hclose]
  simp [hb, hi]

theorem head_of_takeAttributes (h : takeAttributes s = some attributes) :
    ∀ x ∈ s.head?, isBlank x = false → x = '[' ∨ x = ',' := by
  intro x hx hblank
  unfold takeAttributes at h
  split at h
  · exact .inl (by simpa using hx.symm)
  · split at h
    · next htail => exact .inr (eq_comma_of_isTail htail x (List.mem_of_mem_head? hx) hblank)
    · cases h

theorem takeLength_of_head (h : s.head? ≠ some '(') : takeLength s = some (none, s) := by
  unfold takeLength
  split
  · exact absurd rfl h
  · rfl

theorem takeLength_local (h : takeLength s = some (length, r)) :
    ∃ a, s = a ++ r ∧ (∀ x ∈ a.head?, x = '(') ∧
      ∀ t, (a = [] → t.head? ≠ some '(') → takeLength (a ++ t) = some (length, t) := by
  by_cases hopen : s.head? = some '('
  · obtain ⟨cs, rfl⟩ := List.head?_eq_some_iff.mp hopen
    rw [takeLength] at h
    split at h
    · next c inner rest hcut =>
      split at h
      · next hall =>
        cases h
        obtain ⟨rfl, hclose⟩ := cutAt_eq hcut
        refine ⟨'(' :: (c :: inner ++ [')']), by simp, by simp, fun t _ => ?_⟩
        rw [List.cons_append, List.append_assoc, List.singleton_append, takeLength,
          cutAt_append hclose]
        simp only [hall, if_true]
      · cases h
    · cases h
  · rw [takeLength_of_head hopen] at h
    cases h
    exact ⟨[], rfl, by simp, fun t ht => takeLength_of_head (ht rfl)⟩

theorem trimStart_append_of_blank (hs : ∀ x ∈ s, isBlank x = true) (t : List Char) :
    trimStart (s ++ t) = trimStart t :=
  List.dropWhile_append_of_pos hs

theorem takeLength_append (h : takeLength (trimStart p) = some (length, r))
    (hr : ∀ x ∈ r, isBlank x = true) (hrest : (trimStart rest).head? ≠ some '(') :
    ∃ r', takeLength (trimStart (p ++ rest)) = some (length, r') ∧
      trimStart r' = trimStart rest := by
  obtain ⟨b, hp, hb, -⟩ := trimStart_local p
  obtain ⟨a, ha, hopen, hlocal⟩ := takeLength_local h
  rw [hp, ha, List.append_assoc, List.append_assoc, trimStart_append_of_blank hb]
  cases a with
  | nil =>
    refine ⟨trimStart rest, ?_, List.dropWhile_idempotent _ _⟩
    rw [List.nil_append, trimStart_append_of_blank hr]
    exact hlocal _ fun _ => hrest
  | cons c a =>
    obtain rfl := hopen c rfl
    exact ⟨r ++ rest, hlocal _ (by simp), trimStart_append_of_blank hr rest⟩

theorem isTypeChar_of_head (h : takeLength (trimStart t) = some (length, r))
    (ha : takeAttributes (trimStart r) = some attributes) :
    ∀ x ∈ t.head?, isTypeChar x = false := by
  intro x hx
  cases hblank : isBlank x with
  | true =>
    rw [Bool.eq_false_iff]
    intro htype
    rw [isBlank_of_isTypeChar htype] at hblank
    cases hblank
  | false =>
    have hstart : trimStart t = t := trimStart_of_head fun y hy => by
      obtain rfl := Option.mem_unique hx hy
      exact hblank
    rw [hstart] at h
    obtain ⟨a, rfl, hopen, -⟩ := takeLength_local h
    cases a with
    | nil =>
      have hr : trimStart r = r := hstart
      rw [hr] at ha
      rcases head_of_takeAttributes ha x hx hblank with rfl | rfl <;> decide
    | cons c a =>
      obtain rfl : c = x := by simpa using hx
      obtain rfl := hopen c rfl
      decide

theorem readBehindType_of_take (hl : takeLength (trimStart s) = some (length, r))
    (ha : takeAttributes (trimStart r) = some attributes) :
    readBehindType name type s = some ⟨name, type, length, attributes⟩ := by
  rw [readBehindType, hl]
  simp [ha]

theorem readShape_of_pieces (hn : takeName false line = some (name, r))
    (hb : r.head?.any isBlank = true) (hr : trimStart r = type ++ t) (htype : IsTypeText type)
    (ht : ∀ x ∈ t.head?, isTypeChar x = false)
    (hbehind : ∀ type, readBehindType name type t = some ⟨name, type, length, attributes⟩)
    (harray : ['[', ']'] <+: t → ∃ u, type = u ++ ['[', ']']) :
    readShape line = some ⟨name, type, length, attributes⟩ := by
  obtain ⟨y, ys, array, rfl, hy, hys, hbrackets⟩ := htype
  have hstop : ∀ x ∈ (array ++ t).head?, isTypeChar x = false := by
    rcases hbrackets with rfl | rfl
    · exact ht
    · intro x hx
      cases hx
      decide
  have htake := takeWhile_append_of_stop hys hstop
  have hdrop := dropWhile_append_of_stop hys hstop
  rw [List.cons_append, List.append_assoc] at hr
  simp only [readShape, hn, Option.bind_eq_bind, Option.bind_some, hb, hr, hy, htake, hdrop,
    guard_true, Option.pure_def]
  rcases hbrackets with rfl | rfl
  · rw [List.append_nil] at harray ⊢
    split
    · next r' hr' =>
      -- the brackets would be those of the type, which has none
      obtain ⟨u, hu⟩ := harray ⟨r', hr'.symm⟩
      have hclose : ']' ∈ y :: ys := by simp [hu]
      rcases List.mem_cons.mp hclose with rfl | hclose
      · cases hy
      · cases hys _ hclose
    · exact hbehind _
  · change (readBehindType name (y :: (ys ++ ['[', ']'])) t <|> _) = _
    rw [hbehind]
    rfl

theorem Stem.IsRead.behind_eq_nil {s : Stem} (h : s.IsRead length)
    (hb : (s.behind ++ rest).head? = some '[') : s.behind = [] := by
  obtain ⟨r, hl, hr⟩ := h.behind
  cases hbehind : s.behind with
  | nil => rfl
  | cons c u =>
    obtain rfl : c = '[' := by simpa [hbehind] using hb
    have hstart : trimStart ('[' :: u) = '[' :: u := rfl
    rw [hbehind, hstart, takeLength_of_head (by simp)] at hl
    cases hl
    cases hr '[' List.mem_cons_self

/-- A stem is read the same whatever list of attributes stands behind it. Only an empty list right
behind the type would be the brackets of an array. -/
theorem Stem.IsRead.readShape {s : Stem} (h : s.IsRead length)
    (ha : takeAttributes (trimStart rest) = some attributes)
    (harray : s.behind = [] → ['[', ']'] <+: rest → ∃ t, s.type = t ++ ['[', ']']) :
    readShape (s.chars ++ rest) = some ⟨s.name, s.type, length, attributes⟩ := by
  obtain ⟨r, hl, hr⟩ := h.behind
  have hrest : (trimStart rest).head? ≠ some '(' := by
    intro hopen
    have := head_of_takeAttributes ha '(' hopen (by decide)
    simp at this
  obtain ⟨r', hl, hr'⟩ := takeLength_append hl hr hrest
  rw [← hr'] at ha
  obtain ⟨g, gap, hgap⟩ := List.exists_cons_of_ne_nil h.gap_ne_nil
  have hg : isBlank g = true := h.gap g (hgap ▸ List.mem_cons_self)
  have hname : takeName false (s.name ++ (s.gap ++ (s.type ++ (s.behind ++ rest)))) =
      some (s.name, s.gap ++ (s.type ++ (s.behind ++ rest))) := by
    apply takeName_local h.name
    intro c hc hword
    obtain rfl : g = c := by simpa [hgap] using hc
    rw [isBlank_of_isWord hword] at hg
    cases hg
  have htext : s.chars ++ rest = s.name ++ (s.gap ++ (s.type ++ (s.behind ++ rest))) := by
    simp [Stem.chars]
  rw [htext]
  refine readShape_of_pieces hname ?gap ?type h.type (isTypeChar_of_head hl ha)
    (fun type => readBehindType_of_take hl ha) fun hp => ?array
  case gap => simp [hgap, hg]
  case type =>
    rw [trimStart_append_of_blank h.gap]
    apply trimStart_of_head
    obtain ⟨y, ys, array, htype, hy, -⟩ := h.type
    intro x hx
    obtain rfl : y = x := by simpa [htype] using hx
    exact isBlank_of_isTypeChar (isTypeChar_of_startsName hy)
  case array =>
    have hnil : s.behind = [] := h.behind_eq_nil (by obtain ⟨t, ht⟩ := hp; rw [← ht]; rfl)
    rw [hnil] at hp
    exact harray hnil hp

/-- Every definition begins with a stem, and what follows it is a list of attributes or the end. -/
theorem exists_stem_of_readShape (h : readShape line = some shape) :
    ∃ (s : Stem) (rest : List Char), line = s.chars ++ rest ∧ s.IsRead shape.length ∧
      s.name = shape.name ∧ s.type = shape.type ∧
      takeAttributes (trimStart rest) = some shape.attributes := by
  obtain ⟨r, x, xs, array, t, hn, hb, hr, hx, harray, hrest, hbehind⟩ := readShape_eq_some h
  obtain ⟨name, type, length, attributes⟩ := shape
  simp only [readBehindType, Option.bind_eq_bind, Option.bind_eq_some_iff] at hbehind
  obtain ⟨⟨length, rest⟩, hl, attributes, ha, hbehind⟩ := hbehind
  cases hbehind
  obtain ⟨gap, hgap, hblank, -⟩ := trimStart_local r
  obtain ⟨lead, hlead, hleadBlank, -⟩ := trimStart_local t
  obtain ⟨a, hrest', hopen, hlocal⟩ := takeLength_local hl
  have hblankx : isBlank x = false := isBlank_of_isTypeChar (isTypeChar_of_startsName hx)
  refine ⟨⟨name, gap, x :: xs.takeWhile isTypeChar ++ array, lead ++ a⟩, rest, ?chars,
    ⟨?name, ?gap, hblank, ?type, [], ?behind, by simp⟩, rfl, rfl, ha⟩
  case chars =>
    have hxs : xs = xs.takeWhile isTypeChar ++ (array ++ (lead ++ (a ++ rest))) := by
      rw [← hrest', ← hlead, ← hrest, List.takeWhile_append_dropWhile]
    rw [hr, hxs] at hgap
    rw [← takeName_eq hn, hgap]
    simp [Stem.chars]
  case name => exact takeName_self hn
  case gap =>
    rintro rfl
    rw [hgap, hr] at hb
    simp [hblankx] at hb
  case type => exact ⟨x, _, array, rfl, hx, fun y hy => List.mem_takeWhile_imp hy, harray⟩
  case behind =>
    have hstart : trimStart a = a := trimStart_of_head fun y hy => by
      obtain rfl := hopen y hy
      decide
    have := hlocal [] (by simp)
    rwa [trimStart_append_of_blank hleadBlank, hstart, ← List.append_nil a]

end SchemaHost.Schema
