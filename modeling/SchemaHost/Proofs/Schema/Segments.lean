import SchemaHost.Proofs.Schema.Locality

/-! # Names behind a schema

Headers and references take names without regard to case. The name of the table is looked for once
more in what they took, now with regard to case, and is found whole unless it begins with one of the
four letters that are letters of ASCII only without it.
-/

namespace SchemaHost.Schema

open Text

variable {s a rest name : List Char}

/-- A name as a header or a reference takes it. -/
inductive Segment where
  | bare (first : Char) (rest : List Char) (hfirst : startsName true first = true)
      (hrest : ∀ c ∈ rest, isWord c = true)
  | quoted (quote : Char) (inner : List Char) (hquote : quote = '"' ∨ quote = '`')
      (hne : inner ≠ []) (hinner : quote ∉ inner)

/-- A name, maybe with the name of its schema before it. -/
structure Dotted where
  schema : Option Segment
  last : Segment

/-! ## The second look -/

/-- A run of word characters holds at most one name, from the first letter that may begin one. -/
theorem namesIn_words (hs : ∀ c ∈ s, isWord c = true) (hr : ∀ c ∈ rest.head?, isWord c = false) :
    namesIn (s ++ rest) =
      [s.dropWhile (!startsName false ·)].filter (· ≠ []) ++ namesIn rest := by
  induction s with
  | nil => rfl
  | cons c s ih =>
    rw [List.forall_mem_cons] at hs
    cases hc : startsName false c with
    | true =>
      have htake := takeName_bare false ⟨c, s, rfl, hc, hs.2⟩ rest hr
      rw [namesIn_of_takeName htake, List.dropWhile_cons_of_neg (by simp [hc])]
      rfl
    | false =>
      have hne : c ≠ '"' ∧ c ≠ '`' := by
        constructor <;> (rintro rfl; cases hs.1)
      rw [List.cons_append, namesIn_of_none (takeName_eq_none hne.1 hne.2 hc), ih hs.2,
        List.dropWhile_cons_of_pos (by simp [hc])]

namespace Segment

def written : Segment → List Char
  | bare first rest .. => first :: rest
  | quoted quote inner .. => quote :: (inner ++ [quote])

def plain : Segment → List Char
  | bare first rest .. => first :: rest
  | quoted _ inner .. => inner

/-- What the second look finds of the name, nothing if it is empty. -/
def found : Segment → List Char
  | bare first rest .. => (first :: rest).dropWhile (!startsName false ·)
  | quoted quote inner .. => quote :: (inner ++ [quote])

def IsQuoted : Segment → Prop
  | bare .. => False
  | quoted .. => True

/-- Bare, and begun by a letter that counts only without regard to case. -/
def IsKin : Segment → Prop
  | bare first .. => isKinLetter first = true
  | quoted .. => False

theorem exists_of_takeName {name : List Char} (h : takeName true s = some (name, rest)) :
    ∃ x : Segment, x.written = name := by
  rcases takeName_shape h with ⟨x, xs, rfl, hx, hxs⟩ | ⟨q, x, xs, hq, rfl, hinner⟩
  · exact ⟨.bare x xs hx hxs, rfl⟩
  · exact ⟨.quoted q (x :: xs) hq (List.cons_ne_nil x xs) hinner, rfl⟩

variable {x y : Segment}

theorem written_ne_nil (x : Segment) : x.written ≠ [] := by
  cases x <;> exact List.cons_ne_nil _ _

theorem isWord_written (h : ¬ x.IsQuoted) : ∀ c ∈ x.written, isWord c = true := by
  cases x with
  | bare first rest hfirst hrest =>
    exact List.forall_mem_cons.mpr ⟨isWord_of_startsName hfirst, hrest⟩
  | quoted => exact absurd trivial h

theorem found_bare (h : ¬ x.IsQuoted) : x.found = x.written.dropWhile (!startsName false ·) := by
  cases x with
  | bare => rfl
  | quoted => exact absurd trivial h

theorem namesIn_written (x : Segment) (hr : ∀ c ∈ rest.head?, isWord c = false) :
    namesIn (x.written ++ rest) = [x.found].filter (· ≠ []) ++ namesIn rest := by
  cases x with
  | bare first letters hfirst hrest =>
    exact namesIn_words (List.forall_mem_cons.mpr ⟨isWord_of_startsName hfirst, hrest⟩) hr
  | quoted quote inner hquote hne hinner =>
    have htake := takeName_enclosed false hquote hne hinner rest
    have happend : quote :: (inner ++ [quote]) ++ rest = quote :: (inner ++ quote :: rest) := by
      simp
    rw [written, happend, namesIn_of_takeName htake]
    rfl

theorem unquote_words (hs : ∀ c ∈ s, isWord c = true) : unquote s = s :=
  unquote_of_isWord (fun c hc => hs c (List.mem_of_mem_head? hc))
    fun c hc => hs c (List.mem_of_getLast? hc)

theorem unquote_written (x : Segment) : unquote x.written = x.plain := by
  cases x with
  | bare first rest hfirst hrest =>
    exact unquote_words (List.forall_mem_cons.mpr ⟨isWord_of_startsName hfirst, hrest⟩)
  | quoted quote inner hquote hne hinner => exact unquote_quoted hquote hne

theorem unquote_found (h : ¬ x.IsQuoted) : unquote x.found = x.found := by
  rw [found_bare h]
  exact unquote_words fun c hc => isWord_written h c (List.dropWhile_subset _ hc)

theorem found_eq_nil_iff (h : ¬ x.IsQuoted) :
    x.found = [] ↔ ∀ c ∈ x.written, startsName false c = false := by
  simp [found_bare h]

/-! ### The four letters -/

theorem startsName_of_isKinLetter {c : Char} (h : isKinLetter c = true) :
    startsName false c = false := by
  simp only [isKinLetter, Bool.or_eq_true, beq_iff_eq] at h
  rcases h with ((rfl | rfl) | rfl) | rfl <;> rfl

theorem IsKin.not_isQuoted (h : x.IsKin) : ¬ x.IsQuoted := by
  cases x with
  | bare => exact not_false
  | quoted => exact h.elim

theorem IsKin.head_plain (h : x.IsKin) : ∀ c ∈ x.plain.head?, startsName false c = false := by
  cases x with
  | bare first rest =>
    rintro c ⟨⟩
    exact startsName_of_isKinLetter h
  | quoted => exact h.elim

theorem found_of_not_isKin (h : ¬ x.IsKin) : x.found = x.written := by
  cases x with
  | bare first rest hfirst hrest =>
    have hkin : isKinLetter first = false := by simpa [IsKin] using h
    have hstart : startsName false first = true := by
      simpa [startsName, hkin] using hfirst
    rw [found, written, List.dropWhile_cons_of_neg (by simp [hstart])]
  | quoted => rfl

theorem found_ne_plain (hx : ¬ x.IsQuoted) (hf : x.found ≠ []) (hy : y.IsKin) :
    x.found ≠ y.plain := by
  intro h
  obtain ⟨c, cs, hc⟩ := List.exists_cons_of_ne_nil hf
  have hstart := eq_false_of_head_dropWhile (!startsName false ·) x.written c
  rw [← found_bare hx, hc] at hstart
  have hkin := hy.head_plain c
  rw [← h, hc] at hkin
  have hletter := hkin rfl
  simp [hletter] at hstart

end Segment

namespace Dotted

open Segment

variable {q : Segment} {d : Dotted}

def written (d : Dotted) : List Char :=
  match d.schema with
  | none => d.last.written
  | some q => q.written ++ '.' :: d.last.written

/-- The name of the table is found whole. Begun by one of the four letters it must not hold any that
may begin a name with regard to case, and stand alone or behind a schema of the same name in
quotes. -/
def IsKept (d : Dotted) : Prop :=
  d.last.IsKin → (∀ c ∈ d.last.written, startsName false c = false) ∧
    ∀ q ∈ d.schema, q.IsQuoted ∧ q.plain = d.last.plain

theorem namesIn_written (d : Dotted) :
    namesIn d.written = ((d.schema.toList ++ [d.last]).map found).filter (· ≠ []) := by
  have hlast : namesIn d.last.written = [d.last.found].filter (· ≠ []) := by
    have h : namesIn (d.last.written ++ []) = _ := d.last.namesIn_written nofun
    rwa [namesIn_nil, List.append_nil, List.append_nil] at h
  obtain ⟨_ | q, last⟩ := d
  · exact hlast
  · have hdot : namesIn ('.' :: last.written) = namesIn last.written := namesIn_of_none rfl
    change namesIn (q.written ++ '.' :: last.written) = _
    rw [q.namesIn_written (by rintro c ⟨⟩; rfl), hdot, hlast, ← List.filter_append]
    rfl

theorem lastName_of_found (h : d.last.found ≠ []) :
    lastName d.written = unquote d.last.found := by
  have hlast : (namesIn d.written).getLast? = some d.last.found := by
    simp [namesIn_written, h]
  rw [lastName, hlast]

theorem lastName_of_schema (hl : d.last.found = []) (hq : d.schema = some q) (h : q.found ≠ []) :
    lastName d.written = unquote q.found := by
  have hlast : (namesIn d.written).getLast? = some q.found := by
    simp [namesIn_written, hl, hq, h]
  rw [lastName, hlast]

theorem lastName_of_nothing (hl : d.last.found = []) (hq : ∀ q ∈ d.schema, q.found = []) :
    lastName d.written = unquote d.written := by
  have hnone : namesIn d.written = [] := by
    rw [namesIn_written]
    cases hs : d.schema with
    | none => simp [hl]
    | some q => simp [hl, hq q hs]
  rw [lastName, hnone]
  rfl

/-- Where the name of the table is not found, what is found of the schema takes its place. With
nothing found of either all is taken for one name. -/
theorem lastName_eq_iff_of_schema (hk : d.last.IsKin) (hl : d.last.found = [])
    (hq : d.schema = some q) :
    lastName d.written = d.last.plain ↔ q.IsQuoted ∧ q.plain = d.last.plain := by
  by_cases hb : q.IsQuoted
  · have hfound : q.found = q.written := by
      apply found_of_not_isKin
      exact fun h => h.not_isQuoted hb
    have hne : q.found ≠ [] := hfound ▸ q.written_ne_nil
    rw [lastName_of_schema hl hq hne, hfound, unquote_written, and_iff_right hb]
  · refine iff_of_false ?_ fun h => hb h.1
    by_cases hf : q.found = []
    · -- no name is found at all, and the dot stays in what is taken for one
      have hwritten : d.written = q.written ++ '.' :: d.last.written := by rw [written, hq]
      have hhead : ∀ c ∈ d.written.head?, isWord c = true := by
        rw [hwritten, List.head?_append_of_ne_nil _ q.written_ne_nil]
        exact fun c hc => isWord_written hb c (List.mem_of_mem_head? hc)
      have hlast : ∀ c ∈ d.written.getLast?, isWord c = true := by
        rw [hwritten, List.getLast?_append_of_ne_nil _ (List.cons_ne_nil _ _),
          List.getLast?_cons_of_ne_nil d.last.written_ne_nil]
        exact fun c hc => isWord_written hk.not_isQuoted c (List.mem_of_getLast? hc)
      rw [lastName_of_nothing hl (by rw [hq]; rintro _ ⟨⟩; exact hf),
        unquote_of_isWord hhead hlast, hwritten, ← unquote_written,
        unquote_words (isWord_written hk.not_isQuoted)]
      intro h
      have := congrArg List.length h
      simp only [List.length_append, List.length_cons] at this
      omega
    · rw [lastName_of_schema hl hq hf, unquote_found hb]
      exact found_ne_plain hb hf hk

theorem lastName_written_iff (d : Dotted) : lastName d.written = d.last.plain ↔ d.IsKept := by
  by_cases hk : d.last.IsKin
  · have hb := hk.not_isQuoted
    rw [IsKept, imp_iff_right hk, ← found_eq_nil_iff hb]
    by_cases hl : d.last.found = []
    · rw [and_iff_right hl]
      cases hq : d.schema with
      | none =>
        have hwritten : d.written = d.last.written := by rw [written, hq]
        refine iff_of_true ?_ nofun
        rw [lastName_of_nothing hl (by rw [hq]; nofun), hwritten, unquote_written]
      | some q =>
        rw [lastName_eq_iff_of_schema hk hl hq]
        simp
    · -- the letters before the first that may begin a name are lost
      refine iff_of_false ?_ fun h => hl h.1
      rw [lastName_of_found hl, unquote_found hb]
      exact found_ne_plain hb hl hk
  · have hfound := found_of_not_isKin hk
    refine iff_of_true ?_ fun h => absurd h hk
    rw [lastName_of_found (hfound ▸ d.last.written_ne_nil), hfound, unquote_written]

theorem lastName_of_not_isKin (d : Dotted) (h : ¬ d.last.IsKin) :
    lastName d.written = d.last.plain :=
  d.lastName_written_iff.mpr fun hk => absurd hk h

/-- What a header takes for a name is a dotted name. -/
theorem exists_of_takeDotted {name : List Char} (h : takeDotted true s = some (name, rest)) :
    ∃ d : Dotted, d.written = name := by
  unfold takeDotted at h
  split at h
  · next h₁ =>
    obtain ⟨⟨m, r⟩, h₂, he⟩ := Option.map_eq_some_iff.mp h
    cases he
    obtain ⟨q, rfl⟩ := exists_of_takeName h₁
    obtain ⟨x, rfl⟩ := exists_of_takeName h₂
    exact ⟨⟨some q, x⟩, rfl⟩
  · next h₁ =>
    cases h
    obtain ⟨x, rfl⟩ := exists_of_takeName h₁
    exact ⟨⟨none, x⟩, rfl⟩
  · cases h

theorem exists_of_takeEndpoint {table column : List Char}
    (h : takeEndpoint s = some ((table, column), rest)) :
    ∃ (d : Dotted) (x : Segment), d.written = table ∧ x.written = column ∧
      s = d.written ++ '.' :: (x.written ++ rest) := by
  unfold takeEndpoint at h
  split at h
  · next h₁ =>
    obtain ⟨x, rfl⟩ := exists_of_takeName h₁
    obtain rfl := takeName_eq h₁
    split at h
    · next h₂ =>
      obtain ⟨y, rfl⟩ := exists_of_takeName h₂
      obtain rfl := takeName_eq h₂
      split at h
      · next h₃ =>
        cases h
        obtain ⟨z, rfl⟩ := exists_of_takeName h₃
        obtain rfl := takeName_eq h₃
        exact ⟨⟨some x, y⟩, z, rfl, rfl, by simp [written]⟩
      · cases h
        exact ⟨⟨none, x⟩, y, rfl, rfl, by simp [written]⟩
    · next h₂ =>
      cases h
      obtain ⟨y, rfl⟩ := exists_of_takeName h₂
      obtain rfl := takeName_eq h₂
      exact ⟨⟨none, x⟩, y, rfl, rfl, rfl⟩
    · cases h
  · cases h

end Dotted

/-! ## Names with regard to case -/

theorem exists_segment_of_bare (h : IsBareName s) :
    ∃ x : Segment, x.written = s ∧ x.plain = s ∧ ¬ x.IsKin := by
  obtain ⟨x, xs, rfl, hx, hxs⟩ := h
  have hfirst : startsName true x = true := by
    simpa [startsName] using Or.inl (by simpa [startsName] using hx)
  refine ⟨.bare x xs hfirst hxs, rfl, rfl, fun hk => ?_⟩
  cases hx.symm.trans (Segment.startsName_of_isKinLetter hk)

theorem lastName_quoted (hne : name ≠ []) (h : '"' ∉ name) :
    lastName ('"' :: (name ++ ['"'])) = name :=
  Dotted.lastName_of_not_isKin ⟨none, .quoted '"' name (.inl rfl) hne h⟩ not_false

theorem lastName_bare (h : IsBareName s) : lastName s = s := by
  obtain ⟨x, hx, hplain, hkin⟩ := exists_segment_of_bare h
  have h : lastName x.written = x.plain := Dotted.lastName_of_not_isKin ⟨none, x⟩ hkin
  rwa [hx, hplain] at h

theorem lastName_dotted (hs : IsBareName s) (ha : IsBareName a) :
    lastName (s ++ '.' :: a) = a := by
  obtain ⟨q, hq, -, -⟩ := exists_segment_of_bare hs
  obtain ⟨x, hx, hplain, hkin⟩ := exists_segment_of_bare ha
  have h : lastName (q.written ++ '.' :: x.written) = x.plain :=
    Dotted.lastName_of_not_isKin ⟨some q, x⟩ hkin
  rwa [hq, hx, hplain] at h

end SchemaHost.Schema
