import SchemaHost.Proofs.Schema.Links

/-! # Tables named by headers and references

A header gives a dotted name, and a reference two of them with a column behind each. The columns are
taken as they are written. The tables are looked for once more in what is written, and lose what is
not found there.
-/

namespace SchemaHost.Schema

open Text

variable {s rest : List Char}

structure Statement where
  left : Dotted
  leftColumn : Segment
  op : Operator
  right : Dotted
  rightColumn : Segment

namespace Statement

/-- The text is a statement and the rest: the word, anything up to the first colon or brace, and the
two ends with the operator between them. -/
inductive Begins (w : Statement) (rest : List Char) : List Char → Prop
  | intro {word label gap gap' gap'' : List Char} {mark : Char}
      (hword : dropWord ['r', 'e', 'f'] word = some []) (hend : ∀ c ∈ label.head?, isWord c = false)
      (hlabel : ∀ c ∈ label, c ≠ ':' ∧ c ≠ '{' ∧ c ≠ '\n') (hmark : mark = ':' ∨ mark = '{')
      (hgap : ∀ c ∈ gap, isBlank c = true) (hgap' : ∀ c ∈ gap', isBlank c = true)
      (hgap'' : ∀ c ∈ gap'', isBlank c = true) :
      Begins w rest (word ++ (label ++ mark :: (gap ++ (w.left.written ++ '.' ::
        (w.leftColumn.written ++ (gap' ++ (w.op.sign ++ (gap'' ++ (w.right.written ++ '.' ::
          (w.rightColumn.written ++ rest))))))))))

/-- The relationship that is made of it. The names of the columns are taken as they are, those of
the tables are looked for in what is written. -/
def relationship (w : Statement) : Relationship :=
  w.op.relate ⟨lastName w.left.written, w.leftColumn.plain⟩
    ⟨lastName w.right.written, w.rightColumn.plain⟩

theorem exists_of_afterOpening (h : afterOpening s = some rest) :
    ∃ label mark, s = label ++ mark :: rest ∧ (mark = ':' ∨ mark = '{') ∧
      ∀ c ∈ label, c ≠ ':' ∧ c ≠ '{' ∧ c ≠ '\n' := by
  induction s with
  | nil => cases h
  | cons c s ih =>
    simp only [afterOpening] at h
    split_ifs at h with hmark hbreak
    · cases h
      rw [Bool.or_eq_true, beq_iff_eq, beq_iff_eq] at hmark
      exact ⟨[], c, rfl, hmark, by simp⟩
    · obtain ⟨label, mark, rfl, hm, hlabel⟩ := ih h
      simp only [Bool.or_eq_true, beq_iff_eq, not_or] at hmark hbreak
      refine ⟨c :: label, mark, rfl, hm, List.forall_mem_cons.mpr ⟨?_, hlabel⟩⟩
      exact ⟨hmark.1, hmark.2, hbreak⟩

theorem takeOperator_eq {op : Operator} (h : takeOperator s = some (op, rest)) :
    s = op.sign ++ rest := by
  unfold takeOperator at h
  split at h <;> cases h <;> rfl

theorem exists_of_takeReference {r : Relationship} (h : takeReference s = some (r, rest)) :
    ∃ w : Statement, w.Begins rest s ∧ r = w.relationship := by
  obtain ⟨r₁, h₁, h⟩ := Option.bind_eq_some_iff.mp h
  obtain ⟨r₂, h₂, h⟩ := Option.bind_eq_some_iff.mp h
  obtain ⟨⟨⟨table, column⟩, r₃⟩, h₃, h⟩ := Option.bind_eq_some_iff.mp h
  obtain ⟨⟨op, r₄⟩, h₄, h⟩ := Option.bind_eq_some_iff.mp h
  obtain ⟨⟨⟨table', column'⟩, r₅⟩, h₅, h⟩ := Option.map_eq_some_iff.mp h
  cases h
  split_ifs at h₂ with hword
  obtain ⟨word, rfl, hdrop⟩ := dropWord_local h₁
  obtain ⟨label, mark, rfl, hmark, hlabel⟩ := exists_of_afterOpening h₂
  obtain ⟨left, leftColumn, rfl, rfl, hleft⟩ := Dotted.exists_of_takeEndpoint h₃
  obtain ⟨right, rightColumn, rfl, rfl, hright⟩ := Dotted.exists_of_takeEndpoint h₅
  have hop := takeOperator_eq h₄
  obtain ⟨gap, hs₂, hgap, -⟩ := trimStart_local r₂
  obtain ⟨gap', hs₃, hgap', -⟩ := trimStart_local r₃
  obtain ⟨gap'', hs₄, hgap'', -⟩ := trimStart_local r₄
  have hend : ∀ c ∈ label.head?, isWord c = false := by
    intro c hc
    obtain ⟨cs, rfl⟩ := List.head?_eq_some_iff.mp hc
    simpa using hword
  refine ⟨⟨left, leftColumn, op, right, rightColumn⟩, ?_, ?_⟩
  · rw [hs₂, hleft, hs₃, hop, hs₄, hright]
    exact .intro (by simpa using hdrop []) hend hlabel hmark hgap hgap' hgap''
  · rw [relationship, Endpoint.ofWritten, Endpoint.ofWritten, leftColumn.unquote_written,
      rightColumn.unquote_written]

end Statement

/-- Wherever a header or a reference stands, the name of a table is the last name that is written
there, whole and without its quotes, exactly if that is kept. -/
theorem tableName_of_match (s : List Char) :
    (∀ name rest, takeHeader s = some (name, rest) → (∃ d : Dotted, d.written = name) ∧
        ∀ d : Dotted, d.written = name → (lastName name = d.last.plain ↔ d.IsKept)) ∧
      ∀ r rest, takeReference s = some (r, rest) →
        ∃ w : Statement, w.Begins rest s ∧ r = w.relationship ∧
          (lastName w.left.written = w.left.last.plain ↔ w.left.IsKept) ∧
          (lastName w.right.written = w.right.last.plain ↔ w.right.IsKept) := by
  constructor
  · intro name rest h
    obtain ⟨r₁, -, h⟩ := Option.bind_eq_some_iff.mp h
    obtain ⟨r₂, -, h⟩ := Option.bind_eq_some_iff.mp h
    obtain ⟨⟨name', r₃⟩, hname, h⟩ := Option.bind_eq_some_iff.mp h
    obtain ⟨r₄, -, h⟩ := Option.bind_eq_some_iff.mp h
    obtain ⟨r₅, -, he⟩ := Option.map_eq_some_iff.mp h
    cases he
    refine ⟨Dotted.exists_of_takeDotted hname, ?_⟩
    rintro d rfl
    exact d.lastName_written_iff
  · intro r rest h
    obtain ⟨w, hw, hr⟩ := Statement.exists_of_takeReference h
    exact ⟨w, hw, hr, w.left.lastName_written_iff, w.right.lastName_written_iff⟩

def archived : Dotted where
  schema := some (.quoted '"' "a.b".toList (by decide) (by decide) (by decide))
  last := .bare 'ſ' ['1'] (by decide) (by decide)

def archivedHeader : List Char :=
  "taBle \t\"a.b\".ſ1 as x [x] \x7b".toList

def archivedReference : List Char :=
  "Ref f: \"a.b\".ſ1.id <> ıd.`ſ m`.\"x\",".toList

theorem tableName_of_match_archived :
    takeHeader archivedHeader = some (archived.written, []) ∧
      (lastName archived.written = archived.last.plain ↔ archived.IsKept) ∧
      takeReference archivedReference = some (⟨"a.b", "id", "ſ m", "x"⟩, [',']) ∧
      ∃ w : Statement, w.Begins [','] archivedReference ∧
        ⟨"a.b", "id", "ſ m", "x"⟩ = w.relationship ∧
        (lastName w.left.written = w.left.last.plain ↔ w.left.IsKept) ∧
        (lastName w.right.written = w.right.last.plain ↔ w.right.IsKept) := by
  have hheader : takeHeader archivedHeader = some (archived.written, []) := by decide +kernel
  have hreference :
      takeReference archivedReference = some (⟨"a.b", "id", "ſ m", "x"⟩, [',']) := by
    decide +kernel
  obtain ⟨-, hname⟩ := (tableName_of_match archivedHeader).1 _ _ hheader
  exact ⟨hheader, hname archived rfl, hreference, (tableName_of_match _).2 _ _ hreference⟩

/-- A long s at the front of a name is lost. -/
theorem not_forall_tableName :
    ¬ ∀ (s name rest : List Char) (d : Dotted), takeHeader s = some (name, rest) →
      d.written = name → lastName name = d.last.plain := by
  intro h
  let d : Dotted := ⟨none, .bare 'ſ' "essions".toList (by decide) (by decide)⟩
  have hlost := h "Table ſessions \x7b".toList d.written [] d (by decide +kernel) rfl
  revert hlost
  decide +kernel

end SchemaHost.Schema
