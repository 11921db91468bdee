import Mathlib.Data.List.Forall2
import Mathlib.Data.List.Nodup
import SchemaHost.Proofs.Ddl.Columns

/-! # What a create statement enforces

The clauses of a create statement, read back, against the table that it was made for: its columns in
their order, its primary key, and which columns are required and which unique.
-/

namespace SchemaHost.Ddl

open Schema Text Sql

variable {schema statement : String} {s r : List Char} {c : Column} {t : Table}

/-! ## Lists in a statement -/

def comma : Lexeme := ⟨.mark, [',']⟩

theorem lexemes_joined {separator : String} {gap : List Lexeme} {ps : List String}
    (hseparator : ∀ rest, lexemes (separator.toList ++ rest) = comma :: gap ++ lexemes rest)
    (hcomma : separator.toList.head? = some ',') (h : ∀ p ∈ ps, IsPart p.toList)
    (hr : BreaksOff r) :
    lexemes ((joined separator ps).toList ++ r) =
      separated gap (ps.map fun p => lexemes p.toList) ++ lexemes r := by
  induction ps with
  | nil => rfl
  | cons p ps ih =>
    obtain ⟨hp, hps⟩ := List.forall_mem_cons.mp h
    cases ps with
    | nil => exact hp r hr
    | cons q ps =>
      have hb : BreaksOff (separator.toList ++ ((joined separator (q :: ps)).toList ++ r)) := by
        obtain ⟨u, hu⟩ := List.head?_eq_some_iff.mp hcomma
        simp [hu, BreaksOff, breakers]
      rw [joined, String.toList_append, String.toList_append, List.append_assoc, List.append_assoc,
        hp _ hb, hseparator, ih hps]
      · simp [separated, comma]
      · simp

/-! ## The clause of a key -/

theorem lexemes_quote {name : String} (h : name.toList.getLast? ≠ some '\n') (hr : BreaksOff r) :
    lexemes ((quote name).toList ++ r) = nameToken name.toList :: lexemes r := by
  rw [quote, String.toList_ofList, lexemes_quoteChars h hr]

theorem isPart_quote {name : String} (h : name.toList.getLast? ≠ some '\n') :
    IsPart (quote name).toList ∧ lexemes (quote name).toList = [nameToken name.toList] := by
  have hone : lexemes (quote name).toList = [nameToken name.toList] := by
    simpa using lexemes_quote h breaksOff_nil
  refine ⟨fun rest hr => ?_, hone⟩
  rw [lexemes_quote h hr, hone]
  rfl

def nameLexemes (names : List String) : List Lexeme :=
  separated [space] (names.map fun n => [nameToken n.toList])

theorem nameLexemes_cons (n m : String) (names : List String) :
    nameLexemes (n :: m :: names) =
      nameToken n.toList :: comma :: space :: nameLexemes (m :: names) := rfl

theorem identifiers_nameLexemes (names : List String) :
    ((nameLexemes names).filter (·.isToken)).filterMap (·.identifier?) = names.map keptName := by
  induction names with
  | nil => rfl
  | cons n names ih =>
    have hname (xs : List Lexeme) :
        ((nameToken n.toList :: xs).filter (·.isToken)).filterMap (·.identifier?) =
          keptName n :: (xs.filter (·.isToken)).filterMap (·.identifier?) := by
      rw [List.filter_cons_of_pos (isToken_nameToken _),
        List.filterMap_cons_some (identifier_nameToken _)]
      rfl
    cases names with
    | nil => exact hname []
    | cons m names =>
      rw [nameLexemes_cons, hname, List.map_cons, ← ih]
      rfl

theorem isMark_of_mem_nameLexemes {names : List String} {x : Lexeme} (h : x ∈ nameLexemes names) :
    x.isMark '(' = false ∧ x.isMark ')' = false := by
  induction names with
  | nil => cases h
  | cons n names ih =>
    cases names with
    | nil =>
      rw [List.mem_singleton.mp h]
      exact ⟨isMark_nameToken _ _, isMark_nameToken _ _⟩
    | cons m names =>
      rw [nameLexemes_cons, List.mem_cons, List.mem_cons, List.mem_cons] at h
      rcases h with rfl | rfl | rfl | h
      · exact ⟨isMark_nameToken _ _, isMark_nameToken _ _⟩
      · decide
      · decide
      · exact ih h

def keyText (names : List String) : String :=
  "PRIMARY KEY (" ++ joined ", " (names.map quote) ++ ")"

def keyLexemes (names : List String) : List Lexeme :=
  lexemes "PRIMARY KEY ".toList ++ (⟨.mark, ['(']⟩ :: nameLexemes names ++ [⟨.mark, [')']⟩])

theorem lexemes_keyText {names : List String} (h : ∀ n ∈ names, n.toList.getLast? ≠ some '\n')
    (r : List Char) : lexemes ((keyText names).toList ++ r) = keyLexemes names ++ lexemes r := by
  have hopen : lexemes "PRIMARY KEY (".toList =
      lexemes "PRIMARY KEY ".toList ++ [⟨.mark, ['(']⟩] := by decide
  have hfront : IsFront "PRIMARY KEY (".toList := isFront_of_isLoose (by decide) (by decide)
  have hclose : IsFront ")".toList := isFront_of_mem_breakers (by decide)
  have hseparator (rest : List Char) :
      lexemes (", ".toList ++ rest) = comma :: [space] ++ lexemes rest :=
    isFront_of_isLoose (by decide) (by decide) rest
  have hparts : ∀ p ∈ names.map quote, IsPart p.toList := by
    intro p hp
    obtain ⟨n, hn, rfl⟩ := List.mem_map.mp hp
    exact (isPart_quote (h n hn)).1
  have hnames : (names.map quote).map (fun p => lexemes p.toList) =
      names.map fun n => [nameToken n.toList] := by
    rw [List.map_map]
    refine List.map_congr_left fun n hn => ?_
    rw [Function.comp_apply, (isPart_quote (h n hn)).2]
  simp only [keyText, String.toList_append, List.append_assoc]
  rw [hfront, hopen, lexemes_joined hseparator rfl hparts (.append (by decide) (by decide) r),
    hnames, hclose]
  simp [keyLexemes, nameLexemes]
  rfl

theorem isInner_keyLexemes (names : List String) : IsInner (keyLexemes names) :=
  (isInner_of_isBalanced (by decide)).append
    (isInnerDeep_of_forall fun _ hx => isMark_of_mem_nameLexemes hx).parens

theorem read_keyLexemes (names : List String) :
    Clause.read (keyLexemes names) = some (.key (names.map keptName)) := by
  let front : List Lexeme := tokens "PRIMARY KEY (".toList
  have htokens : (keyLexemes names).filter (·.isToken) =
      front ++ ((nameLexemes names).filter (·.isToken) ++ [⟨.mark, [')']⟩]) := by
    have hopen : front = tokens "PRIMARY KEY ".toList ++ [⟨.mark, ['(']⟩] := by decide
    rw [hopen, keyLexemes, List.filter_append, List.filter_append, List.append_assoc]
    rfl
  have hcapture (ys : List Lexeme) :
      capture (words (Clause.keyWords ++ ["("])) (front ++ ys) = some [] := by
    rw [← List.append_nil (words _), capture_words (by decide)]
    rfl
  have hdrop (ys : List Lexeme) : (front ++ ys).drop 3 = ys :=
    List.drop_left' (by decide)
  rw [Clause.read, htokens, hcapture, hdrop, List.filterMap_append, identifiers_nameLexemes]
  simp
  rfl

/-! ## All clauses of a statement -/

/-- The text is read as the clause, wherever it stands. -/
structure IsClause (p : String) (clause : Clause) : Prop where
  part : IsPart p.toList
  inner : IsInner (lexemes p.toList)
  read : Clause.read (lexemes p.toList) = some clause

theorem isClause_of_lexemes {p : String} {clause : Clause} {xs : List Lexeme}
    (h : ∀ rest, BreaksOff rest → lexemes (p.toList ++ rest) = xs ++ lexemes rest)
    (hi : IsInner xs) (hr : Clause.read xs = some clause) : IsClause p clause := by
  have hself : lexemes p.toList = xs := by simpa using h [] breaksOff_nil
  exact ⟨fun rest hrest => by rw [h rest hrest, hself], hself ▸ hi, hself ▸ hr⟩

theorem isClause_renderColumn (h : IsWritten c) (inlineKey : Bool) :
    IsClause (renderColumn c inlineKey) (.column (clauseOf c inlineKey)) :=
  isClause_of_lexemes (fun _ => lexemes_renderColumn h) (isInner_columnLexemes h)
    (read_columnLexemes h)

theorem isClause_keyText {names : List String} (h : ∀ n ∈ names, n.toList.getLast? ≠ some '\n') :
    IsClause (keyText names) (.key (names.map keptName)) :=
  isClause_of_lexemes (fun rest _ => lexemes_keyText h rest) (isInner_keyLexemes names)
    (read_keyLexemes names)

def keyColumns (t : Table) : List Column :=
  t.columns.filter (·.isPrimaryKey)

/-- A key of one column stands in the clause of the column. -/
def clausesOf (t : Table) : List Clause :=
  if (keyColumns t).length ≤ 1 then t.columns.map fun c => .column (clauseOf c true)
  else t.columns.map (fun c => .column (clauseOf c false)) ++
    [.key ((keyColumns t).map fun c => keptName c.name)]

theorem isClause_tableClauses (h : ∀ c ∈ t.columns, IsWritten c) :
    List.Forall₂ IsClause (tableClauses t) (clausesOf t) := by
  have hcolumns (inlineKey : Bool) :
      List.Forall₂ IsClause (t.columns.map (renderColumn · inlineKey))
        (t.columns.map fun c => .column (clauseOf c inlineKey)) := by
    rw [List.forall₂_map_left_iff, List.forall₂_map_right_iff, List.forall₂_same]
    exact fun c hc => isClause_renderColumn (h c hc) inlineKey
  unfold tableClauses clausesOf
  change List.Forall₂ IsClause (if (keyColumns t).length ≤ 1 then _ else _) _
  split
  · exact hcolumns true
  · have hnames : ∀ n ∈ (keyColumns t).map (·.name), n.toList.getLast? ≠ some '\n' := by
      intro n hn
      obtain ⟨c, hc, rfl⟩ := List.mem_map.mp hn
      exact (h c (List.mem_of_mem_filter hc)).name
    have hkey := isClause_keyText hnames
    rw [List.map_map] at hkey
    have htext : keyText ((keyColumns t).map (·.name)) =
        "PRIMARY KEY (" ++ joined ", " ((keyColumns t).map (quote ·.name)) ++ ")" := by
      rw [keyText, List.map_map]
      rfl
    exact List.rel_append (hcolumns false) (.cons (htext ▸ hkey) .nil)

theorem mapM_of_map {α β : Type} {f : α → Option β} {xs : List α} {ys : List β}
    (h : xs.map f = ys.map some) : xs.mapM f = some ys := by
  induction xs generalizing ys with
  | nil =>
    obtain rfl : ys = [] := by simpa using h.symm
    rfl
  | cons x xs ih =>
    cases ys with
    | nil => cases h
    | cons y ys =>
      rw [List.map_cons, List.map_cons] at h
      obtain ⟨hx, hxs⟩ := List.cons.inj h
      rw [List.mapM_cons, hx, ih hxs]
      rfl

theorem lexemes_header (schema name : String) : ∃ xs, (∀ x ∈ xs, x.isMark '(' = false) ∧
    ∀ rest, BreaksOff rest → lexemes ("CREATE TABLE IF NOT EXISTS ".toList ++
      ((qualified schema name).toList ++ rest)) = xs ++ lexemes rest := by
  obtain ⟨b, hb, -, hschema⟩ := exists_lexemes_quoteChars schema.toList
  obtain ⟨d, hd, -, hname⟩ := exists_lexemes_quoteChars name.toList
  have hnone {n : List Char} {blanks : List Lexeme} (h : ∀ x ∈ blanks, x = ⟨.blank, ['\n']⟩) :
      ∀ x ∈ nameToken n :: blanks, x.isMark '(' = false := by
    refine List.forall_mem_cons.mpr ⟨isMark_nameToken n _, fun x hx => ?_⟩
    rw [h x hx]
    rfl
  have hfront : IsFront "CREATE TABLE IF NOT EXISTS ".toList :=
    isFront_of_isLoose (by decide) (by decide)
  have hpoint : IsFront ".".toList := isFront_of_mem_breakers (by decide)
  refine ⟨lexemes "CREATE TABLE IF NOT EXISTS ".toList ++ (nameToken schema.toList :: b ++
    (lexemes ".".toList ++ (nameToken name.toList :: d))), fun x hx => ?_, fun rest hr => ?_⟩
  · simp only [List.mem_append] at hx
    rcases hx with hx | hx | hx | hx
    · have hno : ∀ x ∈ lexemes "CREATE TABLE IF NOT EXISTS ".toList, x.isMark '(' = false := by
        decide
      exact hno x hx
    · exact hnone hb x hx
    · have hno : ∀ x ∈ lexemes ".".toList, x.isMark '(' = false := by decide
      exact hno x hx
    · exact hnone hd x hx
  · simp only [qualified, quote, String.toList_append, String.toList_ofList, List.append_assoc]
    rw [hfront, hschema _ (.append (by decide) (by decide) _), hpoint, hname rest hr]

theorem spec_of_isClause {ps : List String} {clauses : List Clause}
    (h : List.Forall₂ IsClause ps clauses) :
    (∀ p ∈ ps, IsPart p.toList ∧ IsInner (lexemes p.toList)) ∧
      ps.map (fun p => Clause.read (lexemes p.toList)) = clauses.map some := by
  induction h with
  | nil => simp
  | cons hp _ ih =>
    exact ⟨List.forall_mem_cons.mpr ⟨⟨hp.part, hp.inner⟩, ih.1⟩,
      by rw [List.map_cons, List.map_cons, hp.read, ih.2]⟩

theorem readClauses_createTable (h : ∀ c ∈ t.columns, IsWritten c)
    (hs : createTable schema t = some statement) :
    readClauses statement = some (clausesOf t) := by
  unfold createTable at hs
  split at hs
  · cases hs
  next hne =>
  obtain ⟨hparts, hread⟩ := spec_of_isClause (isClause_tableClauses h)
  obtain ⟨header, hheader, hlexemes⟩ := lexemes_header schema t.name
  let gap : List Lexeme := lexemes "\n    ".toList
  let parts : List (List Lexeme) := (tableClauses t).map fun p => lexemes p.toList
  have hopen (rest : List Char) : lexemes (" (\n    ".toList ++ rest) =
      space :: ⟨.mark, ['(']⟩ :: (gap ++ lexemes rest) :=
    isFront_of_isLoose (by decide) (by decide) rest
  have hseparator (rest : List Char) :
      lexemes (",\n    ".toList ++ rest) = comma :: gap ++ lexemes rest :=
    isFront_of_isLoose (by decide) (by decide) rest
  have hend : lexemes "\n)".toList = [⟨.blank, ['\n']⟩, ⟨.mark, [')']⟩] := by decide
  have hgap : IsGap gap := by
    intro x hx
    revert x
    decide
  have hfeed : IsGap [⟨.blank, ['\n']⟩] := by simp [IsGap, Lexeme.isToken]
  have hinner : ∀ q ∈ parts, IsInner q := by
    intro q hq
    obtain ⟨p, hp, rfl⟩ := List.mem_map.mp hq
    exact (hparts p hp).2
  have hne : parts ≠ [] := by
    have hcolumns : t.columns ≠ [] := by simpa using hne
    rw [ne_eq, List.map_eq_nil_iff, tableClauses]
    split <;> simp [hcolumns]
  have hstatement : lexemes statement.toList = header ++ [space] ++ ⟨.mark, ['(']⟩ ::
      (gap ++ (separated gap parts ++ [⟨.blank, ['\n']⟩] ++ [⟨.mark, [')']⟩])) := by
    rw [← Option.some.inj hs]
    simp only [String.toList_append, List.append_assoc]
    rw [hlexemes _ (.append (by decide) (by decide) _), hopen,
      lexemes_joined hseparator (by decide) (fun p hp => (hparts p hp).1) (by decide), hend]
    simp [parts]
  have hbefore : ∀ x ∈ header ++ [space], x.isMark '(' = false := by
    intro x hx
    rcases List.mem_append.mp hx with hx | hx
    · exact hheader x hx
    · rw [List.mem_singleton.mp hx]
      rfl
  apply mapM_of_map
  rw [hstatement, clauses_append hbefore, hgap.isInner, List.nil_append,
    read_separated hne hinner hgap hgap hfeed, List.map_map]
  exact hread

/-! ## What the clauses enforce -/

def columnsOf (clauses : List Clause) : List ColumnClause :=
  clauses.filterMap (·.column?)

/-- The primary keys that are declared anywhere. -/
def keysOf (clauses : List Clause) : List (List String) :=
  clauses.flatMap (·.keys)

/-- The clause is that of the column. It is required if the column is not nullable or belongs to the
key, and unique by itself if the column is, or is all of the key. -/
structure EnforcesColumn (t : Table) (keys : List (List String)) (c : Column) (x : ColumnClause) :
    Prop where
  name : x.name = keptName c.name
  required : x.isRequired = true ∨ x.name ∈ keys.flatten ↔
    c.nullable = false ∨ c.isPrimaryKey = true
  unique : x.isUnique = true ∨ keys = [[x.name]] ↔ c.isUnique = true ∨ keyColumns t = [c]

/-- The clauses enforce what the table asks for: every column once and in order, and one primary key
of all the key's columns, if there are any. -/
structure Enforces (t : Table) (clauses : List Clause) : Prop where
  columns : List.Forall₂ (EnforcesColumn t (keysOf clauses)) t.columns (columnsOf clauses)
  distinct : ((columnsOf clauses).map (·.name)).Nodup
  keys : keysOf clauses =
    if keyColumns t = [] then [] else [(keyColumns t).map fun c => keptName c.name]

theorem columnsOf_clausesOf (t : Table) : columnsOf (clausesOf t) =
    t.columns.map fun c => clauseOf c (decide ((keyColumns t).length ≤ 1)) := by
  have hcolumns (inlineKey : Bool) (cs : List Column) :
      columnsOf (cs.map fun c => .column (clauseOf c inlineKey)) =
        cs.map fun c => clauseOf c inlineKey := by
    induction cs with
    | nil => rfl
    | cons c cs ih => rw [List.map_cons, List.map_cons, ← ih]; rfl
  unfold clausesOf
  split
  · next h => rw [hcolumns, decide_eq_true h]
  · next h =>
    rw [columnsOf, List.filterMap_append, ← columnsOf, hcolumns, decide_eq_false h]
    exact List.append_nil _

theorem keysOf_clausesOf (t : Table) : keysOf (clausesOf t) =
    if keyColumns t = [] then [] else [(keyColumns t).map fun c => keptName c.name] := by
  have hinline (cs : List Column) : keysOf (cs.map fun c => .column (clauseOf c true)) =
      (cs.filter (·.isPrimaryKey)).map fun c => [keptName c.name] := by
    induction cs with
    | nil => rfl
    | cons c cs ih =>
      rw [List.map_cons, keysOf, List.flatMap_cons, ← keysOf, ih]
      cases hc : c.isPrimaryKey <;> simp [Clause.keys, clauseOf, hc]
  have hapart (cs : List Column) : keysOf (cs.map fun c => .column (clauseOf c false)) = [] := by
    induction cs with
    | nil => rfl
    | cons c cs ih =>
      rw [List.map_cons, keysOf, List.flatMap_cons, ← keysOf, ih]
      simp [Clause.keys, clauseOf]
  unfold clausesOf
  split
  · next h =>
    rw [hinline, ← keyColumns]
    cases hk : keyColumns t with
    | nil => rfl
    | cons c cs =>
      rw [hk] at h
      obtain rfl : cs = [] := by simpa using h
      rfl
  · next h =>
    have hne : keyColumns t ≠ [] := by
      rintro he
      simp [he] at h
    rw [keysOf, List.flatMap_append, ← keysOf, hapart, if_neg hne]
    rfl

/-- Columns are told apart by the names that are kept of them. -/
theorem eq_of_keptName {d : Column} (hn : (t.columns.map (·.name)).Nodup)
    (h : ∀ c ∈ t.columns, IsWritten c) (hc : c ∈ t.columns) (hd : d ∈ t.columns)
    (he : keptName c.name = keptName d.name) : c = d :=
  List.inj_on_of_nodup_map hn hc hd (keptName_inj (h c hc).name (h d hd).name he)

theorem mem_keyColumns : c ∈ keyColumns t ↔ c ∈ t.columns ∧ c.isPrimaryKey = true := by
  simp [keyColumns]

theorem mem_keysOf_iff (hn : (t.columns.map (·.name)).Nodup) (h : ∀ c ∈ t.columns, IsWritten c)
    (hc : c ∈ t.columns) :
    keptName c.name ∈ (keysOf (clausesOf t)).flatten ↔ c.isPrimaryKey = true := by
  have hflatten : (keysOf (clausesOf t)).flatten = (keyColumns t).map fun c => keptName c.name := by
    rw [keysOf_clausesOf]
    split
    · next hnil => rw [hnil]; rfl
    · simp
  rw [hflatten, List.mem_map]
  constructor
  · rintro ⟨d, hd, he⟩
    obtain ⟨hd, hkey⟩ := mem_keyColumns.mp hd
    rwa [← eq_of_keptName hn h hd hc he]
  · intro hkey
    exact ⟨c, mem_keyColumns.mpr ⟨hc, hkey⟩, rfl⟩

theorem keysOf_eq_iff (hn : (t.columns.map (·.name)).Nodup) (h : ∀ c ∈ t.columns, IsWritten c)
    (hc : c ∈ t.columns) :
    keysOf (clausesOf t) = [[keptName c.name]] ↔ keyColumns t = [c] := by
  rw [keysOf_clausesOf]
  constructor
  · intro hk
    split at hk
    · cases hk
    · obtain ⟨d, hd, he⟩ := List.map_eq_singleton_iff.mp (List.cons.inj hk).1
      have hmem : d ∈ keyColumns t := hd ▸ List.mem_cons_self
      rw [hd, eq_of_keptName hn h (mem_keyColumns.mp hmem).1 hc he]
  · intro hk
    simp [hk]

theorem enforcesColumn_iff (hn : (t.columns.map (·.name)).Nodup)
    (h : ∀ c ∈ t.columns, IsWritten c) (hc : c ∈ t.columns) (inlineKey : Bool) :
    EnforcesColumn t (keysOf (clausesOf t)) c (clauseOf c inlineKey) ↔
      (c.isUnique = true → c.isPrimaryKey = true → keyColumns t = [c]) := by
  have hmem := mem_keysOf_iff hn h hc
  have hkeys := keysOf_eq_iff hn h hc
  have hname : (clauseOf c inlineKey).name = keptName c.name := rfl
  constructor
  · rintro ⟨-, -, hunique⟩ hu hp
    rw [hname, hkeys] at hunique
    refine (hunique.mpr (.inl hu)).resolve_left ?_
    simp [clauseOf, hp]
  · intro hall
    refine ⟨rfl, ?_, ?_⟩
    · rw [hname, hmem]
      unfold clauseOf
      cases c.isPrimaryKey <;> cases inlineKey <;> cases c.nullable <;> simp
    · rw [hname, hkeys]
      constructor
      · rintro (hu | hk)
        · left
          simp only [clauseOf, Bool.and_eq_true] at hu
          exact hu.1
        · exact .inr hk
      · rintro (hu | hk)
        · cases hp : c.isPrimaryKey with
          | true => exact .inr (hall hu hp)
          | false => exact .inl (by simp [clauseOf, hu, hp])
        · exact .inr hk

theorem enforces_iff (hn : (t.columns.map (·.name)).Nodup) (h : ∀ c ∈ t.columns, IsWritten c) :
    Enforces t (clausesOf t) ↔ ∀ c ∈ t.columns, c.isUnique = true → c.isPrimaryKey = true →
      keyColumns t = [c] := by
  have hcolumns : List.Forall₂ (EnforcesColumn t (keysOf (clausesOf t))) t.columns
      (columnsOf (clausesOf t)) ↔ ∀ c ∈ t.columns, c.isUnique = true → c.isPrimaryKey = true →
        keyColumns t = [c] := by
    rw [columnsOf_clausesOf, List.forall₂_map_right_iff, List.forall₂_same]
    exact forall₂_congr fun c hc => enforcesColumn_iff hn h hc _
  constructor
  · exact fun he => hcolumns.mp he.columns
  · intro hall
    refine ⟨hcolumns.mpr hall, ?_, keysOf_clausesOf t⟩
    rw [columnsOf_clausesOf, List.map_map]
    exact (List.Nodup.of_map _ hn).map_on fun c hc d hd he => eq_of_keptName hn h hc hd he

/-- The create statement enforces what the table asks for if and only if no unique column shares the
primary key with another column: a column of the key is never declared unique, and only a key of one
column makes its column so. -/
theorem enforces_createTable_iff (schema : String) (hne : t.columns ≠ [])
    (hn : (t.columns.map (·.name)).Nodup) (h : ∀ c ∈ t.columns, IsWritten c) :
    ∃ statement clauses, createTable schema t = some statement ∧
      readClauses statement = some clauses ∧
        (Enforces t clauses ↔ ∀ c ∈ t.columns, c.isUnique = true → c.isPrimaryKey = true →
          keyColumns t = [c]) := by
  have hs : ∃ statement, createTable schema t = some statement := by
    simp [createTable, hne]
  obtain ⟨statement, hs⟩ := hs
  exact ⟨statement, _, hs, readClauses_createTable h hs, enforces_iff hn h⟩

def invoices : Table :=
  { name := "Invoices"
    columns := [
      { name := "id", type := "uuid", nullable := false, isPrimaryKey := true },
      { name := "primary", type := "varchar", length := some "20", nullable := false
        isUnique := true, defaultText := some "'it''s'" },
      { name := "created_at", type := "timestamp" }] }

theorem enforces_createTable_invoices :
    (invoices.columns ≠ [] ∧ (invoices.columns.map (·.name)).Nodup ∧
      ∀ c ∈ invoices.columns, IsWritten c) ∧
    ∃ statement clauses, createTable "public" invoices = some statement ∧
      readClauses statement = some clauses ∧ Enforces invoices clauses := by
  have h : invoices.columns ≠ [] ∧ (invoices.columns.map (·.name)).Nodup ∧
      ∀ c ∈ invoices.columns, IsWritten c := by
    refine ⟨by decide, by decide, ?_⟩
    have hread : ∀ c ∈ invoices.columns, c.name.toList.getLast? ≠ some '\n' ∧ c.type ≠ "" ∧
        (∀ x ∈ c.type.toList, isTypeMark x = true) ∧
        (∀ l ∈ c.length, ∀ x ∈ l.toList, isLengthChar x = true) ∧
        ∀ d ∈ c.defaultText, trim d.toList = d.toList ∧ d = "'it''s'" := by
      decide +kernel
    intro c hc
    obtain ⟨hname, htype, hmarks, hlength, hdefault⟩ := hread c hc
    refine ⟨hname, htype, ⟨hmarks, hlength, fun d hd => ?_⟩, fun d hd => ?_⟩
    · exact isTrimmed_iff.mpr (hdefault d hd).1
    · rw [(hdefault d hd).2]
      exact .text (s := "it''s".toList) (by decide)
  refine ⟨h, ?_⟩
  obtain ⟨statement, clauses, hs, hc, henforces⟩ :=
    enforces_createTable_iff "public" h.1 h.2.1 h.2.2
  exact ⟨statement, clauses, hs, hc, henforces.mpr (by decide)⟩

/-- A unique column that shares the primary key with another. -/
def members : Table :=
  { name := "m"
    columns := [
      { name := "a", type := "int", nullable := false, isPrimaryKey := true, isUnique := true },
      { name := "b", type := "int", nullable := false, isPrimaryKey := true }] }

theorem not_forall_enforces :
    (Model.ofDocument "Table m \x7b\n  a int [pk, unique]\n  b int [pk]\n\x7d").tables = [members] ∧
    ¬ ∀ (schema : String) (t : Table), t.columns ≠ [] → (t.columns.map (·.name)).Nodup →
      ∃ statement clauses, createTable schema t = some statement ∧
        readClauses statement = some clauses ∧ Enforces t clauses := by
  constructor
  · simp only [Model.ofDocument, Outline.model, Block.table, Outline.tableBlocks_eq,
      Block.definitions_eq]
    decide +kernel
  · intro hall
    obtain ⟨statement, clauses, hs, hc, henforces⟩ := hall "public" members (by decide) (by decide)
    have hclauses : (createTable "public" members).bind readClauses = some
        [.column ⟨"a", false, true, false⟩, .column ⟨"b", false, true, false⟩,
          .key ["a", "b"]] := by
      decide +kernel
    rw [hs, Option.bind_some, hc] at hclauses
    cases hclauses
    cases henforces.columns with
    | cons ha _ =>
      have := ha.unique.mpr (.inl rfl)
      revert this
      decide

end SchemaHost.Ddl
