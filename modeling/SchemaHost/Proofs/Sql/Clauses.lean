import SchemaHost.Proofs.Sql.Reading

/-! # Clauses between parentheses

The lexemes between a pair of parentheses are cut into clauses at the commas that stand inside no
further pair. In the clause of a column the name comes first and the type up to the next white
space; what it demands of the column comes in any order behind them.
-/

namespace SchemaHost.Sql

def Lexeme.isMark (c : Char) (x : Lexeme) : Bool :=
  x.kind == .mark && x.text == [c]

/-- The clauses up to the closing parenthesis, `done` being what the first one begins with. -/
def clausesFrom (depth : Nat) (done : List Lexeme) : List Lexeme → List (List Lexeme)
  | [] => [done]
  | x :: xs =>
    if x.isMark '(' then clausesFrom (depth + 1) (done ++ [x]) xs
    else if x.isMark ')' then
      if depth = 0 then [done] else clausesFrom (depth - 1) (done ++ [x]) xs
    else if x.isMark ',' && depth == 0 then done :: clausesFrom 0 [] xs
    else clausesFrom depth (done ++ [x]) xs

/-- The clauses between the first parenthesis and the one that closes it. -/
def clauses (xs : List Lexeme) : List (List Lexeme) :=
  clausesFrom 0 [] (xs.dropWhile fun x => !x.isMark '(').tail

def hasWords (ws : List String) : List Lexeme → Bool
  | [] => false
  | x :: xs => (capture (words ws) (x :: xs)).isSome || hasWords ws xs

structure ColumnClause where
  name : String
  isKey : Bool
  isRequired : Bool
  isUnique : Bool
  deriving DecidableEq, Repr

inductive Clause where
  | column (c : ColumnClause)
  | key (columns : List String)
  deriving DecidableEq, Repr

namespace Clause

def column? : Clause → Option ColumnClause
  | column c => some c
  | key _ => none

/-- The primary keys that a clause declares. -/
def keys : Clause → List (List String)
  | column c => if c.isKey then [[c.name]] else []
  | key columns => [columns]

def keyWords : List String := ["primary", "key"]

def requiredWords : List String := ["not", "null"]

def uniqueWords : List String := ["unique"]

/-- The tokens behind white space, a type and more white space. -/
def demands (xs : List Lexeme) : List Lexeme :=
  ((xs.dropWhile (!·.isToken)).dropWhile (·.isToken)).filter (·.isToken)

def readColumn : List Lexeme → Option ColumnClause
  | [] => none
  | x :: xs =>
    x.identifier?.map fun name =>
      { name, isKey := hasWords keyWords (demands xs)
        isRequired := hasWords requiredWords (demands xs)
        isUnique := hasWords uniqueWords (demands xs) }

def read (xs : List Lexeme) : Option Clause :=
  let tokens := xs.filter (·.isToken)
  if (capture (words (keyWords ++ ["("])) tokens).isSome then
    some (.key ((tokens.drop 3).filterMap (·.identifier?)))
  else (readColumn (xs.dropWhile (!·.isToken))).map .column

end Clause

/-- The clauses of a statement, if all of them can be read. -/
def readClauses (statement : String) : Option (List Clause) :=
  (clauses (lexemes statement.toList)).mapM Clause.read

variable {x : Lexeme} {xs ys : List Lexeme} {w : String} {ws : List String}

/-! ## Cutting into clauses -/

/-- No clause begins or ends in these lexemes. -/
def IsInner (xs : List Lexeme) : Prop :=
  ∀ depth done rest, clausesFrom depth done (xs ++ rest) = clausesFrom depth (done ++ xs) rest

def IsInnerDeep (xs : List Lexeme) : Prop :=
  ∀ depth done rest,
    clausesFrom (depth + 1) done (xs ++ rest) = clausesFrom (depth + 1) (done ++ xs) rest

theorem isInner_nil : IsInner [] := by
  intro depth done rest
  rw [List.nil_append, List.append_nil]

theorem IsInner.append (hx : IsInner xs) (hy : IsInner ys) : IsInner (xs ++ ys) := by
  intro depth done rest
  rw [List.append_assoc, hx, hy, List.append_assoc]

theorem IsInner.deep (h : IsInner xs) : IsInnerDeep xs :=
  fun depth => h (depth + 1)

theorem IsInnerDeep.append (hx : IsInnerDeep xs) (hy : IsInnerDeep ys) :
    IsInnerDeep (xs ++ ys) := by
  intro depth done rest
  rw [List.append_assoc, hx, hy, List.append_assoc]

theorem isInnerDeep_single (ho : x.isMark '(' = false) (hc : x.isMark ')' = false) :
    IsInnerDeep [x] := by
  intro depth done rest
  simp [clausesFrom, ho, hc]

theorem isInner_single (ho : x.isMark '(' = false) (hc : x.isMark ')' = false)
    (h : x.isMark ',' = false) : IsInner [x] := by
  intro depth done rest
  simp [clausesFrom, ho, hc, h]

theorem isInner_of_forall (h : ∀ x ∈ xs, x.isMark '(' = false ∧ x.isMark ')' = false ∧
    x.isMark ',' = false) : IsInner xs := by
  induction xs with
  | nil => exact isInner_nil
  | cons x xs ih =>
    obtain ⟨⟨ho, hc, hx⟩, hxs⟩ := List.forall_mem_cons.mp h
    exact (isInner_single ho hc hx).append (ih hxs)

theorem isInnerDeep_of_forall (h : ∀ x ∈ xs, x.isMark '(' = false ∧ x.isMark ')' = false) :
    IsInnerDeep xs := by
  induction xs with
  | nil => exact isInner_nil.deep
  | cons x xs ih =>
    obtain ⟨⟨ho, hc⟩, hxs⟩ := List.forall_mem_cons.mp h
    exact (isInnerDeep_single ho hc).append (ih hxs)

theorem IsInnerDeep.parens (h : IsInnerDeep xs) :
    IsInner (⟨.mark, ['(']⟩ :: xs ++ [⟨.mark, [')']⟩]) := by
  intro depth done rest
  have hopen (ys : List Lexeme) : clausesFrom depth done (⟨.mark, ['(']⟩ :: ys) =
      clausesFrom (depth + 1) (done ++ [⟨.mark, ['(']⟩]) ys := rfl
  have hclose (ds ys : List Lexeme) : clausesFrom (depth + 1) ds (⟨.mark, [')']⟩ :: ys) =
      clausesFrom depth (ds ++ [⟨.mark, [')']⟩]) ys := rfl
  rw [List.cons_append, List.cons_append, List.append_assoc, List.singleton_append, hopen, h,
    hclose]
  simp

def isBalanced : Nat → List Lexeme → Bool
  | depth, [] => depth == 0
  | depth, x :: xs =>
    if x.isMark '(' then isBalanced (depth + 1) xs
    else if x.isMark ')' then depth != 0 && isBalanced (depth - 1) xs
    else !(x.isMark ',' && depth == 0) && isBalanced depth xs

theorem isInner_of_isBalanced (h : isBalanced 0 xs = true) : IsInner xs := by
  have hfrom (n : Nat) (h : isBalanced n xs = true) (depth : Nat) (done rest : List Lexeme) :
      clausesFrom (n + depth) done (xs ++ rest) = clausesFrom depth (done ++ xs) rest := by
    clear * - h
    fun_induction isBalanced n xs generalizing done with
    | case1 n =>
      simp at h
      simp [h]
    | case2 n x xs hopen ih =>
      rw [List.cons_append, clausesFrom, if_pos hopen, Nat.add_right_comm, ih h]
      simp
    | case3 n x xs hopen hclose ih =>
      simp only [Bool.and_eq_true, bne_iff_ne] at h
      obtain ⟨hn, h⟩ := h
      rw [List.cons_append, clausesFrom, if_neg hopen, if_pos hclose, if_neg (by omega),
        Nat.sub_add_comm (by omega), ih h]
      simp
    | case4 n x xs hopen hclose ih =>
      simp only [Bool.and_eq_true, Bool.not_eq_true', Bool.and_eq_false_iff] at h
      obtain ⟨hcomma, h⟩ := h
      rw [List.cons_append, clausesFrom, if_neg hopen, if_neg hclose, if_neg, ih h]
      · simp
      · rcases hcomma with hcomma | hn
        · simp [hcomma]
        · rw [beq_eq_false_iff_ne] at hn
          simp [hn]
  intro depth done rest
  rw [← hfrom 0 h, Nat.zero_add]

theorem clauses_append (h : ∀ x ∈ xs, x.isMark '(' = false) (ys : List Lexeme) :
    clauses (xs ++ ⟨.mark, ['(']⟩ :: ys) = clausesFrom 0 [] ys := by
  have hdrop : (xs ++ ⟨.mark, ['(']⟩ :: ys).dropWhile (fun x => !x.isMark '(') =
      ⟨.mark, ['(']⟩ :: ys := by
    rw [List.dropWhile_append_of_pos (fun x hx => by simp [h x hx])]
    rfl
  rw [clauses, hdrop, List.tail_cons]

/-! ## Words in their order -/

theorem hasWords_skip (h : ∀ x ∈ xs, x.reads w = false) (ys : List Lexeme) :
    hasWords (w :: ws) (xs ++ ys) = hasWords (w :: ws) ys := by
  induction xs with
  | nil => rfl
  | cons x xs ih =>
    obtain ⟨hx, hxs⟩ := List.forall_mem_cons.mp h
    have hnone : capture (words (w :: ws)) (x :: (xs ++ ys)) = none := by
      simp [words, capture, Slot.fill, hx]
    rw [List.cons_append, hasWords, hnone, ih hxs]
    rfl

theorem hasWords_of_readsAll (h : readsAll (w :: ws) xs = true) (ys : List Lexeme) :
    hasWords (w :: ws) (xs ++ ys) = true := by
  have hcapture : capture (words (w :: ws)) (xs ++ ys) = some [] := by
    rw [← List.append_nil (words _), capture_words h]
    rfl
  cases xs with
  | nil => cases h
  | cons x xs =>
    rw [List.cons_append] at hcapture ⊢
    rw [hasWords, hcapture]
    rfl

def IsClean (ws : List String) (xs : List Lexeme) : Prop :=
  readsAll ws xs = true ∨ ∀ x ∈ xs, ∀ w ∈ ws.head?, x.reads w = false

instance : Decidable (IsClean ws xs) :=
  inferInstanceAs (Decidable (_ ∨ _))

theorem hasWords_flatten {pieces : List (List Lexeme)} (h : ∀ p ∈ pieces, IsClean (w :: ws) p) :
    hasWords (w :: ws) pieces.flatten = pieces.any (readsAll (w :: ws)) := by
  induction pieces with
  | nil => rfl
  | cons p pieces ih =>
    obtain ⟨hp, hpieces⟩ := List.forall_mem_cons.mp h
    rw [List.flatten_cons, List.any_cons]
    rcases hp with hp | hp
    · rw [hasWords_of_readsAll hp, hp, Bool.true_or]
    · have hp : ∀ x ∈ p, x.reads w = false := fun x hx => hp x hx w rfl
      have hnot : readsAll (w :: ws) p = false := by
        cases p with
        | nil => rfl
        | cons x p => rw [readsAll, hp x List.mem_cons_self, Bool.false_and]
      rw [hasWords_skip hp, ih hpieces, hnot, Bool.false_or]

/-! ## White space around clauses -/

def IsGap (xs : List Lexeme) : Prop :=
  ∀ x ∈ xs, x.isToken = false

theorem IsGap.append (hx : IsGap xs) (hy : IsGap ys) : IsGap (xs ++ ys) := by
  intro x h
  rcases List.mem_append.mp h with h | h
  · exact hx x h
  · exact hy x h

theorem IsGap.filter (h : IsGap xs) : xs.filter (·.isToken) = [] := by
  rw [List.filter_eq_nil_iff]
  intro x hx
  rw [h x hx]
  exact Bool.false_ne_true

theorem IsGap.dropWhile_append (h : IsGap xs) (ys : List Lexeme) :
    (xs ++ ys).dropWhile (!·.isToken) = ys.dropWhile (!·.isToken) :=
  List.dropWhile_append_of_pos fun x hx => by rw [h x hx]; rfl

theorem IsGap.dropWhile (h : IsGap xs) : xs.dropWhile (!·.isToken) = [] := by
  rw [← List.append_nil xs, h.dropWhile_append]
  rfl

theorem IsGap.isInner (h : IsGap xs) : IsInner xs := by
  refine isInner_of_forall fun x hx => ?_
  have hm (c : Char) : x.isMark c = false := by
    rw [Bool.eq_false_iff]
    intro hm
    simp only [Lexeme.isMark, Bool.and_eq_true, beq_iff_eq] at hm
    have := h x hx
    rw [Lexeme.isToken, hm.1] at this
    cases this
  exact ⟨hm '(', hm ')', hm ','⟩

theorem IsGap.demands_append (h : IsGap ys) (xs : List Lexeme) :
    Clause.demands (xs ++ ys) = Clause.demands xs := by
  unfold Clause.demands
  rw [List.dropWhile_append]
  split
  · next he => rw [List.isEmpty_iff.mp he, h.dropWhile]
  · rw [List.dropWhile_append]
    split
    · next he =>
      have hrest : IsGap (ys.dropWhile (·.isToken)) :=
        fun x hx => h x ((List.dropWhile_sublist _).mem hx)
      rw [List.isEmpty_iff.mp he, hrest.filter, List.filter_nil]
    · rw [List.filter_append, h.filter, List.append_nil]

theorem read_padded {zs : List Lexeme} (hx : IsGap xs) (hz : IsGap zs) (ys : List Lexeme) :
    Clause.read (xs ++ ys ++ zs) = Clause.read ys := by
  have htokens : (xs ++ ys ++ zs).filter (·.isToken) = ys.filter (·.isToken) := by
    rw [List.filter_append, List.filter_append, hx.filter, hz.filter, List.nil_append,
      List.append_nil]
  have hcolumn : Clause.readColumn ((xs ++ ys ++ zs).dropWhile (!·.isToken)) =
      Clause.readColumn (ys.dropWhile (!·.isToken)) := by
    rw [List.append_assoc, hx.dropWhile_append, List.dropWhile_append]
    split
    · next he => rw [List.isEmpty_iff.mp he, hz.dropWhile]
    · next hne =>
      obtain ⟨y, ys, hy⟩ := List.exists_cons_of_ne_nil (mt List.isEmpty_iff.mpr hne)
      rw [hy, List.cons_append, Clause.readColumn, Clause.readColumn, hz.demands_append]
  unfold Clause.read
  rw [htokens, hcolumn]

/-! ## A list of clauses -/

def separated (gap : List Lexeme) : List (List Lexeme) → List Lexeme
  | [] => []
  | [p] => p
  | p :: ps => p ++ ⟨.mark, [',']⟩ :: gap ++ separated gap ps

theorem read_separated {gap done zs : List Lexeme} {parts : List (List Lexeme)} (hne : parts ≠ [])
    (hparts : ∀ p ∈ parts, IsInner p) (hgap : IsGap gap) (hdone : IsGap done) (hz : IsGap zs)
    (rest : List Lexeme) :
    (clausesFrom 0 done (separated gap parts ++ zs ++ ⟨.mark, [')']⟩ :: rest)).map Clause.read =
      parts.map Clause.read := by
  induction parts generalizing done with
  | nil => exact absurd rfl hne
  | cons p ps ih =>
    obtain ⟨hp, hps⟩ := List.forall_mem_cons.mp hparts
    cases ps with
    | nil =>
      have hclose (ds : List Lexeme) : clausesFrom 0 ds (⟨.mark, [')']⟩ :: rest) = [ds] := rfl
      rw [separated, (hp.append hz.isInner), hclose, ← List.append_assoc, List.map_singleton,
        read_padded hdone hz, List.map_singleton]
    | cons p' ps =>
      have hcomma (ds ys : List Lexeme) :
          clausesFrom 0 ds (⟨.mark, [',']⟩ :: ys) = ds :: clausesFrom 0 [] ys := rfl
      have hread : Clause.read (done ++ p) = Clause.read p := by
        rw [← List.append_nil (done ++ p), read_padded hdone (by simp [IsGap])]
      have hlater := ih (List.cons_ne_nil p' ps) hps hgap
      rw [List.append_assoc] at hlater
      rw [separated, List.append_assoc, List.append_assoc, List.append_assoc, List.cons_append, hp,
        hcomma, hgap.isInner, List.nil_append, List.map_cons, hread, List.map_cons, hlater]
      exact List.cons_ne_nil p' ps

end SchemaHost.Sql
