import SchemaHost.Proofs.Text.Blank
import SchemaHost.Schema.Attribute

/-! # Lists cut at their commas

A list is cut at the commas that stand where nothing is open, whether or not it closes all that it
opens. Each piece but the last closes what it opens, and its blanks have no part in that. So the
parts that are left of the pieces are cut no further, and joined again they are cut at the same
places: the lists of such parts are the normal forms of the texts.
-/

namespace SchemaHost.Schema

open Text

/-- What is open at a place in a text: at most one quote, and some brackets. -/
structure Nest where
  quote : Option Char
  depth : Nat
  isQuote_of_mem : ∀ q ∈ quote, isQuote q = true

namespace Nest

variable {c : Char} {n : Nest} {s t p : List Char} {ps : List (List Char)}

def closed : Nest :=
  ⟨none, 0, nofun⟩

/-- Within a quote nothing counts but its end, and a closing bracket too many is of no account. -/
def step (n : Nest) (c : Char) : Nest :=
  match n.quote with
  | some q => if c = q then ⟨none, n.depth, nofun⟩ else n
  | none =>
    if h : isQuote c then ⟨some c, n.depth, by simpa using h⟩
    else if c == '(' || c == '[' then ⟨none, n.depth + 1, nofun⟩
    else if c == ')' || c == ']' then ⟨none, n.depth - 1, nofun⟩
    else n

def after (n : Nest) (s : List Char) : Nest :=
  s.foldl step n

@[simp] theorem after_nil (n : Nest) : n.after [] = n := rfl

@[simp] theorem after_cons (n : Nest) (c : Char) (s : List Char) :
    n.after (c :: s) = (n.step c).after s := rfl

@[simp] theorem after_append (n : Nest) (s t : List Char) :
    n.after (s ++ t) = (n.after s).after t :=
  List.foldl_append

/-- No comma of the text stands where nothing is open. -/
def IsUncut (n : Nest) (s : List Char) : Prop :=
  ∀ a b, s = a ++ ',' :: b → n.after a ≠ closed

theorem isUncut_nil (n : Nest) : n.IsUncut [] := by
  intro a b h
  simp at h

theorem isUncut_cons : n.IsUncut (c :: s) ↔ (c = ',' → n ≠ closed) ∧ (n.step c).IsUncut s := by
  constructor
  · refine fun h => ⟨?_, fun a b hs => h (c :: a) b (by rw [hs, List.cons_append])⟩
    rintro rfl
    exact h [] s rfl
  · rintro ⟨hc, hs⟩ a b hab
    cases a with
    | nil =>
      obtain ⟨rfl, -⟩ := List.cons.inj hab
      exact hc rfl
    | cons d a =>
      obtain ⟨rfl, rfl⟩ := List.cons.inj hab
      exact hs a b rfl

theorem isUncut_append : n.IsUncut (s ++ t) ↔ n.IsUncut s ∧ (n.after s).IsUncut t := by
  induction s generalizing n with
  | nil => simp [isUncut_nil]
  | cons c s ih => simp only [List.cons_append, isUncut_cons, ih, after_cons, and_assoc]

theorem step_blank (h : isBlank c = true) : n.step c = n := by
  have hmarks : ∀ d ∈ ['\'', '"', '`', '(', '[', ')', ']'], isBlank d = false := by decide
  have hc : c ∉ ['\'', '"', '`', '(', '[', ')', ']'] := by
    intro hm
    cases h.symm.trans (hmarks c hm)
  obtain ⟨_ | q, depth, hq⟩ := n
  · simp only [List.mem_cons, List.not_mem_nil, or_false, not_or] at hc
    simp [step, isQuote, hc]
  · have hne : c ≠ q := by
      rintro rfl
      have := hq c rfl
      simp only [isQuote, Bool.or_eq_true, beq_iff_eq] at this
      rcases this with (rfl | rfl) | rfl <;> simp at hc
    simp [step, hne]

theorem after_blanks (h : ∀ c ∈ s, isBlank c = true) : n.after s = n := by
  induction s with
  | nil => rfl
  | cons c s ih =>
    rw [List.forall_mem_cons] at h
    rw [after_cons, step_blank h.1, ih h.2]

theorem isUncut_blanks (h : ∀ c ∈ s, isBlank c = true) : n.IsUncut s := by
  rintro a b rfl
  cases h ',' (List.mem_append_right a List.mem_cons_self)

theorem after_trim (n : Nest) (s : List Char) : n.after (trim s) = n.after s := by
  obtain ⟨a, b, hs, ha, hb⟩ := exists_trim s
  have h : n.after s = n.after (a ++ (trim s ++ b)) := congrArg n.after hs
  rw [h, after_append, after_append, after_blanks ha, after_blanks hb]

theorem IsUncut.trim (h : n.IsUncut s) : n.IsUncut (trim s) := by
  obtain ⟨a, b, hs, ha, -⟩ := exists_trim s
  rw [hs, isUncut_append, after_blanks ha, isUncut_append] at h
  exact h.2.1

/-- The pieces of a text between the commas that stand where nothing is open. -/
inductive Cuts : Nest → List Char → List (List Char) → Prop
  | last {n : Nest} {s : List Char} (h : n.IsUncut s) : Cuts n s [s]
  | cons {n : Nest} {s rest : List Char} {ps : List (List Char)} (h : n.IsUncut s)
      (hs : n.after s = closed) (ht : Cuts closed rest ps) : Cuts n (s ++ ',' :: rest) (s :: ps)

theorem Cuts.push (hc : c = ',' → n ≠ closed) (h : Cuts (n.step c) s ps) :
    Cuts n (c :: s) (pushFront c ps) := by
  cases h with
  | last h => exact .last (isUncut_cons.mpr ⟨hc, h⟩)
  | cons h hs ht => exact .cons (isUncut_cons.mpr ⟨hc, h⟩) hs ht

theorem Cuts.ne_nil (h : Cuts n s ps) : ps ≠ [] := by
  cases h <;> exact List.cons_ne_nil _ _

theorem rawParts_cons (hc : c = ',' → n ≠ closed) (s : List Char) :
    rawParts n.quote n.depth (c :: s) =
      pushFront c (rawParts (n.step c).quote (n.step c).depth s) := by
  obtain ⟨_ | q, depth, hq⟩ := n
  · have hcomma : ¬ (c == ',' && depth == 0) = true := by
      rw [Bool.and_eq_true, beq_iff_eq, beq_iff_eq]
      rintro ⟨rfl, rfl⟩
      exact hc rfl rfl
    simp only [rawParts, step, if_neg hcomma]
    split_ifs <;> rfl
  · simp only [rawParts, step]
    split_ifs <;> rfl

theorem cuts_rawParts (n : Nest) (s : List Char) : Cuts n s (rawParts n.quote n.depth s) := by
  induction s generalizing n with
  | nil => exact .last (isUncut_nil n)
  | cons c s ih =>
    by_cases h : c = ',' ∧ n = closed
    · obtain ⟨rfl, rfl⟩ := h
      exact .cons (isUncut_nil closed) rfl (ih closed)
    · have hc : c = ',' → n ≠ closed := fun hc hn => h ⟨hc, hn⟩
      rw [rawParts_cons hc]
      exact .push hc (ih (n.step c))

theorem rawParts_append (h : n.IsUncut s)
    (ht : rawParts (n.after s).quote (n.after s).depth t = p :: ps) :
    rawParts n.quote n.depth (s ++ t) = (s ++ p) :: ps := by
  induction s generalizing n with
  | nil => exact ht
  | cons c s ih =>
    rw [isUncut_cons] at h
    rw [List.cons_append, rawParts_cons h.1, ih h.2 ht, pushFront, List.cons_append]

theorem Cuts.rawParts_eq (h : Cuts n s ps) : rawParts n.quote n.depth s = ps := by
  induction h with
  | last h => simpa using rawParts_append (t := []) h rfl
  | @cons n s rest ps h hs ht ih =>
    have hrest : rawParts (n.after s).quote (n.after s).depth (',' :: rest) = [] :: ps := by
      rw [hs]
      exact congrArg (List.cons []) ih
    simpa using rawParts_append h hrest

end Nest

open Nest

variable {s rest gap : List Char} {ts ps : List (List Char)}

theorem splitAttributes_of_cuts (h : Cuts closed s ps) :
    splitAttributes s = (ps.map trim).filter (· ≠ []) := by
  rw [splitAttributes, ← h.rawParts_eq]
  rfl

theorem splitAttributes_uncut (h : closed.IsUncut s) (hne : trim s ≠ []) :
    splitAttributes s = [trim s] := by
  rw [splitAttributes_of_cuts (.last h), List.map_singleton,
    List.filter_cons_of_pos (by simpa using hne), List.filter_nil]

theorem splitAttributes_append (h : closed.IsUncut s) (hs : closed.after s = closed)
    (hne : trim s ≠ []) (rest : List Char) :
    splitAttributes (s ++ ',' :: rest) = trim s :: splitAttributes rest := by
  rw [splitAttributes_of_cuts (.cons h hs (cuts_rawParts closed rest)), List.map_cons,
    List.filter_cons_of_pos (by simpa using hne)]
  rfl

theorem splitAttributes_blanks (hgap : ∀ x ∈ gap, isBlank x = true) (s : List Char) :
    splitAttributes (gap ++ s) = splitAttributes s := by
  obtain ⟨p, ps, hs⟩ : ∃ p ps, rawParts none 0 s = p :: ps :=
    List.exists_cons_of_ne_nil (cuts_rawParts closed s).ne_nil
  have happend : rawParts none 0 (gap ++ s) = (gap ++ p) :: ps := by
    apply rawParts_append (n := closed) (isUncut_blanks hgap)
    rw [after_blanks hgap]
    exact hs
  have htrim : trim (gap ++ p) = trim p := by
    rw [trim, trim, trimStart, List.dropWhile_append_of_pos hgap, trimStart]
  rw [splitAttributes, splitAttributes, happend, hs, List.map_cons, List.map_cons, htrim]

/-- Joined by commas the texts are cut at these alone. Only the last may leave something open. -/
inductive StaysApart : List (List Char) → Prop
  | nil : StaysApart []
  | last {s : List Char} (h : closed.IsUncut s) (hne : trim s ≠ []) : StaysApart [s]
  | cons {s : List Char} {ts : List (List Char)} (h : closed.IsUncut s) (hne : trim s ≠ [])
      (hs : closed.after s = closed) (ht : StaysApart ts) : StaysApart (s :: ts)

namespace StaysApart

theorem alone (h : StaysApart ts) : ∀ t ∈ ts, StaysApart [t] := by
  induction h with
  | nil => nofun
  | last h hne => exact List.forall_mem_singleton.mpr (.last h hne)
  | cons h hne _ _ ih => exact List.forall_mem_cons.mpr ⟨.last h hne, ih⟩

theorem isUncut (h : StaysApart [s]) : closed.IsUncut s := by
  cases h with
  | last h _ => exact h
  | cons h _ _ _ => exact h

theorem of_cuts {n : Nest} (hn : n = closed) (h : Cuts n s ps) :
    StaysApart ((ps.map trim).filter (· ≠ [])) := by
  have trim_trim (s : List Char) : trim (trim s) = trim s := (isTrimmed_trim s).trim
  induction h with
  | @last n s h =>
    subst hn
    by_cases hne : trim s = []
    · simpa [hne] using nil
    · simpa [hne] using last h.trim ((trim_trim s).trans_ne hne)
  | @cons n s rest ps h hs ht ih =>
    subst hn
    by_cases hne : trim s = []
    · simpa [hne] using ih rfl
    · have hafter : closed.after (trim s) = closed := (after_trim closed s).trans hs
      simpa [hne] using cons h.trim ((trim_trim s).trans_ne hne) hafter (ih rfl)

theorem splitAttributes_intercalate (h : StaysApart ts) (hgap : ∀ x ∈ gap, isBlank x = true) :
    splitAttributes ((',' :: gap).intercalate ts) = ts.map trim := by
  induction h with
  | nil => rfl
  | last h hne =>
    rw [List.intercalate_singleton]
    exact splitAttributes_uncut h hne
  | @cons s ts h hne hs ht ih =>
    cases ts with
    | nil =>
      rw [List.intercalate_singleton]
      exact splitAttributes_uncut h hne
    | cons t ts =>
      rw [List.intercalate_cons_cons, List.append_assoc, List.cons_append,
        splitAttributes_append h hs hne, splitAttributes_blanks hgap, ih]
      rfl

end StaysApart

/-- The attributes of some text. -/
structure IsNormal (ts : List (List Char)) : Prop where
  apart : StaysApart ts
  trimmed : ∀ t ∈ ts, IsTrimmed t

theorem isNormal_splitAttributes (s : List Char) : IsNormal (splitAttributes s) where
  apart := by
    have h := cuts_rawParts closed s
    rw [splitAttributes_of_cuts h]
    exact .of_cuts rfl h
  trimmed t ht := by
    obtain ⟨p, -, rfl⟩ := List.mem_map.mp (List.mem_filter.mp ht).1
    exact isTrimmed_trim p

theorem IsNormal.alone (h : IsNormal ts) : ∀ t ∈ ts, IsNormal [t] := by
  refine fun t ht => ⟨h.apart.alone t ht, ?_⟩
  exact List.forall_mem_singleton.mpr (h.trimmed t ht)

theorem isNormal_iff : IsNormal ts ↔ splitAttributes ([',', ' '].intercalate ts) = ts := by
  constructor
  · intro h
    rw [h.apart.splitAttributes_intercalate (by decide)]
    exact (List.map_congr_left fun t ht => (h.trimmed t ht).trim).trans ts.map_id
  · intro h
    rw [← h]
    exact isNormal_splitAttributes _

/-- The attributes of any text are what is left of its pieces. None of them can be cut or trimmed
further, and joined by commas they are the same attributes again. -/
theorem splitAttributes_normal (s : List Char) :
    (∃ ps, Cuts closed s ps ∧ splitAttributes s = (ps.map trim).filter (· ≠ [])) ∧
      (∀ p ∈ splitAttributes s, p ≠ [] ∧ trim p = p ∧ splitAttributes p = [p]) ∧
      splitAttributes ([',', ' '].intercalate (splitAttributes s)) = splitAttributes s := by
  have hcuts := cuts_rawParts closed s
  have hnormal := isNormal_splitAttributes s
  refine ⟨⟨_, hcuts, splitAttributes_of_cuts hcuts⟩, ?_, isNormal_iff.mp hnormal⟩
  intro p hp
  refine ⟨mem_splitAttributes_ne_nil hp, (hnormal.trimmed p hp).trim, ?_⟩
  have halone := isNormal_iff.mp (hnormal.alone p hp)
  rwa [List.intercalate_singleton] at halone

/-- A bracket that closes too much, an empty part and a quote that is left open. -/
example : splitAttributes "a), f(b, 'c,)') ,, `d, e".toList =
    ["a)".toList, "f(b, 'c,)')".toList, "`d, e".toList] := by
  decide

end SchemaHost.Schema
