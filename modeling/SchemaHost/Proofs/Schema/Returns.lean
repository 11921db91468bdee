import Mathlib.Data.Option.Basic
import SchemaHost.Proofs.Schema.Searches
import SchemaHost.Proofs.Text.Returns

/-! # Readers and the ends of lines

With a return in front of every line feed a document is read like the document without. The same
names, headers, blocks and references are taken, with the returns in what they hold.
-/

namespace SchemaHost.Schema

open Text

variable {α β : Type} {q : Char} {loose inWord : Bool} {s r : List Char}

theorem bind_eq_map {x x' : Option α} {F : α → α} {f f' : α → Option β} {G : β → β}
    (hx : x' = x.map F) (hf : ∀ a, f' (F a) = (f a).map G) : x'.bind f' = (x.bind f).map G := by
  rw [hx, Option.bind_map, Option.map_bind]
  exact congrArg x.bind (funext hf)

/-! ## Names -/

theorem cutAt_withReturns (hr : q ≠ '\r') (hn : q ≠ '\n') (s : List Char) :
    cutAt q (withReturns s) = (cutAt q s).map (Prod.map withReturns withReturns) := by
  induction s with
  | nil => rfl
  | cons c s ih =>
    by_cases hc : c = '\n'
    · subst hc
      simp [cutAt, hr.symm, hn.symm, ih, Function.comp_def]
    · by_cases hq : c = q
      · subst hq
        simp [withReturns_cons hc, cutAt]
      · simp [withReturns_cons hc, cutAt, hq, ih, Function.comp_def]

theorem takeQuoted_withReturns (hr : q ≠ '\r') (hn : q ≠ '\n') (s : List Char) :
    takeQuoted q (withReturns s) = (takeQuoted q s).map (Prod.map withReturns withReturns) := by
  have hq (s : List Char) : takeQuoted q s =
      (cutAt q s).bind fun p => if p.1 = [] then none else some (q :: p.1 ++ [q], p.2) := by
    rw [takeQuoted]
    rcases cutAt q s with _ | ⟨_ | _, _⟩ <;> rfl
  rw [hq, hq, cutAt_withReturns hr hn]
  rcases cutAt q s with _ | ⟨a, r⟩
  · rfl
  · by_cases ha : a = []
    · simp [ha]
    · simp [ha, withReturns_eq_nil, withReturns_cons hn]

theorem takeName_withReturns (loose : Bool) (s : List Char) :
    takeName loose (withReturns s) =
      (takeName loose s).map (Prod.map withReturns withReturns) := by
  cases s with
  | nil => rfl
  | cons c s =>
    by_cases hc : c = '\n'
    · subst hc
      cases loose <;> rfl
    · rw [withReturns_cons hc, takeName, takeName]
      split_ifs
      · exact takeQuoted_withReturns (by decide) (by decide) s
      · exact takeQuoted_withReturns (by decide) (by decide) s
      · simp [withReturns_cons hc, takeWhile_withReturns (p := isWord) rfl,
          dropWhile_withReturns (p := isWord) rfl]
      · rfl

theorem takeDotted_withReturns (loose : Bool) (s : List Char) :
    takeDotted loose (withReturns s) =
      (takeDotted loose s).map (Prod.map withReturns withReturns) := by
  rw [takeDotted, takeDotted, takeName_withReturns]
  rcases takeName loose s with _ | ⟨n, r⟩
  · rfl
  · rcases front_withReturns (q := '.') (by decide) (by decide) r with ⟨r, rfl, hr⟩ | ⟨h, hr⟩
    · simp [hr, takeName_withReturns, Function.comp_def, withReturns_cons]
    · simp only [Option.map_some, Prod.map_apply]

theorem namesIn_withReturns (s : List Char) :
    namesIn (withReturns s) = (namesIn s).map withReturns := by
  induction hn : s.length using Nat.strong_induction_on generalizing s with
  | _ n ih =>
    -- the search goes on behind a name, or one character further
    cases h : takeName false s with
    | some p =>
      obtain ⟨name, r⟩ := p
      have h' := takeName_withReturns false s
      rw [h] at h'
      rw [namesIn_of_takeName h, namesIn_of_takeName h', List.map_cons,
        ih _ (hn ▸ length_takeName h) r rfl]
    | none =>
      cases s with
      | nil => simp [namesIn_nil]
      | cons c s =>
        have hlt : s.length < n := by simp [← hn]
        rw [namesIn_of_none h, ← ih _ hlt s rfl]
        by_cases hc : c = '\n'
        · subst hc
          rw [withReturns_newline, namesIn_of_none rfl, namesIn_of_none rfl]
        · have h' := takeName_withReturns false (c :: s)
          rw [h, withReturns_cons hc] at h'
          rw [withReturns_cons hc, namesIn_of_none h']

def IsQuoted (s : List Char) : Prop :=
  (s.head? = some '"' ∨ s.head? = some '`') ∧ s.tail ≠ [] ∧ s.getLast? = s.head?

instance (s : List Char) : Decidable (IsQuoted s) :=
  inferInstanceAs (Decidable (_ ∧ _))

theorem unquote_eq (s : List Char) :
    unquote s = if IsQuoted (trim s) then (trim s).tail.dropLast else trim s := by
  rw [unquote]
  rcases trim s with _ | ⟨c, _ | ⟨d, t⟩⟩
  · rfl
  · simp [IsQuoted]
  · cases h : (c :: d :: t).getLast? with
    | none => simp at h
    | some e =>
      have hiff : IsQuoted (c :: d :: t) ↔ (decide (c = e) && (c == '"' || c == '`')) = true := by
        simp only [IsQuoted, h, List.head?_cons, List.tail_cons, Option.some.injEq, ne_eq,
          reduceCtorEq, not_false_eq_true, true_and, Bool.and_eq_true, decide_eq_true_eq,
          Bool.or_eq_true, beq_iff_eq]
        rw [and_comm, eq_comm (a := e)]
      simp only [hiff]
      rfl

theorem isQuoted_withReturns : IsQuoted (withReturns s) ↔ IsQuoted s := by
  cases s with
  | nil => rfl
  | cons c s =>
    by_cases hc : c = '\n'
    · subst hc
      simp [IsQuoted]
    · have hlast := getLast?_withReturns (c :: s)
      rw [withReturns_cons hc] at hlast
      simp only [IsQuoted, hlast, withReturns_cons hc, List.head?_cons, List.tail_cons, ne_eq,
        withReturns_eq_nil]

theorem unquote_withReturns (s : List Char) :
    unquote (withReturns s) = withReturns (unquote s) := by
  rw [unquote_eq, unquote_eq, trim_withReturns]
  simp only [isQuoted_withReturns]
  split
  · next hq =>
    obtain ⟨hhead, htail, hlast⟩ := hq
    cases ht : trim s with
    | nil => rfl
    | cons c t =>
      rw [ht, List.head?_cons] at hhead
      rw [ht, List.tail_cons] at htail
      rw [ht, List.head?_cons, List.getLast?_cons_of_ne_nil htail] at hlast
      have hc : c ≠ '\n' := by
        rintro rfl
        simp at hhead
      rw [withReturns_cons hc, List.tail_cons, List.tail_cons]
      refine dropLast_withReturns ?_
      simpa [hlast] using hc
  · rfl

theorem lastName_withReturns (s : List Char) :
    lastName (withReturns s) = withReturns (lastName s) := by
  rw [lastName, lastName, namesIn_withReturns, List.getLast?_map]
  cases (namesIn s).getLast? with
  | none => exact unquote_withReturns s
  | some n => exact unquote_withReturns n

/-! ## Headers -/

theorem takeBlanks_withReturns (s : List Char) :
    takeBlanks (withReturns s) = (takeBlanks s).map withReturns := by
  rw [takeBlanks, takeBlanks, any_head?_withReturns rfl, trimStart_withReturns]
  split <;> rfl

theorem takeAlias_withReturns (s : List Char) :
    takeAlias (withReturns s) = (takeAlias s).map withReturns := by
  refine bind_eq_map (takeBlanks_withReturns s) fun r => ?_
  refine bind_eq_map (dropWord_withReturns (by decide) r) fun r => ?_
  refine bind_eq_map (takeBlanks_withReturns r) fun r => ?_
  rw [takeName_withReturns, Option.map_map, Option.map_map]
  rfl

theorem dropSettings_withReturns (s : List Char) :
    dropSettings (withReturns s) = (dropSettings s).map withReturns := by
  rcases front_withReturns (q := '[') (by decide) (by decide) s with ⟨r, rfl, hr⟩ | ⟨h, hr⟩
  · rw [hr, dropSettings, dropSettings, cutAt_withReturns (by decide) (by decide)]
    simp [Function.comp_def]
  · rw [dropSettings, dropSettings]
    · rfl
    · exact h
    · exact hr

theorem takeBrace_withReturns (s : List Char) :
    takeBrace (withReturns s) = (takeBrace s).map withReturns := by
  rw [takeBrace, takeBrace, trimStart_withReturns]
  rcases front_withReturns (q := '{') (by decide) (by decide) (trimStart s) with
    ⟨r, h, hr⟩ | ⟨h, hr⟩
  · rw [hr, h]
    rfl
  · split
    · next he => exact absurd he (hr _)
    · rfl

theorem takeHeader_withReturns (s : List Char) :
    takeHeader (withReturns s) = (takeHeader s).map (Prod.map withReturns withReturns) := by
  refine bind_eq_map (dropWord_withReturns (by decide) s) fun r => ?_
  refine bind_eq_map (takeBlanks_withReturns r) fun r => ?_
  refine bind_eq_map (takeDotted_withReturns true r) ?_
  rintro ⟨name, r⟩
  have halias : (takeAlias (withReturns r)).getD (withReturns r) =
      withReturns ((takeAlias r).getD r) := by
    rw [takeAlias_withReturns]
    cases takeAlias r <;> rfl
  have hsettings : dropSettings (trimStart ((takeAlias (withReturns r)).getD (withReturns r))) =
      (dropSettings (trimStart ((takeAlias r).getD r))).map withReturns := by
    rw [halias, trimStart_withReturns, dropSettings_withReturns]
  refine bind_eq_map hsettings fun r => ?_
  rw [takeBrace_withReturns, Option.map_map, Option.map_map]
  rfl

theorem findHeader_withReturns (inWord : Bool) (s : List Char) :
    findHeader inWord (withReturns s) =
      (findHeader inWord s).map (Prod.map withReturns (Prod.map withReturns withReturns)) := by
  induction s generalizing inWord with
  | nil => rfl
  | cons c s ih =>
    by_cases hc : c = '\n'
    · subst hc
      rw [withReturns_newline, findHeader_of_none fun _ => rfl, findHeader_of_none fun _ => rfl,
        findHeader_of_none fun _ => rfl, show isWord '\n' = false from rfl, ih]
      simp [Function.comp_def]
    · have ht := takeHeader_withReturns (c :: s)
      rw [withReturns_cons hc] at ht ⊢
      rw [findHeader, findHeader, ht, ih]
      cases inWord <;> rcases takeHeader (c :: s) with _ | ⟨name, r⟩ <;>
        simp [Function.comp_def, withReturns_cons hc]

/-! ## Blocks -/

theorem closeBlock_withReturns {m : Mode} (hm : ∀ q, m = .quoted q → isQuote q = true)
    (depth : Nat) (s : List Char) :
    closeBlock m depth (withReturns s) =
      (closeBlock m depth s).map (Prod.map withReturns withReturns) := by
  induction s generalizing m depth with
  | nil => rfl
  | cons c s ih =>
    -- a character that is kept, whatever mode it leaves the reader in
    have keep {m : Mode} (hm : ∀ q, m = .quoted q → isQuote q = true) (depth : Nat) (d : Char)
        (hd : d ≠ '\n') :
        (closeBlock m depth (withReturns s)).map (fun p => (d :: p.1, p.2)) =
          ((closeBlock m depth s).map fun p => (d :: p.1, p.2)).map
            (Prod.map withReturns withReturns) := by
      rw [ih hm]
      simp [Function.comp_def, withReturns_cons hd]
    by_cases hc : c = '\n'
    · subst hc
      cases m with
      | plain => simp [closeBlock, isQuote, ih (m := .plain) (by simp), Function.comp_def]
      | comment => simp [closeBlock, ih (m := .plain) (by simp), Function.comp_def]
      | quoted q =>
        have hr : '\r' ≠ q := by
          rintro rfl
          cases hm _ rfl
        have hn : '\n' ≠ q := by
          rintro rfl
          cases hm _ rfl
        simp [closeBlock, hr, hn, ih hm, Function.comp_def]
    · have hslash : (withReturns s).head? = some '/' ↔ s.head? = some '/' := by
        rw [head?_withReturns]
        cases s with
        | nil => rfl
        | cons d s => by_cases hd : d = '\n' <;> simp [hd]
      rw [withReturns_cons hc]
      cases m with
      | comment =>
        simp only [closeBlock, if_neg hc]
        exact keep (by simp) depth c hc
      | quoted q =>
        simp only [closeBlock]
        split
        · exact keep (by simp) depth c hc
        · exact keep hm depth c hc
      | plain =>
        simp only [closeBlock, hslash]
        split_ifs with hq
        · exact keep (by rintro _ ⟨⟩; exact hq) depth c hc
        · exact keep (by simp) depth c hc
        · exact keep (by simp) (depth + 1) c hc
        · cases depth with
          | zero => rfl
          | succ depth => exact keep (by simp) depth c hc
        · exact keep (by simp) depth c hc

def Block.withReturns (b : Block) : Block :=
  ⟨Text.withReturns b.name, Text.withReturns b.body⟩

def Outline.withReturns (o : Outline) : Outline where
  blocks := o.blocks.map fun (before, b) => (Text.withReturns before, b.withReturns)
  tail := Text.withReturns o.tail

theorem read_withReturns (s : List Char) :
    Outline.read (withReturns s) = (Outline.read s).withReturns := by
  induction hn : s.length using Nat.strong_induction_on generalizing s with
  | _ n ih =>
    have hf' := findHeader_withReturns false s
    cases hf : findHeader false s with
    | none =>
      rw [hf] at hf'
      rw [Outline.read_eq_of_no_header hf, Outline.read_eq_of_no_header hf']
      rfl
    | some found =>
      obtain ⟨before, name, behind⟩ := found
      rw [hf] at hf'
      have hc' := closeBlock_withReturns (m := .plain) (by simp) 0 behind
      cases hc : closeBlock .plain 0 behind with
      | none =>
        rw [hc] at hc'
        rw [Outline.read_eq_of_open hf hc, Outline.read_eq_of_open hf' hc']
        rfl
      | some closed =>
        obtain ⟨body, rest⟩ := closed
        rw [hc] at hc'
        have hlt : rest.length < n := by
          rw [← hn]
          exact Nat.lt_trans (length_closeBlock hc) (length_findHeader hf)
        rw [Outline.read_eq_of_closeBlock hf hc, Outline.read_eq_of_closeBlock hf' hc',
          ih _ hlt rest rfl, lastName_withReturns]
        rfl

/-! ## References -/

def Endpoint.withReturns (e : Endpoint) : Endpoint :=
  ⟨Text.withReturns e.table, Text.withReturns e.column⟩

theorem ofWritten_withReturns (w : List Char × List Char) :
    Endpoint.ofWritten (w.map withReturns withReturns) = (Endpoint.ofWritten w).withReturns := by
  simp [Endpoint.ofWritten, Endpoint.withReturns, lastName_withReturns, unquote_withReturns]

theorem takeEndpoint_withReturns (s : List Char) :
    takeEndpoint (withReturns s) =
      (takeEndpoint s).map (Prod.map (Prod.map withReturns withReturns) withReturns) := by
  have dot (s : List Char) := front_withReturns (q := '.') (by decide) (by decide) s
  rw [takeEndpoint, takeEndpoint, takeName_withReturns]
  rcases takeName true s with _ | ⟨a, r⟩
  · rfl
  rcases dot r with ⟨r, rfl, hr⟩ | ⟨h, hr⟩
  · simp only [Option.map_some, Prod.map_apply, hr, takeName_withReturns]
    rcases takeName true r with _ | ⟨b, r'⟩
    · rfl
    rcases dot r' with ⟨r', rfl, hr'⟩ | ⟨h', hr'⟩
    · simp only [Option.map_some, Prod.map_apply, hr', takeName_withReturns]
      rcases takeName true r' with _ | ⟨c, r''⟩
      · simp [withReturns_cons]
      · simp [withReturns_cons]
    · simp only [Option.map_some, Prod.map_apply]
  · simp only [Option.map_some, Prod.map_apply]
    split
    · next he => exact absurd (Prod.mk.inj (Option.some.inj he)).2 (hr _)
    · split
      · next he => exact absurd (Prod.mk.inj (Option.some.inj he)).2 (h _)
      · rfl

theorem takeOperator_withReturns (s : List Char) :
    takeOperator (withReturns s) = (takeOperator s).map (Prod.map id withReturns) := by
  cases s with
  | nil => rfl
  | cons c s =>
    by_cases hc : c = '\n'
    · subst hc
      rfl
    rw [withReturns_cons hc]
    by_cases hl : c = '<'
    · subst hl
      rcases front_withReturns (q := '>') (by decide) (by decide) s with ⟨r, rfl, hr⟩ | ⟨h, hr⟩
      · rw [hr]
        rfl
      · rw [takeOperator, takeOperator]
        · rfl
        · exact h
        · exact hr
    by_cases hg : c = '>'
    · subst hg
      rfl
    by_cases hd : c = '-'
    · subst hd
      rfl
    · simp [takeOperator, hl, hg, hd]

theorem afterOpening_withReturns (s : List Char) :
    afterOpening (withReturns s) = (afterOpening s).map withReturns := by
  induction s with
  | nil => rfl
  | cons c s ih =>
    by_cases hc : c = '\n'
    · subst hc
      simp [afterOpening]
    · rw [withReturns_cons hc, afterOpening, afterOpening, ih]
      split_ifs with h₁ h₂
      · rfl
      · rfl
      · rfl

def Relationship.mapNames (f : String → String) (r : Relationship) : Relationship :=
  ⟨f r.fromTable, f r.fromColumn, f r.toTable, f r.toColumn⟩

theorem relate_withReturns (op : Operator) (left right : Endpoint) :
    op.relate left.withReturns right.withReturns =
      (op.relate left right).mapNames withReturnsString := by
  simp only [Operator.relate]
  split <;> simp [Relationship.mapNames, Endpoint.withReturns, withReturnsString]

theorem takeReference_withReturns (s : List Char) :
    takeReference (withReturns s) =
      (takeReference s).map (Prod.map (Relationship.mapNames withReturnsString) withReturns) := by
  refine bind_eq_map (dropWord_withReturns (by decide) s) fun r => ?_
  have hopening : (if (withReturns r).head?.any isWord then none
      else afterOpening (withReturns r)) =
        (if r.head?.any isWord then none else afterOpening r).map withReturns := by
    rw [any_head?_withReturns rfl, afterOpening_withReturns]
    split <;> rfl
  refine bind_eq_map hopening fun r => ?_
  rw [trimStart_withReturns]
  refine bind_eq_map (takeEndpoint_withReturns (trimStart r)) ?_
  rintro ⟨left, r⟩
  simp only [Prod.map_apply, trimStart_withReturns]
  refine bind_eq_map (takeOperator_withReturns (trimStart r)) ?_
  rintro ⟨op, r⟩
  simp only [Prod.map_apply, id, trimStart_withReturns, takeEndpoint_withReturns, Option.map_map]
  congr 1
  funext ⟨right, r⟩
  simp [ofWritten_withReturns, relate_withReturns]

theorem referencesIn_withReturns (inWord : Bool) (s : List Char) :
    referencesIn inWord (withReturns s) =
      (referencesIn inWord s).map (Relationship.mapNames withReturnsString) := by
  induction hn : s.length using Nat.strong_induction_on generalizing s inWord with
  | _ n ih =>
    have ht' := takeReference_withReturns s
    rcases found_or_none takeReference inWord s with ⟨rfl, rel, r, ht⟩ | ht
    · rw [ht] at ht'
      rw [referencesIn_of_some ht, referencesIn_of_some ht',
        ih _ (hn ▸ length_takeReference ht) false r rfl, List.map_cons]
    · cases s with
      | nil => simp [referencesIn_nil]
      | cons c s =>
        have hlt : s.length < n := by simp [← hn]
        rw [referencesIn_of_none ht, ← ih _ hlt (isWord c) s rfl]
        by_cases hc : c = '\n'
        · subst hc
          rw [withReturns_newline, referencesIn_of_none fun _ => rfl,
            referencesIn_of_none fun _ => rfl]
        · rw [withReturns_cons hc] at ht' ⊢
          refine referencesIn_of_none fun hw => ?_
          rw [ht', ht hw]
          rfl

end SchemaHost.Schema
