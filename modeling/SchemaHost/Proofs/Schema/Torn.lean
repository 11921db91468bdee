import SchemaHost.Proofs.Schema.Blocks
import SchemaHost.Proofs.Schema.Commented

/-! # Behind a torn block

A block that never closes ends the reading of a document. So a table written behind a text, however
that text is torn, is read just if the text leaves none of its own blocks open.
-/

namespace SchemaHost.Schema

open Text

variable {m : Mode} {depth : Nat} {inWord : Bool} {b : Block} {c : Char}
  {a s t u name before behind body rest : List Char}

/-! ## Up to a brace and no further -/

/-- Only the text up to its brace decides where a block ends. -/
theorem closeBlock_local (h : closeBlock m depth s = some (body, rest)) (t : List Char) :
    closeBlock m depth (body ++ '}' :: t) = some (body, t) := by
  induction s generalizing m depth body with
  | nil => cases h
  | cons c s ih =>
    have keep {m : Mode} {d : Nat} {x : List Char}
        (h : (closeBlock m d s).map (fun p => (c :: p.1, p.2)) = some (x, rest)) :
        ∃ y, x = c :: y ∧ s.head? = (y ++ '}' :: t).head? ∧
          (closeBlock m d (y ++ '}' :: t)).map (fun p => (c :: p.1, p.2)) = some (x, t) := by
      obtain ⟨⟨y, r⟩, hy, he⟩ := Option.map_eq_some_iff.mp h
      cases he
      refine ⟨y, rfl, ?_, by rw [ih hy]; rfl⟩
      rw [closeBlock_eq hy]
      exact head_append y rfl
    cases m with
    | quoted q =>
      obtain ⟨y, rfl, -, hy⟩ := keep h
      exact hy
    | comment =>
      obtain ⟨y, rfl, -, hy⟩ := keep h
      exact hy
    | plain =>
      simp only [closeBlock] at h
      split at h
      · next hq =>
        obtain ⟨y, rfl, -, hy⟩ := keep h
        simpa only [List.cons_append, closeBlock, if_pos hq] using hy
      next hq =>
      split at h
      · next hs =>
        obtain ⟨y, rfl, hhead, hy⟩ := keep h
        rw [hhead] at hs
        simpa only [List.cons_append, closeBlock, if_neg hq, if_pos hs] using hy
      next hs =>
      split at h
      · next ho =>
        obtain ⟨y, rfl, hhead, hy⟩ := keep h
        rw [hhead] at hs
        simpa only [List.cons_append, closeBlock, if_neg hq, if_neg hs, if_pos ho] using hy
      next ho =>
      split at h
      · next he =>
        cases depth with
        | zero =>
          cases h
          rfl
        | succ d =>
          obtain ⟨y, rfl, hhead, hy⟩ := keep h
          rw [hhead] at hs
          simpa only [List.cons_append, closeBlock, if_neg hq, if_neg hs, if_neg ho, if_pos he]
            using hy
      next he =>
      obtain ⟨y, rfl, hhead, hy⟩ := keep h
      rw [hhead] at hs
      simpa only [List.cons_append, closeBlock, if_neg hq, if_neg hs, if_neg ho, if_neg he]
        using hy

theorem closeBlock_append (h : closeBlock m depth s = some (body, rest)) (t : List Char) :
    closeBlock m depth (s ++ t) = some (body, rest ++ t) := by
  have hs : s ++ t = body ++ '}' :: (rest ++ t) := by
    rw [closeBlock_eq h]
    simp
  rw [hs, closeBlock_local h]

theorem exists_of_closeBlock_append (hopen : closeBlock m depth s = none)
    (h : closeBlock m depth (s ++ t) = some (body, rest)) : ∃ u, t = u ++ '}' :: rest := by
  rcases List.append_eq_append_iff.mp (closeBlock_eq h) with ⟨u, -, hu⟩ | ⟨u, rfl, hu⟩
  · exact ⟨u, hu⟩
  · cases u with
    | nil => exact ⟨[], hu.symm⟩
    | cons d u =>
      -- then the brace stands in the first text, and the search ends there without the second
      obtain ⟨rfl, rfl⟩ := List.cons_eq_cons.mp hu
      cases (closeBlock_local h u).symm.trans hopen

/-! ## Headers of a joined text -/

def headerNames (inWord : Bool) : List Char → List (List Char)
  | [] => []
  | c :: s =>
    match if inWord then none else takeHeader (c :: s) with
    | some (name, _) => lastName name :: headerNames (isWord c) s
    | none => headerNames (isWord c) s

/-- The second text completes a header that starts in the first. -/
def runsInto (t : List Char) (inWord : Bool) : List Char → Bool
  | [] => false
  | c :: s =>
    (!inWord && (takeHeader (c :: s)).isNone && (takeHeader (c :: (s ++ t))).isSome) ||
      runsInto t (isWord c) s

theorem takeHeader_append (h : takeHeader s = some (name, behind)) (t : List Char) :
    takeHeader (s ++ t) = some (name, behind ++ t) := by
  obtain ⟨a, rfl, ha⟩ := takeHeader_local h
  rw [List.append_assoc]
  exact ha (behind ++ t)

theorem takeHeader_append_of_none (hr : runsInto t inWord (c :: s) = false)
    (h : inWord = false → takeHeader (c :: s) = none) :
    inWord = false → takeHeader (c :: (s ++ t)) = none := by
  intro hw
  simp only [runsInto, Bool.or_eq_false_iff, hw, h hw] at hr
  simpa using hr.1

theorem runsInto_of_append (hr : runsInto t inWord (u ++ c :: s) = false) :
    runsInto t (isWord c) s = false := by
  induction u generalizing inWord with
  | nil => exact (Bool.or_eq_false_iff.mp hr).2
  | cons d u ih => exact ih (Bool.or_eq_false_iff.mp hr).2

theorem headerNames_subset (inWord : Bool) (u : List Char) (c : Char) (s : List Char) :
    headerNames (isWord c) s ⊆ headerNames inWord (u ++ c :: s) := by
  have step (inWord : Bool) (d : Char) (s : List Char) :
      headerNames (isWord d) s ⊆ headerNames inWord (d :: s) := by
    rw [headerNames]
    split
    · exact List.subset_cons_self _ _
    · exact List.Subset.refl _
  induction u generalizing inWord with
  | nil => exact step inWord c s
  | cons d u ih => exact List.Subset.trans (ih (isWord d)) (step inWord d _)

theorem headerNames_of_findHeader (h : findHeader inWord s = some (before, name, behind)) :
    lastName name ∈ headerNames inWord s := by
  induction s generalizing inWord before with
  | nil => cases h
  | cons c s ih =>
    rw [findHeader] at h
    rw [headerNames]
    cases hs : if inWord then none else takeHeader (c :: s) with
    | some found =>
      rw [hs] at h
      cases h
      exact List.mem_cons_self
    | none =>
      rw [hs] at h
      obtain ⟨⟨b, found⟩, hf, he⟩ := Option.map_eq_some_iff.mp h
      cases he
      exact ih hf

theorem findHeader_append_of_some (hr : runsInto t inWord s = false)
    (h : findHeader inWord s = some (before, name, behind)) :
    findHeader inWord (s ++ t) = some (before, name, behind ++ t) := by
  induction s generalizing inWord before with
  | nil => cases h
  | cons c s ih =>
    cases hs : if inWord then none else takeHeader (c :: s) with
    | some found =>
      rw [findHeader, hs] at h
      cases h
      cases inWord with
      | true => cases hs
      | false => exact findHeader_of_some (takeHeader_append hs t)
    | none =>
      have hnone : inWord = false → takeHeader (c :: s) = none := by
        rintro rfl
        exact hs
      rw [findHeader_of_none hnone] at h
      obtain ⟨⟨b, found⟩, hf, he⟩ := Option.map_eq_some_iff.mp h
      cases he
      have htail := ih (runsInto_of_append (u := []) hr) hf
      rw [List.cons_append, findHeader_of_none (takeHeader_append_of_none hr hnone), htail]
      rfl

theorem findHeader_append_of_none (hr : runsInto ('\n' :: t) inWord s = false)
    (h : findHeader inWord s = none) :
    findHeader inWord (s ++ '\n' :: t) =
      (findHeader false t).map fun (before, found) => (s ++ '\n' :: before, found) := by
  induction s generalizing inWord with
  | nil => exact findHeader_of_none fun _ => rfl
  | cons c s ih =>
    have hnone : inWord = false → takeHeader (c :: s) = none := by
      rintro rfl
      rw [findHeader] at h
      split at h
      · cases h
      · assumption
    rw [findHeader_of_none hnone, Option.map_eq_none_iff] at h
    rw [List.cons_append, findHeader_of_none (takeHeader_append_of_none hr hnone),
      ih (runsInto_of_append (u := []) hr) h, Option.map_map]
    rfl

/-! ## Open blocks -/

/-- The last header that the reader comes to has no closing brace in the text. -/
def leavesOpen (s : List Char) : Bool :=
  (findHeader false (Outline.read s).tail).isSome

theorem leavesOpen_of_closeBlock (hf : findHeader false s = some (before, name, behind))
    (hc : closeBlock .plain 0 behind = some (body, rest)) : leavesOpen s = leavesOpen rest := by
  rw [leavesOpen, Outline.read_eq_of_closeBlock hf hc, leavesOpen]

theorem leavesOpen_of_open (hf : findHeader false s = some (before, name, behind))
    (hc : closeBlock .plain 0 behind = none) : leavesOpen s = true := by
  rw [leavesOpen, Outline.read_eq_of_open hf hc, hf]
  rfl

theorem exists_of_block (hf : findHeader inWord s = some (before, name, behind))
    (hc : closeBlock m depth behind = some (body, rest)) : ∃ u, s = u ++ '}' :: rest := by
  obtain ⟨t, rfl, ht⟩ := exists_of_findHeader hf
  obtain ⟨x, rfl, -⟩ := takeHeader_local ht
  rw [closeBlock_eq hc]
  exact ⟨before ++ (x ++ '{' :: body), by simp⟩

theorem names_read_subset (s : List Char) : (Outline.read s).names ⊆ headerNames false s := by
  induction hn : s.length using Nat.strong_induction_on generalizing s with
  | _ n ih =>
    cases hf : findHeader false s with
    | none =>
      rw [Outline.read_eq_of_no_header hf]
      exact List.nil_subset _
    | some found =>
      obtain ⟨before, name, behind⟩ := found
      cases hc : closeBlock .plain 0 behind with
      | none =>
        rw [Outline.read_eq_of_open hf hc]
        exact List.nil_subset _
      | some closed =>
        obtain ⟨body, rest⟩ := closed
        have hlt : rest.length < n := hn ▸ (length_closeBlock hc).trans (length_findHeader hf)
        have hrest : (Outline.read rest).names ⊆ headerNames false s := by
          obtain ⟨u, rfl⟩ := exists_of_block hf hc
          exact List.Subset.trans (ih _ hlt rest rfl) (headerNames_subset false u '}' rest)
        rw [Outline.read_eq_of_closeBlock hf hc]
        exact List.cons_subset.mpr ⟨headerNames_of_findHeader hf, hrest⟩

/-- Behind a text that closes its blocks, reading starts anew. -/
theorem blocks_read_join (ha : leavesOpen a = false) (hr : runsInto ('\n' :: t) false a = false) :
    (Outline.read (a ++ '\n' :: t)).blocks.map (·.2) =
      (Outline.read a).blocks.map (·.2) ++ (Outline.read t).blocks.map (·.2) := by
  induction hn : a.length using Nat.strong_induction_on generalizing a with
  | _ n ih =>
    cases hf : findHeader false a with
    | none =>
      have hj := findHeader_append_of_none hr hf
      rw [Outline.read_eq_of_no_header hf, List.map_nil, List.nil_append]
      cases ht : findHeader false t with
      | none =>
        rw [ht] at hj
        rw [Outline.read_eq_of_no_header hj, Outline.read_eq_of_no_header ht]
      | some found =>
        obtain ⟨before, name, behind⟩ := found
        rw [ht] at hj
        cases hc : closeBlock .plain 0 behind with
        | none => rw [Outline.read_eq_of_open hj hc, Outline.read_eq_of_open ht hc]
        | some closed =>
          rw [Outline.read_eq_of_closeBlock hj hc, Outline.read_eq_of_closeBlock ht hc]
          rfl
    | some found =>
      obtain ⟨before, name, behind⟩ := found
      have hj := findHeader_append_of_some hr hf
      cases hc : closeBlock .plain 0 behind with
      | none => cases ha.symm.trans (leavesOpen_of_open hf hc)
      | some closed =>
        obtain ⟨body, rest⟩ := closed
        have hlt : rest.length < n := hn ▸ (length_closeBlock hc).trans (length_findHeader hf)
        rw [leavesOpen_of_closeBlock hf hc] at ha
        have hrest : runsInto ('\n' :: t) false rest = false := by
          obtain ⟨u, rfl⟩ := exists_of_block hf hc
          exact runsInto_of_append hr
        have ih := ih _ hlt ha hrest rfl
        rw [Outline.read_eq_of_closeBlock hj (closeBlock_append hc _),
          Outline.read_eq_of_closeBlock hf hc, List.map_cons, List.map_cons, ih]
        rfl

/-- A block left open takes the header behind it for text of its own. -/
theorem names_read_join (ha : leavesOpen a = true) (hr : runsInto ('\n' :: t) false a = false)
    (ht : ∀ u rest, t = u ++ '}' :: rest → findHeader false rest = none) :
    (Outline.read (a ++ '\n' :: t)).names ⊆ headerNames false a := by
  induction hn : a.length using Nat.strong_induction_on generalizing a with
  | _ n ih =>
    cases hf : findHeader false a with
    | none =>
      rw [leavesOpen, Outline.read_eq_of_no_header hf, hf] at ha
      cases ha
    | some found =>
      obtain ⟨before, name, behind⟩ := found
      have hj := findHeader_append_of_some hr hf
      have hname := headerNames_of_findHeader hf
      cases hc : closeBlock .plain 0 behind with
      | none =>
        cases hc' : closeBlock .plain 0 (behind ++ '\n' :: t) with
        | none =>
          rw [Outline.read_eq_of_open hj hc']
          exact List.nil_subset _
        | some closed =>
          obtain ⟨body, rest⟩ := closed
          have hrest : findHeader false rest = none := by
            obtain ⟨u, hu⟩ := exists_of_closeBlock_append hc hc'
            cases u with
            | nil => cases hu
            | cons d u => exact ht u rest (List.cons_eq_cons.mp hu).2
          rw [Outline.read_eq_of_closeBlock hj hc', Outline.read_eq_of_no_header hrest]
          exact List.cons_subset.mpr ⟨hname, List.nil_subset _⟩
      | some closed =>
        obtain ⟨body, rest⟩ := closed
        have hlt : rest.length < n := hn ▸ (length_closeBlock hc).trans (length_findHeader hf)
        rw [leavesOpen_of_closeBlock hf hc] at ha
        have hrest : (Outline.read (rest ++ '\n' :: t)).names ⊆ headerNames false a := by
          obtain ⟨u, rfl⟩ := exists_of_block hf hc
          exact List.Subset.trans (ih _ hlt ha (runsInto_of_append hr) rfl)
            (headerNames_subset false u '}' rest)
        rw [Outline.read_eq_of_closeBlock hj (closeBlock_append hc _)]
        exact List.cons_subset.mpr ⟨hname, hrest⟩

/-! ## Tables -/

/-- The block stands at the front of the text, and `rest` behind its brace. -/
def IsBlock (b : Block) (rest s : List Char) : Prop :=
  ∃ name behind, takeHeader s = some (name, behind) ∧
    closeBlock .plain 0 behind = some (b.body, rest) ∧ lastName name = b.name

def IsUnclosed (s : List Char) : Prop :=
  ∃ b, IsBlock b [] (s ++ ['}'])

/-- A block with a quote in one of its lines that may not belong there. -/
structure Misquoted where
  ahead : List Char
  left : List Char
  quote : Char
  right : List Char
  behind : List Char
  deriving DecidableEq, Repr

namespace Misquoted

def chars (d : Misquoted) : List Char :=
  d.ahead ++ '\n' :: (d.left ++ d.quote :: (d.right ++ '\n' :: d.behind))

def line (d : Misquoted) : List Char :=
  d.left ++ d.right

/-- Without the quote the text is a complete block and the line one of its columns. With it the line
does not close its quotes. -/
structure IsStray (d : Misquoted) (b : Block) : Prop where
  block : IsBlock b [] (d.ahead ++ '\n' :: (d.line ++ '\n' :: d.behind))
  header : (takeHeader d.ahead).isSome
  single_line : ∀ c ∈ d.line, isLineBreak c = false
  column : (definitionTexts 0 [d.line]).filterMap (Definition.read b.name) ≠ []
  quote : isQuote d.quote = true
  closed : closesQuotes .plain d.line = true
  unclosed : closesQuotes .plain (d.left ++ d.quote :: d.right) = false

end Misquoted

theorem findHeader_of_takeHeader (h : takeHeader s = some (name, behind)) :
    findHeader false s = some ([], name, behind) := by
  cases s with
  | nil => cases h
  | cons c s => exact findHeader_of_some h

theorem read_of_isBlock (hb : IsBlock b rest s) (hrest : findHeader false rest = none) :
    Outline.read s = ⟨[([], b)], rest⟩ := by
  obtain ⟨name, behind, hs, hc, hname⟩ := hb
  rw [Outline.read_eq_of_closeBlock (findHeader_of_takeHeader hs) hc,
    Outline.read_eq_of_no_header hrest, hname]

theorem leavesOpen_of_isUnclosed (h : IsUnclosed s) : leavesOpen s = true := by
  obtain ⟨b, name, behind, hs, hc, -⟩ := h
  obtain ⟨x, hx, hlocal⟩ := takeHeader_local hs
  have hs : s = x ++ '{' :: b.body := by
    rw [closeBlock_eq hc] at hx
    exact List.append_cancel_right (hx.trans (by simp))
  have hopen : closeBlock .plain 0 b.body = none := by
    cases ho : closeBlock .plain 0 b.body with
    | none => rfl
    | some closed =>
      have hc' := closeBlock_append ho ['}']
      rw [← closeBlock_eq hc, hc] at hc'
      simp at hc'
  exact leavesOpen_of_open (findHeader_of_takeHeader (hs ▸ hlocal b.body)) hopen

theorem findHeader_of_lone (hb : IsBlock b rest t) (hlone : headerNames false t = [b.name])
    {r : List Char} (ht : t = u ++ '}' :: r) : findHeader false r = none := by
  obtain ⟨name, behind, hs, -, hname⟩ := hb
  cases u with
  | nil =>
    rw [ht] at hs
    cases hs
  | cons c u =>
    rw [ht] at hs hlone
    have hnames : headerNames (isWord c) (u ++ '}' :: r) = [] := by
      rw [List.cons_append, headerNames] at hlone
      simp only [Bool.false_eq_true, if_false] at hlone
      rw [List.cons_append] at hs
      rw [hs] at hlone
      exact (List.cons_eq_cons.mp hlone).2
    cases hf : findHeader false r with
    | none => rfl
    | some found =>
      have hmem := headerNames_subset (isWord c) u '}' r (headerNames_of_findHeader hf)
      rw [hnames] at hmem
      cases hmem

theorem tables_ofDocument (s : String) : (Model.ofDocument s).tables =
    (firstsIn (fun b => String.ofList b.name) [] ((Outline.read s.toList).blocks.map (·.2))).map
      Block.table := by
  rw [Model.ofDocument, Outline.model, Outline.tableBlocks_eq]

theorem toList_join (a t : String) : (a ++ "\n" ++ t).toList = a.toList ++ '\n' :: t.toList := by
  simp

/-- A table behind a text, however torn, is read with all its columns if the text leaves no block
open, and is lost if it does. A block without its brace always does. -/
theorem table_behind_torn (a t : String) (b : Block) (rest : List Char)
    (hb : IsBlock b rest t.toList) (hrest : findHeader false rest = none)
    (hruns : runsInto ('\n' :: t.toList) false a.toList = false)
    (hname : b.name ∉ headerNames false a.toList) :
    (Model.ofDocument t).tables = [b.table] ∧
      (leavesOpen a.toList = false → b.table ∈ (Model.ofDocument (a ++ "\n" ++ t)).tables) ∧
      (leavesOpen a.toList = true → headerNames false t.toList = [b.name] →
        b.table ∉ (Model.ofDocument (a ++ "\n" ++ t)).tables) ∧
      (IsUnclosed a.toList → leavesOpen a.toList = true) := by
  have hread := read_of_isBlock hb hrest
  refine ⟨?alone, fun ha => ?kept, fun ha hlone hmem => ?lost, leavesOpen_of_isUnclosed⟩
  case alone =>
    rw [tables_ofDocument, hread]
    rfl
  case kept =>
    rw [tables_ofDocument, toList_join, blocks_read_join ha hruns, hread]
    apply List.mem_map_of_mem
    apply mem_firstsIn_append List.not_mem_nil
    intro x hx he
    apply hname
    rw [← String.ofList_inj.mp he]
    obtain ⟨p, hp, rfl⟩ := List.mem_map.mp hx
    exact names_read_subset _ (List.mem_map_of_mem hp)
  case lost =>
    rw [Model.ofDocument, toList_join] at hmem
    obtain ⟨x, hx, he⟩ := List.mem_map.mp hmem
    obtain ⟨p, hp, rfl⟩ := List.mem_map.mp ((firstsBy_sublist _ _ _).subset hx)
    apply hname
    rw [← String.ofList_inj.mp (congrArg Table.name he)]
    exact names_read_join ha hruns (fun u r => findHeader_of_lone hb hlone)
      (List.mem_map_of_mem hp)

def laterTable : String :=
  "Table b \x7b\n  x int\n\x7d"

def laterBlock : Block :=
  ⟨"b".toList, "\n  x int\n".toList⟩

/-- The quote that strays is closed by another one in a comment, and the block by its brace. -/
def healedQuote : Misquoted where
  ahead := "Table a \x7b".toList
  left := "  id int [note: ".toList
  quote := '\''
  right := "oops]".toList
  behind := "  y int // it's\n\x7d".toList

theorem isBlock_laterTable : IsBlock laterBlock [] laterTable.toList :=
  ⟨"b".toList, "\n  x int\n\x7d".toList, by decide +kernel, by decide +kernel, by decide +kernel⟩

/-- A stray quote that the next apostrophe closes, in a comment, does not keep the block open. -/
theorem table_behind_healedQuote :
    healedQuote.IsStray ⟨"a".toList, "\n  id int [note: oops]\n  y int // it's\n".toList⟩ ∧
      (IsBlock laterBlock [] laterTable.toList ∧ findHeader false [] = none ∧
        runsInto ('\n' :: laterTable.toList) false healedQuote.chars = false ∧
        laterBlock.name ∉ headerNames false healedQuote.chars) ∧
      laterBlock.table ∈ (Model.ofDocument
        (String.ofList healedQuote.chars ++ "\n" ++ laterTable)).tables := by
  have hstray : healedQuote.IsStray
      ⟨"a".toList, "\n  id int [note: oops]\n  y int // it's\n".toList⟩ :=
    { block := ⟨"a".toList, "\n  id int [note: oops]\n  y int // it's\n\x7d".toList,
        by decide +kernel, by decide +kernel, by decide +kernel⟩
      header := by decide +kernel
      single_line := by decide +kernel
      column := by decide +kernel
      quote := by decide +kernel
      closed := by decide +kernel
      unclosed := by decide +kernel }
  have hruns : runsInto ('\n' :: laterTable.toList) false healedQuote.chars = false := by
    decide +kernel
  have hname : laterBlock.name ∉ headerNames false healedQuote.chars := by
    decide +kernel
  have hopen : leavesOpen healedQuote.chars = false := by
    decide +kernel
  have h := table_behind_torn (String.ofList healedQuote.chars) laterTable laterBlock []
    isBlock_laterTable rfl (by rwa [String.toList_ofList]) (by rwa [String.toList_ofList])
  rw [String.toList_ofList] at h
  exact ⟨hstray, ⟨isBlock_laterTable, rfl, hruns, hname⟩, h.2.1 hopen⟩

def unclosedTable : String :=
  "Table a \x7b\n  id int\n"

def swallowingQuote : Misquoted :=
  { healedQuote with behind := ['\x7d'] }

theorem not_forall_table_behind :
    (¬ ∀ (a : String) (b : Block) (t : String), IsUnclosed a.toList → IsBlock b [] t.toList →
        b.name ∉ headerNames false a.toList →
          b.table ∈ (Model.ofDocument (a ++ "\n" ++ t)).tables) ∧
      ¬ ∀ (d : Misquoted) (c b : Block) (t : String), d.IsStray c → IsBlock b [] t.toList →
        b.name ∉ headerNames false d.chars →
          b.table ∈ (Model.ofDocument (String.ofList d.chars ++ "\n" ++ t)).tables := by
  constructor
  · intro h
    have hopen : IsUnclosed unclosedTable.toList :=
      ⟨⟨"a".toList, "\n  id int\n".toList⟩, "a".toList, "\n  id int\n\x7d".toList,
        by decide +kernel, by decide +kernel, by decide +kernel⟩
    have hmem := h unclosedTable laterBlock laterTable hopen isBlock_laterTable (by decide +kernel)
    rw [tables_ofDocument] at hmem
    revert hmem
    decide +kernel
  · intro h
    have hstray : swallowingQuote.IsStray ⟨"a".toList, "\n  id int [note: oops]\n".toList⟩ :=
      { block := ⟨"a".toList, "\n  id int [note: oops]\n\x7d".toList,
          by decide +kernel, by decide +kernel, by decide +kernel⟩
        header := by decide +kernel
        single_line := by decide +kernel
        column := by decide +kernel
        quote := by decide +kernel
        closed := by decide +kernel
        unclosed := by decide +kernel }
    have hmem := h swallowingQuote _ laterBlock laterTable hstray isBlock_laterTable
      (by decide +kernel)
    rw [tables_ofDocument] at hmem
    revert hmem
    decide +kernel

end SchemaHost.Schema
