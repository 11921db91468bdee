import SchemaHost.Ddl.Statement
import SchemaHost.Proofs.Schema.Nesting
import SchemaHost.Proofs.Schema.Printer
import SchemaHost.Proofs.Text.Case

/-! # The layout of a block

The definitions of a block may stand on one line or on many, with commas between those on a line.
However they are laid out, the block declares the same columns.
-/

namespace SchemaHost.Schema

open Text

variable {quote : Option Char} {depth k : Nat} {c : Char} {s t w name front rest : List Char}
  {ds ts ls : List (List Char)}

/-! ## Definitions -/

def isBalanced (quote : Option Char) (depth : Nat) : List Char → Bool
  | [] => quote.isNone && depth == 0
  | c :: cs =>
    match quote with
    | some q => isBalanced (if c = q then none else some q) depth cs
    | none =>
      if isQuote c then isBalanced (some c) depth cs
      else if c == '(' || c == '[' then isBalanced none (depth + 1) cs
      else if c == ')' || c == ']' then depth != 0 && isBalanced none (depth - 1) cs
      else isBalanced none depth cs

/-- A definition that can share a line with others. -/
structure IsDefinition (s : List Char) : Prop extends IsTrimmed s where
  single_line : ∀ x ∈ s, isLineBreak x = false
  accepted : ∀ table, (Definition.read table s).isSome = true
  alone : splitAttributes s = [s]
  balanced : isBalanced none 0 s = true
  bare : isBare none s = true

instance (s : List Char) : Decidable (IsDefinition s) :=
  decidable_of_iff (trim s = s ∧ (∀ x ∈ s, isLineBreak x = false) ∧ (readShape s).isSome = true ∧
      splitAttributes s = [s] ∧ isBalanced none 0 s = true ∧ isBare none s = true)
    ⟨fun ⟨h₁, h₂, h₃, h₄, h₅, h₆⟩ => ⟨isTrimmed_iff.mpr h₁, h₂,
        fun _ => by rw [Definition.read, Option.isSome_map]; exact h₃, h₄, h₅, h₆⟩,
      fun h => ⟨h.trim, h.single_line, by simpa [Definition.read] using h.accepted [], h.alone,
        h.balanced, h.bare⟩⟩

theorem isSingle_of_isBalanced {n : Nest} (h : isBalanced n.quote n.depth s = true)
    (hs : n.IsUncut s) : isSingle n.quote n.depth s = true := by
  induction s generalizing n with
  | nil => exact h
  | cons c s ih =>
    obtain ⟨hc, hs⟩ := Nest.isUncut_cons.mp hs
    have hnext (hnext : isBalanced (n.step c).quote (n.step c).depth s = true) := ih hnext hs
    obtain ⟨_ | q, depth, hq⟩ := n
    · have hcomma : ¬ (c = ',' ∧ depth = 0) := by
        rintro ⟨rfl, rfl⟩
        exact hc rfl rfl
      simp only [Nest.step] at hnext
      simp only [isBalanced, isSingle] at h ⊢
      grind
    · simp only [Nest.step] at hnext
      simp only [isBalanced, isSingle] at h ⊢
      grind

theorem IsDefinition.isEntry (h : IsDefinition s) : IsEntry s where
  single := by
    have hnormal := h.alone ▸ isNormal_splitAttributes s
    exact isSingle_of_isBalanced (n := .closed) h.balanced hnormal.apart.isUncut
  bare := h.bare
  head := h.head
  last := h.last
  ne_nil := by
    rintro rfl
    cases h.alone

theorem IsDefinition.exists_shape (h : IsDefinition s) : ∃ shape, readShape s = some shape := by
  obtain ⟨d, hd⟩ := Option.isSome_iff_exists.mp (h.accepted [])
  obtain ⟨shape, hs, -⟩ := Option.map_eq_some_iff.mp hd
  exact ⟨shape, hs⟩

/-! ## Notes -/

theorem exists_of_dropWord (hw : ∀ l ∈ w, 65 ≤ l.toNat ∧ l.toNat < 128 ∧ l ≠ 'k')
    (hr : rest.head?.any isBlank = true) (h : dropWord w (s ++ rest) = some t) :
    ∃ a b, s = a ++ b ∧ t = b ++ rest := by
  induction w generalizing s with
  | nil =>
    cases h
    exact ⟨[], s, rfl, rfl⟩
  | cons l w ih =>
    rw [List.forall_mem_cons] at hw
    obtain ⟨hl, hw⟩ := hw
    cases s with
    | nil =>
      cases rest with
      | nil => cases h
      | cons c rest =>
        have hc : isLetter l c = false := isLetter_of_isBlank hl.1 hl.2.1 hl.2.2 hr
        rw [List.nil_append, dropWord, if_neg (by simp [hc])] at h
        cases h
    | cons c s =>
      rw [List.cons_append, dropWord] at h
      split at h
      · obtain ⟨a, b, rfl, rfl⟩ := ih hw h
        exact ⟨c :: a, b, rfl, rfl⟩
      · cases h

theorem head_of_takeName {r : List Char} (h : takeName false s = some (name, r)) :
    (∃ x xs, name = x :: xs ∧ isLetter 'n' x = false) ∨ ∀ y ∈ name, isWord y = true := by
  rcases takeName_cases h with hbare | ⟨q, x, xs, hq, rfl, -⟩
  · exact .inr hbare.isWord
  · refine .inl ⟨q, x :: xs ++ [q], rfl, ?_⟩
    rcases hq with rfl | rfl <;> decide

/-- A definition is no note, since no colon can stand behind its name. -/
theorem isNote_of_readShape {shape : Shape} (h : readShape s = some shape) (t : List Char) :
    isNote (s ++ t) = false := by
  obtain ⟨r, x, xs, -, -, hn, hb, hstart, hx, -⟩ := readShape_eq_some h
  obtain rfl := takeName_eq hn
  have hhead : (r ++ t).head?.any isBlank = true := by
    cases r with
    | nil => cases hb
    | cons y r => exact hb
  rw [isNote, List.append_assoc]
  cases hd : dropWord ['n', 'o', 't', 'e'] (shape.name ++ (r ++ t)) with
  | none => rfl
  | some u =>
    obtain ⟨a, b, hab, rfl⟩ := exists_of_dropWord (by decide) hhead hd
    apply decide_eq_false
    cases b with
    | nil =>
      have hx' : x ≠ ':' := by rintro rfl; cases hx
      rw [trimStart] at hstart
      rw [List.nil_append, trimStart, List.dropWhile_append, hstart]
      simpa using hx'
    | cons y b =>
      rcases head_of_takeName hn with ⟨z, zs, hz, hletter⟩ | hword
      · rw [hz, List.cons_append, dropWord, if_neg (by simp [hletter])] at hd
        cases hd
      · have hy : isWord y = true := hword y (by rw [hab]; simp)
        have hy' : y ≠ ':' := by rintro rfl; cases hy
        have hblank : ¬ isBlank y = true := by simp [isBlank_of_isWord hy]
        rw [List.cons_append, trimStart, List.dropWhile_cons_of_neg hblank]
        simpa using hy'

/-! ## Passed by -/

structure IsPassed (s : List Char) : Prop where
  head : s.head? ≠ some '/'
  closeBlock_append : ∀ depth rest, rest.head? ≠ some '/' →
    closeBlock .plain depth (s ++ rest) =
      (closeBlock .plain depth rest).map fun p => (s ++ p.1, p.2)

theorem head_append_ne (hs : s.head? ≠ some c) (ht : t.head? ≠ some c) :
    (s ++ t).head? ≠ some c := by
  cases s with
  | nil => exact ht
  | cons x s => exact hs

theorem IsPassed.append (hs : IsPassed s) (ht : IsPassed t) : IsPassed (s ++ t) where
  head := head_append_ne hs.head ht.head
  closeBlock_append depth rest hr := by
    rw [List.append_assoc, hs.closeBlock_append depth _ (head_append_ne ht.head hr),
      ht.closeBlock_append depth rest hr, Option.map_map]
    congr 1
    funext p
    simp

theorem isPassed_plain (h : ∀ x ∈ s, x ∈ signs → x = ',') : IsPassed s := by
  refine ⟨fun hs => absurd (h '/' (List.mem_of_mem_head? hs) (by decide)) (by decide),
    fun depth rest hr => ?_⟩
  induction s with
  | nil => simp
  | cons c s ih =>
    obtain ⟨hc, hs⟩ := List.forall_mem_cons.mp h
    have hplain : isQuote c = false ∧ c ≠ '/' ∧ c ≠ '{' ∧ c ≠ '}' := by
      by_cases hmem : c ∈ signs
      · obtain rfl := hc hmem
        decide
      · simp only [signs, List.mem_cons, List.not_mem_nil, or_false, not_or] at hmem
        simp [isQuote, hmem]
    obtain ⟨hquote, hslash, hopen, hclose⟩ := hplain
    simp only [List.cons_append, closeBlock, hquote, hslash, hopen, hclose, Bool.false_eq_true,
      false_and, if_false, ih hs, Option.map_map]
    rfl

theorem closeBlock_append_of_isBare (quote : Option Char) (hb : isBare quote s = true)
    (hs : isSingle quote k s = true) (hr : rest.head? ≠ some '/') :
    closeBlock (.ofQuote quote) depth (s ++ rest) =
      (closeBlock .plain depth rest).map fun p => (s ++ p.1, p.2) := by
  induction s generalizing quote k with
  | nil =>
    simp only [isSingle, Bool.and_eq_true, Option.isNone_iff_eq_none] at hs
    obtain ⟨rfl, -⟩ := hs
    simp [Mode.ofQuote]
  | cons c s ih =>
    have keep {m : Mode} (h : closeBlock m depth (s ++ rest) =
        (closeBlock .plain depth rest).map fun p => (s ++ p.1, p.2)) :
        (closeBlock m depth (s ++ rest)).map (fun p => (c :: p.1, p.2)) =
          (closeBlock .plain depth rest).map fun p => (c :: s ++ p.1, p.2) := by
      rw [h, Option.map_map]
      rfl
    cases quote with
    | some q =>
      have hmode : (if c = q then Mode.plain else .quoted q) =
          .ofQuote (if c = q then none else some q) := by
        split <;> rfl
      simp only [isBare, isSingle] at hb hs
      simp only [List.cons_append, closeBlock, Mode.ofQuote]
      rw [hmode]
      exact keep (ih _ hb hs)
    | none =>
      have hnext : (s ++ rest).head? = some '/' ↔ s.head? = some '/' := by
        cases s with
        | nil => simpa using hr
        | cons d s => rfl
      simp only [isBare, isSingle] at hb hs
      simp only [List.cons_append, closeBlock, Mode.ofQuote, hnext]
      by_cases hq : isQuote c = true
      · rw [if_pos hq] at hb hs ⊢
        exact keep (ih (some c) hb hs)
      rw [if_neg hq] at hb hs ⊢
      simp only [Bool.and_eq_true, bne_iff_ne, ne_eq, Bool.not_eq_true', Bool.and_eq_false_iff,
        beq_eq_false_iff_ne] at hb
      obtain ⟨⟨⟨hopen, hclose⟩, hslash⟩, hb⟩ := hb
      rw [if_neg (by tauto), if_neg hopen, if_neg hclose]
      have hs' : ∃ k, isSingle none k s = true := by
        split at hs
        · exact ⟨_, hs⟩
        · split at hs
          · exact ⟨_, (Bool.and_eq_true_iff.mp hs).2⟩
          · exact ⟨_, (Bool.and_eq_true_iff.mp hs).2⟩
      obtain ⟨k', hs'⟩ := hs'
      exact keep (ih none hb hs')

theorem IsTidy.isPassed (h : IsTidy s) (hs : s.head? ≠ some '/') : IsPassed s :=
  ⟨hs, fun _ _ hr => closeBlock_append_of_isBare none h.bare h.single hr⟩

theorem isPassed_intercalate (hs : IsPassed s) (ht : ∀ t ∈ ts, IsPassed t) :
    IsPassed (s.intercalate ts) := by
  induction ts with
  | nil => exact isPassed_plain (by simp)
  | cons t ts ih =>
    rw [List.forall_mem_cons] at ht
    cases ts with
    | nil =>
      rw [List.intercalate_singleton]
      exact ht.1
    | cons u us =>
      rw [List.intercalate_cons_cons]
      exact (ht.1.append hs).append (ih ht.2)

theorem IsDefinition.isPassed (h : IsDefinition s) : IsPassed s := by
  apply h.isEntry.toIsTidy.isPassed
  intro hs
  obtain ⟨shape, hshape⟩ := h.exists_shape
  obtain ⟨t, rfl⟩ := List.head?_eq_some_iff.mp hs
  obtain ⟨r, x, xs, array, rest, hn, -⟩ := readShape_eq_some hshape
  cases hn

/-! ## Rows -/

/-- A line of a block: definitions with commas between them, and blanks at either end. -/
structure Row where
  lead : List Char
  entries : List (List Char)
  trail : List Char
  deriving DecidableEq, Repr

def Row.chars (r : Row) : List Char :=
  r.lead ++ ([',', ' '].intercalate r.entries ++ r.trail)

def layOut (rows : List Row) : List Char :=
  ['\n'].intercalate (rows.map Row.chars)

/-- The rows hold these definitions, one after another. -/
structure IsLayout (ds : List (List Char)) (rows : List Row) : Prop where
  entries : rows.flatMap Row.entries = ds
  lead : ∀ r ∈ rows, ∀ x ∈ r.lead, isBlank x = true ∧ isLineBreak x = false
  trail : ∀ r ∈ rows, ∀ x ∈ r.trail, isBlank x = true ∧ isLineBreak x = false

variable {r : Row} {rows rows' : List Row}

theorem isTrimmed_intercalate (h : ∀ t ∈ ts, IsEntry t) :
    IsTrimmed ([',', ' '].intercalate ts) ∧ (ts ≠ [] → [',', ' '].intercalate ts ≠ []) := by
  induction ts with
  | nil => exact ⟨⟨by simp, by simp⟩, fun hne => absurd rfl hne⟩
  | cons t ts ih =>
    rw [List.forall_mem_cons] at h
    cases ts with
    | nil =>
      rw [List.intercalate_singleton]
      exact ⟨h.1.toIsTrimmed, fun _ => h.1.ne_nil⟩
    | cons u us =>
      obtain ⟨htrimmed, hne⟩ := ih h.2
      have hne := hne (List.cons_ne_nil u us)
      rw [List.intercalate_cons_cons, List.append_assoc]
      refine ⟨⟨?_, ?_⟩, fun _ => List.append_ne_nil_of_left_ne_nil h.1.ne_nil _⟩
      · rw [List.head?_append_of_ne_nil t h.1.ne_nil]
        exact h.1.head
      · rw [← List.append_assoc, List.getLast?_append_of_ne_nil _ hne]
        exact htrimmed.last

structure Row.IsLaid (r : Row) : Prop where
  definitions : ∀ s ∈ r.entries, IsDefinition s
  lead : ∀ x ∈ r.lead, isBlank x = true ∧ isLineBreak x = false
  trail : ∀ x ∈ r.trail, isBlank x = true ∧ isLineBreak x = false

theorem IsLayout.isLaid (h : IsLayout ds rows) (hds : ∀ s ∈ ds, IsDefinition s) :
    ∀ r ∈ rows, r.IsLaid := by
  intro r hr
  refine ⟨fun s hs => ?_, h.lead r hr, h.trail r hr⟩
  exact hds s (h.entries ▸ List.mem_flatMap_of_mem hr hs)

namespace Row.IsLaid

theorem isEntry (h : r.IsLaid) : ∀ s ∈ r.entries, IsEntry s :=
  fun s hs => (h.definitions s hs).isEntry

theorem plain_trail (h : r.IsLaid) : ∀ x ∈ r.trail, x ∈ signs → x = ',' :=
  fun x hx hm => absurd hm (not_mem_signs_of_isBlank (h.trail x hx).1)

theorem plain_lead (h : r.IsLaid) : ∀ x ∈ r.lead, x ∈ signs → x = ',' :=
  fun x hx hm => absurd hm (not_mem_signs_of_isBlank (h.lead x hx).1)

theorem isPassed (h : r.IsLaid) : IsPassed r.chars := by
  have hsep : IsPassed [',', ' '] := isPassed_plain (by decide)
  have hentries := isPassed_intercalate hsep fun s hs => (h.definitions s hs).isPassed
  exact (isPassed_plain h.plain_lead).append (hentries.append (isPassed_plain h.plain_trail))

theorem isBare (h : r.IsLaid) : Schema.isBare none r.chars = true := by
  have htrail : Schema.isBare none (r.trail ++ []) = true := isBare_plain h.plain_trail []
  rw [List.append_nil] at htrail
  have hhead : r.trail.head? ≠ some '/' := (isPassed_plain h.plain_trail).head
  rw [Row.chars, isBare_plain h.plain_lead,
    isBare_intercalate (fun s hs => (h.isEntry s hs).toIsTidy) hhead, htrail]

theorem single_line (h : r.IsLaid) : ∀ x ∈ r.chars, isLineBreak x = false := by
  intro x hx
  rcases List.mem_append.mp hx with hx | hx
  · exact (h.lead x hx).2
  · rcases List.mem_append.mp hx with hx | hx
    · exact isLineBreak_of_mem_intercalate (fun s hs => (h.definitions s hs).single_line) x hx
    · exact (h.trail x hx).2

theorem lineText_chars (h : r.IsLaid) : lineText r.chars = [',', ' '].intercalate r.entries := by
  have hlead : r.lead.dropWhile isBlank = [] :=
    List.dropWhile_eq_nil_iff.mpr fun x hx => (h.lead x hx).1
  have htrail : r.trail.rdropWhile isBlank = [] := by
    rw [List.rdropWhile_eq_nil_iff]
    exact fun x hx => (h.trail x hx).1
  rw [lineText, stripComment_of_isBare h.isBare, Row.chars]
  by_cases hne : r.entries = []
  · rw [hne, trim_of_blank]
    · rfl
    · intro x hx
      simp only [List.intercalate_nil, List.nil_append, List.mem_append] at hx
      exact hx.elim (fun hx => (h.lead x hx).1) fun hx => (h.trail x hx).1
  · obtain ⟨htrimmed, hnil⟩ := isTrimmed_intercalate h.isEntry
    rw [trim_append (hnil hne) htrimmed.head htrimmed.last, hlead, htrail, List.append_nil,
      List.nil_append]

/-- A row offers its definitions. -/
theorem definitionTexts_cons (h : r.IsLaid) (ls : List (List Char)) :
    definitionTexts 0 (r.chars :: ls) = r.entries ++ definitionTexts 0 ls := by
  have hbraces : lineBraces r.chars = ⟨0, 0⟩ := by
    rw [lineBraces_eq, stripComment_of_isBare h.isBare, countBraces_of_isBare h.isBare]
  rw [Schema.definitionTexts_cons, hbraces, h.lineText_chars, splitAttributes_entries h.isEntry]
  cases hentries : r.entries with
  | nil => rfl
  | cons s ss =>
    have hs : s ∈ r.entries := by rw [hentries]; exact List.mem_cons_self
    obtain ⟨t, ht⟩ := exists_intercalate_eq [',', ' '] s ss
    obtain ⟨shape, hshape⟩ := (h.definitions s hs).exists_shape
    have hne : s ++ t ≠ [] := List.append_ne_nil_of_left_ne_nil (h.isEntry s hs).ne_nil t
    rw [ht, if_pos ⟨rfl, rfl, hne, isNote_of_readShape hshape t⟩]
    rfl

end Row.IsLaid

theorem lineTexts_lines_intercalate (h : ∀ l ∈ ls, ∀ x ∈ l, isLineBreak x = false) :
    lineTexts (lines (['\n'].intercalate ls)) = lineTexts ls := by
  induction ls with
  | nil => rfl
  | cons l ls ih =>
    rw [List.forall_mem_cons] at h
    cases ls with
    | nil =>
      rw [List.intercalate_singleton]
      exact lineTexts_lines_line h.1
    | cons l' ls =>
      rw [List.intercalate_cons_cons, List.append_assoc, List.singleton_append,
        lineTexts_lines_append h.1 rfl, ih h.2]
      exact (lineTexts_append [l] _).symm

theorem definitionTexts_layOut (h : ∀ r ∈ rows, r.IsLaid) :
    definitionTexts 0 (lines (layOut rows)) = rows.flatMap Row.entries := by
  have hlines : ∀ l ∈ rows.map Row.chars, ∀ x ∈ l, isLineBreak x = false := by
    intro l hl
    obtain ⟨r, hr, rfl⟩ := List.mem_map.mp hl
    exact (h r hr).single_line
  rw [definitionTexts_eq_offered, layOut, lineTexts_lines_intercalate hlines,
    ← definitionTexts_eq_offered]
  clear hlines
  induction rows with
  | nil => rfl
  | cons r rows ih =>
    rw [List.forall_mem_cons] at h
    rw [List.map_cons, h.1.definitionTexts_cons, ih h.2, List.flatMap_cons]

theorem closeBlock_layOut (h : ∀ r ∈ rows, r.IsLaid) (rest : List Char) :
    closeBlock .plain 0 (layOut rows ++ '}' :: rest) = some (layOut rows, rest) := by
  have hsep : IsPassed ['\n'] := isPassed_plain (by decide)
  have hpassed : IsPassed (layOut rows) := by
    apply isPassed_intercalate hsep
    intro l hl
    obtain ⟨r, hr, rfl⟩ := List.mem_map.mp hl
    exact (h r hr).isPassed
  rw [hpassed.closeBlock_append 0 _ (by simp)]
  simp [closeBlock, isQuote]

/-! ## Documents -/

/-- A brace behind the text opens a block of that name. -/
inductive OpensBlock (name : List Char) : List Char → Prop
  | heading {front before written : List Char} (h : IsHeading front before written)
      (hn : lastName written = name) : OpensBlock name front
  | behind {first before written body front : List Char} (h : IsHeading first before written)
      (hc : closeBlock .plain 0 (body ++ ['}']) = some (body, [])) (hf : OpensBlock name front) :
      OpensBlock name (first ++ '{' :: (body ++ '}' :: front))

theorem OpensBlock.read (h : OpensBlock name front) :
    ∃ bs before, ∀ t body rest, closeBlock .plain 0 t = some (body, rest) →
      Outline.read (front ++ '{' :: t) =
        ⟨bs ++ (before, ⟨name, body⟩) :: (Outline.read rest).blocks, (Outline.read rest).tail⟩ := by
  induction h with
  | @heading front before written h hn =>
    refine ⟨[], before, fun t body rest hc => ?_⟩
    rw [Outline.read_eq_of_closeBlock (h t) hc, hn]
    rfl
  | @behind first before written body front h hc hf ih =>
    obtain ⟨bs, before', hread⟩ := ih
    refine ⟨(before, ⟨lastName written, body⟩) :: bs, before', fun t body' rest ht => ?_⟩
    have hc := closeBlock_local hc (front ++ '{' :: t)
    have happend : first ++ '{' :: (body ++ '}' :: front) ++ '{' :: t =
        first ++ '{' :: (body ++ '}' :: (front ++ '{' :: t)) := by
      simp
    rw [happend, Outline.read_eq_of_closeBlock (h _) hc, hread t body' rest ht]
    rfl

def inBlock (front : List Char) (rows : List Row) (rest : List Char) : String :=
  String.ofList (front ++ '{' :: (layOut rows ++ '}' :: rest))

/-- However its definitions are distributed over rows, a block of any document makes the same model
and the same plan, and offers just these definitions. -/
theorem ofDocument_inBlock (hopen : OpensBlock name front) (hds : ∀ s ∈ ds, IsDefinition s)
    (h : IsLayout ds rows) (h' : IsLayout ds rows') (rest : List Char) (schema : String) :
    Model.ofDocument (inBlock front rows rest) = Model.ofDocument (inBlock front rows' rest) ∧
      Ddl.compile schema (inBlock front rows rest) =
        Ddl.compile schema (inBlock front rows' rest) ∧
      ⟨name, layOut rows⟩ ∈ (Outline.read (inBlock front rows rest).toList).blocks.map (·.2) ∧
      definitionTexts 0 (lines (layOut rows)) = ds := by
  obtain ⟨bs, before, hread⟩ := hopen.read
  have outline {rows : List Row} (h : IsLayout ds rows) :
      Outline.read (inBlock front rows rest).toList =
        ⟨bs ++ (before, ⟨name, layOut rows⟩) :: (Outline.read rest).blocks,
          (Outline.read rest).tail⟩ := by
    rw [inBlock, String.toList_ofList]
    exact hread _ _ _ (closeBlock_layOut (h.isLaid hds) rest)
  have texts {rows : List Row} (h : IsLayout ds rows) :
      definitionTexts 0 (lines (layOut rows)) = ds := by
    rw [definitionTexts_layOut (h.isLaid hds), h.entries]
  have hmodel : Model.ofDocument (inBlock front rows rest) =
      Model.ofDocument (inBlock front rows' rest) := by
    rw [Model.ofDocument, Model.ofDocument, outline h, outline h']
    apply Outline.model_eq_of_content
    · simp [Outline.outside]
    · simp [Block.content, Block.definitions, texts h, texts h']
  refine ⟨hmodel, ?_, ?_, texts h⟩
  · rw [Ddl.compile, Ddl.compile, hmodel]
  · rw [outline h]
    simp

def sharedDefinitions : List (List Char) :=
  ["id int [pk]".toList, "b numeric(9,2) [note: '\x7d //,']".toList, "\"c,d\" text".toList]

def spreadRows : List Row :=
  [⟨[], [], []⟩, ⟨[' ', '\t'], sharedDefinitions.take 2, [' ']⟩, ⟨[], sharedDefinitions.drop 2, []⟩,
    ⟨[], [], []⟩]

def singleRow : List Row :=
  [⟨[' '], sharedDefinitions, [' ']⟩]

theorem ofDocument_inBlock_singleRow :
    OpensBlock ['a'] ['T', 'a', 'b', 'l', 'e', ' ', 'a', ' '] ∧
      (∀ s ∈ sharedDefinitions, IsDefinition s) ∧ IsLayout sharedDefinitions spreadRows ∧
      IsLayout sharedDefinitions singleRow ∧
      Model.ofDocument (inBlock ['T', 'a', 'b', 'l', 'e', ' ', 'a', ' '] spreadRows []) =
        Model.ofDocument (inBlock ['T', 'a', 'b', 'l', 'e', ' ', 'a', ' '] singleRow []) := by
  have hopen : OpensBlock ['a'] ['T', 'a', 'b', 'l', 'e', ' ', 'a', ' '] :=
    .heading (isHeading_of_takeHeader rfl) (by decide +kernel)
  have hds : ∀ s ∈ sharedDefinitions, IsDefinition s := by decide +kernel
  have h : IsLayout sharedDefinitions spreadRows := ⟨rfl, by decide, by decide⟩
  have h' : IsLayout sharedDefinitions singleRow := ⟨rfl, by decide, by decide⟩
  exact ⟨hopen, hds, h, h', (ofDocument_inBlock hopen hds h h' [] "").1⟩

end SchemaHost.Schema
