import SchemaHost.Proofs.Schema.References
import SchemaHost.Proofs.Schema.Segments
import SchemaHost.Proofs.Schema.Tidy

/-! # References in either place

A reference stands between the tables with both of its ends, or with the other end only among the
attributes of a column. Written with bare names it is read as the same relationship in either place.
-/

namespace SchemaHost.Schema

open Text

variable {a b s rest : List Char} {here : Endpoint}

theorem takeEndpoint_bare (ha : IsBareName a) (hb : IsBareName b)
    (hr : ∀ c ∈ rest.head?, isWord c = false ∧ c ≠ '.') :
    takeEndpoint (a ++ '.' :: (b ++ rest)) = some ((a, b), rest) := by
  have hta := takeName_bare true ha ('.' :: (b ++ rest))
    (by simp [show isWord '.' = false by decide])
  have htb := takeName_bare true hb rest fun c hc => (hr c hc).1
  rw [takeEndpoint, hta]
  simp only [htb]
  split
  · next hn =>
    cases hn
    exact absurd rfl (hr '.' rfl).2
  · next hn =>
    cases hn
    rfl
  · next hn => cases hn

theorem takeEndpoint_dotted (hs : IsBareName s) (ha : IsBareName a) (hb : IsBareName b)
    (hr : ∀ c ∈ rest.head?, isWord c = false) :
    takeEndpoint (s ++ '.' :: (a ++ '.' :: (b ++ rest))) = some ((s ++ '.' :: a, b), rest) := by
  have hdot (t : List Char) : ∀ c ∈ ('.' :: t).head?, isWord c = false := by
    rintro c hc
    cases hc
    decide
  rw [takeEndpoint, takeName_bare true hs _ (hdot _)]
  simp only [takeName_bare true ha _ (hdot _), takeName_bare true hb rest hr]

theorem trimStart_bare (h : IsBareName s) (rest : List Char) :
    trimStart (s ++ rest) = s ++ rest := by
  obtain ⟨x, xs, rfl, hx, -⟩ := h
  exact List.dropWhile_cons_of_neg (by simp [isBlank_of_isWord (isWord_of_startsName hx)])

/-- A reference but for the end where it stands. -/
structure Link where
  op : Operator
  schema : Option (List Char)
  table : List Char
  column : List Char
  deriving DecidableEq, Repr

def Operator.sign : Operator → List Char
  | manyToOne => ['>']
  | oneToMany => ['<']
  | oneToOne => ['-']
  | manyToMany => ['<', '>']

namespace Link

def target (k : Link) : List Char :=
  match k.schema with
  | some s => s ++ '.' :: (k.table ++ '.' :: k.column)
  | none => k.table ++ '.' :: k.column

def attributeText (k : Link) : List Char :=
  'r' :: 'e' :: 'f' :: ':' :: ' ' :: (k.op.sign ++ ' ' :: k.target)

def statementText (here : Endpoint) (k : Link) : List Char :=
  'R' :: 'e' :: 'f' :: ':' :: ' ' :: (here.table ++ '.' :: (here.column ++
    ' ' :: (k.op.sign ++ ' ' :: (k.target ++ ['\n']))))

def relationship (here : Endpoint) (k : Link) : Relationship :=
  k.op.relate here ⟨k.table, k.column⟩

structure IsPlain (k : Link) : Prop where
  schema : ∀ s, k.schema = some s → IsBareName s
  table : IsBareName k.table
  column : IsBareName k.column

instance (k : Link) : Decidable k.IsPlain :=
  decidable_of_iff
    ((∀ s ∈ k.schema, IsBareName s) ∧ IsBareName k.table ∧ IsBareName k.column)
    ⟨fun ⟨h₁, h₂, h₃⟩ => ⟨h₁, h₂, h₃⟩, fun h => ⟨h.schema, h.table, h.column⟩⟩

variable {k : Link}

theorem takeOperator_sign (op : Operator) (rest : List Char) :
    takeOperator (op.sign ++ ' ' :: rest) = some (op, ' ' :: rest) := by
  cases op <;> rfl

theorem trimStart_sign (op : Operator) (rest : List Char) :
    trimStart (' ' :: (op.sign ++ rest)) = op.sign ++ rest := by
  cases op <;> rfl

theorem takeEndpoint_target (h : k.IsPlain) (hr : ∀ c ∈ rest.head?, isWord c = false ∧ c ≠ '.') :
    ∃ w, takeEndpoint (trimStart (' ' :: (k.target ++ rest))) = some (w, rest) ∧
      Endpoint.ofWritten w = ⟨k.table, k.column⟩ := by
  change ∃ w, takeEndpoint (trimStart (k.target ++ rest)) = some (w, rest) ∧ _
  cases hs : k.schema with
  | none =>
    refine ⟨(k.table, k.column), ?_, ?_⟩
    · simp only [target, hs, List.append_assoc, List.cons_append]
      rw [trimStart_bare h.table, takeEndpoint_bare h.table h.column hr]
    · rw [Endpoint.ofWritten, lastName_bare h.table, unquote_bare h.column]
  | some s =>
    have hs' := h.schema s hs
    refine ⟨(s ++ '.' :: k.table, k.column), ?_, ?_⟩
    · simp only [target, hs, List.append_assoc, List.cons_append]
      rw [trimStart_bare hs',
        takeEndpoint_dotted hs' h.table h.column fun c hc => (hr c hc).1]
    · rw [Endpoint.ofWritten, lastName_dotted hs' h.table, unquote_bare h.column]

theorem takeReference_statement (ht : IsBareName here.table) (hc : IsBareName here.column)
    (h : k.IsPlain) (rest : List Char) :
    takeReference (k.statementText here ++ rest) = some (k.relationship here, '\n' :: rest) := by
  let right := ' ' :: (k.target ++ '\n' :: rest)
  let left := here.table ++ '.' :: (here.column ++ ' ' :: (k.op.sign ++ right))
  have hchars : k.statementText here ++ rest = 'R' :: 'e' :: 'f' :: ':' :: ' ' :: left := by
    simp [statementText, left, right]
  have hword : dropWord ['r', 'e', 'f'] ('R' :: 'e' :: 'f' :: ':' :: ' ' :: left) =
      some (':' :: ' ' :: left) := rfl
  have hopening : (if (':' :: ' ' :: left).head?.any isWord then none
      else afterOpening (':' :: ' ' :: left)) = some (' ' :: left) := rfl
  have hleft : takeEndpoint (trimStart (' ' :: left)) =
      some ((here.table, here.column), ' ' :: (k.op.sign ++ right)) := by
    change takeEndpoint (trimStart left) = _
    rw [trimStart_bare ht]
    apply takeEndpoint_bare ht hc
    intro c hc
    cases hc
    decide
  have hoperator : takeOperator (trimStart (' ' :: (k.op.sign ++ right))) = some (k.op, right) := by
    rw [trimStart_sign]
    exact takeOperator_sign _ _
  obtain ⟨w, hright, hw⟩ : ∃ w, takeEndpoint (trimStart right) = some (w, '\n' :: rest) ∧
      Endpoint.ofWritten w = ⟨k.table, k.column⟩ := by
    apply takeEndpoint_target h
    intro c hc
    cases hc
    decide
  have hhere : Endpoint.ofWritten (here.table, here.column) = here := by
    rw [Endpoint.ofWritten, lastName_bare ht, unquote_bare hc]
  rw [hchars, takeReference, hword, Option.bind_some, hopening, Option.bind_some, hleft,
    Option.bind_some]
  simp only [hoperator, Option.bind_some, hright, Option.map_some, hhere, hw]
  rfl

theorem not_mem_statementText (ht : IsBareName here.table) (hc : IsBareName here.column)
    (h : k.IsPlain) : '{' ∉ k.statementText here := by
  have hbare {s : List Char} (hs : IsBareName s) : '{' ∉ s := by
    intro hm
    cases hs.isWord _ hm
  have htarget : '{' ∉ k.target := by
    unfold target
    cases hs : k.schema with
    | none => simp [hbare h.table, hbare h.column]
    | some s => simp [hbare (h.schema s hs), hbare h.table, hbare h.column]
  have hsign : '{' ∉ k.op.sign := by
    cases k.op <;> decide
  simp [statementText, hbare ht, hbare hc, htarget, hsign]

theorem plain_of_isBareName (h : IsBareName s) : ∀ c ∈ s, c ∉ signs ∧ isBlank c = false :=
  fun c hc => ⟨not_mem_signs_of_isTypeChar (by simp [isTypeChar, h.isWord c hc]),
    isBlank_of_isWord (h.isWord c hc)⟩

theorem plain_target (h : k.IsPlain) : ∀ c ∈ k.target, c ∉ signs ∧ isBlank c = false := by
  have hdot : '.' ∉ signs ∧ isBlank '.' = false := by decide
  have hcolumn := plain_of_isBareName h.column
  have htable := plain_of_isBareName h.table
  cases hs : k.schema with
  | none =>
    simpa only [target, hs, List.forall_mem_append, List.forall_mem_cons] using
      ⟨htable, hdot, hcolumn⟩
  | some s =>
    simpa only [target, hs, List.forall_mem_append, List.forall_mem_cons] using
      ⟨plain_of_isBareName (h.schema s hs), hdot, htable, hdot, hcolumn⟩

theorem plain_sign (op : Operator) : ∀ c ∈ op.sign, c ∉ signs ∧ isBlank c = false := by
  cases op <;> decide

theorem plain_attributeText (h : k.IsPlain) :
    ∀ c ∈ k.attributeText, c ∉ signs ∧ isLineBreak c = false := by
  have hspace : ' ' ∉ signs ∧ isLineBreak ' ' = false := by decide
  have hword : ∀ c ∈ ['r', 'e', 'f', ':', ' '], c ∉ signs ∧ isLineBreak c = false := by decide
  have hline {s : List Char} (hs : ∀ c ∈ s, c ∉ signs ∧ isBlank c = false) :
      ∀ c ∈ s, c ∉ signs ∧ isLineBreak c = false :=
    fun c hc => ⟨(hs c hc).1, Bool.eq_false_iff.mpr fun hb =>
      Bool.eq_false_iff.mp (hs c hc).2 (isBlank_of_isLineBreak hb)⟩
  change ∀ c ∈ ['r', 'e', 'f', ':', ' '] ++ (k.op.sign ++ ' ' :: k.target), _
  simp only [List.forall_mem_append, List.forall_mem_cons]
  exact ⟨by simpa using hword, hline (plain_sign k.op), hspace, hline (plain_target h)⟩

theorem isEntry_attributeText (h : k.IsPlain) : IsEntry k.attributeText where
  toIsTidy := isTidy_of_plain fun c hc => (plain_attributeText h c hc).1
  head c hc := by
    cases hc
    decide
  last c hc := by
    have hne : k.target ≠ [] := by
      unfold target
      cases k.schema <;> simp
    have hlast : k.attributeText =
        'r' :: 'e' :: 'f' :: ':' :: ' ' :: (k.op.sign ++ [' ']) ++ k.target := by
      simp [attributeText]
    rw [hlast, List.getLast?_append_of_ne_nil _ hne] at hc
    exact (plain_target h c (List.mem_of_getLast? hc)).2
  ne_nil hnil := by cases hnil

theorem readReference_attributeText (h : k.IsPlain) :
    readReference k.attributeText = some (k.op, ⟨k.table, k.column⟩) := by
  have hword : dropWord ['r', 'e', 'f'] k.attributeText =
      some (':' :: ' ' :: (k.op.sign ++ ' ' :: k.target)) := rfl
  have hstart : trimStart (':' :: ' ' :: (k.op.sign ++ ' ' :: k.target)) =
      ':' :: ' ' :: (k.op.sign ++ ' ' :: k.target) := rfl
  obtain ⟨w, hend, hw⟩ : ∃ w, takeEndpoint (trimStart (' ' :: (k.target ++ []))) = some (w, []) ∧
      Endpoint.ofWritten w = ⟨k.table, k.column⟩ := takeEndpoint_target h (by simp)
  rw [List.append_nil] at hend
  simp only [readReference, (isEntry_attributeText h).trim, hword, Option.bind_eq_bind,
    Option.bind_some, hstart, trimStart_sign, takeOperator_sign, hend, hw]
  rfl

theorem read_attributeText (h : k.IsPlain) :
    Attribute.read k.attributeText = .reference k.op ⟨k.table, k.column⟩ := by
  obtain ⟨r, hr⟩ : ∃ r, lower k.attributeText = "ref: ".toList ++ r := by
    have href : "ref: ".toList = ['r', 'e', 'f', ':', ' '] := rfl
    rw [href]
    exact ⟨_, rfl⟩
  have hdefault : "default".toList.isPrefixOf ("ref: ".toList ++ r) = false := rfl
  have hprefix : "ref".toList.isPrefixOf ("ref: ".toList ++ r) = true := rfl
  -- none of the words that have a meaning begins the way a reference does
  have hword (w : String) (hw : w.toList.head? ≠ some 'r') :
      String.ofList (squeeze ("ref: ".toList ++ r)) ≠ w := by
    rintro rfl
    rw [String.toList_ofList] at hw
    exact hw rfl
  simp only [Attribute.read, hr, hword "pk" (by decide), hword "primary key" (by decide),
    hword "not null" (by decide), hword "null" (by decide), hword "unique" (by decide),
    hword "increment" (by decide), hword "auto_increment" (by decide), hdefault, hprefix,
    readReference_attributeText h, or_self, Bool.false_eq_true, if_false, if_true]

end Link

end SchemaHost.Schema
