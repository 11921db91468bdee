import SchemaHost.Proofs.Ddl.Platform
import SchemaHost.Update.Reconcile

/-! # Names read back

What a name stands for once it is in a statement, and when it stands for itself: it must not have a
percent sign, which comes out doubled, and unless it is written between quotes it must not end with
a line feed, which gets lost.
-/

namespace SchemaHost.Ddl

open Schema Text Sql

/-- No percent sign, and no line feed at the end of a bare name. -/
def IsFaithful (name : String) : Prop :=
  '%' ∉ name.toList ∧ (needsQuotes name.toList = false → name.toList.getLast? ≠ some '\n')

instance (name : String) : Decidable (IsFaithful name) :=
  inferInstanceAs (Decidable (_ ∧ _))

/-- The text is one token and stands for the name, whatever breaks it off. -/
def Denotes (text name : String) : Prop :=
  ∀ rest, BreaksOff rest →
    ∃ x, tokens (text.toList ++ rest) = x :: tokens rest ∧ x.identifier? = some name

/-- Somewhere in the text the name is written, apart from what stands before and after it. -/
def Writes (text name : String) : Prop :=
  ∃ front rest, text = front ++ quote name ++ rest ∧
    front.toList.getLast?.all (breakers.contains ·) = true ∧ BreaksOff rest.toList

/-- The names in the slots of a pattern that fits the statement from its first token to its last. -/
def readWhole (ps : List Slot) (statement : String) : Option (List String) :=
  if (tokens statement.toList).length = ps.length then capture ps (tokens statement.toList)
  else none

/-- The names that a model gives to a statement: those of the pattern, in their order, and those
that stand further on. -/
inductive Gives (schema : String) (m : Model) :
    String → Action → List String → List String → Prop where
  | createTable {t s} : t ∈ m.tables → createTable schema t = some s →
      Gives schema m s .createTable [schema, t.name] (t.columns.map (·.name))
  | dropTrigger {t s} : t ∈ m.tables → s ∈ updateTrigger schema t →
      Gives schema m s .dropTrigger [clip (triggerTitle t), schema, t.name] []
  | createTrigger {t s} : t ∈ m.tables → s ∈ updateTrigger schema t →
      Gives schema m s .createTrigger [clip (triggerTitle t), schema, t.name] []
  | addForeignKey {r s i} : r ∈ m.relationships → foreignKey schema i r = some s →
      Gives schema m s .addForeignKey
        [schema, r.fromTable, constraintName r i, r.fromColumn, schema, r.toTable] [r.toColumn]

variable {name schema statement : String} {names ws : List String} {s r : List Char} {m : Model}
  {a : Action}

theorem length_doublePercents (s : List Char) :
    (doublePercents s).length = s.length + s.count '%' := by
  induction s with
  | nil => rfl
  | cons c s ih =>
    unfold doublePercents
    split
    · next hc =>
      subst hc
      rw [List.length_cons, List.length_cons, ih, List.length_cons, List.count_cons_self]
      omega
    · next hc =>
      rw [List.length_cons, ih, List.length_cons, List.count_cons_of_ne hc]
      omega

theorem doublePercents_eq_iff : doublePercents s = s ↔ '%' ∉ s := by
  constructor
  · intro h hm
    have hlen := length_doublePercents s
    have hpos := List.count_pos_iff.mpr hm
    rw [h] at hlen
    omega
  · exact doublePercents_of_not_mem

theorem bareText_eq_iff : bareText s = s ↔ s.getLast? ≠ some '\n' := by
  unfold bareText
  constructor
  · intro h hl
    obtain ⟨t, rfl⟩ := List.getLast?_eq_some_iff.mp hl
    rw [if_pos hl, List.dropLast_concat] at h
    exact absurd (congrArg List.length h) (by simp)
  · exact fun hl => if_neg hl

theorem keptName_eq_iff : keptName name = name ↔ IsFaithful name := by
  rw [keptName, ← String.toList_inj, String.toList_ofList, keptChars, IsFaithful]
  cases hq : needsQuotes name.toList with
  | true =>
    rw [if_pos rfl, doublePercents_eq_iff]
    exact ⟨fun h => ⟨h, Bool.noConfusion⟩, And.left⟩
  | false =>
    rw [if_neg Bool.false_ne_true, bareText_eq_iff]
    exact ⟨fun h => ⟨not_mem_of_bare hq, fun _ => h⟩, fun h => h.2 rfl⟩

theorem map_keptName_eq_iff : names.map keptName = names ↔ ∀ n ∈ names, IsFaithful n := by
  simp only [← keptName_eq_iff]
  rw [← List.map_inj_left, List.map_id']

theorem tokens_quote (hr : BreaksOff r) :
    tokens ((quote name).toList ++ r) = nameToken name.toList :: tokens r := by
  rw [quote, String.toList_ofList, tokens_quoteChars hr]

theorem denotes_quote (name : String) : Denotes (quote name) (keptName name) :=
  fun _ hr => ⟨_, tokens_quote hr, identifier_nameToken _⟩

theorem Denotes.eq {text n m : String} (h : Denotes text n) (h' : Denotes text m) : n = m := by
  obtain ⟨x, hx, hn⟩ := h [] breaksOff_nil
  obtain ⟨y, hy, hm⟩ := h' [] breaksOff_nil
  obtain ⟨rfl, -⟩ := List.cons.inj (hx.symm.trans hy)
  exact Option.some.inj (hn.symm.trans hm)

theorem denotes_quote_iff : Denotes (quote name) name ↔ IsFaithful name := by
  rw [← keptName_eq_iff]
  exact ⟨fun h => (denotes_quote name).eq h, fun h => h ▸ h.symm ▸ denotes_quote name⟩

theorem writes_quote (name : String) : Writes (quote name) name :=
  ⟨"", "", by simp, rfl, breaksOff_nil⟩

theorem endsApart_append (s : String) {t : String}
    (h : t.toList.getLast?.any (breakers.contains ·) = true) :
    (s ++ t).toList.getLast?.any (breakers.contains ·) = true := by
  rw [String.toList_append, List.getLast?_append]
  cases hl : t.toList.getLast? with
  | none =>
    rw [hl] at h
    cases h
  | some c => rwa [hl] at h

theorem Writes.behind {text front : String} (h : Writes text name)
    (hf : front.toList.getLast?.any (breakers.contains ·) = true) :
    Writes (front ++ text) name := by
  obtain ⟨f, r, rfl, hf', hr⟩ := h
  refine ⟨front ++ f, r, by simp only [String.append_assoc], ?_, hr⟩
  rw [String.toList_append, List.getLast?_append]
  cases hl : f.toList.getLast? with
  | none =>
    cases hc : front.toList.getLast? with
    | none => rfl
    | some c => rwa [hc] at hf
  | some c => rwa [hl] at hf'

theorem Writes.before {text rest : String} (h : Writes text name) (hr : BreaksOff rest.toList) :
    Writes (text ++ rest) name := by
  obtain ⟨f, r, rfl, hf, hr'⟩ := h
  refine ⟨f, r ++ rest, by simp only [String.append_assoc], hf, ?_⟩
  rw [String.toList_append]
  cases hl : r.toList with
  | nil => exact hr
  | cons c cs => exact (hl ▸ hr').append (List.cons_ne_nil c cs) _

/-- A name in one of the parts is written where they are joined. -/
theorem writes_joined {separator p : String} {ps : List String}
    (hl : separator.toList.getLast?.any (breakers.contains ·) = true)
    (hb : BreaksOff separator.toList) (hp : p ∈ ps) (h : Writes p name) :
    Writes (joined separator ps) name := by
  induction ps with
  | nil => cases hp
  | cons q ps ih =>
    cases ps with
    | nil => exact List.mem_singleton.mp hp ▸ h
    | cons q' ps =>
      change Writes (q ++ separator ++ joined separator (q' :: ps)) name
      rcases List.mem_cons.mp hp with rfl | hp
      · have hne : separator.toList ≠ [] := by
          intro hn
          rw [hn] at hl
          cases hl
        rw [String.append_assoc]
        refine h.before ?_
        rw [String.toList_append]
        exact hb.append hne _
      · exact (ih hp).behind (endsApart_append q hl)

theorem ReadsAs.iff_faithful (h : ReadsAs statement a (names.map keptName)) :
    ReadsAs statement a names ↔ ∀ n ∈ names, IsFaithful n := by
  rw [← map_keptName_eq_iff]
  constructor
  · intro h'
    exact Option.some.inj (h.fits.symm.trans h'.fits)
  · exact fun he => he ▸ h

theorem writes_renderColumn (c : Column) (inlineKey : Bool) :
    Writes (renderColumn c inlineKey) c.name :=
  writes_joined rfl (by decide) List.mem_cons_self (writes_quote c.name)

theorem writes_column {t : Table} {c : Column} (h : createTable schema t = some statement)
    (hc : c ∈ t.columns) : Writes statement c.name := by
  have hclause : ∃ inlineKey, renderColumn c inlineKey ∈ tableClauses t := by
    unfold tableClauses
    dsimp only
    split
    · exact ⟨true, List.mem_map_of_mem hc⟩
    · exact ⟨false, List.mem_append_left _ (List.mem_map_of_mem hc)⟩
  obtain ⟨inlineKey, hclause⟩ := hclause
  unfold createTable at h
  split at h
  · cases h
  · cases h
    refine Writes.before (Writes.behind ?_ (endsApart_append _ rfl)) (by decide)
    exact writes_joined rfl (by decide) hclause (writes_renderColumn c inlineKey)

theorem writes_reference {i : Nat} {rel : Relationship}
    (h : foreignKey schema i rel = some statement) : Writes statement rel.toColumn := by
  unfold foreignKey at h
  split at h
  · cases h
  · cases h
    exact (Writes.behind (writes_quote _) (endsApart_append _ rfl)).before (by decide)

/-- Every statement of a plan reads as the names that it was given, as far as they are kept. -/
theorem exists_gives (hs : statement ∈ (planOf schema m).createStatements ++
    (planOf schema m).constraintStatements) :
    ∃ a names others, Gives schema m statement a names others ∧
      ReadsAs statement a (names.map keptName) ∧ ∀ n ∈ others, Writes statement n := by
  rcases List.mem_append.mp hs with hs | hs
  · obtain ⟨t, ht, hs⟩ := List.mem_filterMap.mp hs
    exact ⟨_, _, _, .createTable ht hs, readsAs_createTable hs,
      List.forall_mem_map.mpr fun c hc => writes_column hs hc⟩
  · rcases List.mem_append.mp hs with hs | hs
    · obtain ⟨t, ht, hs⟩ := List.mem_flatMap.mp hs
      obtain ⟨-, hnil⟩ | ⟨-, drop, create, hpair, hdrop, hcreate⟩ := updateTrigger_cases schema t
      · rw [hnil] at hs
        cases hs
      · rcases List.mem_pair.mp (hpair ▸ hs) with rfl | rfl
        · exact ⟨_, _, _, .dropTrigger ht hs, hdrop, List.forall_mem_nil _⟩
        · exact ⟨_, _, _, .createTrigger ht hs, hcreate, List.forall_mem_nil _⟩
    · obtain ⟨r, hr, i, hs⟩ := exists_of_mem_foreignKeys hs
      exact ⟨_, _, _, .addForeignKey hr hs, readsAs_foreignKey hs,
        List.forall_mem_singleton.mpr (writes_reference hs)⟩

theorem length_of_readsAll {xs : List Lexeme} (h : readsAll ws xs = true) :
    xs.length = ws.length := by
  fun_induction readsAll ws xs with
  | case1 => rfl
  | case2 w ws x xs ih =>
    rw [List.length_cons, List.length_cons, ih (Bool.and_eq_true_iff.mp h).2]
  | case3 => cases h

theorem length_words (ws : List String) : (words ws).length = ws.length :=
  List.length_map _

def differ : List Slot → List Slot → Bool
  | .fixed w :: ps, .fixed v :: qs => w != v || differ ps qs
  | _, _ => false

theorem reads_inj {x : Lexeme} {w v : String} (h : x.reads w = true) (h' : x.reads v = true) :
    w = v := by
  simp only [Lexeme.reads, Bool.and_eq_true, beq_iff_eq] at h h'
  exact String.toList_inj.mp (h.2.symm.trans h'.2)

theorem capture_of_differ {ps qs : List Slot} {xs : List Lexeme} (hd : differ ps qs = true)
    (h : capture ps xs = some names) : capture qs xs = none := by
  fun_induction differ ps qs generalizing xs names with
  | case1 w ps v qs ih =>
    cases xs with
    | nil => rfl
    | cons x xs =>
      obtain ⟨ns, hw, h⟩ := Option.bind_eq_some_iff.mp h
      obtain ⟨ms, hm, -⟩ := Option.map_eq_some_iff.mp h
      refine Option.bind_eq_none_iff.mpr fun ns' hv => ?_
      have hw : x.reads w = true := by
        by_contra hn
        simp [Slot.fill, hn] at hw
      have hv : x.reads v = true := by
        by_contra hn
        simp [Slot.fill, hn] at hv
      have hwv : (w != v) = false := by simpa using reads_inj hw hv
      rw [hwv, Bool.false_or] at hd
      rw [ih hd hm]
      rfl
  | case2 => cases hd

theorem readWhole_quote (front : String) (hl : isLoose front.toList = true)
    (hb : front.toList.getLast?.any (breakers.contains ·) = true)
    (h : readsAll ws (tokens front.toList) = true) (name : String) :
    readWhole (words ws ++ [.name]) (front ++ quote name) = some [keptName name] := by
  have hq : tokens (quote name).toList = [nameToken name.toList] := by
    rw [← List.append_nil (quote name).toList, tokens_quote breaksOff_nil]
    rfl
  have ht : tokens (front ++ quote name).toList =
      tokens front.toList ++ [nameToken name.toList] := by
    rw [String.toList_append, (isFront_of_isLoose hl hb).tokens, hq]
  have hlen : (tokens (front ++ quote name).toList).length = (words ws ++ [Slot.name]).length := by
    rw [ht, List.length_append, List.length_append, length_of_readsAll h, length_words]
    rfl
  rw [readWhole, if_pos hlen, ht, capture_words h, capture_name (identifier_nameToken _)]
  rfl

theorem readWhole_iff_faithful {ps : List Slot}
    (h : readWhole ps statement = some [keptName name]) :
    readWhole ps statement = some [name] ↔ IsFaithful name := by
  rw [h, Option.some.injEq, List.cons.injEq, eq_self, and_true, keptName_eq_iff]

end SchemaHost.Ddl
