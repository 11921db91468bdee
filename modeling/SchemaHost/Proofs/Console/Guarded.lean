import SchemaHost.Console.Run
import SchemaHost.Proofs.Sql.Lexeme

/-! # Statements on databases and schemas

A statement whose tokens hold drop, create or alter with database or schema next to it is turned
down before anything is sent, as long as only white space stands between the two words. The check
looks at characters and not at tokens: a comment between the two words hides them from it.
-/

namespace SchemaHost.Console

open Sql Text

variable {c : Char} {b : Bool} {o v : Lexeme} {as bs gap : List Lexeme} {p q r s : List Char}

def isVerb (x : Lexeme) : Bool :=
  ["drop", "create", "alter"].any fun w => x.isKeyword w

def isObject (x : Lexeme) : Bool :=
  ["database", "schema"].any fun w => x.isKeyword w

/-- Among the tokens, a verb stands right before an object. -/
def IsGuarded (s : List Char) : Prop :=
  ∃ as v o bs, tokens s = as ++ v :: o :: bs ∧ isVerb v = true ∧ isObject o = true

/-- A verb and an object with nothing but white space between them. -/
def IsPlainlyGuarded (s : List Char) : Prop :=
  ∃ as v gap o bs, lexemes s = as ++ v :: (gap ++ o :: bs) ∧ isVerb v = true ∧ isObject o = true ∧
    ∀ x ∈ gap, x.kind = .blank

theorem kind_of_any {ws : List String} (h : (ws.any fun w => v.isKeyword w) = true) :
    v.kind = .word := by
  obtain ⟨w, -, hw⟩ := List.any_eq_true.mp h
  simp only [Lexeme.isKeyword, Bool.and_eq_true, beq_iff_eq] at hw
  exact hw.1

theorem isToken_of_any {ws : List String} (h : (ws.any fun w => v.isKeyword w) = true) :
    v.isToken = true := by
  simp [Lexeme.isToken, kind_of_any h]

theorem IsPlainlyGuarded.isGuarded (h : IsPlainlyGuarded s) : IsGuarded s := by
  obtain ⟨as, v, gap, o, bs, hs, hv, ho, hg⟩ := h
  refine ⟨as.filter (·.isToken), v, o, bs.filter (·.isToken), ?_, hv, ho⟩
  have hgap : gap.filter (·.isToken) = [] := by
    rw [List.filter_eq_nil_iff]
    intro x hx
    simp [Lexeme.isToken, hg x hx]
  rw [tokens, hs, List.filter_append, List.filter_cons_of_pos (isToken_of_any hv),
    List.filter_append, hgap, List.nil_append, List.filter_cons_of_pos (isToken_of_any ho)]

theorem exists_blanks (h : lexemes r = gap ++ o :: bs) (hg : ∀ x ∈ gap, x.kind = .blank)
    (ho : o.kind = .word) :
    ∃ q, r = gap.flatMap (·.text) ++ (o.text ++ q) ∧
      (∀ c ∈ gap.flatMap (·.text), isBlank c = true) ∧
        ∀ c ∈ q.head?, continuesWord c = false := by
  induction gap generalizing r with
  | nil =>
    obtain ⟨q, rfl, -, hcut⟩ := exists_of_lexemes_eq_cons h
    exact ⟨q, rfl, by simp, (hcut.word ho).2.2⟩
  | cons x gap ih =>
    obtain ⟨hx, hg⟩ := List.forall_mem_cons.mp hg
    obtain ⟨r, rfl, hr, hcut⟩ := exists_of_lexemes_eq_cons h
    obtain ⟨q, rfl, hblank, hq⟩ := ih hr.symm hg
    obtain ⟨c, hc, hsep⟩ := hcut.blank hx
    refine ⟨q, by simp, ?_, hq⟩
    rw [List.flatMap_cons, hc]
    exact List.forall_mem_cons.mpr ⟨isBlank_of_isSeparator hsep, hblank⟩

theorem exists_words (h : lexemes s = as ++ v :: (gap ++ o :: bs)) (hv : v.kind = .word)
    (ho : o.kind = .word) (hg : ∀ x ∈ gap, x.kind = .blank) :
    ∃ p q g, s = p ++ (v.text ++ (g ++ (o.text ++ q))) ∧ (∀ c ∈ p.getLast?, isWord c = false) ∧
      g ≠ [] ∧ (∀ c ∈ g, isBlank c = true) ∧ ∀ c ∈ q.head?, continuesWord c = false := by
  induction as generalizing s with
  | nil =>
    obtain ⟨r, rfl, hr, hcut⟩ := exists_of_lexemes_eq_cons h
    obtain ⟨q, rfl, hblank, hq⟩ := exists_blanks hr.symm hg ho
    refine ⟨[], q, _, rfl, by simp, ?_, hblank, hq⟩
    -- without a gap the second word would go on with the first
    intro hgap
    obtain ⟨c, cs, hc, hstart⟩ := exists_of_word (x := o) (by rw [h]; simp) ho
    have := (hcut.word hv).2.2 c (by rw [hgap, hc]; rfl)
    simp [continuesWord, hstart] at this
  | cons x as ih =>
    obtain ⟨r, rfl, hr, hcut⟩ := exists_of_lexemes_eq_cons h
    obtain ⟨p, q, g, rfl, hp, hne, hblank, hq⟩ := ih hr.symm
    refine ⟨x.text ++ p, q, g, by simp, ?_, hne, hblank, hq⟩
    intro c hc
    cases p with
    | nil =>
      obtain ⟨d, ds, hd, hstart⟩ := exists_of_word (x := v) (by rw [h]; simp) hv
      rw [List.append_nil] at hc
      exact hcut.apart d (by rw [hd]; rfl) hstart c hc
    | cons d ds =>
      rw [List.getLast?_append_of_ne_nil _ (List.cons_ne_nil d ds)] at hc
      exact hp c hc

theorem isLetter_of_foldCase {l : Char} (hl : l.toNat < 128) (h : foldCase c = l) :
    isLetter l c = true := by
  unfold foldCase at h
  split at h
  · simp [isLetter, h]
  · subst h
    contradiction

theorem dropWord_append {w : List Char} (hw : ∀ l ∈ w, l.toNat < 128) (h : s.map foldCase = w)
    (r : List Char) : dropWord w (s ++ r) = some r := by
  induction s generalizing w with
  | nil =>
    obtain rfl : w = [] := h.symm
    rfl
  | cons c s ih =>
    obtain rfl : w = foldCase c :: s.map foldCase := h.symm
    obtain ⟨hc, hs⟩ := List.forall_mem_cons.mp hw
    rw [List.cons_append, dropWord, if_pos (isLetter_of_foldCase hc rfl), ih hs rfl]

theorem takeWord_append {w : String} (hw : ∀ l ∈ w.toList, 65 ≤ l.toNat ∧ l.toNat < 128)
    (hv : v.isKeyword w = true) (hr : ∀ c ∈ r.head?, isWord c = false) :
    takeWord w (v.text ++ r) = some r := by
  simp only [Lexeme.isKeyword, Bool.and_eq_true, beq_iff_eq] at hv
  rw [takeWord, dropWord_append (fun l hl => (hw l hl).2) hv.2, Option.filter_some, if_pos]
  cases r with
  | nil => rfl
  | cons c r => simp [hr c rfl]

theorem isWord_of_continuesWord (h : continuesWord c = false) : isWord c = false := by
  simp only [continuesWord, Bool.or_eq_false_iff] at h
  rw [Bool.eq_false_iff]
  intro hw
  rw [startsWord_of_isWord hw h.1.2] at h
  cases h.1.1

theorem isBlank_of_isKeyword {w : String} (hw : ∀ l ∈ w.toList, 65 ≤ l.toNat ∧ l.toNat < 128)
    (h : v.isKeyword w = true) : ∀ c ∈ v.text, isBlank c = false := by
  simp only [Lexeme.isKeyword, Bool.and_eq_true, beq_iff_eq] at h
  intro c hc
  have hl := hw (foldCase c) (h.2 ▸ List.mem_map_of_mem hc)
  rw [Bool.eq_false_iff]
  intro hb
  unfold foldCase at hl
  split at hl
  · next hlt =>
    have hle : c.toNat < 65 := by
      simp only [isBlank, Bool.or_eq_true, Bool.and_eq_true, decide_eq_true_eq, beq_iff_eq] at hb
      omega
    rw [lowerChar_of_lt hle] at hl
    omega
  · omega

theorem isBlank_of_any {ws : List String}
    (hws : ∀ w ∈ ws, ∀ l ∈ w.toList, 65 ≤ l.toNat ∧ l.toNat < 128)
    (h : (ws.any fun w => v.isKeyword w) = true) : ∀ c ∈ v.text, isBlank c = false := by
  obtain ⟨w, hw, hv⟩ := List.any_eq_true.mp h
  exact isBlank_of_isKeyword (hws w hw) hv

theorem letters_of_verb : ∀ w ∈ ["drop", "create", "alter"],
    ∀ l ∈ w.toList, 65 ≤ l.toNat ∧ l.toNat < 128 := by
  decide

theorem letters_of_object : ∀ w ∈ ["database", "schema"],
    ∀ l ∈ w.toList, 65 ≤ l.toNat ∧ l.toNat < 128 := by
  decide

theorem isDangerousHere_append (hv : isVerb v = true) (ho : isObject o = true)
    (hne : o.text ≠ []) (hg : r ≠ []) (hgap : ∀ c ∈ r, isBlank c = true)
    (hq : ∀ c ∈ q.head?, isWord c = false) :
    isDangerousHere (v.text ++ (r ++ (o.text ++ q))) = true := by
  have hoblank := isBlank_of_any letters_of_object ho
  obtain ⟨w, hw, hv⟩ := List.any_eq_true.mp hv
  obtain ⟨u, hu, ho⟩ := List.any_eq_true.mp ho
  obtain ⟨d, r, rfl⟩ := List.exists_cons_of_ne_nil hg
  have hd := hgap d List.mem_cons_self
  have hverb : takeWord w (v.text ++ (d :: r ++ (o.text ++ q))) =
      some (d :: r ++ (o.text ++ q)) := by
    apply takeWord_append (letters_of_verb w hw) hv
    rintro c ⟨⟩
    rw [Bool.eq_false_iff]
    intro hword
    rw [isBlank_of_isWord hword] at hd
    cases hd
  have htrim : trimStart (d :: r ++ (o.text ++ q)) = o.text ++ q := by
    rw [trimStart, dropWhile_append_of_stop hgap]
    intro c hc
    rw [List.head?_append_of_ne_nil _ hne] at hc
    exact hoblank c (List.mem_of_mem_head? hc)
  have hobject : takeWord u (o.text ++ q) = some q :=
    takeWord_append (letters_of_object u hu) ho hq
  rw [isDangerousHere, Bool.or_eq_true]
  right
  rw [List.any_eq_true]
  refine ⟨w, hw, ?_⟩
  rw [hverb]
  simp only [List.cons_append, List.head?_cons, Option.any_some, hd, Bool.true_and]
  rw [List.any_eq_true]
  refine ⟨u, hu, ?_⟩
  rw [← List.cons_append, htrim, hobject]
  rfl

theorem isDangerous_append (hp : ∀ c ∈ p.getLast?, isWord c = false) (hb : p = [] → b = false)
    (h : isDangerous false s = true) : isDangerous b (p ++ s) = true := by
  induction p generalizing b with
  | nil => rwa [hb rfl]
  | cons c p ih =>
    rw [List.cons_append, isDangerous, Bool.or_eq_true]
    right
    apply ih
    · intro d hd
      exact hp d (by rw [List.getLast?_cons, hd]; rfl)
    · rintro rfl
      exact hp c rfl

theorem IsPlainlyGuarded.validate (h : IsPlainlyGuarded s) : validate s = .error .dangerous := by
  obtain ⟨as, v, gap, o, bs, hs, hv, ho, hg⟩ := h
  obtain ⟨d, ds, hd, -⟩ := exists_of_word (x := v) (by rw [hs]; simp) (kind_of_any hv)
  obtain ⟨e, es, he, -⟩ := exists_of_word (x := o) (by rw [hs]; simp) (kind_of_any ho)
  obtain ⟨p, q, g, rfl, hp, hne, hgap, hq⟩ :=
    exists_words hs (kind_of_any hv) (kind_of_any ho) hg
  have htrim : trim (p ++ (v.text ++ (g ++ (o.text ++ q)))) =
      p.dropWhile isBlank ++ (v.text ++ (g ++ (o.text ++ q.rdropWhile isBlank))) := by
    have := trim_append (s := p) (m := v.text ++ (g ++ o.text)) (q := q) (by simp [hd])
      (fun c hc => isBlank_of_any letters_of_verb hv c (by
        rw [hd] at hc ⊢
        cases hc
        exact List.mem_cons_self))
      (fun c hc => isBlank_of_any letters_of_object ho c (by
        rw [← List.append_assoc, List.getLast?_append_of_ne_nil _ (by simp [he])] at hc
        exact List.mem_of_getLast? hc))
    simpa only [List.append_assoc] using this
  have hfront : ∀ c ∈ (p.dropWhile isBlank).getLast?, isWord c = false := by
    intro c hc
    obtain ⟨t, ht⟩ := List.dropWhile_suffix (l := p) isBlank
    apply hp c
    rw [← ht, List.getLast?_append, hc]
    rfl
  have hback : ∀ c ∈ (q.rdropWhile isBlank).head?, isWord c = false := by
    intro c hc
    obtain ⟨t, ht⟩ := List.rdropWhile_prefix isBlank q
    apply isWord_of_continuesWord
    apply hq c
    rw [← ht, List.head?_append, hc]
    rfl
  have hhere :=
    isDangerousHere_append hv ho (by rw [he]; exact List.cons_ne_nil e es) hne hgap hback
  have hdangerous : isDangerous false (p.dropWhile isBlank ++
      (v.text ++ (g ++ (o.text ++ q.rdropWhile isBlank)))) = true := by
    apply isDangerous_append hfront (fun _ => rfl)
    rw [hd, List.cons_append] at hhere ⊢
    rw [isDangerous, hhere]
    rfl
  unfold Console.validate
  simp only [htrim]
  rw [if_neg (by simp [hd]), if_pos hdangerous]

/-- A statement that drops, creates or alters a database or a schema is turned down in every world,
which stays as it is: nothing is sent. Only white space may stand between the two words. -/
theorem run_of_isPlainlyGuarded (query : String) (h : IsPlainlyGuarded query.toList) :
    validateQuery query = .error .dangerous ∧
      ∀ tenant who w, run tenant query who w = (.error (.refused .dangerous), w) := by
  have hv : validateQuery query = .error .dangerous := by
    rw [validateQuery, h.validate]
    rfl
  refine ⟨hv, fun tenant who w => ?_⟩
  rw [run, hv]
  rfl

/-- White space of several kinds, and a comment that is not between the two words. -/
def scattered : String :=
  "/* 'it''s' */ Drop \n\t dataBase\"x\"; -- gone"

theorem run_of_scattered : IsPlainlyGuarded scattered.toList ∧
    validateQuery scattered = .error .dangerous ∧
      ∀ tenant who w, run tenant scattered who w = (.error (.refused .dangerous), w) := by
  have h : IsPlainlyGuarded scattered.toList := by
    refine ⟨(lexemes scattered.toList).take 2, ⟨.word, "Drop".toList⟩,
      [⟨.blank, [' ']⟩, ⟨.blank, ['\n']⟩, ⟨.blank, ['\t']⟩, ⟨.blank, [' ']⟩],
      ⟨.word, "dataBase".toList⟩, (lexemes scattered.toList).drop 8, ?_, ?_, ?_, ?_⟩
    · decide +kernel
    · decide +kernel
    · decide +kernel
    · decide
  exact ⟨h, run_of_isPlainlyGuarded scattered h⟩

/-- A comment between the words hides them. -/
def hidden : String := "DROP/**/DATABASE x"

theorem not_forall_refused : ¬ ∀ query : String, IsGuarded query.toList →
    validateQuery query = .error .dangerous := by
  intro h
  have hguarded : IsGuarded hidden.toList := by
    refine ⟨[], ⟨.word, "DROP".toList⟩, ⟨.word, "DATABASE".toList⟩, [⟨.word, ['x']⟩], ?_, ?_, ?_⟩
    · decide +kernel
    · decide +kernel
    · decide +kernel
  have hv : validateQuery hidden = .ok hidden := by decide +kernel
  rw [h hidden hguarded] at hv
  cases hv

end SchemaHost.Console
