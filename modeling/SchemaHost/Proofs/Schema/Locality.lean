import SchemaHost.Proofs.Schema.Names
import SchemaHost.Schema.Outline
import SchemaHost.Schema.Reference

/-! # What the searches look at

A header is told from its own text alone, whatever stands behind its brace. A reference is told from
its own text and the character behind it, and so is each part of either.
-/

namespace SchemaHost.Schema

open Text

variable {loose : Bool} {w s t a r rest name : List Char}

theorem head_append (a : List Char) (h : s.head? = t.head?) : (a ++ s).head? = (a ++ t).head? := by
  cases a with
  | nil => exact h
  | cons c a => rfl

/-! ## Blanks and words -/

/-- The blanks before a text are taken off as long as no others come to stand behind them. -/
theorem trimStart_local (s : List Char) :
    ∃ a, s = a ++ trimStart s ∧ (∀ x ∈ a, isBlank x = true) ∧
      ∀ t, t.head? = (trimStart s).head? → trimStart (a ++ t) = t := by
  have ha : ∀ x ∈ s.takeWhile isBlank, isBlank x = true := fun x hx => List.mem_takeWhile_imp hx
  refine ⟨s.takeWhile isBlank, List.takeWhile_append_dropWhile.symm, ha, fun t ht => ?_⟩
  apply dropWhile_append_of_stop ha
  rw [ht]
  exact eq_false_of_head_dropWhile isBlank s

theorem takeBlanks_local (h : takeBlanks s = some rest) :
    ∃ a, s = a ++ rest ∧ ∀ t, t.head? = rest.head? → takeBlanks (a ++ t) = some t := by
  unfold takeBlanks at h
  split at h
  · next hs =>
    cases h
    obtain ⟨a, ha, hblank, hlocal⟩ := trimStart_local s
    refine ⟨a, ha, fun t ht => ?_⟩
    have hhead : (a ++ t).head?.any isBlank = true := by
      rwa [head_append a ht, ← ha]
    rw [takeBlanks, if_pos hhead, hlocal t ht]
  · cases h

theorem dropWord_local (h : dropWord w s = some rest) :
    ∃ a, s = a ++ rest ∧ ∀ t, dropWord w (a ++ t) = some t := by
  induction w generalizing s with
  | nil =>
    cases h
    exact ⟨[], rfl, fun t => rfl⟩
  | cons l w ih =>
    cases s with
    | nil => cases h
    | cons c s =>
      simp only [dropWord] at h
      split at h
      · next hc =>
        obtain ⟨a, rfl, ha⟩ := ih h
        exact ⟨c :: a, rfl, fun t => by rw [List.cons_append, dropWord, if_pos hc, ha]⟩
      · cases h

/-! ## Names -/

theorem takeQuoted_local {q : Char} (h : takeQuoted q s = some (name, rest)) :
    ∃ x xs, name = q :: (x :: xs ++ [q]) ∧ q ∉ x :: xs := by
  unfold takeQuoted at h
  split at h
  · next hc =>
    cases h
    exact ⟨_, _, rfl, (cutAt_eq hc).2⟩
  · cases h

theorem takeName_shape (h : takeName loose s = some (name, rest)) :
    (∃ x xs, name = x :: xs ∧ startsName loose x = true ∧ ∀ y ∈ xs, isWord y = true) ∨
      ∃ q x xs, (q = '"' ∨ q = '`') ∧ name = q :: (x :: xs ++ [q]) ∧ q ∉ x :: xs := by
  cases s with
  | nil => cases h
  | cons c s =>
    simp only [takeName] at h
    split at h
    · obtain ⟨x, xs, hname, hx⟩ := takeQuoted_local h
      exact .inr ⟨'"', x, xs, .inl rfl, hname, hx⟩
    split at h
    · obtain ⟨x, xs, hname, hx⟩ := takeQuoted_local h
      exact .inr ⟨'`', x, xs, .inr rfl, hname, hx⟩
    split at h
    · next hstart =>
      cases h
      exact .inl ⟨c, _, rfl, hstart, fun y hy => List.mem_takeWhile_imp hy⟩
    · cases h

theorem takeName_cases (h : takeName false s = some (name, rest)) :
    IsBareName name ∨ ∃ q x xs, (q = '"' ∨ q = '`') ∧ name = q :: (x :: xs ++ [q]) ∧
      q ∉ x :: xs :=
  takeName_shape h

theorem unquote_ne_nil (h : takeName false s = some (name, rest)) : unquote name ≠ [] := by
  rcases takeName_cases h with hbare | ⟨q, x, xs, hq, rfl, -⟩
  · rw [unquote_bare hbare]
    obtain ⟨x, xs, rfl, -⟩ := hbare
    exact List.cons_ne_nil x xs
  · rw [unquote_quoted hq (List.cons_ne_nil x xs)]
    exact List.cons_ne_nil x xs

/-- A name is the same with another text behind it, unless this one goes on with its word. -/
theorem takeName_local (h : takeName loose s = some (name, rest))
    (ht : ∀ c ∈ t.head?, isWord c = true → rest.head? = some c) :
    takeName loose (name ++ t) = some (name, t) := by
  cases s with
  | nil => cases h
  | cons c s =>
    have quoted {q : Char} (hq : q = '"' ∨ q = '`') (h : takeQuoted q s = some (name, rest)) :
        takeName loose (name ++ t) = some (name, t) := by
      obtain ⟨x, xs, rfl, hx⟩ := takeQuoted_local h
      have happend : q :: (x :: xs ++ [q]) ++ t = q :: (x :: xs ++ q :: t) := by simp
      rw [happend]
      exact takeName_enclosed loose hq (List.cons_ne_nil x xs) hx t
    simp only [takeName] at h
    split at h
    · exact quoted (.inl rfl) h
    · next hq =>
      split at h
      · exact quoted (.inr rfl) h
      · next hb =>
        split at h
        · next hstart =>
          cases h
          have hword : ∀ y ∈ s.takeWhile isWord, isWord y = true :=
            fun y hy => List.mem_takeWhile_imp hy
          have hstop : ∀ y ∈ t.head?, isWord y = false := by
            intro y hy
            rw [Bool.eq_false_iff]
            intro hw
            cases hw.symm.trans (eq_false_of_head_dropWhile isWord s y (ht y hy hw))
          rw [List.cons_append, takeName, if_neg hq, if_neg hb, if_pos hstart,
            takeWhile_append_of_stop hword hstop, dropWhile_append_of_stop hword hstop]
        · cases h

theorem takeName_self (h : takeName loose s = some (name, rest)) :
    takeName loose name = some (name, []) := by
  have := takeName_local (t := []) h (by simp)
  rwa [List.append_nil] at this

theorem takeDotted_eq (h : takeDotted loose s = some (name, rest)) : name ++ rest = s := by
  unfold takeDotted at h
  split at h
  · next h₁ =>
    obtain ⟨⟨m, r⟩, h₂, he⟩ := Option.map_eq_some_iff.mp h
    cases he
    rw [← takeName_eq h₁, ← takeName_eq h₂]
    simp
  · next h₁ =>
    cases h
    exact takeName_eq h₁
  · cases h

theorem takeDotted_local (h : takeDotted loose s = some (name, rest)) (ht : t.head? = rest.head?) :
    takeDotted loose (name ++ t) = some (name, t) := by
  unfold takeDotted at h
  split at h
  · next n r h₁ =>
    obtain ⟨⟨m, r'⟩, h₂, he⟩ := Option.map_eq_some_iff.mp h
    cases he
    have hfirst := takeName_local (t := '.' :: (m ++ t)) h₁ (fun c hc hw => by cases hc; cases hw)
    have hsecond := takeName_local (t := t) h₂ (fun c hc _ => ht ▸ hc)
    have happend : n ++ '.' :: m ++ t = n ++ '.' :: (m ++ t) := by simp
    simp only [takeDotted, happend, hfirst, hsecond, Option.map_some]
  · next n r hdot h₁ =>
    cases h
    have hname := takeName_local (t := t) h₁ (fun c hc _ => ht ▸ hc)
    rw [takeDotted, hname]
    split
    · next hs =>
      cases hs
      obtain ⟨r', rfl⟩ := List.head?_eq_some_iff.mp ht.symm
      exact absurd rfl (hdot _)
    · next hs =>
      cases hs
      rfl
    · next hs => cases hs
  · cases h

/-! ## Headers -/

theorem takeAlias_local (h : takeAlias s = some rest) :
    ∃ a, s = a ++ rest ∧ ∀ t, t.head? = rest.head? → takeAlias (a ++ t) = some t := by
  obtain ⟨r₁, h₁, h⟩ := Option.bind_eq_some_iff.mp h
  obtain ⟨r₂, h₂, h⟩ := Option.bind_eq_some_iff.mp h
  obtain ⟨r₃, h₃, h⟩ := Option.bind_eq_some_iff.mp h
  obtain ⟨⟨n, r₄⟩, h₄, rfl⟩ := Option.map_eq_some_iff.mp h
  obtain ⟨a₁, rfl, l₁⟩ := takeBlanks_local h₁
  obtain ⟨a₂, rfl, l₂⟩ := dropWord_local h₂
  obtain ⟨a₃, rfl, l₃⟩ := takeBlanks_local h₃
  obtain rfl := takeName_eq h₄
  refine ⟨a₁ ++ (a₂ ++ (a₃ ++ n)), by simp, fun t ht => ?_⟩
  have hname := takeName_local (t := t) h₄ (fun c hc _ => ht ▸ hc)
  have hhead := head_append n ht
  have happend : a₁ ++ (a₂ ++ (a₃ ++ n)) ++ t = a₁ ++ (a₂ ++ (a₃ ++ (n ++ t))) := by simp
  rw [takeAlias, happend, l₁ _ (head_append a₂ (head_append a₃ hhead)), Option.bind_some, l₂,
    Option.bind_some, l₃ _ hhead, Option.bind_some, hname]
  rfl

theorem takeAlias_eq_none (h : ∀ c ∈ (trimStart s).head?, isLetter 'a' c = false) :
    takeAlias s = none := by
  have hword : dropWord ['a', 's'] (trimStart s) = none := by
    cases hs : trimStart s with
    | nil => rfl
    | cons c r => rw [dropWord, if_neg (by simp [h c (by rw [hs]; rfl)])]
  rw [takeAlias, takeBlanks]
  split
  · rw [Option.bind_some, hword]
    rfl
  · rfl

theorem opening_local (hs : dropSettings (trimStart s) = some r) (hb : takeBrace r = some rest) :
    ∃ a, s = a ++ '{' :: rest ∧ ∀ t, takeAlias (a ++ '{' :: t) = none ∧
      (dropSettings (trimStart (a ++ '{' :: t))).bind takeBrace = some t := by
  obtain ⟨b, hsb, hblank, -⟩ := trimStart_local s
  have hbrace : trimStart r = '{' :: rest := by
    unfold takeBrace at hb
    split at hb
    · next hr =>
      cases hb
      exact hr
    · cases hb
  have hstart {a : List Char} (ha : ∀ x ∈ a, isBlank x = true) {c : Char} (hc : isBlank c = false)
      (t : List Char) : trimStart (a ++ c :: t) = c :: t := by
    apply dropWhile_append_of_stop ha
    intro d hd
    cases hd
    exact hc
  unfold dropSettings at hs
  split at hs
  · next hcs =>
    obtain ⟨⟨x, r'⟩, hcut, rfl⟩ := Option.map_eq_some_iff.mp hs
    obtain ⟨rfl, hx⟩ := cutAt_eq hcut
    obtain ⟨b', hrb, hblank', -⟩ := trimStart_local r'
    rw [hbrace] at hrb
    refine ⟨b ++ '[' :: (x ++ ']' :: b'), ?_, fun t => ?_⟩
    · rw [hsb, hcs, hrb]
      simp
    · have happend : b ++ '[' :: (x ++ ']' :: b') ++ '{' :: t =
          b ++ '[' :: (x ++ ']' :: (b' ++ '{' :: t)) := by
        simp
      rw [happend]
      have htrim := hstart hblank (c := '[') (by decide) (x ++ ']' :: (b' ++ '{' :: t))
      constructor
      · apply takeAlias_eq_none
        rw [htrim]
        rintro c hc
        cases hc
        decide
      · rw [htrim, dropSettings, cutAt_append hx, Option.map_some, Option.bind_some, takeBrace,
          hstart hblank' (by decide)]
        rfl
  · cases hs
    have hr : trimStart s = '{' :: rest := by
      rw [← hbrace]
      exact (trimStart_of_head (eq_false_of_head_dropWhile isBlank s)).symm
    refine ⟨b, by rw [← hr]; exact hsb, fun t => ?_⟩
    have htrim := hstart hblank (c := '{') (by decide) t
    constructor
    · apply takeAlias_eq_none
      rw [htrim]
      rintro c hc
      cases hc
      decide
    · rw [htrim]
      rfl

theorem takeHeader_local (h : takeHeader s = some (name, rest)) :
    ∃ a, s = a ++ '{' :: rest ∧ ∀ t, takeHeader (a ++ '{' :: t) = some (name, t) := by
  obtain ⟨r₁, h₁, h⟩ := Option.bind_eq_some_iff.mp h
  obtain ⟨r₂, h₂, h⟩ := Option.bind_eq_some_iff.mp h
  obtain ⟨⟨n, r₃⟩, h₃, h⟩ := Option.bind_eq_some_iff.mp h
  obtain ⟨r₄, h₄, h⟩ := Option.bind_eq_some_iff.mp h
  obtain ⟨r₅, h₅, h⟩ := Option.map_eq_some_iff.mp h
  cases h
  obtain ⟨a₁, rfl, l₁⟩ := dropWord_local h₁
  obtain ⟨a₂, rfl, l₂⟩ := takeBlanks_local h₂
  obtain rfl := takeDotted_eq h₃
  -- the other name, if there is one, or nothing
  obtain ⟨a₃, u, hu, ha₃, l₃⟩ : ∃ a u, (takeAlias r₃).getD r₃ = u ∧ r₃ = a ++ u ∧
      ∀ t, t.head? = u.head? → takeAlias t = none → (takeAlias (a ++ t)).getD (a ++ t) = t := by
    cases ha : takeAlias r₃ with
    | none => exact ⟨[], r₃, rfl, rfl, fun t _ hn => by rw [List.nil_append, hn]; rfl⟩
    | some u =>
      obtain ⟨a, hr, l⟩ := takeAlias_local ha
      exact ⟨a, u, rfl, hr, fun t ht _ => by rw [l t ht]; rfl⟩
  rw [hu] at h₄
  obtain ⟨a₄, rfl, l₄⟩ := opening_local h₄ h₅
  subst ha₃
  refine ⟨a₁ ++ (a₂ ++ (name ++ (a₃ ++ a₄))), by simp, fun t => ?_⟩
  have happend : a₁ ++ (a₂ ++ (name ++ (a₃ ++ a₄))) ++ '{' :: t =
      a₁ ++ (a₂ ++ (name ++ (a₃ ++ (a₄ ++ '{' :: t)))) := by
    simp
  have hhead : (a₄ ++ '{' :: t).head? = (a₄ ++ '{' :: rest).head? := head_append a₄ rfl
  have hhead₃ := head_append a₃ hhead
  obtain ⟨hnone, hopening⟩ := l₄ t
  rw [happend, takeHeader, l₁, Option.bind_some, l₂ _ (head_append name hhead₃), Option.bind_some,
    takeDotted_local h₃ hhead₃, Option.bind_some]
  simp only [l₃ _ hhead hnone]
  cases hd : dropSettings (trimStart (a₄ ++ '{' :: t)) with
  | none =>
    rw [hd] at hopening
    cases hopening
  | some r =>
    rw [hd, Option.bind_some] at hopening
    rw [Option.bind_some, hopening]
    rfl

/-! ## References -/

theorem afterOpening_local (h : afterOpening s = some rest) :
    ∃ a, s = a ++ rest ∧ ∀ t, afterOpening (a ++ t) = some t := by
  induction s with
  | nil => cases h
  | cons c s ih =>
    simp only [afterOpening] at h
    split at h
    · next hc =>
      cases h
      exact ⟨[c], rfl, fun t => by rw [List.singleton_append, afterOpening, if_pos hc]⟩
    · next hc =>
      split at h
      · cases h
      · next hn =>
        obtain ⟨a, rfl, ha⟩ := ih h
        exact ⟨c :: a, rfl, fun t => by
          rw [List.cons_append, afterOpening, if_neg hc, if_neg hn, ha]⟩

theorem takeOperator_local {op : Operator} (h : takeOperator s = some (op, rest)) :
    ∃ a, s = a ++ rest ∧ ∀ t, t.head? = rest.head? → takeOperator (a ++ t) = some (op, t) := by
  unfold takeOperator at h
  split at h
  · cases h
    exact ⟨['<', '>'], rfl, fun t _ => rfl⟩
  · next r hne =>
    cases h
    refine ⟨['<'], rfl, fun t ht => ?_⟩
    have hne' : ∀ r', t ≠ '>' :: r' := by
      rintro r' rfl
      obtain ⟨r'', rfl⟩ := List.head?_eq_some_iff.mp ht.symm
      exact hne _ rfl
    rw [List.singleton_append, takeOperator]
    intro r' hr
    exact hne' r' hr
  · cases h
    exact ⟨['>'], rfl, fun t _ => rfl⟩
  · cases h
    exact ⟨['-'], rfl, fun t _ => rfl⟩
  · cases h

/-- The second text neither goes on with a word or a dotted name that ends before the first, nor
leaves out a dot that the reader would turn back at. -/
structure Stops (r t : List Char) : Prop where
  head : ∀ c ∈ t.head?, isWord c = true ∨ c = '.' → r.head? = some c
  dot : ∀ y, r = '.' :: y → takeName true y = none → ∃ y', t = '.' :: y' ∧ takeName true y' = none

theorem takeEndpoint_local {e : List Char × List Char} (h : takeEndpoint s = some (e, rest)) :
    ∃ a, a ≠ [] ∧ s = a ++ rest ∧ ∀ t, Stops rest t → takeEndpoint (a ++ t) = some (e, t) := by
  have dotted {s n r : List Char} (h : takeName true s = some (n, '.' :: r)) (t : List Char) :
      takeName true (n ++ '.' :: t) = some (n, '.' :: t) := by
    apply takeName_local h
    intro c hc _
    exact hc
  unfold takeEndpoint at h
  split at h
  · next n r h₁ =>
    split at h
    · next m r' h₂ =>
      split at h
      · next k r'' h₃ =>
        cases h
        obtain rfl := takeName_eq h₁
        obtain rfl := takeName_eq h₂
        obtain rfl := takeName_eq h₃
        refine ⟨n ++ '.' :: (m ++ '.' :: k), by simp, by simp, fun t ht => ?_⟩
        have happend : n ++ '.' :: (m ++ '.' :: k) ++ t = n ++ '.' :: (m ++ '.' :: (k ++ t)) := by
          simp
        have hthird := takeName_local (t := t) h₃ (fun c hc hw => ht.head c hc (.inl hw))
        simp only [takeEndpoint, happend, dotted h₁, dotted h₂, hthird]
      · next h₃ =>
        cases h
        obtain rfl := takeName_eq h₁
        obtain rfl := takeName_eq h₂
        refine ⟨n ++ '.' :: m, by simp, by simp, fun t ht => ?_⟩
        obtain ⟨y, rfl, hy⟩ := ht.dot r' rfl h₃
        have happend : n ++ '.' :: m ++ '.' :: y = n ++ '.' :: (m ++ '.' :: y) := by simp
        simp only [takeEndpoint, happend, dotted h₁, dotted h₂, hy]
    · next m r' hdot h₂ =>
      cases h
      obtain rfl := takeName_eq h₁
      obtain rfl := takeName_eq h₂
      refine ⟨n ++ '.' :: m, by simp, by simp, fun t ht => ?_⟩
      have happend : n ++ '.' :: m ++ t = n ++ '.' :: (m ++ t) := by simp
      have hsecond := takeName_local (t := t) h₂ (fun c hc hw => ht.head c hc (.inl hw))
      have hdot' : ∀ y, t ≠ '.' :: y := by
        rintro y rfl
        obtain ⟨y', rfl⟩ := List.head?_eq_some_iff.mp (ht.head '.' rfl (.inr rfl))
        exact hdot y' rfl
      rw [takeEndpoint, happend, dotted h₁]
      simp only [hsecond]
    · cases h
  · cases h

theorem stops_of_head (h : t.head? = r.head?) (hr : r.head? ≠ some '.') : Stops r t where
  head c hc _ := h ▸ hc
  dot y hy := by
    rw [hy] at hr
    exact absurd rfl hr

/-- What stands behind a reference is of account only where it goes on with the last name. -/
theorem takeReference_local {rel : Relationship} (h : takeReference s = some (rel, rest)) :
    ∃ a, s = a ++ rest ∧ ∀ t, Stops rest t → takeReference (a ++ t) = some (rel, t) := by
  obtain ⟨r₁, h₁, h⟩ := Option.bind_eq_some_iff.mp h
  obtain ⟨r₂, h₂, h⟩ := Option.bind_eq_some_iff.mp h
  obtain ⟨⟨left, r₃⟩, h₃, h⟩ := Option.bind_eq_some_iff.mp h
  obtain ⟨⟨op, r₄⟩, h₄, h⟩ := Option.bind_eq_some_iff.mp h
  obtain ⟨⟨right, r₅⟩, h₅, h⟩ := Option.map_eq_some_iff.mp h
  cases h
  have hword : r₁.head?.any isWord = false := by
    by_contra hw
    rw [Bool.not_eq_false] at hw
    rw [if_pos hw] at h₂
    cases h₂
  rw [hword, if_neg Bool.false_ne_true] at h₂
  obtain ⟨a₁, rfl, l₁⟩ := dropWord_local h₁
  obtain ⟨a₂, rfl, l₂⟩ := afterOpening_local h₂
  obtain ⟨b₂, hb₂, -, t₂⟩ := trimStart_local r₂
  obtain ⟨a₃, -, ha₃, l₃⟩ := takeEndpoint_local h₃
  obtain ⟨b₃, hb₃, -, t₃⟩ := trimStart_local r₃
  obtain ⟨a₄, ha₄, l₄⟩ := takeOperator_local h₄
  obtain ⟨b₄, hb₄, -, t₄⟩ := trimStart_local r₄
  obtain ⟨a₅, hne, ha₅, l₅⟩ := takeEndpoint_local h₅
  rw [ha₃] at hb₂ t₂
  rw [ha₄] at hb₃ t₃
  rw [ha₅] at hb₄ t₄
  refine ⟨a₁ ++ (a₂ ++ (b₂ ++ (a₃ ++ (b₃ ++ (a₄ ++ (b₄ ++ a₅)))))), ?_, fun t ht => ?_⟩
  · rw [hb₂, hb₃, hb₄]
    simp
  · -- the last part holds a character at least, so all before it see what they saw
    have hhead₅ : (a₅ ++ t).head? = (a₅ ++ rest).head? := by
      cases a₅ with
      | nil => exact absurd rfl hne
      | cons c a => rfl
    have hhead₄ : (b₄ ++ (a₅ ++ t)).head? = r₄.head? := by
      rw [hb₄]
      exact head_append b₄ hhead₅
    have hhead₃ : (b₃ ++ (a₄ ++ (b₄ ++ (a₅ ++ t)))).head? = r₃.head? := by
      rw [hb₃]
      exact head_append b₃ (head_append a₄ hhead₄)
    have hdot : r₃.head? ≠ some '.' := by
      intro hd
      obtain ⟨r, rfl⟩ := List.head?_eq_some_iff.mp hd
      cases h₄
    have hhead₂ : (a₃ ++ (b₃ ++ (a₄ ++ (b₄ ++ (a₅ ++ t))))).head? = (a₃ ++ r₃).head? :=
      head_append a₃ hhead₃
    have hhead₁ : (a₂ ++ (b₂ ++ (a₃ ++ (b₃ ++ (a₄ ++ (b₄ ++ (a₅ ++ t))))))).head? =
        (a₂ ++ r₂).head? := by
      rw [hb₂]
      exact head_append a₂ (head_append b₂ hhead₂)
    have happend : a₁ ++ (a₂ ++ (b₂ ++ (a₃ ++ (b₃ ++ (a₄ ++ (b₄ ++ a₅)))))) ++ t =
        a₁ ++ (a₂ ++ (b₂ ++ (a₃ ++ (b₃ ++ (a₄ ++ (b₄ ++ (a₅ ++ t))))))) := by
      simp
    rw [happend, takeReference, l₁, Option.bind_some, hhead₁, hword,
      if_neg Bool.false_ne_true, l₂,
      Option.bind_some, t₂ _ hhead₂, l₃ _ (stops_of_head hhead₃ hdot), Option.bind_some]
    simp only [t₃ _ (head_append a₄ hhead₄), l₄ _ hhead₄, Option.bind_some, t₄ _ hhead₅, l₅ t ht]
    rfl

end SchemaHost.Schema
