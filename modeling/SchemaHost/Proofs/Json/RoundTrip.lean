import SchemaHost.Proofs.Json.Strings

/-! # Values that are read back

A written value is read as what it was if it holds no floating point number, no key of an object
twice, and nothing beyond the limits. Each value ends where the reader looks for a comma or a
bracket, so that what follows is left as it is.
-/

namespace SchemaHost.Json

variable {l : Limits} {fuel depth o n : Nat} {rest s : List Char} {v : Json} {i : Int}

/-- The value is within the limits, and its text says all of it. -/
inductive Fits (l : Limits) : Nat → Json → Prop where
  | null {depth : Nat} : Fits l depth .null
  | bool {depth : Nat} (b : Bool) : Fits l depth (.bool b)
  | int {depth : Nat} {i : Int} : IsShort l i → Fits l depth (.int i)
  | str {depth : Nat} (s : String) : Fits l depth (.str s)
  | arr {depth : Nat} {items : List Json} : (∀ v ∈ items, Fits l depth v) →
      Fits l (depth + 1) (.arr items)
  | obj {depth : Nat} {fields : List (String × Json)} : (fields.map (·.1)).Nodup →
      (∀ f ∈ fields, Fits l depth f.2) → Fits l (depth + 1) (.obj fields)

theorem areEncodable_iff {items : List Json} :
    areEncodable l items = true ↔ ∀ v ∈ items, v.isEncodable l = true := by
  induction items with
  | nil => simp [areEncodable]
  | cons v vs ih => simp [areEncodable, ih]

theorem haveEncodable_iff {fields : List (String × Json)} :
    haveEncodable l fields = true ↔ ∀ f ∈ fields, f.2.isEncodable l = true := by
  induction fields with
  | nil => simp [haveEncodable]
  | cons f fs ih => simp [haveEncodable, ih]

theorem isEncodable_of_fits (h : Fits l depth v) : v.isEncodable l = true := by
  induction h with
  | null => simp [isEncodable]
  | bool => simp [isEncodable]
  | int h => simpa [isEncodable] using h
  | str => simp [isEncodable]
  | arr _ ih => exact (isEncodable.eq_2 ..).trans (areEncodable_iff.mpr ih)
  | obj _ _ ih => exact (isEncodable.eq_3 ..).trans (haveEncodable_iff.mpr ih)

/-- Nothing, or a character that may come behind a value. -/
def Closes (rest : List Char) : Prop :=
  ∀ c ∈ rest.head?, c = ',' ∨ c = ']' ∨ c = '}'

/-- The value is read from its text whatever comes behind it. -/
def Reads (l : Limits) (depth : Nat) (v : Json) : Prop :=
  ∀ fuel o rest, Closes rest → 2 * (writeChars v).length ≤ fuel →
    readValue l fuel depth ⟨o, writeChars v ++ rest⟩ = .ok (v, ⟨o + (writeChars v).length, rest⟩)

/-- The text begins with neither a gap nor the bracket that closes an array. -/
def IsSolid (s : List Char) : Prop :=
  ∃ c t, s = c :: t ∧ Cursor.isGap c = false ∧ c ≠ ']'

/-! ## Gaps -/

theorem skipGaps_cons {c : Char} (h : Cursor.isGap c = false) :
    Cursor.skipGaps ⟨o, c :: s⟩ = ⟨o, c :: s⟩ := by
  simp [Cursor.skipGaps, h]

theorem skipGaps_blank {c : Char} (h : Cursor.isGap c = false) :
    Cursor.skipGaps ⟨o, ' ' :: c :: s⟩ = ⟨o + 1, c :: s⟩ := by
  have hb : Cursor.isGap ' ' = true := rfl
  simp [Cursor.skipGaps, h, hb]

theorem isGap_comma : Cursor.isGap ',' = false := rfl

theorem isGap_colon : Cursor.isGap ':' = false := rfl

theorem isGap_quote : Cursor.isGap '"' = false := rfl

theorem isGap_bracket : Cursor.isGap ']' = false := rfl

theorem isGap_brace : Cursor.isGap '}' = false := rfl

/-! ## Whole numbers -/

theorem isDecimalDigit_of_isDigit {c : Char} (h : c.isDigit = true) : isDecimalDigit c = true := by
  simpa [isDecimalDigit, Char.isDigit, Char.le_def, and_comm] using h

theorem ne_of_isDigit {x c : Char} (hx : x.isDigit = false) (hc : c.isDigit = true) : x ≠ c := by
  rintro rfl
  rw [hx] at hc
  cases hc

theorem toDigits_eq_cons (hn : 0 < n) : ∃ c cs, Nat.toDigits 10 n = c :: cs ∧ c ≠ '0' := by
  induction n using Nat.strongRecOn with
  | ind n ih =>
    by_cases h : n < 10
    · refine ⟨_, _, Nat.toDigits_of_lt_base h, ?_⟩
      rw [Ne, Nat.digitChar_eq_zero]
      omega
    · obtain ⟨c, cs, hc, h₀⟩ := ih (n / 10) (by omega) (by omega)
      refine ⟨c, cs ++ [(n % 10).digitChar], ?_, h₀⟩
      rw [Nat.toDigits_of_base_le (by decide) (Nat.le_of_not_lt h), hc]
      rfl

theorem digitsAt_append {ds : List Char} (hd : ∀ c ∈ ds, c.isDigit = true) (hr : Closes rest) :
    digitsAt (ds ++ rest) = ds := by
  have hs : digitsAt rest = [] := by
    cases rest with
    | nil => rfl
    | cons c t =>
      rcases hr c rfl with rfl | rfl | rfl <;> rfl
  rw [digitsAt, List.takeWhile_append_of_pos fun c hc => isDecimalDigit_of_isDigit (hd c hc)]
  rw [digitsAt] at hs
  rw [hs, List.append_nil]

theorem natOfDigits_toDigits (n : Nat) : natOfDigits (Nat.toDigits 10 n) = n := by
  have h := Nat.ofDigitChars_toDigits (b := 10) (n := n) (by decide) (by decide)
  simpa [natOfDigits, Nat.ofDigitChars_eq_foldl, Nat.mul_comm] using h

theorem writeChars_int (i : Int) :
    writeChars (.int i) = (if i < 0 then ['-'] else []) ++ Nat.toDigits 10 i.natAbs := by
  cases i with
  | ofNat m => simp [writeChars, Int.toString_eq_repr, Int.repr, Nat.toList_repr]
  | negSucc m => simp [writeChars, Int.toString_eq_repr, Int.repr, Nat.toList_repr]

theorem Closes.noFraction (hr : Closes rest) : fractionAt rest = [] ∧ exponentAt rest = (0, 0) := by
  cases rest with
  | nil => exact ⟨rfl, rfl⟩
  | cons c t =>
    rcases hr c rfl with rfl | rfl | rfl <;> simp [fractionAt, exponentAt]

theorem readNumber_toDigits (negative : Bool) (n : Nat) (hr : Closes rest) :
    readNumber l.digits ⟨o, (if negative then ['-'] else []) ++ (Nat.toDigits 10 n ++ rest)⟩ =
      if l.digits < (Nat.toDigits 10 n).length then .error .tooManyDigits
      else .ok (.int (if negative then -(n : Int) else n),
        ⟨o + ((if negative then 1 else 0) + (Nat.toDigits 10 n).length), rest⟩) := by
  have hd : ∀ c ∈ Nat.toDigits 10 n, c.isDigit = true := fun c hc =>
    Nat.isDigit_of_mem_toDigits (by decide) (by decide) hc
  have hval := natOfDigits_toDigits n
  have hat := digitsAt_append hd hr
  obtain ⟨hfr, hex⟩ := hr.noFraction
  rcases Nat.eq_zero_or_pos n with rfl | hpos
  · have h₀ : natOfDigits ['0'] = 0 := hval
    cases negative <;> simp [readNumber, hfr, hex, h₀]
  · -- the reader takes all the digits, the first of which is not a zero
    obtain ⟨c, cs, hc, h₀⟩ := toDigits_eq_cons hpos
    rw [hc] at hat hval ⊢
    have hsign : c ≠ '-' := (ne_of_isDigit rfl (hd c (hc ▸ List.mem_cons_self))).symm
    rw [List.cons_append] at hat
    cases negative with
    | true => simp [readNumber, h₀, hat, hfr, hex, hval, Nat.add_comm 1]
    | false => simp [readNumber, h₀, hsign, hat, hfr, hex, hval]

theorem readWord_int (i : Int) (rest : List Char) :
    readWord ⟨o, writeChars (.int i) ++ rest⟩ = none := by
  obtain ⟨c, cs, hc⟩ := List.exists_cons_of_ne_nil
    (List.ne_nil_of_length_pos (Nat.length_toDigits_pos (b := 10) (n := i.natAbs)))
  have hd : c.isDigit = true :=
    Nat.isDigit_of_mem_toDigits (by decide) (by decide) (hc ▸ List.mem_cons_self)
  have hn (x : Char) (hx : x.isDigit = false) : x ≠ c := ne_of_isDigit hx hd
  rw [writeChars_int, hc]
  split <;>
    simp [readWord, words, hn 'n' rfl, hn 't' rfl, hn 'f' rfl, hn 'N' rfl, hn 'I' rfl, hn '-' rfl]

/-! ## Values -/

theorem writeChars_int_eq_cons (i : Int) : ∃ c cs, writeChars (.int i) = c :: cs ∧
    ∀ x : Char, x.isDigit = false → x ≠ '-' → c ≠ x := by
  obtain ⟨c, cs, hc⟩ := List.exists_cons_of_ne_nil
    (List.ne_nil_of_length_pos (Nat.length_toDigits_pos (b := 10) (n := i.natAbs)))
  have hd : c.isDigit = true :=
    Nat.isDigit_of_mem_toDigits (by decide) (by decide) (hc ▸ List.mem_cons_self)
  rw [writeChars_int, hc]
  split
  · exact ⟨'-', _, rfl, fun x _ hx => hx.symm⟩
  · exact ⟨c, cs, rfl, fun x hx _ => (ne_of_isDigit hx hd).symm⟩

/-- Reading a whole number succeeds unless there are too many digits. -/
theorem readValue_int (i : Int) (hr : Closes rest)
    (hf : 2 * (writeChars (.int i)).length ≤ fuel) :
    readValue l fuel depth ⟨o, writeChars (.int i) ++ rest⟩ =
      if l.digits < i.natAbs.repr.length then .error .tooManyDigits
      else .ok (.int i, ⟨o + (writeChars (.int i)).length, rest⟩) := by
  have hw := readWord_int (o := o) i rest
  have hx := readNumber_toDigits (l := l) (o := o) (decide (i < 0)) i.natAbs hr
  rw [← List.append_assoc] at hx
  obtain ⟨c, cs, hc, hn⟩ := writeChars_int_eq_cons i
  obtain ⟨fuel, rfl⟩ : ∃ k, fuel = k + 1 := ⟨fuel - 1, by simp [hc] at hf; omega⟩
  have hi : writeChars (.int i) =
      (if decide (i < 0) = true then ['-'] else []) ++ Nat.toDigits 10 i.natAbs := by
    simpa using writeChars_int i
  have hv : readValue l (fuel + 1) depth ⟨o, writeChars (.int i) ++ rest⟩ =
      readNumber l.digits ⟨o, writeChars (.int i) ++ rest⟩ := by
    rw [hc, List.cons_append] at hw ⊢
    simp [readValue, hn '"' rfl (by decide), hn '{' rfl (by decide), hn '[' rfl (by decide), hw]
  have hval : (if decide (i < 0) = true then -(i.natAbs : Int) else i.natAbs) = i := by
    by_cases hi : i < 0
    · simp only [hi, decide_true, if_true]
      omega
    · simp only [hi, decide_false, Bool.false_eq_true, if_false]
      omega
  have hlen : (writeChars (.int i)).length =
      (if decide (i < 0) = true then 1 else 0) + (Nat.toDigits 10 i.natAbs).length := by
    rw [hi, List.length_append]
    split <;> rfl
  have hrepr : i.natAbs.repr.length = (Nat.toDigits 10 i.natAbs).length := by
    simp [Nat.repr_eq_ofList_toDigits]
  rw [hv, hlen, hi, hx, hval, hrepr]

theorem reads_int (h : IsShort l i) : Reads l depth (.int i) := by
  intro fuel o rest hr hf
  rw [readValue_int i hr hf, if_neg (Nat.not_lt.mpr h)]

theorem reads_word {w : List Char} (hw : ∀ o rest, readWord ⟨o, w ++ rest⟩ =
    some (v, ⟨o + w.length, rest⟩)) (hv : writeChars v = w)
    (hn : ∀ x ∈ w.head?, x ≠ '"' ∧ x ≠ '{' ∧ x ≠ '[') (hne : w ≠ []) : Reads l depth v := by
  intro fuel o rest _ hf
  obtain ⟨c, cs, rfl⟩ := List.exists_cons_of_ne_nil hne
  obtain ⟨fuel, rfl⟩ : ∃ k, fuel = k + 1 := ⟨fuel - 1, by simp [hv] at hf; omega⟩
  have hw := hw o rest
  obtain ⟨h₁, h₂, h₃⟩ := hn c rfl
  rw [hv, List.cons_append] at *
  simp [readValue, h₁, h₂, h₃, hw]

theorem reads_null : Reads l depth .null :=
  reads_word (w := ['n', 'u', 'l', 'l']) (fun _ _ => rfl) rfl (by simp) (by simp)

theorem reads_bool (b : Bool) : Reads l depth (.bool b) := by
  cases b with
  | true => exact reads_word (w := ['t', 'r', 'u', 'e']) (fun _ _ => rfl) rfl (by simp) (by simp)
  | false =>
    exact reads_word (w := ['f', 'a', 'l', 's', 'e']) (fun _ _ => rfl) rfl (by simp) (by simp)

theorem reads_str (s : String) : Reads l depth (.str s) := by
  intro fuel o rest _ hf
  have hlen : 2 ≤ (writeString s).length := by simp [writeString]
  simp only [writeChars] at hf ⊢
  obtain ⟨fuel, rfl⟩ : ∃ k, fuel = k + 1 := ⟨fuel - 1, by omega⟩
  have hx : readString fuel ⟨o, writeString s ++ rest⟩ = _ :=
    readString_writeString s rest (by omega)
  obtain ⟨t, ht⟩ : ∃ t, writeString s = '"' :: t := ⟨_, rfl⟩
  rw [ht, List.cons_append] at hx ⊢
  simp only [readValue, hx, Except.map]

/-! ## Arrays and objects -/

theorem isSolid_of_fits (h : Fits l depth v) : IsSolid (writeChars v) := by
  cases h with
  | null => exact ⟨_, _, rfl, rfl, by decide⟩
  | bool b =>
    cases b with
    | true => exact ⟨_, _, rfl, rfl, by decide⟩
    | false => exact ⟨_, _, rfl, rfl, by decide⟩
  | @int _ i _ =>
    obtain ⟨c, cs, hc, hn⟩ := writeChars_int_eq_cons i
    refine ⟨c, cs, hc, ?_, hn ']' rfl (by decide)⟩
    simp [Cursor.isGap, hn ' ' rfl (by decide), hn '\t' rfl (by decide),
      hn '\n' rfl (by decide), hn '\r' rfl (by decide)]
  | str s => exact ⟨'"', _, rfl, rfl, by decide⟩
  | arr _ => exact ⟨'[', _, rfl, rfl, by decide⟩
  | obj _ _ => exact ⟨'{', _, rfl, rfl, by decide⟩

theorem isSolid_writeItems {v : Json} (vs : List Json) (h : IsSolid (writeChars v)) :
    IsSolid (writeItems (v :: vs)) := by
  obtain ⟨c, t, hc, hg, hb⟩ := h
  cases vs with
  | nil => exact ⟨c, t, hc, hg, hb⟩
  | cons w vs => exact ⟨c, _, by rw [writeItems, hc]; rfl; simp, hg, hb⟩

theorem writeItems_cons (v u : Json) (us : List Json) :
    writeItems (v :: u :: us) = writeChars v ++ ',' :: ' ' :: writeItems (u :: us) := by
  rw [writeItems]
  simp

theorem readItems_cons {done us : List Json} {u : Json} (hv : Reads l depth v)
    (hu : IsSolid (writeChars u)) (hf : 2 * (writeChars v).length ≤ fuel) :
    readItems l (fuel + 1) depth done ⟨o, writeItems (v :: u :: us) ++ ']' :: rest⟩ =
      readItems l fuel depth (v :: done)
        ⟨o + (writeChars v).length + 2, writeItems (u :: us) ++ ']' :: rest⟩ := by
  obtain ⟨c, t, hc, hg, -⟩ := isSolid_writeItems us hu
  have hx := hv fuel o (',' :: ' ' :: (writeItems (u :: us) ++ ']' :: rest)) (by simp [Closes]) hf
  rw [writeItems_cons, List.append_assoc, List.cons_append, List.cons_append, readItems, hx]
  rw [hc, List.cons_append]
  simp only [skipGaps_cons isGap_comma, Cursor.drop_mk, List.drop_succ_cons, List.drop_zero,
    skipGaps_blank hg]

theorem readItems_writeItems {done items : List Json} (hne : items ≠ [])
    (h : ∀ v ∈ items, Reads l depth v) (hs : ∀ v ∈ items, IsSolid (writeChars v))
    (hf : 2 * (writeItems items).length + 1 ≤ fuel) :
    readItems l fuel depth done ⟨o, writeItems items ++ ']' :: rest⟩ =
      .ok (done.reverse ++ items, ⟨o + (writeItems items).length + 1, rest⟩) := by
  induction items generalizing fuel o done with
  | nil => exact absurd rfl hne
  | cons v vs ih =>
    obtain ⟨fuel, rfl⟩ : ∃ k, fuel = k + 1 := ⟨fuel - 1, by omega⟩
    cases vs with
    | nil =>
      have hv := h v List.mem_cons_self fuel o (']' :: rest) (by simp [Closes]) (by
        simp only [writeItems] at hf; omega)
      simp [writeItems, readItems, hv, skipGaps_cons isGap_bracket]
    | cons u us =>
      have hlen : (writeItems (v :: u :: us)).length =
          (writeChars v).length + 2 + (writeItems (u :: us)).length := by
        simp only [writeItems_cons, List.length_append, List.length_cons]
        omega
      rw [readItems_cons (h v List.mem_cons_self)
        (hs u (List.mem_cons_of_mem v List.mem_cons_self)) (by omega),
        ih (List.cons_ne_nil u us) (fun x hx => h x (List.mem_cons_of_mem v hx))
          (fun x hx => hs x (List.mem_cons_of_mem v hx)) (by omega), hlen]
      simp only [List.reverse_cons, List.append_assoc, List.singleton_append]
      congr 3
      omega

theorem reads_arr {items : List Json} (h : ∀ v ∈ items, Reads l depth v)
    (hs : ∀ v ∈ items, IsSolid (writeChars v)) : Reads l (depth + 1) (.arr items) := by
  intro fuel o rest _ hf
  simp only [writeChars, List.length_append, List.length_cons, List.length_nil] at hf
  obtain ⟨fuel, rfl⟩ : ∃ k, fuel = k + 1 := ⟨fuel - 1, by omega⟩
  cases items with
  | nil => simp [writeChars, writeItems, readValue, skipGaps_cons isGap_bracket]
  | cons v vs =>
    have hx : readItems l fuel depth [] ⟨o + 1, writeItems (v :: vs) ++ ']' :: rest⟩ = _ :=
      readItems_writeItems (List.cons_ne_nil v vs) h hs (by omega)
    obtain ⟨c, t, hc, hg, hb⟩ := isSolid_writeItems vs (hs v List.mem_cons_self)
    rw [hc, List.cons_append] at hx
    simp [writeChars, hc, readValue, skipGaps_cons hg, hb, hx, Except.map]
    omega

theorem setField_of_not_mem {k : String} {done : List (String × Json)}
    (h : k ∉ done.map (·.1)) : setField k v done = done ++ [(k, v)] := by
  induction done with
  | nil => rfl
  | cons f done ih =>
    obtain ⟨k', v'⟩ := f
    simp only [List.map_cons, List.mem_cons, not_or] at h
    simp [setField, Ne.symm h.1, ih h.2]

theorem readKey_writeString {k : String} {c : Char} (hg : Cursor.isGap c = false)
    (hf : (writeString k).length ≤ fuel + 1) :
    readKey fuel ⟨o, writeString k ++ ':' :: ' ' :: c :: s⟩ =
      .ok (k, ⟨o + (writeString k).length + 2, c :: s⟩) := by
  have hx := readString_writeString (o := o) k (':' :: ' ' :: c :: s) hf
  obtain ⟨t, ht⟩ : ∃ t, writeString k = '"' :: t := ⟨_, rfl⟩
  rw [ht, List.cons_append] at hx ⊢
  simp [readKey, hx, bind, Except.bind, pure, Except.pure, skipGaps_cons isGap_colon,
    skipGaps_blank hg]

theorem writeFields_eq_cons (f : String × Json) (fs : List (String × Json)) :
    ∃ t, writeFields (f :: fs) = '"' :: t := by
  cases fs with
  | nil => exact ⟨_, rfl⟩
  | cons g gs => exact ⟨_, rfl⟩

theorem readKey_field (k : String) (x : List Char) (hs : IsSolid (writeChars v))
    (hf : (writeString k).length ≤ fuel + 1) :
    readKey fuel ⟨o, writeString k ++ ':' :: ' ' :: (writeChars v ++ x)⟩ =
      .ok (k, ⟨o + (writeString k).length + 2, writeChars v ++ x⟩) := by
  obtain ⟨c, t, hc, hg, -⟩ := hs
  rw [hc, List.cons_append]
  exact readKey_writeString hg hf

theorem writeFields_cons (k : String) (v : Json) (f : String × Json) (fs : List (String × Json)) :
    writeFields ((k, v) :: f :: fs) =
      writeString k ++ ':' :: ' ' :: (writeChars v ++ ',' :: ' ' :: writeFields (f :: fs)) := by
  rw [writeFields]
  · simp
  · simp

theorem readFields_cons {done fs : List (String × Json)} {k : String} {f : String × Json}
    (hv : Reads l depth v) (hs : IsSolid (writeChars v))
    (hf : 2 * ((writeString k).length + (writeChars v).length) ≤ fuel) :
    readFields l (fuel + 1) depth done ⟨o, writeFields ((k, v) :: f :: fs) ++ '}' :: rest⟩ =
      readFields l fuel depth (setField k v done)
        ⟨o + (writeString k).length + (writeChars v).length + 4,
          writeFields (f :: fs) ++ '}' :: rest⟩ := by
  obtain ⟨t, ht⟩ := writeFields_eq_cons f fs
  have hval := hv fuel (o + (writeString k).length + 2)
    (',' :: ' ' :: (writeFields (f :: fs) ++ '}' :: rest)) (by simp [Closes]) (by omega)
  rw [writeFields_cons]
  simp only [List.append_assoc, List.cons_append]
  rw [readFields, readKey_field k _ hs (by omega)]
  rw [ht, List.cons_append] at hval ⊢
  simp only [hval, skipGaps_cons isGap_comma, Cursor.drop_mk, List.drop_succ_cons,
    List.drop_zero, skipGaps_blank isGap_quote]
  congr 2
  omega

theorem readFields_writeFields {done fields : List (String × Json)} (hne : fields ≠ [])
    (hk : ((done ++ fields).map (·.1)).Nodup) (h : ∀ f ∈ fields, Reads l depth f.2)
    (hs : ∀ f ∈ fields, IsSolid (writeChars f.2))
    (hf : 2 * (writeFields fields).length + 1 ≤ fuel) :
    readFields l fuel depth done ⟨o, writeFields fields ++ '}' :: rest⟩ =
      .ok (done ++ fields, ⟨o + (writeFields fields).length + 1, rest⟩) := by
  induction fields generalizing fuel o done with
  | nil => exact absurd rfl hne
  | cons f fs ih =>
    obtain ⟨k, v⟩ := f
    obtain ⟨fuel, rfl⟩ : ∃ n, fuel = n + 1 := ⟨fuel - 1, by omega⟩
    have hv : Reads l depth v := h (k, v) List.mem_cons_self
    have hsv : IsSolid (writeChars v) := hs (k, v) List.mem_cons_self
    have hset : setField k v done = done ++ [(k, v)] := by
      refine setField_of_not_mem fun hm => ?_
      rw [List.map_append, List.nodup_append] at hk
      exact hk.2.2 k hm k List.mem_cons_self rfl
    cases fs with
    | nil =>
      have hw : writeFields [(k, v)] = writeString k ++ ':' :: ' ' :: writeChars v := rfl
      rw [hw] at hf ⊢
      simp only [List.length_append, List.length_cons] at hf ⊢
      have hval := hv fuel (o + (writeString k).length + 2) ('}' :: rest) (by simp [Closes])
        (by omega)
      rw [List.append_assoc, List.cons_append, List.cons_append, readFields,
        readKey_field k _ hsv (by omega)]
      simp only [hval, skipGaps_cons isGap_brace, hset, Cursor.drop_mk, List.drop_succ_cons,
        List.drop_zero]
      congr 3
      omega
    | cons f' fs =>
      have hlen : (writeFields ((k, v) :: f' :: fs)).length =
          (writeString k).length + (writeChars v).length + 4 + (writeFields (f' :: fs)).length := by
        simp only [writeFields_cons, List.length_append, List.length_cons]
        omega
      rw [readFields_cons hv hsv (by omega), hset, ih (List.cons_ne_nil _ _) (by simpa using hk)
        (fun x hx => h x (List.mem_cons_of_mem _ hx))
        (fun x hx => hs x (List.mem_cons_of_mem _ hx)) (by omega), hlen]
      simp only [List.append_assoc, List.singleton_append]
      congr 3
      omega

theorem reads_obj {fields : List (String × Json)} (hk : (fields.map (·.1)).Nodup)
    (h : ∀ f ∈ fields, Reads l depth f.2) (hs : ∀ f ∈ fields, IsSolid (writeChars f.2)) :
    Reads l (depth + 1) (.obj fields) := by
  intro fuel o rest _ hf
  simp only [writeChars, List.length_append, List.length_cons, List.length_nil] at hf
  obtain ⟨fuel, rfl⟩ : ∃ n, fuel = n + 1 := ⟨fuel - 1, by omega⟩
  cases fields with
  | nil => simp [writeChars, writeFields, readValue, skipGaps_cons isGap_brace]
  | cons f fs =>
    have hx : readFields l fuel depth [] ⟨o + 1, writeFields (f :: fs) ++ '}' :: rest⟩ = _ :=
      readFields_writeFields (List.cons_ne_nil f fs) hk h hs (by omega)
    obtain ⟨t, ht⟩ := writeFields_eq_cons f fs
    rw [ht, List.cons_append] at hx
    simp [writeChars, ht, readValue, skipGaps_cons isGap_quote, hx, Except.map]
    omega

/-! ## Whole texts -/

theorem reads_of_fits (h : Fits l depth v) : Reads l depth v := by
  induction h with
  | null => exact reads_null
  | bool b => exact reads_bool b
  | int h => exact reads_int h
  | str s => exact reads_str s
  | arr h ih => exact reads_arr ih fun v hv => isSolid_of_fits (h v hv)
  | obj hk h ih => exact reads_obj hk ih fun f hf => isSolid_of_fits (h f hf)

theorem ofString_write_eq (h : IsSolid (writeChars v)) : ofString v.write l =
    (readValue l (2 * (writeChars v).length + 2) l.depth ⟨0, writeChars v⟩).bind fun p =>
      if p.2.skipGaps.rest.isEmpty then .ok p.1 else .error (.malformed p.2.skipGaps.offset) := by
  obtain ⟨c, t, hc, hg, -⟩ := h
  have hskip : Cursor.skipGaps ⟨0, writeChars v⟩ = ⟨0, writeChars v⟩ := by
    rw [hc]
    exact skipGaps_cons hg
  rw [ofString, write, String.toList_ofList, read, hskip]
  rfl

/-- A value within the limits is read back from its text. -/
theorem ofString_write (h : Fits l l.depth v) : ofString v.write l = .ok v := by
  have hx := reads_of_fits h (2 * (writeChars v).length + 2) 0 [] (by simp [Closes]) (by omega)
  rw [List.append_nil] at hx
  rw [ofString_write_eq (isSolid_of_fits h), hx]
  rfl

end SchemaHost.Json
