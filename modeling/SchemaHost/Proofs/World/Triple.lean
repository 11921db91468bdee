import SchemaHost.Proofs.World.Frame

/-! # Triples

A triple says what an operation comes to in the worlds with a property: what holds of its result and
the world then, and what holds of its failure and the world then. Where no failure is admitted the
operation succeeds.
-/

namespace SchemaHost.Operation

variable {α β : Type} {I I' : World → Prop} {J J' : α → World → Prop} {K : β → World → Prop}
  {E E' : Failure → World → Prop} {a : Operation α} {w : World}

structure Triple (I : World → Prop) (a : Operation α) (J : α → World → Prop)
    (E : Failure → World → Prop) : Prop where
  ok {w : World} {x : α} : I w → (a w).1 = .ok x → J x (a w).2
  error {w : World} {e : Failure} : I w → (a w).1 = .error e → E e (a w).2

/-- In worlds with the property there is a result. -/
abbrev Succeeds (I : World → Prop) (a : Operation α) (J : α → World → Prop) : Prop :=
  Triple I a J fun _ _ => False

namespace Triple

theorem of_ok (h : ∀ w, I w → ∃ x, (a w).1 = .ok x ∧ J x (a w).2) : Triple I a J E where
  ok hw hx := by
    obtain ⟨y, hy, hj⟩ := h _ hw
    obtain rfl := Except.ok.inj (hx.symm.trans hy)
    exact hj
  error hw he := by
    obtain ⟨y, hy, -⟩ := h _ hw
    cases he.symm.trans hy

theorem exists_ok (h : Succeeds I a J) (hw : I w) : ∃ x, (a w).1 = .ok x ∧ J x (a w).2 := by
  cases hx : (a w).1 with
  | ok x => exact ⟨x, rfl, h.ok hw hx⟩
  | error e => exact (h.error hw hx).elim

theorem mono (h : Triple I a J E) (hI : ∀ w, I' w → I w) (hJ : ∀ x w, J x w → J' x w)
    (hE : ∀ e w, E e w → E' e w) : Triple I' a J' E' where
  ok hw hx := hJ _ _ (h.ok (hI _ hw) hx)
  error hw he := hE _ _ (h.error (hI _ hw) he)

theorem restrict (h : Triple I a J E) (hI : ∀ w, I' w → I w) : Triple I' a J E :=
  h.mono hI (fun _ _ hw => hw) fun _ _ hw => hw

theorem weaken (h : Triple I a J E) (hJ : ∀ x w, J x w → J' x w) : Triple I a J' E :=
  h.mono (fun _ hw => hw) hJ fun _ _ hw => hw

theorem lift {p : Prop} (h : p → Triple I a J E) : Triple (fun w => p ∧ I w) a J E where
  ok hw := (h hw.1).ok hw.2
  error hw := (h hw.1).error hw.2

theorem fact {p : Prop} (a : Operation α) :
    Triple (fun _ => p) a (fun _ _ => p) fun _ _ => p where
  ok h _ := h
  error h _ := h

theorem vacuous (h : ∀ w, ¬ I w) : Triple I a J E where
  ok hw := (h _ hw).elim
  error hw := (h _ hw).elim

theorem congr {b : Operation α} (hb : Triple I b J E) (he : ∀ w, I w → a w = b w) :
    Triple I a J E where
  ok hw hx := by
    rw [he _ hw] at hx ⊢
    exact hb.ok hw hx
  error hw hx := by
    rw [he _ hw] at hx ⊢
    exact hb.error hw hx

theorem pure {x : α} (h : ∀ w, I w → J x w) : Triple I (Pure.pure x) J E :=
  of_ok fun w hw => ⟨x, rfl, h w hw⟩

theorem fail {e : Failure} (h : ∀ w, I w → E e w) : Triple I (Operation.fail e) J E where
  ok _ hx := by cases hx
  error hw he := by
    cases he
    exact h _ hw

theorem modify {f : World → World} {J : Unit → World → Prop} (h : ∀ w, I w → J () (f w)) :
    Triple I (Operation.modify f) J E :=
  of_ok fun w hw => ⟨(), rfl, h w hw⟩

theorem bind {f : α → Operation β} (ha : Triple I a J E) (hf : ∀ x, Triple (J x) (f x) K E) :
    Triple I (a >>= f) K E where
  ok {w _} hw hy := by
    obtain ⟨x, hx, hb, hy⟩ := bind_eq_ok hy
    rw [hb]
    exact (hf x).ok (ha.ok hw hx) hy
  error {w _} hw he := by
    cases hx : (a w).1 with
    | ok x =>
      rw [run_bind_ok hx] at he ⊢
      exact (hf x).error (ha.ok hw hx) he
    | error e =>
      rw [run_bind_error hx] at he ⊢
      cases he
      exact ha.error hw hx

theorem get_bind {f : World → Operation β} (h : ∀ u, I u → Triple (· = u) (f u) K E) :
    Triple I (Operation.get >>= f) K E where
  ok hw hy := (h _ hw).ok rfl hy
  error hw he := (h _ hw).error rfl he

theorem attempt_bind {f : Except Failure α → Operation β} (ha : Triple I a J E)
    (hok : ∀ x, Triple (J x) (f (.ok x)) K E') (herror : ∀ e, Triple (E e) (f (.error e)) K E') :
    Triple I (Operation.attempt a >>= f) K E' := by
  have hr : Triple I (Operation.attempt a)
      (fun r v => (∃ x, r = .ok x ∧ J x v) ∨ ∃ e, r = .error e ∧ E e v) E' := by
    refine of_ok fun w hw => ⟨(a w).1, rfl, ?_⟩
    cases hx : (a w).1 with
    | ok x => exact .inl ⟨x, rfl, ha.ok hw hx⟩
    | error e => exact .inr ⟨e, rfl, ha.error hw hx⟩
  refine hr.bind fun r => ?_
  constructor
  · rintro w y (⟨x, rfl, hw⟩ | ⟨e, rfl, hw⟩) hy
    · exact (hok x).ok hw hy
    · exact (herror e).ok hw hy
  · rintro w e' (⟨x, rfl, hw⟩ | ⟨e, rfl, hw⟩) he
    · exact (hok x).error hw he
    · exact (herror e).error hw he

end Triple

end SchemaHost.Operation
