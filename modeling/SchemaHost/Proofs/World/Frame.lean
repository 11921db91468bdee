import SchemaHost.World

/-! # Frames

A frame relates the world before an operation to the world that it leaves, whether it fails or not.
Frames that are reflexive and transitive pass from the parts of an operation to the whole.
-/

namespace SchemaHost.Operation

variable {α β γ : Type} {R S : World → World → Prop} {w : World}

theorem run_bind_ok {a : Operation α} {x : α} (h : (a w).1 = .ok x) (f : α → Operation β) :
    (a >>= f) w = f x (a w).2 := by
  rw [run_bind, show a w = (.ok x, (a w).2) from Prod.ext h rfl]

theorem run_bind_error {a : Operation α} {e : Failure} (h : (a w).1 = .error e)
    (f : α → Operation β) : (a >>= f) w = (.error e, (a w).2) := by
  rw [run_bind, show a w = (.error e, (a w).2) from Prod.ext h rfl]

theorem bind_eq_ok {a : Operation α} {f : α → Operation β} {y : β}
    (h : ((a >>= f) w).1 = .ok y) :
    ∃ x, (a w).1 = .ok x ∧ (a >>= f) w = f x (a w).2 ∧ (f x (a w).2).1 = .ok y := by
  cases ha : (a w).1 with
  | error e => rw [run_bind_error ha] at h; cases h
  | ok x =>
    rw [run_bind_ok ha] at h
    exact ⟨x, rfl, run_bind_ok ha f, h⟩

theorem bind_assoc (a : Operation α) (f : α → Operation β) (g : β → Operation γ) :
    a >>= f >>= g = a >>= fun x => f x >>= g := by
  funext w
  simp only [run_bind]
  rcases a w with ⟨_ | x, v⟩
  · rfl
  · rfl

theorem bind_unit (a : Operation Unit) : (a >>= fun _ => Operation.pure ()) = a := by
  funext w
  rw [run_bind]
  rcases a w with ⟨_ | _, v⟩
  · rfl
  · rfl

theorem pure_bind (x : α) (f : α → Operation β) : Pure.pure x >>= f = f x := rfl

/-- Whatever comes of the operation, the worlds before and after it are related. -/
def Within (R : World → World → Prop) (a : Operation α) : Prop :=
  ∀ w, R w (a w).2

structure IsFrame (R : World → World → Prop) : Prop where
  refl (w : World) : R w w
  trans {u v w : World} : R u v → R v w → R u w

theorem Within.mono {a : Operation α} (h : Within R a) (hs : ∀ {u v}, R u v → S u v) :
    Within S a :=
  fun w => hs (h w)

theorem IsFrame.of_eq (f : World → γ) : IsFrame fun u v => f v = f u where
  refl _ := rfl
  trans h h' := h'.trans h

/-- What holds of a world goes on holding. -/
theorem IsFrame.of_invariant (I : World → Prop) (h : IsFrame R) :
    IsFrame fun u v => I u → I v ∧ R u v where
  refl w hw := ⟨hw, h.refl w⟩
  trans hu hv hw :=
    have ⟨h₁, h₂⟩ := hu hw
    have ⟨h₃, h₄⟩ := hv h₁
    ⟨h₃, h.trans h₂ h₄⟩

namespace IsFrame

variable (hR : IsFrame R)
include hR

theorem bind_at {a : Operation α} {f : α → Operation β} (ha : R w (a w).2)
    (hf : ∀ x, (a w).1 = .ok x → R (a w).2 (f x (a w).2).2) : R w ((a >>= f) w).2 := by
  cases h : (a w).1 with
  | error e => rw [run_bind_error h]; exact ha
  | ok x => rw [run_bind_ok h]; exact hR.trans ha (hf x h)

theorem bind {a : Operation α} {f : α → Operation β} (ha : Within R a)
    (hf : ∀ x, Within R (f x)) : Within R (a >>= f) :=
  fun w => hR.bind_at (ha w) fun x _ => hf x _

theorem bind_after {a : Operation α} {f : α → Operation β} (hf : ∀ x, Within R (f x)) :
    R (a w).2 ((a >>= f) w).2 := by
  cases h : (a w).1 with
  | error e => rw [run_bind_error h]; exact hR.refl _
  | ok x => rw [run_bind_ok h]; exact hf x _

theorem pure (a : α) : Within R (Pure.pure a) := hR.refl

theorem fail (e : Failure) : Within R (Operation.fail e : Operation α) := hR.refl

theorem get : Within R Operation.get := hR.refl

theorem ofExcept (r : Except Failure α) : Within R (Operation.ofExcept r) := by
  cases r with
  | ok a => exact hR.pure a
  | error e => exact hR.fail e

theorem forEach {f : α → Operation Unit} {xs : List α} (h : ∀ x ∈ xs, Within R (f x)) :
    Within R (Operation.forEach f xs) := by
  induction xs with
  | nil => exact hR.pure ()
  | cons x xs ih =>
    exact hR.bind (h x List.mem_cons_self) fun _ => ih fun y hy => h y (List.mem_cons_of_mem x hy)

end IsFrame

theorem Within.attempt {a : Operation α} (h : Within R a) : Within R (Operation.attempt a) := h

def Logs (P : Event → Prop) (u v : World) : Prop :=
  ∃ es, v.log = u.log ++ es ∧ ∀ e ∈ es, P e

theorem isFrame_logs (P : Event → Prop) : IsFrame (Logs P) where
  refl w := ⟨[], by simp⟩
  trans := by
    rintro u v w ⟨es, h, he⟩ ⟨es', h', he'⟩
    refine ⟨es ++ es', by rw [h', h, List.append_assoc], fun e hm => ?_⟩
    rcases List.mem_append.mp hm with hm | hm
    · exact he e hm
    · exact he' e hm

theorem Logs.trans {P : Event → Prop} {u v w : World} (h : Logs P u v) (h' : Logs P v w) :
    Logs P u w :=
  (isFrame_logs P).trans h h'

theorem Logs.of_eq {P : Event → Prop} {u v : World} (h : v.log = u.log) : Logs P u v :=
  ⟨[], by simp [h], by simp⟩

theorem within_logs_log {P : Event → Prop} {e : Event} (h : P e) : Within (Logs P) (log e) :=
  fun _ => ⟨[e], rfl, by simpa using h⟩

theorem Logs.isPrefix {P : Event → Prop} {u v : World} (h : Logs P u v) : u.log <+: v.log :=
  have ⟨es, he, _⟩ := h
  ⟨es, he.symm⟩

theorem Logs.mono {P Q : Event → Prop} (h : ∀ e, P e → Q e) {u v : World} :
    Logs P u v → Logs Q u v :=
  fun ⟨es, he, hp⟩ => ⟨es, he, fun e hm => h e (hp e hm)⟩

end SchemaHost.Operation
