import SchemaHost.Proofs.Server.Frame

/-! # Databases that fail as arranged

A database that is worked on goes on listing the same tables, and every failure that it still has
to come was arranged for it. A check fails by such a failure only, and only where the statement
mentions what the failure is about.
-/

namespace SchemaHost.Server

open Operation

variable {α β : Type} {name statement : String} {d : Database} {w : World}

/-- The second database is the first with some of its failures spent. -/
structure Worn (d d' : Database) : Prop where
  tables : d'.tables = d.tables
  outages : ∀ f' ∈ d'.outages, ∃ f ∈ d.outages,
    f'.part = f.part ∧ f'.kind = f.kind ∧ f'.message = f.message

theorem Worn.refl (d : Database) : Worn d d := ⟨rfl, fun f h => ⟨f, h, rfl, rfl, rfl⟩⟩

def Serves (name : String) (d : Database) (w : World) : Prop :=
  ∃ d', w.server.get? name = some d' ∧ Worn d d'

def Strikes (d : Database) (statement : String) (e : Failure) : Prop :=
  ∃ f ∈ d.outages, Text.mentions statement f.part = true ∧
    e = f.kind.failure f.message statement

/-- Every failure arranged for the database is one that databases report. -/
def Database.Steady (d : Database) : Prop :=
  ∀ f ∈ d.outages, f.kind = .rejected ∨ f.kind = .database

theorem Strikes.isDatabase {e : Failure} (h : Strikes d statement e) (hd : d.Steady) :
    e.isDatabase = true := by
  obtain ⟨f, hf, -, rfl⟩ := h
  rcases hd f hf with hk | hk
  · rw [hk]; rfl
  · rw [hk]; rfl

theorem spendFirst_spec {os os' : List Outage} {f : Outage}
    (h : spendFirst statement os = some (f, os')) :
    f ∈ os ∧ Text.mentions statement f.part = true ∧ ∀ g' ∈ os', ∃ g ∈ os,
      g'.part = g.part ∧ g'.kind = g.kind ∧ g'.message = g.message := by
  induction os generalizing f os' with
  | nil => cases h
  | cons g gs ih =>
    simp only [spendFirst] at h
    split at h
    · next hg =>
      obtain ⟨rfl, rfl⟩ := Prod.mk.inj (Option.some.inj h)
      simp only [Outage.fires, Bool.and_eq_true] at hg
      refine ⟨List.mem_cons_self, hg.1, fun g' hg' => ?_⟩
      rcases List.mem_cons.mp hg' with rfl | hg'
      · exact ⟨g, List.mem_cons_self, rfl, rfl, rfl⟩
      · exact ⟨g', List.mem_cons_of_mem g hg', rfl, rfl, rfl⟩
    · obtain ⟨⟨f', gs'⟩, hs, he⟩ := Option.map_eq_some_iff.mp h
      obtain ⟨rfl, rfl⟩ := Prod.mk.inj he
      obtain ⟨hf, hm, ho⟩ := ih hs
      refine ⟨List.mem_cons_of_mem g hf, hm, fun g' hg' => ?_⟩
      rcases List.mem_cons.mp hg' with rfl | hg'
      · exact ⟨g', List.mem_cons_self, rfl, rfl, rfl⟩
      · obtain ⟨k, hk, hl⟩ := ho g' hg'
        exact ⟨k, List.mem_cons_of_mem g hk, hl⟩

theorem fail?_spec {d' d'' : Database} {e : Failure} (hw : Worn d d')
    (h : d'.fail? statement = some (e, d'')) : Strikes d statement e ∧ Worn d d'' := by
  obtain ⟨⟨f', os⟩, hs, he⟩ := Option.map_eq_some_iff.mp h
  obtain ⟨rfl, rfl⟩ := Prod.mk.inj he
  obtain ⟨hf, hm, ho⟩ := spendFirst_spec hs
  refine ⟨?_, hw.tables, fun g' hg' => ?_⟩
  · obtain ⟨f, hf, hp, hk, hmsg⟩ := hw.outages f' hf
    exact ⟨f, hf, hp ▸ hm, by rw [hk, hmsg]⟩
  · obtain ⟨g₁, h₁, hp₁, hk₁, hm₁⟩ := ho g' hg'
    obtain ⟨g, hg, hp, hk, hm⟩ := hw.outages g₁ h₁
    exact ⟨g, hg, hp₁.trans hp, hk₁.trans hk, hm₁.trans hm⟩

/-- Where the database serves, the operation logs events of the database only, and they and the
result are as said. -/
def Yields (name : String) (d : Database) (P : List ServerEvent → Except Failure α → Prop)
    (a : Operation α) : Prop :=
  ∀ w, Serves name d w → Serves name d (a w).2 ∧
    ∃ es, (a w).2.log = w.log ++ es.map (.server name) ∧ P es (a w).1

namespace Yields

variable {P P' : List ServerEvent → Except Failure α → Prop}
  {Q : α → List ServerEvent → Except Failure β → Prop}

theorem mono {a : Operation α} (h : Yields name d P a) (hp : ∀ es r, P es r → P' es r) :
    Yields name d P' a := fun w hw =>
  have ⟨hs, es, hl, hr⟩ := h w hw
  ⟨hs, es, hl, hp es _ hr⟩

theorem of_eq {a b : Operation α} (h : ∀ w, Serves name d w → a w = b w)
    (hb : Yields name d P b) : Yields name d P a := by
  intro w hw
  rw [h w hw]
  exact hb w hw

theorem bind {a : Operation α} {f : α → Operation β} (ha : Yields name d P a)
    (hf : ∀ x es, P es (.ok x) → Yields name d (Q x) (f x)) :
    Yields name d (fun es r => (∃ e, P es (.error e) ∧ r = .error e) ∨
      ∃ x es₁ es₂, es = es₁ ++ es₂ ∧ P es₁ (.ok x) ∧ Q x es₂ r) (a >>= f) := by
  intro w hw
  obtain ⟨hs, es, hl, hr⟩ := ha w hw
  cases h : (a w).1 with
  | error e =>
    rw [run_bind_error h]
    exact ⟨hs, es, hl, .inl ⟨e, h ▸ hr, rfl⟩⟩
  | ok x =>
    rw [run_bind_ok h]
    obtain ⟨hs', es', hl', hr'⟩ := hf x es (h ▸ hr) _ hs
    refine ⟨hs', es ++ es', ?_, .inr ⟨x, es, es', rfl, h ▸ hr, hr'⟩⟩
    rw [hl', hl, List.map_append, List.append_assoc]

theorem pure (x : α) : Yields name d (fun es r => es = [] ∧ r = .ok x) (Pure.pure x) :=
  fun _ hw => ⟨hw, [], by simp, rfl, rfl⟩

theorem fail (e : Failure) :
    Yields name d (fun es r => es = [] ∧ r = .error e) (Operation.fail e : Operation α) :=
  fun _ hw => ⟨hw, [], by simp, rfl, rfl⟩

theorem record (e : ServerEvent) :
    Yields name d (fun es r => es = [e] ∧ r = .ok ()) (record name e) :=
  fun _ hw => ⟨hw, [e], rfl, rfl, rfl⟩

theorem modify {f : World → World} (hs : ∀ w, (f w).server = w.server)
    (hl : ∀ w, (f w).log = w.log) :
    Yields name d (fun es r => es = [] ∧ r = .ok ()) (Operation.modify f) :=
  fun w ⟨d', hd, hw⟩ => ⟨⟨d', by rw [← hd, ← hs w]; rfl, hw⟩, [], by simp [hl], rfl, rfl⟩

theorem bind_record {f : Unit → Operation β} {P : List ServerEvent → Except Failure β → Prop}
    (e : ServerEvent) (h : Yields name d P (f ())) :
    Yields name d (fun es r => ∃ es', es = e :: es' ∧ P es' r) (Server.record name e >>= f) := by
  refine ((record e).bind (Q := fun _ => P) fun _ _ _ => h).mono ?_
  rintro es r (⟨e, ⟨-, he⟩, -⟩ | ⟨-, _, es', rfl, ⟨rfl, -⟩, hr⟩)
  · cases he
  · exact ⟨es', rfl, hr⟩

theorem attempt {a : Operation α} (h : Yields name d P a) :
    Yields name d (fun es r => ∃ r', r = .ok r' ∧ P es r') (Operation.attempt a) := fun w hw =>
  have ⟨hs, es, hl, hr⟩ := h w hw
  ⟨hs, es, hl, _, rfl, hr⟩

theorem bind_attempt {a : Operation α} {f : Except Failure α → Operation β}
    {Q : Except Failure α → List ServerEvent → Except Failure β → Prop} (ha : Yields name d P a)
    (hf : ∀ r es, P es r → Yields name d (Q r) (f r)) :
    Yields name d (fun es r => ∃ r' es₁ es₂, es = es₁ ++ es₂ ∧ P es₁ r' ∧ Q r' es₂ r)
      (Operation.attempt a >>= f) := by
  refine (ha.attempt.bind (Q := Q) fun r es hr => ?_).mono ?_
  · obtain ⟨_, h, hp⟩ := hr
    cases h
    exact hf r es hp
  · rintro es r (⟨e, ⟨_, he, -⟩, -⟩ | ⟨r', es₁, es₂, rfl, ⟨_, he, hp⟩, hq⟩)
    · cases he
    · cases he
      exact ⟨r', es₁, es₂, rfl, hp, hq⟩

end Yields

def Silent (d : Database) (statement : String) (es : List ServerEvent) (r : Except Failure α) :
    Prop :=
  es = [] ∧ ∀ e, r = .error e → Strikes d statement e

namespace Yields

theorem silent_bind {a : Operation α} {f : α → Operation β}
    (ha : Yields name d (Silent d statement) a)
    (hf : ∀ x, Yields name d (Silent d statement) (f x)) :
    Yields name d (Silent d statement) (a >>= f) := by
  refine (ha.bind fun x _ _ => hf x).mono ?_
  rintro es r (⟨e, ⟨rfl, he⟩, rfl⟩ | ⟨x, es₁, es₂, rfl, ⟨rfl, -⟩, rfl, h⟩)
  · exact ⟨rfl, fun e' h => he e' (by cases h; rfl)⟩
  · exact ⟨rfl, h⟩

theorem silent_pure (x : α) : Yields name d (Silent d statement) (Pure.pure x) :=
  (pure x).mono fun _ _ ⟨he, hr⟩ => ⟨he, by simp [hr]⟩

theorem silent_modify {f : World → World} (hs : ∀ w, (f w).server = w.server)
    (hl : ∀ w, (f w).log = w.log) :
    Yields name d (Silent d statement) (Operation.modify f) :=
  (modify hs hl).mono fun _ _ ⟨he, hr⟩ => ⟨he, by simp [hr]⟩

theorem database : Yields name d (Silent d statement) (database name) := by
  rintro w ⟨d', hd, hw⟩
  have he : Server.database name w = (.ok d', w) := by simp [Server.database, hd]
  rw [he]
  exact ⟨⟨d', hd, hw⟩, [], by simp, rfl, by simp⟩

theorem check (statement : String) :
    Yields name d (Silent d statement) (check name statement) := by
  rintro w ⟨d', hd, hw⟩
  have hdb : Server.database name w = (.ok d', w) := by simp [Server.database, hd]
  unfold Server.check
  rw [run_bind, hdb]
  cases hf : d'.fail? statement with
  | none => exact ⟨⟨d', by simpa [hf] using hd, hw⟩, [], by simp [hf], rfl, by simp [hf]⟩
  | some p =>
    obtain ⟨hs, hw'⟩ := fail?_spec hw hf
    refine ⟨⟨p.2, by simp [hf, putDatabase], hw'⟩, [], by simp [hf, putDatabase], rfl,
      fun e he => ?_⟩
    simp only [hf, putDatabase, run_bind, run_modify, run_fail, Except.error.injEq] at he
    exact he ▸ hs

end Yields

end SchemaHost.Server
