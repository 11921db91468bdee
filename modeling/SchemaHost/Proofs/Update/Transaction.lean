import SchemaHost.Proofs.Tenant.Pool
import SchemaHost.Proofs.Update.Course
import SchemaHost.Proofs.Update.Frame
import SchemaHost.Proofs.Update.Settlement

/-! # Transactions of updates

An update of a document that is not blank succeeds exactly if its transaction is committed. The
record then says how many constraints were lost, and otherwise why the update failed.
-/

namespace SchemaHost.Update

open Operation Registry Server Tenant

variable {w w₁ : World} {tenant id : String} {r : UpdateRequest} {p : Persisted}
  {t : Registry.Tenant}

def tasksAt (w : World) (tenant : String) (plan : Schema.Plan) : List Task :=
  tasks tenant w.settings.defaultSchema (found w tenant).tables plan

/-- Between the worlds a transaction took this course, unless there was none. The log holds no
other marks, and once the connection is closed there is no further work in databases. -/
def Logged (name : String) (course : List ServerEvent) (u v : World) : Prop :=
  ∃ (before : List ServerEvent) (after : List Event),
    v.log = u.log ++ before.map (.server name) ++ course.map (.server name) ++ after ∧
      (∀ e ∈ before, e.isMark = false) ∧
      ∀ e ∈ after, e = .server name .closed ∨ e.database? = none

theorem Logged.of_unmarked {name : String} {es : List ServerEvent} {u v : World}
    (hl : v.log = u.log ++ es.map (.server name)) (hm : ∀ e ∈ es, e.isMark = false) :
    Logged name [] u v :=
  ⟨es, [], by simp [hl], hm, by simp⟩

theorem Logged.then_aside {name : String} {course : List ServerEvent} {u v v' : World}
    (h : Logged name course u v) (h' : Logs (·.database? = none) v v') :
    Logged name course u v' := by
  obtain ⟨before, after, hl, hb, ha⟩ := h
  obtain ⟨es, hl', he⟩ := h'
  refine ⟨before, after ++ es, by rw [hl', hl, List.append_assoc], hb, fun e hm => ?_⟩
  rcases List.mem_append.mp hm with hm | hm
  · exact ha e hm
  · exact .inr (he e hm)

theorem reconcile_of_pool {p : Pool} (hp : (pool tenant w).1 = .ok p) (plan : Schema.Plan) :
    reconcile tenant plan w = transaction p.database
      (work p.database tenant w.settings.defaultSchema plan) (pool tenant w).2 := by
  rw [← (pool_spares tenant w).settings]
  exact run_bind_ok hp _

theorem reconcile_course (h : Answers w tenant) (plan : Schema.Plan) :
    ∃ course, Logged (poolDatabase w tenant) course w (reconcile tenant plan w).2 ∧
      Course (found w tenant) (tasksAt w tenant plan) plan.constraintStatements course
        (reconcile tenant plan w).1 := by
  cases hd : w.server.get? (poolDatabase w tenant) with
  | none =>
    have hk := h.present hd
    have hn : poolDatabase w tenant = databaseName tenant := by simp [poolDatabase, hk]
    obtain ⟨e, es, he, hu, -, hm, hl⟩ := pool_of_missing hk (hn ▸ hd)
    have hr : reconcile tenant plan w = (.error e, (pool tenant w).2) := run_bind_error he _
    rw [hr, hn]
    exact ⟨[], .of_unmarked hl hm, .unbegun (.inl hu)⟩
  | some d =>
    have hf : found w tenant = d := by simp [found, hd]
    have hst : d.Steady := hf ▸ h.steady
    obtain ⟨hs, es, hl, hm, hok, herr⟩ := pool_serves ⟨d, hd, .refl d⟩
    cases hp : (pool tenant w).1 with
    | error e =>
      have hr : reconcile tenant plan w = (.error e, (pool tenant w).2) := run_bind_error hp _
      rw [hr, hf]
      refine ⟨[], .of_unmarked hl hm, .unbegun ?_⟩
      rcases herr e hp with hu | hu
      · exact .inl hu
      · exact .inr ⟨_, by simp, hu⟩
    | ok p =>
      have hr := reconcile_of_pool hp plan
      rw [hok p hp] at hr
      obtain ⟨-, es', hl', hc⟩ := withConnection_yields
        (transaction_yields hst tenant w.settings.defaultSchema plan) (pool tenant w).2 hs
      change (transaction _ _ _).2.log = _ at hl'
      rw [hr, hf, tasksAt, hf]
      have hm' : ∀ e ∈ es ++ [.connected], e.isMark = false := by
        rw [List.forall_mem_append]
        exact ⟨hm, by simp [ServerEvent.isMark]⟩
      rcases hc with ⟨e, rfl, he, hk⟩ | ⟨mid, rfl, hc⟩
      · refine ⟨[], .of_unmarked ?_ hm', ?_⟩
        · rw [hl', hl]
          simp
        · change Course _ _ _ _ (withConnection _ _ _).1
          rw [he]
          exact .unbegun (.inr ⟨_, by simp, hk⟩)
      · refine ⟨mid, ⟨es ++ [.connected], [.server (poolDatabase w tenant) .closed], ?_, hm', ?_⟩,
          hc⟩
        · rw [hl', hl]
          simp
        · simp

/-- What the transaction came to shows in the record and in what the caller is told. -/
structure Concluded (id : String) (w₁ : World) (came : Except Failure Nat)
    (result : Except Failure Record) (w' : World) : Prop where
  applied (n : Nat) : came = .ok n → (∃ c, result = .ok c) ∧
    ∀ c ∈ w'.registry.under id, c.status = .applied ∧ c.constraintFailures = n
  failed (e : Failure) : came = .error e → result = .error (reported e) ∧
    ∀ c ∈ w'.registry.under id, c.status = .failed ∧ c.lastError = some e.message
  version (e : Failure) : came = .error e →
    (w'.registry.under id).map (·.version) = (w₁.registry.under id).map (·.version)

theorem conclude_concluded (hc : w.HasCache) {n : Nat}
    (hr : (conclude tenant p n w).2.registry.under p.id ≠ []) (w₁ : World) :
    Concluded p.id w₁ (.ok n) (conclude tenant p n w).1 (conclude tenant p n w).2 := by
  obtain ⟨⟨c, -, hok⟩, -⟩ := conclude_spec hc (under_of_conclude hr) n
  refine ⟨?_, by simp, by simp⟩
  intro m hm
  cases hm
  refine ⟨⟨c, hok⟩, ?_⟩
  rw [(conclude_aside tenant p n w).registry, under_marked, List.forall_mem_map]
  exact fun c _ => by simp [Outcome.mark]

theorem compensate_concluded {e : Failure} (hc : w.HasCache)
    (hr : (compensate (α := Record) tenant id e w).2.registry.under id ≠ [])
    (hw : w.registry = w₁.registry) :
    Concluded id w₁ (.error e) (compensate tenant id e w).1
      (compensate (α := Record) tenant id e w).2 := by
  obtain ⟨herr, -⟩ : (compensate (α := Record) tenant id e w).1 = _ ∧ _ :=
    compensate_spec hc (under_of_compensate hr)
  have hg := (compensate_aside (α := Record) tenant id e w).registry
  refine ⟨by simp, fun e' he => ?_, fun _ _ => ?_⟩
  · cases he
    rw [hg, under_marked, List.forall_mem_map]
    exact ⟨herr, fun c _ => by simp [Outcome.mark]⟩
  · simp [hg, under_marked, Outcome.mark, hw]

/-- An update succeeds exactly if its transaction is committed, and the transaction takes one of the
courses of a reconciliation. -/
theorem update_transaction (ht : w.registry.tenant? tenant = some t) (hc : w.HasCache)
    (ha : Answers w tenant) (hb : Text.isAllBlank r.code.toList = false)
    (hp : persist tenant r w = (.ok p, w₁))
    (hr : (update tenant r w).2.registry.under p.id ≠ []) :
    ∃ course came,
      Logged (poolDatabase w tenant) course w (update tenant r w).2 ∧
      Course (found w tenant) (tasksAt w tenant (planned w r))
        (planned w r).constraintStatements course came ∧
      ((∃ c, (update tenant r w).1 = .ok c) ↔ .committed ∈ course) ∧
      Concluded p.id w₁ came (update tenant r w).1 (update tenant r w).2 := by
  obtain ⟨⟨s, hs⟩, -⟩ := persist_spec hp
  have hc₁ : w₁.HasCache := hs ▸ ⟨hc.quiet, hc.namespaces⟩
  have ha₁ : Answers w₁ tenant := hs ▸ ⟨ha.present, ha.steady⟩
  have hplan : planned w₁ r = planned w r := by rw [hs]; rfl
  rw [← hplan]
  -- neither the log nor the databases differ before and after the first step
  obtain ⟨course, hl, hk⟩ : ∃ course,
      Logged (poolDatabase w tenant) course w (reconcile tenant (planned w₁ r) w₁).2 ∧
      Course (found w tenant) (tasksAt w tenant (planned w₁ r))
        (planned w₁ r).constraintStatements course (reconcile tenant (planned w₁ r) w₁).1 := by
    have := reconcile_course ha₁ (planned w₁ r)
    rw [hs] at this ⊢
    exact this
  have hsp := reconcile_spares tenant (planned w₁ r) w₁
  have hc₂ := hsp.hasCache hc₁
  have hiff := hk.committed_iff
  cases hx : (reconcile tenant (planned w₁ r) w₁).1 with
  | ok n =>
    rw [hx] at hk hiff
    rw [update_of_ok ht hp hb hx] at hr ⊢
    have hcon := conclude_concluded hc₂ hr w₁
    refine ⟨course, .ok n, hl.then_aside (conclude_aside tenant p n _).log, hk, ?_, hcon⟩
    constructor
    · intro _
      exact hiff.mpr ⟨n, rfl⟩
    · intro _
      exact (hcon.applied n rfl).1
  | error e =>
    rw [hx] at hk hiff
    rw [update_of_compensated ht hp hb hx (hk.isCompensated ha.steady)] at hr ⊢
    have hcon := compensate_concluded hc₂ hr (hsp.registry_eq (under_of_compensate hr))
    refine ⟨course, .error e, hl.then_aside (compensate_aside tenant p.id e _).log, hk, ?_, hcon⟩
    constructor
    · rintro ⟨c, h⟩
      rw [(hcon.failed e rfl).1] at h
      cases h
    · intro h
      obtain ⟨n, h⟩ := hiff.mp h
      cases h

theorem transaction_of_refused_commit :
    Answers (.balking "COMMIT" .rejected) "t1" ∧
      (update "t1" request (.balking "COMMIT" .rejected)).2.registry.under "schema-1" ≠ [] ∧
      ∃ course came,
        Logged "tenant_t1" course (.balking "COMMIT" .rejected)
          (update "t1" request (.balking "COMMIT" .rejected)).2 ∧
        Course (found (.balking "COMMIT" .rejected) "t1")
          (tasksAt (.balking "COMMIT" .rejected) "t1" (planned (.balking "COMMIT" .rejected) request))
          (planned (.balking "COMMIT" .rejected) request).constraintStatements course came ∧
        ((∃ c, (update "t1" request (.balking "COMMIT" .rejected)).1 = .ok c) ↔
          .committed ∈ course) ∧
        Concluded "schema-1" (persist "t1" request (.balking "COMMIT" .rejected)).2 came
          (update "t1" request (.balking "COMMIT" .rejected)).1
          (update "t1" request (.balking "COMMIT" .rejected)).2 := by
  have ha : Answers (.balking "COMMIT" .rejected) "t1" := by
    refine ⟨fun _ => rfl, fun f hf => ?_⟩
    obtain rfl := List.mem_singleton.mp hf
    exact .inl rfl
  have hr : (update "t1" request (.balking "COMMIT" .rejected)).2.registry.under "schema-1" ≠
      [] := by decide +kernel
  exact ⟨ha, hr, update_transaction (p := ⟨"schema-1", true⟩) rfl (World.hasCache_sample ..) ha rfl
    rfl hr⟩

end SchemaHost.Update
