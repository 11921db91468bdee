import SchemaHost.Proofs.History.Receipts
import SchemaHost.Proofs.Server.Hosting
import SchemaHost.Proofs.Server.Scope
import SchemaHost.Proofs.Server.Task
import SchemaHost.Proofs.Service.Reachable
import SchemaHost.Proofs.Service.Visits

/-! # Statements in their sessions

A statement that may run is sent once at most, in a transaction on a connection of its own. It is
reported as a success exactly if the transaction was committed. Where there is no pool or no
connection nothing is sent and nothing is filed, and a statement that may not run does nothing at
all.
-/

namespace SchemaHost

open Operation Server

namespace Console

/-- An outcome that reports a failure says why, and that nothing was changed. -/
def Outcome.IsFailure (o : Outcome) : Prop :=
  o.success = false ∧ o.rowsAffected = 0 ∧ o.error ≠ none

/-- If there is an outcome at all, it is a failure. -/
def Fails (r : Except Failure Outcome) : Prop :=
  ∀ o, r = .ok o → o.IsFailure

/-- What the transaction of a statement logs and comes to. -/
inductive Transacted (statement : String) : List ServerEvent → Except Failure Outcome → Prop where
  | unbegun {r} : Fails r → Transacted statement [] r
  | undone {r} : Fails r → Transacted statement [.begun, .sent statement, .rolledBack] r
  | kept {o} : o.success = true →
      Transacted statement [.begun, .sent statement, .committed] (.ok o)

inductive Session (statement : String) :
    Bool → List ServerEvent → Except Failure Outcome → Prop where
  | refused {e} : Session statement false [.connected] (.error e)
  | given {mid r} : Transacted statement mid r →
      Session statement true (.connected :: mid ++ [.closed]) r

/-- The visits of a statement. Before the last of them nothing is sent and nothing is begun. -/
inductive Execution (statement : String) :
    List Bool → List ServerEvent → Except Failure Outcome → Prop where
  | unpooled {gs es e} : Visits gs es → (∀ x ∈ es, x.isPrelude = true) →
      Execution statement gs es (.error e)
  | session {gs given es es' r} : Visits gs es → (∀ x ∈ es, x.isPrelude = true) →
      Session statement given es' r → Execution statement (gs ++ [given]) (es ++ es') r

/-- The report on a statement is true to what became of its transaction. -/
structure Reports (statement : String) (es : List ServerEvent) (o : Outcome) : Prop where
  kept : o.success = true → [.begun, .sent statement, .committed] <:+: es
  undone : o.success = false → .committed ∉ es ∧ o.rowsAffected = 0 ∧ o.error ≠ none

variable {name tenant query statement : String} {who : Requester} {d : Database} {w : World}
  {r : Except Failure Outcome} {o : Outcome} {es : List ServerEvent} {given : Bool} {gs : List Bool}

/-! ## Readings -/

theorem Transacted.isWork (h : Transacted statement es r) : ∀ e ∈ es, e.isWork = true := by
  cases h with
  | unbegun => exact List.forall_mem_nil _
  | undone => simp [ServerEvent.isWork, ServerEvent.isMark]
  | kept => simp [ServerEvent.isWork, ServerEvent.isMark]

theorem Transacted.sentIn (h : Transacted statement es r) :
    sentIn es = [] ∨ sentIn es = [statement] := by
  cases h with
  | unbegun => exact .inl rfl
  | undone => exact .inr rfl
  | kept => exact .inr rfl

theorem Transacted.reports (h : Transacted statement es (.ok o)) : Reports statement es o := by
  have hu (hf : Fails (.ok o)) (hc : ServerEvent.committed ∉ es) : Reports statement es o := by
    obtain ⟨hs, hr, he⟩ := hf o rfl
    refine ⟨fun h => ?_, fun _ => ⟨hc, hr, he⟩⟩
    cases hs.symm.trans h
  cases h with
  | unbegun hf => exact hu hf List.not_mem_nil
  | undone hf => exact hu hf (by simp)
  | kept hs =>
    refine ⟨fun _ => List.infix_rfl, fun h => ?_⟩
    cases hs.symm.trans h

theorem Session.visit (h : Session statement given es r) : Visit given es := by
  cases h with
  | refused => exact .refused
  | given ht => exact .given ht.isWork

theorem Session.sentIn (h : Session statement given es r) :
    sentIn es = [] ∨ sentIn es = [statement] := by
  cases h with
  | refused => exact .inl rfl
  | given ht =>
    rw [sentIn_between rfl rfl]
    exact ht.sentIn

theorem Session.sentIn_of_refused (h : Session statement false es r) :
    SchemaHost.sentIn es = [] := by
  cases h with
  | refused => rfl

theorem Session.reports (h : Session statement given es (.ok o)) : Reports statement es o := by
  cases h with
  | @given mid _ ht =>
    obtain ⟨hk, hu⟩ := ht.reports
    constructor
    · intro hs
      exact (hk hs).trans ⟨[.connected], [.closed], rfl⟩
    · intro hs
      obtain ⟨hc, hr⟩ := hu hs
      exact ⟨by simpa using hc, hr⟩

namespace Execution

theorem visits (h : Execution statement gs es r) : Visits gs es := by
  cases h with
  | unpooled hv => exact hv
  | session hv _ hs => exact hv.append hs.visit.visits

theorem sentIn (h : Execution statement gs es r) :
    sentIn es = [] ∨ sentIn es = [statement] := by
  cases h with
  | unpooled _ hp => exact .inl (sentIn_of_isPrelude hp)
  | session _ hp hs =>
    rw [sentIn_append, sentIn_of_isPrelude hp]
    exact hs.sentIn

theorem reports (h : Execution statement gs es (.ok o)) : Reports statement es o := by
  cases h with
  | @session _ _ es es' _ _ hp hs =>
    obtain ⟨hk, hu⟩ := hs.reports
    constructor
    · intro h
      exact (hk h).trans (List.suffix_append es es').isInfix
    · intro h
      obtain ⟨hc, hr⟩ := hu h
      refine ⟨fun hm => ?_, hr⟩
      rcases List.mem_append.mp hm with hm | hm
      · cases hp _ hm
      · exact hc hm

end Execution

/-! ## The transaction -/

theorem exists_of_success {b : Bool} (h : r.toOption.map (·.success) = some b) :
    ∃ o, r = .ok o ∧ o.success = b := by
  cases r with
  | error e => cases h
  | ok o => exact ⟨o, rfl, Option.some.inj h⟩

theorem success_outcomeOf (ms : Int) (r : Option Result) : (outcomeOf ms r).success = true := by
  unfold outcomeOf
  split
  · rfl
  · split
    · rfl
    · rfl

def report (x : Except Failure (Option Result)) : Operation Outcome :=
  match x with
  | .ok r => do return outcomeOf (← elapsedMilliseconds) r
  | .error e => do
    if e.isDatabase then
      return { success := false, milliseconds := ← elapsedMilliseconds, error := some e.reason }
    else fail e

theorem report_ok (x : Option Result) (w : World) :
    ∃ o, report (.ok x) w = (.ok o, w) ∧ o.success = true :=
  ⟨_, rfl, success_outcomeOf _ x⟩

theorem report_error (e : Failure) (w : World) :
    (report (.error e) w).2 = w ∧ Fails (report (.error e) w).1 := by
  unfold report
  cases h : e.isDatabase with
  | true =>
    simp only [h, if_true]
    refine ⟨rfl, fun o ho => ?_⟩
    cases ho
    exact ⟨rfl, rfl, Option.some_ne_none _⟩
  | false =>
    simp only [h, Bool.false_eq_true, if_false]
    refine ⟨rfl, fun o ho => ?_⟩
    cases ho

theorem report_yields (x : Except Failure (Option Result)) :
    Yields name d (fun es r => es = [] ∧ match x with
      | .ok _ => ∃ o, r = .ok o ∧ o.success = true
      | .error _ => Fails r) (report x) := by
  intro w hw
  cases x with
  | ok y =>
    obtain ⟨o, ho, hs⟩ := report_ok y w
    rw [ho]
    exact ⟨hw, [], (List.append_nil _).symm, rfl, o, rfl, hs⟩
  | error e =>
    obtain ⟨hv, hf⟩ := report_error e w
    rw [hv]
    exact ⟨hw, [], (List.append_nil _).symm, rfl, hf⟩

theorem runOpen_yields (name statement : String) :
    Yields name d (Transacted statement) (runOpen name statement) := by
  have ht : Yields name d _ (withinTransaction name (send name statement)) :=
    Scope.transaction.run_yields (Performs.send statement)
  refine (ht.bind_attempt fun x _ _ => report_yields x).mono ?_
  rintro es r ⟨x, es, _, rfl, hx, rfl, hr⟩
  rw [List.append_nil]
  cases hx with
  | unopened => exact .unbegun hr
  | failed hc =>
    obtain ⟨rfl, -⟩ := hc.of_singleton
    exact .undone hr
  | refused hc =>
    obtain ⟨-, rfl⟩ := hc.of_ok
    exact .undone hr
  | kept hc =>
    obtain ⟨-, rfl⟩ := hc.of_ok
    obtain ⟨o, rfl, ho⟩ := hr
    exact .kept ho

/-! ## The connection -/

theorem connect_of_ok (h : (openConnection name w).1 = .ok ()) :
    connect tenant name w = (.ok (), (openConnection name w).2) := by
  rw [connect, run_bind, run_attempt, h]
  rfl

theorem connect_of_error {e : Failure} (h : (openConnection name w).1 = .error e) :
    ∃ e', connect tenant name w = (.error e', (openConnection name w).2) := by
  rw [connect, run_bind, run_attempt, h]
  dsimp only
  split
  · exact ⟨_, rfl⟩
  · exact ⟨_, rfl⟩

theorem isGiven_of_connect_error {e : Failure} (h : (connect tenant name w).1 = .error e) :
    isGiven name w = false := by
  cases ho : (openConnection name w).1 with
  | error e' =>
    rw [isGiven, ho]
    rfl
  | ok _ =>
    rw [connect_of_ok ho] at h
    cases h

def converse (tenant name statement : String) : Operation Outcome := do
  connect tenant name
  thenClose name (runOpen name statement)

theorem converse_session (tenant name statement : String) (w : World) :
    ∃ es, (converse tenant name statement w).2.log = w.log ++ es.map (.server name) ∧
      Session statement (isGiven name w) es (converse tenant name statement w).1 := by
  unfold converse
  cases h : (openConnection name w).1 with
  | error e =>
    obtain ⟨e', hc⟩ : ∃ e', connect tenant name w = (.error e', (openConnection name w).2) :=
      connect_of_error h
    have hg : isGiven name w = false := by rw [isGiven, h]; rfl
    rw [run_bind_error (by rw [hc]), hc, hg]
    exact ⟨[.connected], openConnection_log name w, .refused⟩
  | ok _ =>
    have hc : connect tenant name w = (.ok (), (openConnection name w).2) := connect_of_ok h
    obtain ⟨d, hd⟩ := serves_of_openConnection h
    obtain ⟨-, mid, hl, ht⟩ := runOpen_yields name statement _ hd
    rw [run_bind_ok (by rw [hc]), hc, thenClose_eq, isGiven_of_ok h]
    refine ⟨.connected :: mid ++ [.closed], ?_, .given ht⟩
    simp [hl, openConnection_log]

/-! ## The whole -/

def reach (tenant : String) : Operation Unit := do
  let p ← Tenant.pool tenant
  connect tenant p.database

/-- Whether the connections are given that a statement of the tenant takes: one for a new pool, and
one for the statement if there is a pool. -/
def visits (tenant : String) (w : World) : List Bool :=
  Tenant.probes tenant w ++ match (Tenant.pool tenant w).1 with
    | .ok p => [isGiven p.database (Tenant.pool tenant w).2]
    | .error _ => []

theorem answer_execution (tenant statement : String) (w : World) :
    ∃ es, (answer tenant statement w).2.log =
        w.log ++ es.map (.server (Tenant.poolDatabase w tenant)) ∧
      Execution statement (visits tenant w) es (answer tenant statement w).1 ∧
      ∀ e, (reach tenant w).1 = .error e →
        answer tenant statement w = (.error e, (reach tenant w).2) ∧ sentIn es = [] := by
  obtain ⟨es, hl, hv, hp⟩ := Tenant.pool_visits tenant w
  unfold answer reach visits
  cases h : (Tenant.pool tenant w).1 with
  | error e =>
    rw [run_bind_error h, run_bind_error h]
    refine ⟨es, hl, by simpa using .unpooled hv hp, fun e' he => ⟨by cases he; rfl, ?_⟩⟩
    exact sentIn_of_isPrelude hp
  | ok p =>
    let v := (Tenant.pool tenant w).2
    obtain ⟨es', hl', hs⟩ := converse_session tenant p.database statement v
    have hl' : (converse tenant p.database statement v).2.log =
        w.log ++ (es ++ es').map (.server (Tenant.poolDatabase w tenant)) := by
      rw [hl', hl, Tenant.pool_database h, List.append_assoc, List.map_append]
    rw [run_bind_ok h, run_bind_ok h]
    refine ⟨es ++ es', hl', .session hv hp hs, fun e he => ⟨run_bind_error he _, ?_⟩⟩
    rw [isGiven_of_connect_error he] at hs
    rw [sentIn_append, sentIn_of_isPrelude hp, hs.sentIn_of_refused]
    rfl

/-- A query that may not run does nothing at all. One that may is sent once at most, without the
blanks around it and on the tenant's database; of its connections each that is given is closed once,
and the report is true to what became of the transaction. Where there is no pool or no connection
nothing is sent and nothing is filed. -/
theorem run_in_session (h : Reachable w) (tenant query : String) (who : Requester) :
    (∀ r, validateQuery query = .error r → run tenant query who w = (.error (.refused r), w)) ∧
      ∀ statement, validateQuery query = .ok statement →
        statement = String.ofList (Text.trim query.toList) ∧
        ∃ es, (run tenant query who w).2.log =
            w.log ++ es.map (.server (Tenant.databaseName tenant)) ∧
          (sentIn es = [] ∨ sentIn es = [statement]) ∧
          Visits (visits tenant w) es ∧ es.count .closed = (visits tenant w).count true ∧
          (∀ o, (run tenant query who w).1 = .ok o → Reports statement es o) ∧
          ∀ e, (reach tenant w).1 = .error e →
            run tenant query who w = (.error e, (reach tenant w).2) ∧ sentIn es = [] ∧
              SparesHistory w (run tenant query who w).2 := by
  constructor
  · intro r hr
    rw [run, hr]
    rfl
  · intro statement hq
    obtain ⟨es, hl, hx, he⟩ := answer_execution tenant statement w
    have hs := answer_sparesHistory tenant statement w
    rw [h.poolsOwn.poolDatabase] at hl
    refine ⟨validateQuery_eq_ok hq, es, ?_, hx.sentIn, hx.visits, hx.visits.count_closed, ?_, ?_⟩
    · rw [run_of_ok hq]
      have hf : IsFrame fun u v : World => v.log = u.log := .of_eq (·.log)
      exact (hf.bind_after fun _ _ => rfl).trans hl
    · intro o ho
      rw [run_of_ok hq] at ho
      obtain ⟨_, ha, -, ho⟩ := bind_eq_ok ho
      cases ho
      exact (ha ▸ hx).reports
    · intro e hr
      obtain ⟨ha, hn⟩ := he e hr
      rw [run_of_ok hq, run_bind_error (congrArg Prod.fst ha)]
      exact ⟨by rw [ha], hn, hs⟩

/-- A transaction that cannot be committed is reported as a failure. -/
theorem run_in_session_balking :
    Reachable (.balking "COMMIT" .rejected) ∧ validateQuery " SELECT 1 " = .ok "SELECT 1" ∧
      visits "t1" (.balking "COMMIT" .rejected) = [true, true] ∧
      ∃ (o : Outcome) (es : List ServerEvent),
        (run "t1" " SELECT 1 " {} (.balking "COMMIT" .rejected)).1 = .ok o ∧
        o.success = false ∧
        (run "t1" " SELECT 1 " {} (.balking "COMMIT" .rejected)).2.log =
          es.map (.server (Tenant.databaseName "t1")) ∧
        es.count .closed = 2 ∧ .committed ∉ es ∧ o.rowsAffected = 0 ∧ o.error ≠ none := by
  let w : World := .balking "COMMIT" .rejected
  have hw : Reachable w := .start rfl
  have hq : validateQuery " SELECT 1 " = .ok "SELECT 1" := by decide +kernel
  have hv : visits "t1" w = [true, true] := by decide +kernel
  obtain ⟨o, ho, hf⟩ : ∃ o, (run "t1" " SELECT 1 " {} w).1 = .ok o ∧ o.success = false :=
    exists_of_success (by decide +kernel)
  obtain ⟨-, es, hl, -, -, hc, hr, -⟩ := (run_in_session hw "t1" " SELECT 1 " {}).2 _ hq
  exact ⟨hw, hq, hv, o, es, ho, hf, hl, hc.trans (by rw [hv]; rfl), (hr o ho).undone hf⟩

end Console

end SchemaHost
