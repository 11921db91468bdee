import SchemaHost.Proofs.Server.Outage

/-! # Scopes

Transactions and savepoints are scopes. What is done in a scope that was opened ends in one of two
events, by which it is kept or undone; closing a scope may fail just as opening one may.
-/

namespace SchemaHost.Server

open Operation

variable {α : Type} {name : String} {d : Database}
  {P : List ServerEvent → Except Failure α → Prop} {body : Operation α}

/-- The statements that open and close a scope, and the events that it logs. -/
structure Scope where
  opening : String
  closing : String
  opened : ServerEvent
  kept : ServerEvent
  undone : ServerEvent

namespace Scope

def transaction : Scope :=
  ⟨"BEGIN", "COMMIT", .begun, .committed, .rolledBack⟩

def savepoint : Scope :=
  ⟨"SAVEPOINT", "RELEASE", .savepoint, .released, .rolledBackTo⟩

def run (s : Scope) (name : String) (body : Operation α) : Operation α := do
  check name s.opening
  record name s.opened
  match ← attempt (do let a ← body; check name s.closing; return a) with
  | .ok a =>
    record name s.kept
    return a
  | .error e =>
    record name s.undone
    fail e

theorem withinTransaction_eq (name : String) (body : Operation α) :
    withinTransaction name body = transaction.run name body := rfl

theorem withinSavepoint_eq (name : String) (body : Operation α) :
    withinSavepoint name body = savepoint.run name body := rfl

inductive Ends (s : Scope) (d : Database) (P : List ServerEvent → Except Failure α → Prop) :
    List ServerEvent → Except Failure α → Prop where
  | unopened {e} : Strikes d s.opening e → Ends s d P [] (.error e)
  | failed {es e} : P es (.error e) → Ends s d P (s.opened :: es ++ [s.undone]) (.error e)
  | refused {es x e} : P es (.ok x) → Strikes d s.closing e →
      Ends s d P (s.opened :: es ++ [s.undone]) (.error e)
  | kept {es x} : P es (.ok x) → Ends s d P (s.opened :: es ++ [s.kept]) (.ok x)

theorem closed_yields (s : Scope) (hb : Yields name d P body) :
    Yields name d (fun es r => P es r ∨ ∃ x e, P es (.ok x) ∧ Strikes d s.closing e ∧ r = .error e)
      (do let a ← body; check name s.closing; return a) := by
  have hc (x : α) : Yields name d (fun es r => es = [] ∧
      (r = .ok x ∨ ∃ e, Strikes d s.closing e ∧ r = .error e))
      (do check name s.closing; return x) := by
    refine ((Yields.check s.closing).bind fun _ _ _ => .pure x).mono ?_
    rintro es r (⟨e, ⟨rfl, he⟩, rfl⟩ | ⟨-, _, _, rfl, ⟨rfl, -⟩, rfl, rfl⟩)
    · exact ⟨rfl, .inr ⟨e, he e rfl, rfl⟩⟩
    · exact ⟨rfl, .inl rfl⟩
  refine (hb.bind fun x _ _ => hc x).mono ?_
  rintro es r (⟨e, h, rfl⟩ | ⟨x, es, _, rfl, h, rfl, rfl | ⟨e, he, rfl⟩⟩)
  · exact .inl h
  · exact .inl (by rwa [List.append_nil])
  · exact .inr ⟨x, e, by rwa [List.append_nil], he, rfl⟩

theorem run_yields (s : Scope) (hb : Yields name d P body) :
    Yields name d (s.Ends d P) (s.run name body) := by
  refine ((Yields.check s.opening).bind fun _ _ _ => .bind_record s.opened <|
    (closed_yields s hb).bind_attempt
      (Q := fun r es r' => es = [if r.isOk then s.kept else s.undone] ∧ r' = r)
      fun r _ _ => ?_).mono ?_
  · cases r with
    | ok x =>
      refine (Yields.bind_record s.kept (.pure x)).mono ?_
      rintro es r ⟨_, rfl, rfl, rfl⟩
      exact ⟨rfl, rfl⟩
    | error e =>
      refine (Yields.bind_record s.undone (.fail e)).mono ?_
      rintro es r ⟨_, rfl, rfl, rfl⟩
      exact ⟨rfl, rfl⟩
  · rintro es r (⟨e, ⟨rfl, he⟩, rfl⟩ | ⟨-, _, _, rfl, ⟨rfl, -⟩, _, rfl, h⟩)
    · exact .unopened (he e rfl)
    · obtain ⟨r', es, _, rfl, hp, rfl, rfl⟩ := h
      rcases hp with hp | ⟨x, e, hp, he, rfl⟩
      · cases r with
        | ok x => exact .kept hp
        | error e => exact .failed hp
      · exact .refused hp he

end Scope

theorem thenClose_yields (hb : Yields name d P body) :
    Yields name d (fun es r => ∃ mid, es = mid ++ [.closed] ∧ P mid r) (thenClose name body) := by
  have hr (r : Except Failure α) : Yields name d (fun es r' => es = [] ∧ r' = r) (ofExcept r) := by
    cases r with
    | ok x => exact .pure x
    | error e => exact .fail e
  refine (hb.bind_attempt fun r _ _ => .bind_record .closed (hr r)).mono ?_
  rintro es r ⟨_, mid, _, rfl, hp, _, rfl, rfl, rfl⟩
  exact ⟨mid, rfl, hp⟩

/-- A body that is run on a connection comes between two events, if there is a connection. -/
theorem withConnection_yields (hb : Yields name d P body) :
    Yields name d (fun es r => (∃ e, es = [.connected] ∧ r = .error e ∧ Strikes d "CONNECT" e) ∨
      ∃ mid, es = .connected :: mid ++ [.closed] ∧ P mid r) (withConnection name body) := by
  refine ((Yields.bind_record .connected (.check "CONNECT")).bind fun _ _ _ =>
    thenClose_yields hb).mono ?_
  rintro es r (⟨e, ⟨_, rfl, rfl, he⟩, rfl⟩ | ⟨-, _, _, rfl, ⟨_, rfl, rfl, -⟩, mid, rfl, hp⟩)
  · exact .inl ⟨e, rfl, rfl, he e rfl⟩
  · exact .inr ⟨mid, rfl, hp⟩

end SchemaHost.Server
