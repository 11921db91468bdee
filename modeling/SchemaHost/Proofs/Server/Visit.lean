import SchemaHost.Proofs.Server.Frame

/-! # Visits to a database

A connection is asked for, and it may be refused. One that is given is closed once, at the end, and
all that is done on it comes in between. Before and after such a visit pools are made and given up.
-/

namespace SchemaHost

def sentIn (es : List ServerEvent) : List String :=
  es.filterMap fun e => match e with
    | .sent sql => some sql
    | _ => none

theorem sentIn_append (es es' : List ServerEvent) : sentIn (es ++ es') = sentIn es ++ sentIn es' :=
  List.filterMap_append

theorem sentIn_between {e e' : ServerEvent} (h : sentIn [e] = []) (h' : sentIn [e'] = [])
    (es : List ServerEvent) : sentIn (e :: es ++ [e']) = sentIn es := by
  rw [← List.singleton_append, sentIn_append, sentIn_append, h, h', List.nil_append, List.append_nil]

/-- Neither a statement that is passed on as it is nor the mark of a transaction. -/
def ServerEvent.isPrelude : ServerEvent → Bool
  | sent _ => false
  | e => !e.isMark

theorem sentIn_of_isPrelude {es : List ServerEvent} (h : ∀ e ∈ es, e.isPrelude = true) :
    sentIn es = [] := by
  rw [sentIn, List.filterMap_eq_nil_iff]
  intro e he
  cases e <;> first | rfl | cases h _ he

def ServerEvent.isWork : ServerEvent → Bool
  | executed .. => true
  | sent _ => true
  | e => e.isMark

namespace Server

open Operation

def isGiven (name : String) (w : World) : Bool :=
  (openConnection name w).1.isOk

/-- What is logged where a connection is asked for. -/
inductive Visit : Bool → List ServerEvent → Prop where
  | refused : Visit false [.connected]
  | given {mid} : (∀ e ∈ mid, e.isWork = true) → Visit true (.connected :: mid ++ [.closed])

/-- The visits one after the other, each with whether its connection is given. -/
inductive Visits : List Bool → List ServerEvent → Prop where
  | nil : Visits [] []
  | tenure {e gs es} : e.isTenure = true → Visits gs es → Visits gs (e :: es)
  | visit {given gs es es'} : Visit given es → Visits gs es' → Visits (given :: gs) (es ++ es')

variable {α : Type} {name : String} {w : World} {given : Bool} {gs gs' : List Bool}
  {es es' : List ServerEvent}

theorem Visit.visits (h : Visit given es) : Visits [given] es := by
  simpa using Visits.visit h .nil

theorem Visits.append (h : Visits gs es) (h' : Visits gs' es') :
    Visits (gs ++ gs') (es ++ es') := by
  induction h with
  | nil => exact h'
  | tenure he _ ih => exact .tenure he ih
  | visit hv _ ih =>
    rw [List.append_assoc]
    exact .visit hv ih

theorem Visit.count_closed (h : Visit given es) : es.count .closed = [given].count true := by
  cases h with
  | refused => rfl
  | @given mid hm =>
    have hn : ServerEvent.closed ∉ mid := fun h => absurd (hm _ h) (by decide)
    simp [List.count_eq_zero_of_not_mem hn]

/-- There are as many ends of connections as connections that were given. -/
theorem Visits.count_closed (h : Visits gs es) : es.count .closed = gs.count true := by
  induction h with
  | nil => rfl
  | @tenure e _ _ he _ ih =>
    have hne : e ≠ .closed := by
      rintro rfl
      cases he
    rw [List.count_cons_of_ne hne, ih]
  | visit hv _ ih => rw [List.count_append, hv.count_closed, ih, ← List.count_append]; rfl

theorem check_log (name statement : String) (w : World) : (check name statement w).2.log = w.log :=
  within_check (IsFrame.of_eq (·.log)) (fun _ _ _ _ _ _ => rfl) w

theorem openConnection_log (name : String) (w : World) :
    (openConnection name w).2.log = w.log ++ [.server name .connected] :=
  check_log name "CONNECT" (record name .connected w).2

theorem execute_log (name sql : String) (ps : List (String × String)) (w : World) :
    (execute name sql ps w).2.log = w.log ++ [.server name (.executed (unguarded sql) ps)] :=
  check_log name (unguarded sql) (record name (.executed (unguarded sql) ps) w).2

theorem visit_of_error {e : Failure} (h : (openConnection name w).1 = .error e) :
    Visit (isGiven name w) [.connected] := by
  rw [isGiven, h]
  exact .refused

theorem isGiven_of_ok (h : (openConnection name w).1 = .ok ()) : isGiven name w = true := by
  rw [isGiven, h]
  rfl

theorem withConnection_visit {body : Operation α} (mid : List ServerEvent)
    (hl : (body (openConnection name w).2).2.log =
      (openConnection name w).2.log ++ mid.map (.server name)) (hm : ∀ e ∈ mid, e.isWork = true) :
    ∃ es, (withConnection name body w).2.log = w.log ++ es.map (.server name) ∧
      Visit (isGiven name w) es ∧ es ⊆ .connected :: mid ++ [.closed] := by
  cases h : (openConnection name w).1 with
  | error e =>
    refine ⟨[.connected], ?_, visit_of_error h, by simp⟩
    rw [withConnection, run_bind_error h, openConnection_log]
    rfl
  | ok _ =>
    refine ⟨.connected :: mid ++ [.closed], ?_, isGiven_of_ok h ▸ .given hm, List.Subset.refl _⟩
    rw [withConnection, run_bind_ok h, thenClose_eq]
    simp [hl, openConnection_log]

end Server

end SchemaHost
