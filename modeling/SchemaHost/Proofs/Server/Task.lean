import SchemaHost.Proofs.Server.Outage

/-! # Tasks of a database

A task is a statement together with what its failure is called. An operation that performs a list
of tasks logs them in turn and ends with the first that is struck.
-/

namespace SchemaHost.Server

open Operation

variable {α β : Type} {name : String} {d : Database} {w : World}

structure Task where
  event : ServerEvent
  statement : String
  blame : Failure → Failure := id

namespace Task

def executed (sql : String) (parameters : List (String × String) := []) : Task :=
  { event := .executed (unguarded sql) parameters, statement := unguarded sql }

def sent (sql : String) : Task :=
  { event := .sent sql, statement := sql }

end Task

/-- The tasks in turn, up to the first that is struck; a result is good. -/
inductive Carried (d : Database) (good : α → Prop) :
    List Task → List ServerEvent → Except Failure α → Prop where
  | done {x : α} : good x → Carried d good [] [] (.ok x)
  | step {t : Task} {ts es r} : Carried d good ts es r → Carried d good (t :: ts) (t.event :: es) r
  | struck {t : Task} {ts e} : Strikes d t.statement e →
      Carried d good (t :: ts) [t.event] (.error (t.blame e))

variable {t t' : Task} {ts ts' : List Task} {es es' : List ServerEvent} {good : α → Prop}
  {good' : β → Prop} {r : Except Failure β}

namespace Carried

theorem of_ok {x : α} (h : Carried d good ts es (.ok x)) : good x ∧ es = ts.map (·.event) := by
  generalize hr : (Except.ok x : Except Failure α) = r at h
  induction h with
  | done hg => cases hr; exact ⟨hg, rfl⟩
  | step _ ih =>
    obtain ⟨hg, he⟩ := ih hr
    exact ⟨hg, by rw [he]; rfl⟩
  | struck => cases hr

theorem of_error {e : Failure} (h : Carried d good ts es (.error e)) :
    ∃ before t after e', ts = before ++ t :: after ∧ es = (before ++ [t]).map (·.event) ∧
      Strikes d t.statement e' ∧ e = t.blame e' := by
  generalize hr : (Except.error e : Except Failure α) = r at h
  induction h with
  | done => cases hr
  | @step t _ _ _ _ ih =>
    obtain ⟨before, s, after, e', rfl, rfl, hs, he⟩ := ih hr
    exact ⟨t :: before, s, after, e', rfl, rfl, hs, he⟩
  | @struck t ts e' hs =>
    cases hr
    exact ⟨[], t, ts, e', rfl, rfl, hs, rfl⟩

theorem event_mem {r : Except Failure α} (h : Carried d good ts es r) {k : ServerEvent}
    (hk : k ∈ es) : ∃ t ∈ ts, k = t.event := by
  induction h with
  | done => cases hk
  | @step t _ _ _ _ ih =>
    rcases List.mem_cons.mp hk with rfl | hk
    · exact ⟨t, List.mem_cons_self, rfl⟩
    · obtain ⟨s, hs, he⟩ := ih hk
      exact ⟨s, List.mem_cons_of_mem t hs, he⟩
  | @struck t =>
    obtain rfl := List.mem_singleton.mp hk
    exact ⟨t, List.mem_cons_self, rfl⟩

theorem of_singleton {e : Failure} (h : Carried d good [t] es (.error e)) :
    es = [t.event] ∧ ∃ e', Strikes d t.statement e' ∧ e = t.blame e' := by
  cases h with
  | step h => cases h
  | struck h => exact ⟨rfl, _, h, rfl⟩

theorem append {x : α} (h : Carried d good ts es (.ok x)) (h' : Carried d good' ts' es' r) :
    Carried d good' (ts ++ ts') (es ++ es') r := by
  generalize hr : (Except.ok x : Except Failure α) = r₀ at h
  induction h with
  | done => exact h'
  | step _ ih => exact .step (ih hr)
  | struck => cases hr

theorem append_of_error {e : Failure} (h : Carried d good ts es (.error e)) (ts' : List Task) :
    Carried d good' (ts ++ ts') es (.error e) := by
  generalize hr : (Except.error e : Except Failure α) = r₀ at h
  induction h with
  | done => cases hr
  | step _ ih => exact .step (ih hr)
  | struck hs =>
    cases hr
    exact .struck hs

end Carried

/-- Where the database serves, the operation carries out the tasks. -/
def Performs (name : String) (d : Database) (ts : List Task) (good : α → Prop)
    (a : Operation α) : Prop :=
  Yields name d (Carried d good ts) a

namespace Performs

theorem bind {a : Operation α} {f : α → Operation β} (ha : Performs name d ts good a)
    (hf : ∀ x, good x → Performs name d ts' good' (f x)) :
    Performs name d (ts ++ ts') good' (a >>= f) := by
  refine (Yields.bind ha fun x _ hc => hf x hc.of_ok.1).mono ?_
  rintro es r (⟨e, hc, rfl⟩ | ⟨x, es₁, es₂, rfl, hc, hc'⟩)
  · exact hc.append_of_error ts'
  · exact hc.append hc'

theorem cons {a : Operation α} {f : α → Operation β} (ha : Performs name d [t] good a)
    (hf : ∀ x, good x → Performs name d ts good' (f x)) :
    Performs name d (t :: ts) good' (a >>= f) :=
  bind ha hf

theorem pure {x : α} (h : good x) : Performs name d [] good (Pure.pure x) :=
  fun _ hw => ⟨hw, [], by simp, .done h⟩

theorem forEach {γ : Type} {f : γ → Operation Unit} {task : γ → Task}
    (h : ∀ x, Performs name d [task x] (fun _ => True) (f x)) (xs : List γ) :
    Performs name d (xs.map task) (fun _ => True) (Operation.forEach f xs) := by
  induction xs with
  | nil => exact pure trivial
  | cons x xs ih => exact (h x).bind fun _ _ => ih

theorem of_record {a : Operation α} (h : Yields name d (Silent d t.statement) a)
    (hb : t.blame = id) :
    Performs name d [t] (fun _ => True) (record name t.event >>= fun _ => a) := by
  refine (Yields.bind_record t.event h).mono ?_
  rintro es r ⟨_, rfl, rfl, hr⟩
  cases r with
  | ok x => exact .step (.done trivial)
  | error e =>
    have hc : Carried d (fun _ : α => True) [t] [t.event] (.error (t.blame e)) :=
      .struck (hr e rfl)
    rwa [hb] at hc

theorem execute (sql : String) (parameters : List (String × String)) :
    Performs name d [.executed sql parameters] (fun _ => True) (execute name sql parameters) :=
  of_record (t := .executed sql parameters) (.check _) rfl

theorem send (sql : String) : Performs name d [.sent sql] (fun _ => True) (send name sql) := by
  refine of_record (t := .sent sql) (Yields.database.silent_bind fun d' => ?_) rfl
  have hw : Yields name d (Silent d sql) (applyWipes d' sql) := by
    unfold applyWipes
    split
    · exact .silent_modify (fun _ => rfl) fun _ => rfl
    · exact .silent_pure ()
  refine hw.silent_bind fun _ => Yields.silent_bind ?_ fun _ =>
    (Yields.check sql).silent_bind fun _ => .silent_pure _
  exact .silent_modify (fun _ => rfl) fun _ => rfl

theorem rename {a : Operation α} {b : Operation Unit} (ha : Performs name d [t] good a)
    (hb : ∀ w, b w = match a w with
      | (.ok _, v) => (.ok (), v)
      | (.error e, v) => (.error (t'.blame e), v))
    (hs : t'.statement = t.statement) (he : t'.event = t.event) (hi : t.blame = id) :
    Performs name d [t'] (fun _ => True) b := by
  intro w hw
  obtain ⟨hv, es, hl, hc⟩ := ha w hw
  have hr := hb w
  rcases h : a w with ⟨e | x, v⟩
  · simp only [h] at hr hv hl hc
    obtain ⟨rfl, e', hk, rfl⟩ := hc.of_singleton
    rw [hr, hi]
    have hc' : Carried d (fun _ : Unit => True) [t'] [t'.event] (.error (t'.blame e')) :=
      .struck (hs ▸ hk)
    rw [he] at hc'
    exact ⟨hv, _, hl, hc'⟩
  · simp only [h] at hr hv hl hc
    obtain ⟨-, rfl⟩ := hc.of_ok
    rw [hr]
    have hc' : Carried d (fun _ => True) [t'] [t'.event] (.ok ()) := .step (.done trivial)
    rw [he] at hc'
    exact ⟨hv, _, hl, hc'⟩

end Performs

end SchemaHost.Server
