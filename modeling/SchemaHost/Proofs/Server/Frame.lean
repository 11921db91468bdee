import SchemaHost.Proofs.Lookup
import SchemaHost.Proofs.World.Frame
import SchemaHost.Tenant.Pool

/-! # Frames of work on a database

Connections, statements and transactions are built from four things: an event goes into the log,
a failure that is due is spent, records are wiped, and time passes. A frame that admits these
admits all that is built from them, and one that admits all events also pools.
-/

namespace SchemaHost

namespace ServerEvent

def isMark : ServerEvent → Bool
  | begun => true
  | committed => true
  | rolledBack => true
  | savepoint => true
  | released => true
  | rolledBackTo => true
  | _ => false

def isTenure : ServerEvent → Bool
  | pool _ => true
  | disposed => true
  | _ => false

def isUse (e : ServerEvent) : Bool :=
  !e.isMark && !e.isTenure

theorem isMark_of_isUse {e : ServerEvent} (h : e.isUse = true) : e.isMark = false := by
  simpa using (Bool.and_eq_true_iff.mp h).1

theorem isTenure_of_isUse {e : ServerEvent} (h : e.isUse = true) : e.isTenure = false := by
  simpa using (Bool.and_eq_true_iff.mp h).2

theorem isTenure_of_isMark {e : ServerEvent} (h : e.isMark = true) : e.isTenure = false := by
  cases e <;> first | rfl | cases h

end ServerEvent

namespace Server

open Operation

theorem get?_erase_of_ne (s : Server) {name other : String} (h : other ≠ name) :
    (s.erase name).get? other = s.get? other :=
  lookup_filter_of_ne h s.databases

theorem get?_erase_self (s : Server) (name : String) : (s.erase name).get? name = none := by
  rw [get?, List.lookup_eq_none_iff]
  intro p hp
  have hn : p.1 ≠ name := by simpa using (List.mem_filter.mp hp).2
  simpa using hn.symm

theorem get?_put_of_ne (s : Server) {name other : String} (h : other ≠ name) (d : Database) :
    (s.put name d).get? other = s.get? other := by
  rw [← get?_erase_of_ne s h]
  simp [put, get?, List.lookup_cons, beq_eq_false_iff_ne.mpr h]

variable {α : Type} {R : World → World → Prop} {name : String}

theorem thenClose_eq (name : String) (body : Operation α) (w : World) :
    thenClose name body w =
      ((body w).1, { (body w).2 with log := (body w).2.log ++ [.server name .closed] }) := by
  simp only [thenClose, run_bind, run_attempt, record, log, run_modify]
  cases (body w).1 with
  | ok x => rfl
  | error e => rfl

theorem database_eq_ok {d : Database} {w : World} (h : (database name w).1 = .ok d) :
    w.server.get? name = some d ∧ (database name w).2 = w := by
  simp only [database, run_bind, run_get] at h ⊢
  cases hd : w.server.get? name with
  | none => simp [hd] at h
  | some d' =>
    simp only [hd, run_pure, Except.ok.injEq] at h ⊢
    exact ⟨congrArg some h, trivial⟩

theorem within_check (hR : IsFrame R) {statement : String}
    (h : ∀ w d e d', w.server.get? name = some d → d.fail? statement = some (e, d') →
      R w { w with server := w.server.put name d' }) : Within R (check name statement) := by
  intro w
  simp only [check, database, run_bind, run_get]
  cases hd : w.server.get? name with
  | none => exact hR.refl w
  | some d =>
    cases hf : d.fail? statement with
    | none => simpa [hf] using hR.refl w
    | some p => simpa [hf, putDatabase] using h w d p.1 p.2 hd hf

theorem within_applyWipes (hR : IsFrame R) {d : Database} {sql : String}
    (h : ∀ w, R w { w with registry := { w.registry with records := [] } }) :
    Within R (applyWipes d sql) := by
  unfold applyWipes
  split
  · exact h
  · exact hR.pure ()

structure Uses (R : World → World → Prop) (name : String) : Prop extends IsFrame R where
  use (e : ServerEvent) : e.isUse = true → Within R (record name e)
  check (statement : String) : Within R (check name statement)
  wipe {w : World} {d : Database} (sql : String) :
    w.server.get? name = some d → R w (applyWipes d sql w).2
  elapse (s : Float) : Within R (modify fun w => { w with stopwatch := w.stopwatch + s })

namespace Uses

variable (hR : Uses R name)
include hR

theorem openConnection : Within R (openConnection name) :=
  hR.bind (hR.use _ rfl) fun _ => hR.check _

theorem thenClose_at {body : Operation α} {w : World} (h : R w (body w).2) :
    R w (thenClose name body w).2 := by
  refine hR.bind_at (a := attempt body) h fun r _ => ?_
  exact hR.bind (hR.use _ rfl) (fun _ => hR.ofExcept r) _

theorem withConnection_at {body : Operation α} {w : World}
    (h : R (Server.openConnection name w).2 (body (Server.openConnection name w).2).2) :
    R w (withConnection name body w).2 :=
  hR.bind_at (hR.openConnection w) fun _ _ => hR.thenClose_at h

theorem withConnection {body : Operation α} (h : Within R body) :
    Within R (withConnection name body) :=
  fun _ => hR.withConnection_at (h _)

theorem execute (sql : String) (ps : List (String × String) := []) :
    Within R (execute name sql ps) :=
  hR.bind (hR.use _ rfl) fun _ => hR.check _

theorem database : Within R (database name) := by
  refine hR.bind hR.get fun w => ?_
  split
  · exact hR.pure _
  · exact hR.fail _

theorem send (sql : String) : Within R (send name sql) := by
  refine hR.bind (hR.use _ rfl) fun _ w => hR.bind_at (hR.database w) fun d h => ?_
  obtain ⟨hd, hw⟩ := database_eq_ok h
  rw [hw]
  exact hR.bind_at (hR.wipe sql hd) fun _ _ =>
    hR.bind (hR.elapse _) (fun _ => hR.bind (hR.check sql) fun _ => hR.pure _) _

end Uses

structure UsesAll (R : World → World → Prop) (name : String) : Prop extends Uses R name where
  mark (e : ServerEvent) : e.isMark = true → Within R (Server.record name e)

theorem UsesAll.mono {S : World → World → Prop} (hS : UsesAll S name) (hR : IsFrame R)
    (h : ∀ {u v}, S u v → R u v) : UsesAll R name where
  toIsFrame := hR
  use e he := (hS.use e he).mono h
  mark e he := (hS.mark e he).mono h
  check statement := (hS.check statement).mono h
  wipe sql hd := h (hS.wipe sql hd)
  elapse s := (hS.elapse s).mono h

namespace UsesAll

variable (hR : UsesAll R name)
include hR

theorem withinTransaction {body : Operation α} (h : Within R body) :
    Within R (withinTransaction name body) := by
  refine hR.bind (hR.check _) fun _ => hR.bind (hR.mark _ rfl) fun _ => ?_
  refine hR.bind (hR.bind h fun _ => hR.bind (hR.check _) fun _ => hR.pure _).attempt fun r => ?_
  cases r with
  | ok a => exact hR.bind (hR.mark _ rfl) fun _ => hR.pure a
  | error e => exact hR.bind (hR.mark _ rfl) fun _ => hR.fail e

theorem withinSavepoint {body : Operation α} (h : Within R body) :
    Within R (withinSavepoint name body) := by
  refine hR.bind (hR.check _) fun _ => hR.bind (hR.mark _ rfl) fun _ => ?_
  refine hR.bind (hR.bind h fun _ => hR.bind (hR.check _) fun _ => hR.pure _).attempt fun r => ?_
  cases r with
  | ok a => exact hR.bind (hR.mark _ rfl) fun _ => hR.pure a
  | error e => exact hR.bind (hR.mark _ rfl) fun _ => hR.fail e

theorem transaction {body : Operation α} (h : Within R body) :
    Within R (transaction name body) :=
  hR.withConnection (hR.withinTransaction h)

end UsesAll

/-- The frame admits pools as well, each step of making them and of giving them up by itself. -/
structure Admits (R : World → World → Prop) (name : String) : Prop extends Uses R name where
  record (e : ServerEvent) : e.isMark = false → Within R (record name e)
  use := fun e h => record e (ServerEvent.isMark_of_isUse h)

theorem Admits.dispose (hR : Admits R name) {p : Pool} (hp : p.database = name) :
    Within R (dispose p) := by
  subst hp
  refine hR.bind (hR.record _ rfl) fun _ => hR.bind hR.get fun w => ?_
  split
  · exact hR.check _
  · exact hR.pure _

structure AdmitsAll (R : World → World → Prop) (name : String) : Prop
    extends Admits R name, UsesAll R name

end Server

end SchemaHost
