import SchemaHost.Proofs.Server.Frame
import SchemaHost.Proofs.World.Triple

/-! # Databases that answer

What operations find and leave of the server and of the pools. Connections, statements and
transactions that come through leave both as they are, and they come through where the database is
there and no failure is arranged for it.
-/

namespace SchemaHost

open Operation Server

/-- What work in databases depends on. -/
structure Hosting where
  settings : Settings
  server : Server
  pools : List (String × Pool)

def World.hosting (w : World) : Hosting :=
  ⟨w.settings, w.server, w.pools⟩

def Hosting.Answers (h : Hosting) (name : String) : Prop :=
  ∃ d, h.server.get? name = some d ∧ d.outages = []

/-- What the operation comes to under a hosting and the hosting that it leaves, if it comes through;
and it comes through where its needs are met. -/
def Runs {α : Type} (h : Hosting) (needs : Prop) (a : Operation α) (P : α → Hosting → Prop) :
    Prop :=
  Triple (·.hosting = h) a (fun x v => P x v.hosting) fun _ _ => ¬ needs

def Passes {α : Type} (h : Hosting) (needs : Prop) (a : Operation α) : Prop :=
  Runs h needs a fun _ h' => h' = h

variable {α β : Type} {h : Hosting} {needs : Prop} {a : Operation α} {P : α → Hosting → Prop}
  {Q : β → Hosting → Prop} {w : World} {name : String}

namespace Runs

theorem of_ok (ha : ∀ w, w.hosting = h → ∃ x, (a w).1 = .ok x ∧ P x (a w).2.hosting) :
    Runs h needs a P :=
  Triple.of_ok ha

theorem result (ha : Runs h needs a P) (hw : w.hosting = h) {x : α} (hx : (a w).1 = .ok x) :
    P x (a w).2.hosting :=
  ha.ok hw hx

theorem exists_ok (ha : Runs h needs a P) (hn : needs) (hw : w.hosting = h) :
    ∃ x, (a w).1 = .ok x ∧ P x (a w).2.hosting := by
  refine Triple.exists_ok (Triple.mono ha (fun _ h => h) (fun _ _ h => h) ?_) hw
  exact fun _ _ h => h hn

theorem mono {P' : α → Hosting → Prop} {needs' : Prop} (ha : Runs h needs a P)
    (hn : needs' → needs) (hP : ∀ x h', P x h' → P' x h') : Runs h needs' a P' :=
  Triple.mono ha (fun _ h => h) (fun _ _ => hP _ _) fun _ _ h hn' => h (hn hn')

theorem congr {b : Operation α} (hb : Runs h needs b P) (he : ∀ w, w.hosting = h → a w = b w) :
    Runs h needs a P :=
  Triple.congr hb he

theorem pure {x : α} (hP : P x h) : Runs h needs (Pure.pure x) P :=
  of_ok fun _ hw => ⟨x, rfl, hw ▸ hP⟩

theorem bind {f : α → Operation β} (ha : Runs h needs a P)
    (hf : ∀ x h', P x h' → Runs h' needs (f x) Q) : Runs h needs (a >>= f) Q :=
  Triple.bind ha fun x =>
    ⟨fun hv hy => (hf x _ hv).ok rfl hy, fun hv he => (hf x _ hv).error rfl he⟩

theorem get_bind {f : World → Operation β} (hf : ∀ u, u.hosting = h → Runs h needs (f u) Q) :
    Runs h needs (Operation.get >>= f) Q :=
  Triple.get_bind fun u hu =>
    Triple.restrict (hf u hu) fun _ hv => hv ▸ hu

end Runs

namespace Passes

theorem of_ok (ha : ∀ w, w.hosting = h → ∃ x, (a w).1 = .ok x ∧ (a w).2.hosting = h) :
    Passes h needs a :=
  Runs.of_ok ha

theorem runs (ha : Passes h needs a) (hP : ∀ x, P x h) : Runs h needs a P :=
  Runs.mono ha id fun x _ hh => hh ▸ hP x

theorem bind {f : α → Operation β} (ha : Passes h needs a) (hf : ∀ x, Runs h needs (f x) Q) :
    Runs h needs (a >>= f) Q :=
  Runs.bind ha fun x _ hh => hh ▸ hf x

theorem pure (x : α) : Passes h needs (Pure.pure x) :=
  Runs.pure rfl

end Passes

namespace Server

theorem record_passes (name : String) (e : ServerEvent) : Passes h needs (record name e) :=
  .of_ok fun _ hw => ⟨(), rfl, hw⟩

theorem check_snd_of_ok {statement : String} {x : Unit} (hx : (check name statement w).1 = .ok x) :
    (check name statement w).2 = w := by
  cases hd : (database name w).1 with
  | error e =>
    rw [check, run_bind_error hd] at hx
    cases hx
  | ok d =>
    rw [check, run_bind_ok hd, (database_eq_ok hd).2] at hx ⊢
    cases hf : d.fail? statement with
    | none => rfl
    | some p => simp [hf, putDatabase] at hx

theorem check_of_answers (ha : w.hosting.Answers name) (statement : String) :
    check name statement w = (.ok (), w) := by
  obtain ⟨d, hd, ho⟩ := ha
  have hd : w.server.get? name = some d := hd
  simp [check, database, hd, Database.fail?, ho, spendFirst]

theorem check_passes (statement : String) : Passes h (h.Answers name) (check name statement) where
  ok hw hx := by
    rw [check_snd_of_ok hx]
    exact hw
  error {w e} hw he ha := by
    rw [check_of_answers (hw ▸ ha)] at he
    cases he

theorem openConnection_passes : Passes h (h.Answers name) (openConnection name) :=
  (record_passes name _).bind fun _ => check_passes _

theorem execute_passes (sql : String) (ps : List (String × String)) :
    Passes h (h.Answers name) (execute name sql ps) :=
  (record_passes name _).bind fun _ => check_passes _

theorem thenClose_runs (ha : Runs h needs a P) : Runs h needs (thenClose name a) P where
  ok hw hx := by
    rw [thenClose_eq] at hx ⊢
    exact ha.ok hw hx
  error hw he := by
    rw [thenClose_eq] at he
    exact ha.error hw he

theorem withConnection_runs (ha : Runs h (h.Answers name) a P) :
    Runs h (h.Answers name) (withConnection name a) P :=
  openConnection_passes.bind fun _ => thenClose_runs ha

theorem database_passes : Passes h (h.Answers name) (database name) where
  ok hw hx := by
    rw [(database_eq_ok hx).2]
    exact hw
  error {w e} hw he ha := by
    obtain ⟨d, hd, -⟩ := ha
    subst hw
    have hd : w.server.get? name = some d := hd
    simp [database, hd] at he

theorem send_passes (sql : String) : Passes h (h.Answers name) (send name sql) := by
  refine (record_passes name _).bind fun _ => database_passes.bind fun d => ?_
  refine Passes.bind ?_ fun _ => ?_
  · unfold applyWipes
    split
    · exact .of_ok fun _ hw => ⟨(), rfl, hw⟩
    · exact .pure ()
  · refine Passes.bind (.of_ok fun _ hw => ⟨(), rfl, hw⟩) fun _ => ?_
    exact (check_passes sql).bind fun _ => .pure rfl

theorem withinTransaction_passes (ha : Passes h (h.Answers name) a) :
    Passes h (h.Answers name) (withinTransaction name a) := by
  refine (check_passes _).bind fun _ => (record_passes name _).bind fun _ => ?_
  have hb : Passes h (h.Answers name) (do let x ← a; check name "COMMIT"; return x) :=
    ha.bind fun x => (check_passes _).bind fun _ => .pure rfl
  refine Triple.attempt_bind hb (fun x => ?_) fun e => ?_
  · exact (record_passes name _).bind (Q := fun _ h' => h' = h) fun _ => .pure rfl
  · exact (Triple.fact _).bind fun _ => .fail fun _ hn => hn

theorem transaction_passes (ha : Passes h (h.Answers name) a) :
    Passes h (h.Answers name) (transaction name a) :=
  withConnection_runs (withinTransaction_passes ha)

theorem forEach_passes {γ : Type} {f : γ → Operation Unit} {xs : List γ}
    (hf : ∀ x ∈ xs, Passes h needs (f x)) : Passes h needs (forEach f xs) := by
  induction xs with
  | nil => exact .pure ()
  | cons x xs ih =>
    exact (hf x List.mem_cons_self).bind fun _ => ih fun y hy => hf y (List.mem_cons_of_mem x hy)

theorem dispose_passes (p : Pool) :
    Passes h (h.server.get? p.database = none ∨ h.Answers p.database) (dispose p) := by
  refine (record_passes _ _).bind fun _ => .get_bind fun u hu => ?_
  subst hu
  split
  · next d hd =>
    refine Runs.mono (check_passes _) (fun hn => hn.resolve_left fun hg => ?_) fun _ _ hh => hh
    cases hg.symm.trans hd
  · exact .pure rfl

end Server

end SchemaHost
