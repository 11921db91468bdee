import Mathlib.Order.Nat
import SchemaHost.Proofs.Overview.Legible
import SchemaHost.Proofs.Update.Turns

/-! # An overview and an update that take turns

Whoever asks for an overview looks into the cache, then at the record, and then keeps what was made;
an update records its document, rebuilds the tables, marks the record and then invalidates the
cached overview. When both have come to their end, the cached overview is that of the record in
force, unless the record was looked at before it was marked and the overview was kept after the
cached one was invalidated.
-/

namespace SchemaHost

open Operation Registry Cache

variable {w v : World} {tenant : String} {r : UpdateRequest} {t : Registry.Tenant}

/-! ## What is cached -/

/-- The overview is the one of the tenant and its record in force. -/
def World.Presents (w : World) (tenant : String) (o : Overview) : Prop :=
  ∀ t c, w.registry.tenant? tenant = some t → w.registry.activeRecord? tenant = some c →
    o = Overview.ofRecord t c

/-- The tenant's record in force has a document, and its tables can be counted. -/
def World.HasDocument (w : World) (tenant : String) : Prop :=
  ∃ c, w.registry.activeRecord? tenant = some c ∧ c.hasCode = true ∧ Overview.IsCountable c.code

theorem Overview.cached?_of_legible (hw : w.IsTidy)
    (hl : ∀ e ∈ w.cachedOverviews tenant, IsLegible e.value) :
    ∃ o?, (cached? tenant w).1 = .ok o? := by
  have hs := admitsReads_sheds.client tenant w
  obtain ⟨x, hx, hk, -⟩ := client_spec hw.toHasCache tenant
  have hu := hs.tidy hw
  have hg : (glance tenant w).1 = .ok (((client tenant w).2.cache.expire
      (client tenant w).2.now).get? x.space (Tenant.overviewKey tenant)) := by
    rw [glance, run_bind_ok hx]
    exact congrArg Prod.fst (command_eq hu.toHasCache _ _ _)
  rw [cached?_eq, hg]
  refine taken_ok_iff.mpr ⟨fun _ he => (by cases he), fun text ht => ?_⟩
  -- the entry that is read, which was there before the client
  obtain ⟨e, hm, rfl⟩ := exists_cachedOverview hu hk (Except.ok.inj ht)
  obtain ⟨e', he', ha⟩ := mem_cachedOverviews_of_sheds hs hw hm
  exact ha.value ▸ hl e' he'

theorem World.IsTidy.keep (h : w.IsTidy) (space : Int) (key value : String)
    (expiry : Option Time.Instant) (log : List Event) :
    World.IsTidy { w with
      log := log, cache := (w.cache.expire w.now).set space key value expiry } :=
  have hset := set_outages (w.cache.expire w.now) space key value expiry
  { quiet := fail?_congr (c := w.cache) hset.1 h.quiet
    namespaces := h.namespaces
    respawn := hset.2.trans h.respawn
    clients := h.clients }

theorem Update.persist_active {w₁ : World} {p : Persisted} (ho : w.registry.Orderly)
    (h : persist tenant r w = (.ok p, w₁)) :
    ∃ d, w₁.registry.activeRecord? tenant = some d ∧ d.id = p.id ∧ d.code = r.code := by
  have hk := (persist_orderly ho h).keyed
  simp only [hk.activeRecord?_eq_some]
  simp only [persist, run_bind, run_get] at h
  cases ha : w.registry.activeRecord? tenant with
  | some a =>
    simp only [ha, run_bind, run_modify, run_pure, Prod.mk.injEq, Except.ok.injEq] at h
    obtain ⟨rfl, rfl⟩ := h
    obtain ⟨hm, ht, hact⟩ := mem_of_activeRecord? ha
    exact ⟨_, ⟨List.mem_map.mpr ⟨a, hm, revise_of_id rfl⟩, by simp [describe, ht],
      by simp [describe, hact]⟩, by simp [describe], by simp [describe]⟩
  | none =>
    simp only [ha, run_bind, run_modify, run_pure, Prod.mk.injEq, Except.ok.injEq] at h
    obtain ⟨rfl, rfl⟩ := h
    exact ⟨_, ⟨List.mem_append_right _ List.mem_cons_self, rfl, rfl⟩, rfl, rfl⟩

namespace Overview

/-! ## Steps -/

inductive Reader where
  | fresh
  | missed (t : Registry.Tenant)
  | made (o : Overview)
  | returned (o : Overview)

/-- The next step of a request. After a look into the cache there may be nothing left to do. -/
def Reader.advance (tenant : String) : Reader → Operation Reader
  | fresh => do
    let t ← findTenant tenant
    match ← cached? tenant with
    | some o => return returned o
    | none => return missed t
  | missed t => return made (← make t)
  | made o => do
    keep tenant o
    return returned o
  | returned o => return returned o

inductive Writer where
  | fresh
  | recorded (p : Update.Persisted)
  | rebuilt (p : Update.Persisted) (failures : Nat)
  | marked (c : Record)
  | returned (c : Record)

def Writer.advance (tenant : String) (r : UpdateRequest) : Writer → Operation Writer
  | fresh => do
    let _ ← findTenant tenant
    return recorded (← Update.persist tenant r)
  | recorded p => do
    let plan := Ddl.compile (← get).settings.defaultSchema r.code
    return rebuilt p (← Update.reconcileOrCompensate tenant p.id plan)
  | rebuilt p n => return marked (← Update.finalize p.id (.applied n !p.created))
  | marked c => do
    invalidate tenant
    return returned c
  | returned c => return returned c

/-- A request is its three steps one behind another. -/
theorem reader_eq_serve (tenant : String) :
    (do
      let s ← Reader.fresh.advance tenant
      let s ← s.advance tenant
      s.advance tenant) =
    (do return Reader.returned (← serve tenant)) := by
  funext w
  simp only [Reader.advance, serve, run_bind]
  rcases findTenant tenant w with ⟨_ | t, u⟩
  · rfl
  · dsimp only
    rcases cached? tenant u with ⟨_ | _ | o, u⟩
    · rfl
    · dsimp only [run_pure]
      simp only [run_bind]
      rcases make t u with ⟨_ | o, u⟩
      · rfl
      · dsimp only [run_pure]
        simp only [run_bind]
        rcases keep tenant o u with ⟨_ | _, u⟩
        · rfl
        · rfl
    · rfl

theorem writer_eq_update (tenant : String) (h : Text.isAllBlank r.code.toList = false) :
    (do
      let s ← Writer.fresh.advance tenant r
      let s ← s.advance tenant r
      let s ← s.advance tenant r
      s.advance tenant r) =
    (do return Writer.returned (← Update.update tenant r)) := by
  simp only [Update.update, Update.conclude, Writer.advance, bind_assoc, pure_bind, h,
    Bool.false_eq_true, if_false]

/-! ## Turns -/

inductive Side where
  | reader
  | writer
  deriving DecidableEq, Repr

structure Stages where
  reader : Reader := .fresh
  writer : Writer := .fresh

/-- The request and the update take turns, each at a time of its own. The latest comes first. -/
def perform (tenant : String) (r : UpdateRequest) : List (Side × Time.Instant) → Operation Stages
  | [] => return {}
  | (x, now) :: before => do
    let s ← perform tenant r before
    modify fun w => { w with now := now }
    match x with
    | .reader => return { s with reader := ← s.reader.advance tenant }
    | .writer => return { s with writer := ← s.writer.advance tenant r }

variable {before turns : List Side} {s : Stages} {k m : Nat}

/-- How many turns the update had taken as the request took its turn of this number. -/
def seen (k : Nat) : List Side → Option Nat
  | [] => none
  | x :: before =>
    if x = .reader ∧ before.count .reader = k then some (before.count .writer) else seen k before

/-- The record was looked at before it was marked, and its overview was kept after the cached one
was invalidated. -/
def Overtaken (turns : List Side) : Prop :=
  (∃ m ∈ seen 1 turns, m < 3) ∧ ∃ n ∈ seen 2 turns, 4 ≤ n

instance (turns : List Side) : Decidable (Overtaken turns) :=
  inferInstanceAs (Decidable ((∃ m ∈ seen 1 turns, m < 3) ∧ ∃ n ∈ seen 2 turns, 4 ≤ n))

theorem seen_writer (k : Nat) (before : List Side) :
    seen k (.writer :: before) = seen k before := by
  simp [seen]

theorem seen_reader (h : before.count .reader = k) :
    seen k (.reader :: before) = some (before.count .writer) := by
  simp [seen, h]

theorem seen_reader_of_ne (h : before.count .reader ≠ k) :
    seen k (.reader :: before) = seen k before := by
  simp [seen, h]

theorem seen_le (h : m ∈ seen k turns) :
    m ≤ turns.count .writer ∧ k < turns.count .reader := by
  induction turns with
  | nil => cases h
  | cons x before ih =>
    cases x with
    | writer =>
      rw [seen_writer] at h
      have := ih h
      simp only [List.count_cons_self, List.count_cons_of_ne (show Side.writer ≠ .reader by decide)]
      omega
    | reader =>
      simp only [List.count_cons_self, List.count_cons_of_ne (show Side.reader ≠ .writer by decide)]
      by_cases hk : before.count .reader = k
      · rw [seen_reader hk] at h
        cases h
        omega
      · rw [seen_reader_of_ne hk] at h
        have := ih h
        omega

theorem exists_seen (h : k < turns.count .reader) : ∃ m, m ∈ seen k turns := by
  induction turns with
  | nil => simp at h
  | cons x before ih =>
    cases x with
    | writer =>
      rw [seen_writer]
      rw [List.count_cons_of_ne (by decide)] at h
      exact ih h
    | reader =>
      by_cases hk : before.count .reader = k
      · exact ⟨_, seen_reader hk⟩
      · rw [seen_reader_of_ne hk]
        rw [List.count_cons_self] at h
        exact ih (by omega)

theorem seen_cons (h : m ∈ seen k before) (x : Side) : m ∈ seen k (x :: before) := by
  cases x with
  | writer => rwa [seen_writer]
  | reader => rwa [seen_reader_of_ne (seen_le h).2.ne']

theorem Overtaken.cons (h : Overtaken before) (x : Side) : Overtaken (x :: before) := by
  obtain ⟨⟨m, hm, hm3⟩, n, hn, hn4⟩ := h
  exact ⟨⟨m, seen_cons hm x, hm3⟩, n, seen_cons hn x, hn4⟩

/-! ## What turns leave -/

def Reader.IsAt (t : Registry.Tenant) : Nat → Reader → Prop
  | 0, s => s = fresh
  | 1, s => s = missed t ∨ ∃ o, s = returned o
  | 2, s => (∃ o, s = made o) ∨ ∃ o, s = returned o
  | _ + 3, s => ∃ o, s = returned o

def Writer.IsAt (g : Registry) (tenant : String) : Nat → Writer → Prop
  | 0, s => s = fresh
  | 1, s => ∃ p, s = recorded p ∧ ∃ d, g.activeRecord? tenant = some d ∧ d.id = p.id
  | 2, s => ∃ p n, s = rebuilt p n ∧ ∃ d, g.activeRecord? tenant = some d ∧ d.id = p.id
  | 3, s => ∃ c, s = marked c
  | _ + 4, s => ∃ c, s = returned c

/-- When the record is looked at, it has a document: there was one to begin with, or the update has
put its own on record. -/
def Answerable (tenant : String) (w : World) (turns : List Side) : Prop :=
  w.HasDocument tenant ∨ ∀ m ∈ seen 1 turns, 1 ≤ m

theorem Answerable.of_cons {x : Side} (h : Answerable tenant w (x :: before)) :
    Answerable tenant w before :=
  h.imp_right fun h m hm => h m (seen_cons hm x)

structure Course (tenant : String) (t : Registry.Tenant) (w : World) (turns : List Side)
    (s : Stages) (v : World) : Prop where
  tidy : v.IsTidy
  calm : v.Calm tenant
  orderly : v.registry.Orderly
  row : v.registry.tenant? tenant = some t
  record : w.HasDocument tenant ∨ 1 ≤ turns.count .writer → v.HasDocument tenant
  reader : s.reader.IsAt t (turns.count .reader)
  writer : s.writer.IsAt v.registry tenant (turns.count .writer)
  legible : turns.count .reader = 0 → ∀ e ∈ v.cachedOverviews tenant, IsLegible e.value
  short (o : Overview) : s.reader = .made o → o.IsShort {}
  made (o : Overview) (m : Nat) : s.reader = .made o → m ∈ seen 1 turns → 3 ≤ m →
    v.Presents tenant o
  kept : 4 ≤ turns.count .writer → ∀ e ∈ v.cachedOverviews tenant,
    ∃ o, s.reader = .returned o ∧ e.value = o.toJson.write ∧
      (¬ Overtaken turns → v.Presents tenant o)

namespace Course

variable (h : Course tenant t w before s v)
include h

theorem at_time (now : Time.Instant) : Course tenant t w before s { v with now := now } where
  tidy := h.tidy.of_eq rfl rfl
  calm := Update.World.Calm.of_eq h.calm (h.tidy.toHasCache.of_eq rfl rfl) rfl rfl
  orderly := h.orderly
  row := h.row
  record := h.record
  reader := h.reader
  writer := h.writer
  legible := h.legible
  short := h.short
  made := h.made
  kept := h.kept

/-- A turn of the update. It has to leave the record alone once this is marked, and the overview out
of the cache once this is invalidated. -/
theorem write {v' : World} {s' : Writer} (hv : v'.IsTidy)
    (hs : ∀ e ∈ v'.cachedOverviews tenant, ∃ e' ∈ v.cachedOverviews tenant, e.Agrees e')
    (hc : v'.Calm tenant) (ho : v'.registry.Orderly)
    (ht : v'.registry.tenants = v.registry.tenants) (hd : v'.HasDocument tenant)
    (hw : s'.IsAt v'.registry tenant (before.count .writer + 1))
    (hm : 3 ≤ before.count .writer → v'.registry = v.registry)
    (hi : before.count .writer = 3 → v'.cachedOverviews tenant = []) :
    Course tenant t w (.writer :: before) { s with writer := s' } v' := by
  have hcount : (Side.writer :: before).count .reader = before.count .reader :=
    List.count_cons_of_ne (by decide)
  have presents {o : Overview} (h3 : 3 ≤ before.count .writer) (ho : v.Presents tenant o) :
      v'.Presents tenant o := by
    rw [World.Presents, hm h3]
    exact ho
  exact {
    tidy := hv
    calm := hc
    orderly := ho
    row := by
      rw [Registry.tenant?, ht]
      exact h.row
    record := fun _ => hd
    reader := by
      rw [hcount]
      exact h.reader
    writer := by
      rw [List.count_cons_self]
      exact hw
    legible := fun h0 e he => by
      obtain ⟨e', he', ha⟩ := hs e he
      exact ha.value ▸ h.legible (hcount ▸ h0) e' he'
    short := h.short
    made := fun o m ho hseen h3 => by
      rw [seen_writer] at hseen
      exact presents (h3.trans (seen_le hseen).1) (h.made o m ho hseen h3)
    kept := fun h4 e he => by
      rw [List.count_cons_self] at h4
      by_cases h3 : before.count .writer = 3
      · rw [hi h3] at he
        cases he
      · obtain ⟨e', he', ha⟩ := hs e he
        obtain ⟨o, ho, hv, hp⟩ := h.kept (by omega) e' he'
        exact ⟨o, ho, ha.value.symm.trans hv,
          fun hn => presents (by omega) (hp (mt (Overtaken.cons · .writer) hn))⟩ }

theorem read {v' : World} {s' : Reader} (hr : v'.registry = v.registry) (ht : v'.IsTidy)
    (hc : v'.Calm tenant) (hx : s'.IsAt t (before.count .reader + 1))
    (hm : ∀ o, s' = .made o → o.IsShort {} ∧ v.Presents tenant o)
    (hk : 4 ≤ before.count .writer → ∀ e ∈ v'.cachedOverviews tenant,
      ∃ o, s' = .returned o ∧ e.value = o.toJson.write ∧
        (¬ Overtaken (.reader :: before) → v.Presents tenant o)) :
    Course tenant t w (.reader :: before) { s with reader := s' } v' := by
  have hcount : (Side.reader :: before).count .writer = before.count .writer :=
    List.count_cons_of_ne (by decide)
  have presents {o : Overview} (ho : v.Presents tenant o) : v'.Presents tenant o := by
    rw [World.Presents, hr]
    exact ho
  exact {
    tidy := ht
    calm := hc
    orderly := hr ▸ h.orderly
    row := hr ▸ h.row
    record := fun hd => by
      rw [World.HasDocument, hr]
      exact h.record (hcount ▸ hd)
    reader := by
      rw [List.count_cons_self]
      exact hx
    writer := by
      rw [hcount, hr]
      exact h.writer
    legible := fun h0 => by simp at h0
    short := fun o ho => (hm o ho).1
    made := fun o _ ho _ _ => presents (hm o ho).2
    kept := fun h4 e he => by
      obtain ⟨o, ho, hv, hp⟩ := hk (hcount ▸ h4) e he
      exact ⟨o, ho, hv, fun hn => presents (hp hn)⟩ }

/-! ## The update's turns -/

theorem persist (hb : Text.isAllBlank r.code.toList = false) (hn : IsCountable r.code)
    (hx : before.count .writer = 0) :
    ∃ s' v', s.writer.advance tenant r v = (.ok s', v') ∧
      Course tenant t w (.writer :: before) { s with writer := s' } v' := by
  have hs : s.writer = .fresh := by simpa [hx, Writer.IsAt] using h.writer
  obtain ⟨p, v₁, hp⟩ := Update.persist_ok tenant r v
  obtain ⟨d, hd, hid, hcode⟩ := Update.persist_active h.orderly hp
  obtain ⟨⟨g, rfl⟩, -⟩ := Update.persist_spec hp
  have ht : g.tenants = v.registry.tenants := by
    rcases Update.persist_cases hp with ⟨c, -, -, he⟩ | ⟨-, c, -, -, -, -, he, -⟩
    · exact congrArg (·.registry.tenants) he
    · exact congrArg (·.registry.tenants) he
  refine ⟨.recorded p, { v with registry := g }, ?_, ?_⟩
  · rw [hs, Writer.advance, run_bind, findTenant_eq h.row]
    simp only [run_bind, hp, run_pure]
  · refine h.write (h.tidy.of_eq rfl rfl)
      (fun e he => ⟨e, he, .refl e⟩)
      (Update.World.Calm.of_eq h.calm (h.tidy.toHasCache.of_eq rfl rfl) rfl rfl)
      (Update.persist_orderly h.orderly hp) ht ⟨d, hd, ?_, hcode ▸ hn⟩
      (by rw [hx]; exact ⟨p, rfl, d, hd, hid⟩) (by omega) (by omega)
    simp [Record.hasCode, hcode, hb]

theorem rebuild (hx : before.count .writer = 1) :
    ∃ s' v', s.writer.advance tenant r v = (.ok s', v') ∧
      Course tenant t w (.writer :: before) { s with writer := s' } v' := by
  obtain ⟨p, hs, hp⟩ : ∃ p, s.writer = .recorded p ∧
      ∃ d, v.registry.activeRecord? tenant = some d ∧ d.id = p.id := by
    simpa only [hx, Writer.IsAt] using h.writer
  let plan := Ddl.compile v.settings.defaultSchema r.code
  obtain ⟨n, hn⟩ := h.calm.reconcile_ok plan
  have ha := h.calm.reconcile_aloof plan
  have hsp := (Update.reconcile_spares tenant plan v).sheds
  refine ⟨.rebuilt p n, (Update.reconcile tenant plan v).2, ?_, ?_⟩
  · rw [hs, Writer.advance]
    simp only [run_bind, run_get, Update.reconcileOrCompensate, run_attempt, hn, run_pure, plan]
  · refine h.write (hsp.tidy h.tidy) (fun e he => mem_cachedOverviews_of_sheds hsp h.tidy he)
      (h.calm.reconcile plan) (ha.1 ▸ h.orderly) (congrArg Registry.tenants ha.1) ?_
      (by rw [hx, ha.1]; exact ⟨p, n, rfl, hp⟩) (by omega) (by omega)
    rw [World.HasDocument, ha.1]
    exact h.record (.inr hx.ge)

theorem mark (hx : before.count .writer = 2) :
    ∃ s' v', s.writer.advance tenant r v = (.ok s', v') ∧
      Course tenant t w (.writer :: before) { s with writer := s' } v' := by
  obtain ⟨p, n, hs, d, hd, hid⟩ : ∃ p n, s.writer = .rebuilt p n ∧
      ∃ d, v.registry.activeRecord? tenant = some d ∧ d.id = p.id := by
    simpa only [hx, Writer.IsAt] using h.writer
  obtain ⟨d', hd', hcode, hcount⟩ := h.record (.inr (by omega))
  obtain rfl : d = d' := Option.some.inj (hd.symm.trans hd')
  have hr : v.registry.under p.id ≠ [] :=
    List.ne_nil_of_mem (mem_under.mpr ⟨(mem_of_activeRecord? hd).1, hid⟩)
  let o : Update.Outcome := .applied n !p.created
  obtain ⟨c, -, hf⟩ := Update.finalize_fst (o := o) hr
  refine ⟨.marked c, Update.marked v p.id o, ?_, ?_⟩
  · rw [hs, Writer.advance, run_bind_ok hf, Update.finalize_snd]
    rfl
  · refine h.write (h.tidy.of_eq rfl rfl)
      (fun e he => ⟨e, he, .refl e⟩)
      (Update.World.Calm.of_eq h.calm (h.tidy.toHasCache.of_eq rfl rfl) rfl rfl)
      (Update.marked_orderly h.orderly p.id v.now o) rfl ?_ (by rw [hx]; exact ⟨c, rfl⟩)
      (by omega) (by omega)
    rw [Update.marked, ← hid]
    refine ⟨_, h.orderly.keyed.activeRecord?_updateRecord hd (Update.mark_id o) o.mark_tenant
      o.mark_isActive, ?_⟩
    rw [Record.hasCode, touch_code]
    exact ⟨hcode, hcount⟩

theorem invalidate (hx : before.count .writer = 3) :
    ∃ s' v', s.writer.advance tenant r v = (.ok s', v') ∧
      Course tenant t w (.writer :: before) { s with writer := s' } v' := by
  obtain ⟨c, hs⟩ : ∃ c, s.writer = .marked c := by simpa [hx, Writer.IsAt] using h.writer
  obtain ⟨hok, ⟨x, hl, hg⟩, hcache⟩ := invalidate_spec h.tidy.toHasCache tenant
  have ha := carries_aside.invalidate tenant v
  have hsh := invalidate_sheds tenant v
  refine ⟨.returned c, (Overview.invalidate tenant v).2, ?_, ?_⟩
  · rw [hs, Writer.advance, run_bind_ok hok]
    rfl
  · refine h.write (hsh.tidy h.tidy) (fun e he => mem_cachedOverviews_of_sheds hsh h.tidy he)
      (Update.World.Calm.of_eq h.calm hcache ha.server ha.pools) (ha.registry ▸ h.orderly)
      (congrArg Registry.tenants ha.registry) ?_ (by rw [hx]; exact ⟨c, rfl⟩)
      (fun _ => ha.registry) fun _ => ?_
    · rw [World.HasDocument, ha.registry]
      exact h.record (.inr (by omega))
    · exact cachedOverviews_of_forgotten (hsh.tidy h.tidy) ⟨x, hl, hg⟩

theorem writer_idle {n : Nat} (hx : before.count .writer = n + 4) :
    ∃ s' v', s.writer.advance tenant r v = (.ok s', v') ∧
      Course tenant t w (.writer :: before) { s with writer := s' } v' := by
  obtain ⟨c, hs⟩ : ∃ c, s.writer = .returned c := by simpa [hx, Writer.IsAt] using h.writer
  refine ⟨.returned c, v, by rw [hs]; rfl, ?_⟩
  exact h.write h.tidy (fun e he => ⟨e, he, .refl e⟩) h.calm h.orderly rfl
    (h.record (.inr (by omega)))
    (by rw [hx]; exact ⟨c, rfl⟩) (fun _ => rfl) (by omega)

/-! ## The request's turns -/

theorem reader_idle {o : Overview} (hs : s.reader = .returned o)
    (hx : Reader.IsAt t (before.count .reader + 1) (.returned o)) :
    ∃ s' v', s.reader.advance tenant v = (.ok s', v') ∧
      Course tenant t w (.reader :: before) { s with reader := s' } v' := by
  refine ⟨.returned o, v, by rw [hs]; rfl, ?_⟩
  refine h.read rfl h.tidy h.calm hx (fun _ ho => by cases ho) fun h4 e he => ?_
  obtain ⟨o', ho, hv, hp⟩ := h.kept h4 e he
  exact ⟨o', hs ▸ ho, hv, fun hn => hp (mt (Overtaken.cons · .reader) hn)⟩

theorem nothing_kept (h4 : 4 ≤ before.count .writer) (hs : ∀ o, s.reader ≠ .returned o) :
    v.cachedOverviews tenant = [] := by
  refine List.eq_nil_iff_forall_not_mem.mpr fun e he => ?_
  obtain ⟨o, ho, -⟩ := h.kept h4 e he
  exact hs o ho

theorem look (hx : before.count .reader = 0) :
    ∃ s' v', s.reader.advance tenant v = (.ok s', v') ∧
      Course tenant t w (.reader :: before) { s with reader := s' } v' := by
  have hs : s.reader = .fresh := by simpa [hx, Reader.IsAt] using h.reader
  obtain ⟨o?, ho⟩ := cached?_of_legible h.tidy (h.legible hx)
  have hsh := admitsReads_sheds.reads.cached? tenant v
  have ha := carries_aside.cached? tenant v
  have hv := hsh.tidy h.tidy
  have hcalm := Update.World.Calm.of_eq h.calm hv.toHasCache ha.server ha.pools
  have none_kept (h4 : 4 ≤ before.count .writer) :
      (cached? tenant v).2.cachedOverviews tenant = [] := by
    refine List.eq_nil_iff_forall_not_mem.mpr fun e he => ?_
    obtain ⟨e', he', -⟩ := mem_cachedOverviews_of_sheds hsh h.tidy he
    rw [h.nothing_kept h4 (by simp [hs])] at he'
    cases he'
  rw [hs, Reader.advance, run_bind, findTenant_eq h.row]
  dsimp only
  rw [run_bind_ok ho]
  cases o? with
  | some o =>
    refine ⟨.returned o, _, rfl, h.read ha.registry hv hcalm (by rw [hx]; exact .inr ⟨o, rfl⟩)
      (fun _ ho => by cases ho) fun h4 e he => ?_⟩
    rw [none_kept h4] at he
    cases he
  | none =>
    refine ⟨.missed t, _, rfl, h.read ha.registry hv hcalm (by rw [hx]; exact .inl rfl)
      (fun _ ho => by cases ho) fun h4 e he => ?_⟩
    rw [none_kept h4] at he
    cases he

theorem make (hx : before.count .reader = 1)
    (hd : Answerable tenant w (.reader :: before)) :
    ∃ s' v', s.reader.advance tenant v = (.ok s', v') ∧
      Course tenant t w (.reader :: before) { s with reader := s' } v' := by
  have hat : s.reader = .missed t ∨ ∃ o, s.reader = .returned o := by
    simpa [hx, Reader.IsAt] using h.reader
  rcases hat with hs | ⟨o, hs⟩
  · obtain ⟨d, hd, hcode, hcount⟩ := h.record (hd.imp_right fun hs => hs _ (seen_reader hx))
    have hid := id_of_tenant? h.row
    have hm : Overview.make t v = (.ok (ofRecord t d), v) := make_of_code (hid ▸ hd) hcode
    have hp : v.Presents tenant (ofRecord t d) := by
      intro t' d' ht' hd'
      rw [Option.some.inj (h.row.symm.trans ht'), Option.some.inj (hd.symm.trans hd')]
    refine ⟨.made (ofRecord t d), v, ?_, ?_⟩
    · rw [hs, Reader.advance, run_bind, hm]
      rfl
    · refine h.read rfl h.tidy h.calm (by rw [hx]; exact .inl ⟨_, rfl⟩) ?_ fun h4 e he => ?_
      · rintro o ⟨rfl⟩
        exact ⟨isShort_ofRecord hcount t, hp⟩
      · rw [h.nothing_kept h4 (by simp [hs])] at he
        cases he
  · exact h.reader_idle hs (by rw [hx]; exact .inr ⟨o, rfl⟩)

theorem keep (hx : before.count .reader = 2) :
    ∃ s' v', s.reader.advance tenant v = (.ok s', v') ∧
      Course tenant t w (.reader :: before) { s with reader := s' } v' := by
  have hat : (∃ o, s.reader = .made o) ∨ ∃ o, s.reader = .returned o := by
    simpa [hx, Reader.IsAt] using h.reader
  rcases hat with ⟨o, hs⟩ | ⟨o, hs⟩
  · have hsh := admitsReads_sheds.client tenant v
    obtain ⟨u, hu⟩ : ∃ u, (client tenant v).2 = u := ⟨_, rfl⟩
    obtain ⟨space, expiry, log, hk⟩ := keep_eq h.tidy.toHasCache tenant (h.short o hs) hu
    have ha := carries_aside.keep tenant o v
    rw [hu] at hsh
    have hv := (hsh.tidy h.tidy).keep space (Tenant.overviewKey tenant) o.toJson.write expiry log
    rw [hk] at ha
    refine ⟨.returned o, _, by rw [hs, Reader.advance, run_bind, hk]; rfl, ?_⟩
    refine h.read ha.registry hv
      (Update.World.Calm.of_eq h.calm hv.toHasCache ha.server ha.pools)
      (by rw [hx]; exact ⟨o, rfl⟩) (fun _ ho => by cases ho) fun h4 e he => ?_
    obtain ⟨hm, hkey, hspace⟩ := mem_cachedOverviews.mp he
    rcases mem_set hm with ⟨-, hval⟩ | ⟨-, hm⟩
    · refine ⟨o, rfl, hval, fun hn => ?_⟩
      obtain ⟨m, hseen⟩ : ∃ m, m ∈ seen 1 (.reader :: before) := exists_seen (by simp [hx])
      refine h.made o m hs ?_ ?_
      · rwa [seen_reader_of_ne (by omega)] at hseen
      · by_contra h3
        exact hn ⟨⟨m, hseen, by omega⟩, before.count .writer, seen_reader hx, h4⟩
    · -- what was there before was there before the update ended
      have hold : e ∈ u.cachedOverviews tenant :=
        mem_cachedOverviews.mpr ⟨(List.mem_filter.mp hm).1, hkey, hspace⟩
      obtain ⟨e', he', -⟩ := mem_cachedOverviews_of_sheds hsh h.tidy hold
      rw [h.nothing_kept h4 (by simp [hs])] at he'
      cases he'
  · exact h.reader_idle hs (by rw [hx]; exact ⟨o, rfl⟩)

end Course

/-! ## Races -/

section

variable (hw : w.IsTidy) (hcalm : w.Calm tenant) (ho : w.registry.Orderly)
  (ht : w.registry.tenant? tenant = some t)
  (hl : ∀ e ∈ w.cachedOverviews tenant, IsLegible e.value)
  (hb : Text.isAllBlank r.code.toList = false) (hn : IsCountable r.code)
include hw hcalm ho ht hl hb hn

theorem perform_course {turns : List (Side × Time.Instant)}
    (hd : Answerable tenant w (turns.map (·.1))) :
    ∃ s v, perform tenant r turns w = (.ok s, v) ∧
      Course tenant t w (turns.map (·.1)) s v := by
  induction turns with
  | nil =>
    exact ⟨_, w, rfl,
      { tidy := hw
        calm := hcalm
        orderly := ho
        row := ht
        record := fun hd => hd.resolve_right (by simp)
        reader := rfl
        writer := rfl
        legible := fun _ => hl
        short := fun _ ho => by cases ho
        made := fun _ _ ho => by cases ho
        kept := fun h4 => by simp at h4 }⟩
  | cons turn before ih =>
    obtain ⟨x, now⟩ := turn
    obtain ⟨s, v, hs, hv⟩ := ih hd.of_cons
    have hv := hv.at_time now
    cases x with
    | reader =>
      have hstep : ∃ s' v', s.reader.advance tenant { v with now := now } = (.ok s', v') ∧
          Course tenant t w (.reader :: before.map (·.1)) { s with reader := s' } v' := by
        rcases hx : (before.map (·.1)).count Side.reader with _ | _ | _ | n
        · exact hv.look hx
        · exact hv.make hx hd
        · exact hv.keep hx
        · obtain ⟨o, ho⟩ : ∃ o, s.reader = .returned o := by
            simpa [hx, Reader.IsAt] using hv.reader
          exact hv.reader_idle ho (by rw [hx]; exact ⟨o, rfl⟩)
      obtain ⟨s', v', hs', hv'⟩ := hstep
      refine ⟨_, v', ?_, hv'⟩
      simp only [perform, run_bind, hs, run_modify, hs', run_pure]
    | writer =>
      have hstep : ∃ s' v', s.writer.advance tenant r { v with now := now } = (.ok s', v') ∧
          Course tenant t w (.writer :: before.map (·.1)) { s with writer := s' } v' := by
        rcases hx : (before.map (·.1)).count Side.writer with _ | _ | _ | _ | n
        · exact hv.persist hb hn hx
        · exact hv.rebuild hx
        · exact hv.mark hx
        · exact hv.invalidate hx
        · exact hv.writer_idle hx
      obtain ⟨s', v', hs', hv'⟩ := hstep
      refine ⟨_, v', ?_, hv'⟩
      simp only [perform, run_bind, hs, run_modify, hs', run_pure]

/-- Once the request and the update are over, both have returned, and what is cached is what the
request returned. It is the overview of the record in force, unless the record was looked at before
it was marked and the overview was kept after the cached one was invalidated. -/
theorem shows_of_turns {turns : List (Side × Time.Instant)}
    (hd : Answerable tenant w (turns.map (·.1)))
    (hreader : (turns.map (·.1)).count .reader = 3)
    (hwriter : (turns.map (·.1)).count .writer = 4) :
    ∃ s v o d, perform tenant r turns w = (.ok s, v) ∧ s.reader = .returned o ∧
      s.writer = .returned d ∧ (∀ e ∈ v.cachedOverviews tenant, e.value = o.toJson.write) ∧
      (¬ Overtaken (turns.map (·.1)) → v.Shows tenant) := by
  obtain ⟨s, v, hs, hv⟩ := perform_course hw hcalm ho ht hl hb hn hd
  obtain ⟨o, hs'⟩ : ∃ o, s.reader = .returned o := by simpa [hreader, Reader.IsAt] using hv.reader
  obtain ⟨d, hr⟩ : ∃ d, s.writer = .returned d := by simpa [hwriter, Writer.IsAt] using hv.writer
  refine ⟨s, v, o, d, hs, hs', hr, fun e he => ?_, fun hn =>
    World.shows_iff.mpr fun t' c' ht' hc' _ e he => ?_⟩
  · obtain ⟨o', ho', hval, -⟩ := hv.kept hwriter.ge e he
    rw [hval, Reader.returned.inj (hs'.symm.trans ho')]
  · obtain ⟨o', -, hval, hp⟩ := hv.kept hwriter.ge e he
    rw [hval, hp hn t' c' ht' hc']

end

def documented : World :=
  { Update.contested with
    registry :=
      { Update.contested.registry with
        records := Update.contested.registry.records.map fun c => { c with code := "x" } } }

def revision : UpdateRequest := { name := "blog", code := "y" }

theorem isTidy_documented : documented.IsTidy where
  quiet _ _ := rfl
  namespaces := show (16 : Int) ≠ 0 by decide
  respawn := rfl
  clients _ h := by cases h

theorem calm_documented : documented.Calm "t1" :=
  Update.World.Calm.of_eq Update.calm_contested isTidy_documented.toHasCache rfl rfl

theorem orderly_documented : documented.registry.Orderly where
  keyed :=
    { distinct := by decide
      single := fun c hc d hd _ _ _ => by
        rw [List.mem_singleton.mp hc, List.mem_singleton.mp hd] }
  issued c hc := by
    rw [List.mem_singleton.mp hc]
    exact ⟨1, Nat.le_refl _, by decide +kernel⟩
  kept c hc := by
    rw [List.mem_singleton.mp hc]
    exact ⟨by decide +kernel, (fun h => by cases h), fun _ => rfl⟩

theorem hasDocument_documented : documented.HasDocument "t1" :=
  ⟨_, rfl, by decide +kernel, by decide⟩

/-- The record is looked at before the update and kept while it is under way. -/
def timely : List (Side × Time.Instant) :=
  [(.writer, ⟨6⟩), (.writer, ⟨5⟩), (.reader, ⟨4⟩), (.writer, ⟨3⟩), (.writer, ⟨2⟩), (.reader, ⟨1⟩),
    (.reader, ⟨0⟩)]

theorem shows_of_timely :
    ∃ s v o d, perform "t1" revision timely documented = (.ok s, v) ∧ s.reader = .returned o ∧
      s.writer = .returned d ∧ (∀ e ∈ v.cachedOverviews "t1", e.value = o.toJson.write) ∧
      v.Shows "t1" := by
  have hb : Text.isAllBlank revision.code.toList = false := by decide +kernel
  have hd : Answerable "t1" documented (timely.map (·.1)) := .inl hasDocument_documented
  obtain ⟨s, v, o, d, hs, ho, hd, he, hn⟩ := shows_of_turns isTidy_documented calm_documented
    orderly_documented rfl (fun _ h => by cases h) hb (by decide) hd rfl rfl
  exact ⟨s, v, o, d, hs, ho, hd, he, hn (by decide)⟩

/-- The whole update comes in between a look at the record and the keeping of its overview. -/
def late : List (Side × Time.Instant) :=
  [(.reader, ⟨6⟩), (.writer, ⟨5⟩), (.writer, ⟨4⟩), (.writer, ⟨3⟩), (.writer, ⟨2⟩), (.reader, ⟨1⟩),
    (.reader, ⟨0⟩)]

/-- What is kept late is the overview of a record that is no longer as it was. -/
theorem not_forall_shows :
    ¬ ∀ (tenant : String) (r : UpdateRequest) (turns : List (Side × Time.Instant)) (w v : World)
        (s : Stages) (t : Registry.Tenant),
      w.IsTidy → w.Calm tenant → w.registry.Orderly → w.registry.tenant? tenant = some t →
      (∀ e ∈ w.cachedOverviews tenant, IsLegible e.value) →
      Text.isAllBlank r.code.toList = false → IsCountable r.code →
      Answerable tenant w (turns.map (·.1)) →
      (turns.map (·.1)).count .reader = 3 → (turns.map (·.1)).count .writer = 4 →
      perform tenant r turns w = (.ok s, v) → v.Shows tenant := by
  intro h
  have hb : Text.isAllBlank revision.code.toList = false := by decide +kernel
  have hd : Answerable "t1" documented (late.map (·.1)) := .inl hasDocument_documented
  obtain ⟨s, v, hs, hv⟩ := perform_course isTidy_documented calm_documented orderly_documented rfl
    (fun _ h => by cases h) hb (by decide) hd
  have hshows := h "t1" revision late documented v s _ isTidy_documented calm_documented
    orderly_documented rfl (fun _ h => by cases h) hb (by decide) hd rfl rfl hs
  -- the record was marked at 5, and the overview says that it was last changed at 0
  have hstale : ∃ e ∈ v.cachedOverviews "t1", ∀ c ∈ v.registry.activeRecord? "t1",
      e.value ≠ (ofRecord (World.sampleTenant "t1") c).toJson.write := by
    rw [show v = (perform "t1" revision late documented).2 from (congrArg Prod.snd hs).symm]
    decide +kernel
  obtain ⟨c, hc, hcode, -⟩ := hv.record (.inl hasDocument_documented)
  obtain ⟨e, he, hne⟩ := hstale
  exact hne c hc (World.shows_iff.mp hshows _ c hv.row hc hcode e he)

end Overview

end SchemaHost
