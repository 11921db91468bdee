import Mathlib.Data.List.Nodup
import SchemaHost.History.Retention
import SchemaHost.Proofs.History.Pages
import SchemaHost.Proofs.Service.Errand
import SchemaHost.Proofs.World.Sample
import Std.Data.String.ToNat

/-! # What the history keeps

A statement that gave a result is put aside and written later, if its tenant is on record. From then
on it is kept until a purge reaches beyond it, so that the history of a tenant follows from the
statements that were run and the purges after them.
-/

namespace SchemaHost

open Operation Registry Time

variable {u v w : World} {r : Registry} {tenant query : String} {who : Console.Requester}

/-! ## Work that leaves the history alone -/

structure SparesHistory (u v : World) : Prop where
  tenants : v.registry.tenants = u.registry.tenants
  history : v.registry.history = u.registry.history
  count : v.registry.historyCount = u.registry.historyCount
  pending : v.pending = u.pending

theorem isFrame_sparesHistory : IsFrame SparesHistory where
  refl _ := ⟨rfl, rfl, rfl, rfl⟩
  trans h h' := ⟨h'.tenants.trans h.tenants, h'.history.trans h.history, h'.count.trans h.count,
    h'.pending.trans h.pending⟩

theorem admitsAll_sparesHistory (name : String) : Server.AdmitsAll SparesHistory name where
  toIsFrame := isFrame_sparesHistory
  record _ _ := fun _ => ⟨rfl, rfl, rfl, rfl⟩
  mark _ _ := fun _ => ⟨rfl, rfl, rfl, rfl⟩
  check _ := Server.within_check isFrame_sparesHistory fun _ _ _ _ _ _ => ⟨rfl, rfl, rfl, rfl⟩
  wipe _ _ := Server.within_applyWipes isFrame_sparesHistory (fun _ => ⟨rfl, rfl, rfl, rfl⟩) _
  elapse _ := fun _ => ⟨rfl, rfl, rfl, rfl⟩

theorem admits_sparesHistory (tenant : String) : Tenant.Admits SparesHistory tenant where
  toAdmitsAll := admitsAll_sparesHistory _
  kept _ _ h := h (admitsAll_sparesHistory _)
  admin _ _ h := h (admitsAll_sparesHistory _).toAdmits
  count := fun _ => ⟨rfl, rfl, rfl, rfl⟩
  keep _ _ := fun _ => ⟨rfl, rfl, rfl, rfl⟩
  discard := fun _ => ⟨rfl, rfl, rfl, rfl⟩
  openAdmin _ := fun _ => ⟨rfl, rfl, rfl, rfl⟩
  put _ := fun _ => ⟨rfl, rfl, rfl, rfl⟩
  drop := fun _ => ⟨rfl, rfl, rfl, rfl⟩

namespace Console

/-- What comes of a statement, before anybody takes note of it. -/
def answer (tenant statement : String) : Operation Outcome := do
  let p ← Tenant.pool tenant
  connect tenant p.database
  Server.thenClose p.database (runOpen p.database statement)

theorem answer_sparesHistory (tenant statement : String) :
    Within SparesHistory (answer tenant statement) :=
  (admits_sparesHistory tenant).usePool fun _ hp =>
    hp.bind (connect_within hp.toUses tenant) fun _ _ =>
      hp.thenClose_at (runOpen_within hp statement _)

theorem run_of_ok {statement : String} (h : validateQuery query = .ok statement) :
    run tenant query who = answer tenant statement >>= fun o =>
      remember tenant statement who o >>= fun _ => Pure.pure o := by
  simp only [run, h, answer, Operation.bind_assoc]

theorem validateQuery_eq_ok {statement : String} (h : validateQuery query = .ok statement) :
    statement = String.ofList (Text.trim query.toList) := by
  simp only [validateQuery, validate] at h
  split at h
  · cases h
  · split at h
    · cases h
    · cases h
      rfl

/-- A statement gives a result and one entry put aside for it, or it fails and leaves none. -/
theorem run_cases (tenant query : String) (who : Requester) (w : World) :
    (∃ e, (run tenant query who w).1 = .error e ∧ SparesHistory w (run tenant query who w).2) ∨
      ∃ o s v, validateQuery query = .ok s ∧ SparesHistory w v ∧
        run tenant query who w =
          (.ok o, { v with pending := v.pending ++ [entryOf v.settings tenant s who o v.now] }) := by
  cases hq : validateQuery query with
  | error e =>
    have hrun : run tenant query who w = (.error (.refused e), w) := by
      rw [run, hq]
      rfl
    rw [hrun]
    exact .inl ⟨_, rfl, isFrame_sparesHistory.refl w⟩
  | ok s =>
    have hs := answer_sparesHistory tenant s w
    rw [run_of_ok hq]
    cases ha : (answer tenant s w).1 with
    | error e =>
      rw [run_bind_error ha]
      exact .inl ⟨e, rfl, hs⟩
    | ok o =>
      rw [run_bind_ok ha]
      exact .inr ⟨o, s, _, rfl, hs, rfl⟩

end Console

namespace History

/-! ## Receipts -/

/-- What an entry says of a statement and its result. -/
structure Receipt where
  statement : String
  fingerprint : String
  success : Bool
  rowsAffected : Int
  error : Option String
  executedAt : Instant
  deriving DecidableEq, Repr

namespace Receipt

def ofEntry (e : HistoryEntry) : Receipt :=
  ⟨e.statement, e.fingerprint, e.success, e.rowsAffected, e.error, e.executedAt⟩

def ofResult (query : String) (o : Console.Outcome) (now : Instant) : Receipt :=
  let statement := String.ofList (Text.trim query.toList)
  ⟨statement, Digest.sha256Text statement, o.success, o.rowsAffected, o.error, now⟩

end Receipt

inductive Episode where
  | ran (tenant : String) (r : Receipt)
  | purged (cutoff : Instant)
  deriving DecidableEq, Repr

/-- Only a purge takes receipts away, those of before its cutoff. -/
def Episode.leaves (r : Receipt) : Episode → Bool
  | ran .. => true
  | purged cutoff => !r.executedAt.before cutoff

/-- The tenant's receipts that all later episodes leave. -/
def kept (tenant : String) : List Episode → List Receipt
  | [] => []
  | .ran t r :: es =>
    if t = tenant ∧ es.all (·.leaves r) then r :: kept tenant es else kept tenant es
  | .purged _ :: es => kept tenant es

@[simp]
theorem leaves_ran (r r' : Receipt) (t : String) : (Episode.ran t r').leaves r = true := rfl

@[simp]
theorem leaves_purged (r : Receipt) (c : Instant) :
    (Episode.purged c).leaves r = !r.executedAt.before c := rfl

theorem kept_append_ran (es : List Episode) (t : String) (r : Receipt) :
    kept tenant (es ++ [.ran t r]) = kept tenant es ++ if t = tenant then [r] else [] := by
  induction es with
  | nil => by_cases h : t = tenant <;> simp [kept, h]
  | cons e es ih =>
    cases e with
    | purged c => exact ih
    | ran t' r' =>
      simp only [List.cons_append, kept, List.all_append, List.all_cons, List.all_nil,
        leaves_ran, Bool.and_true, ih]
      split
      · rfl
      · rfl

theorem kept_append_purged (es : List Episode) (c : Instant) :
    kept tenant (es ++ [.purged c]) =
      (kept tenant es).filter fun r => !r.executedAt.before c := by
  induction es with
  | nil => rfl
  | cons e es ih =>
    cases e with
    | purged _ => exact ih
    | ran t r =>
      simp only [List.cons_append, kept, List.all_append, List.all_cons, List.all_nil,
        leaves_purged, Bool.and_true, ih, Bool.and_eq_true]
      by_cases h : t = tenant ∧ es.all (·.leaves r) = true
      · by_cases hc : (!r.executedAt.before c) = true
        · rw [if_pos ⟨h.1, h.2, hc⟩, if_pos h, List.filter_cons, if_pos hc]
        · rw [if_neg fun h' => hc h'.2.2, if_pos h, List.filter_cons, if_neg hc]
      · rw [if_neg fun h' => h ⟨h'.1, h'.2.1⟩, if_neg h]

/-! ## Entries and receipts -/

def receiptsOf (tenant : String) (es : List HistoryEntry) : List Receipt :=
  (es.filter (·.tenant == tenant)).map Receipt.ofEntry

/-- The entries on record and those put aside are those that the episodes leave. -/
structure Accounted (r : Registry) (pending : List HistoryEntry) (es : List Episode) : Prop where
  receipts (tenant : String) : r.isTenant tenant = true →
    receiptsOf tenant (r.history ++ pending) = kept tenant es
  readable : ∀ e ∈ r.history ++ pending, isReadable e = true
  issued : ∀ e ∈ r.history, ∃ n ≤ r.historyCount, e.id = "query-" ++ n.repr
  distinct : (r.history.map (·.id)).Nodup

variable {es : List Episode} {e : HistoryEntry} {pending : List HistoryEntry}

theorem receiptsOf_append (tenant : String) (xs ys : List HistoryEntry) :
    receiptsOf tenant (xs ++ ys) = receiptsOf tenant xs ++ receiptsOf tenant ys := by
  simp [receiptsOf]

theorem isTenant_congr {s : Registry} (h : s.tenants = r.tenants) (id : String) :
    s.isTenant id = r.isTenant id := by
  rw [Registry.isTenant, Registry.tenant?, h]
  rfl

namespace Accounted

theorem of_eq {s : Registry} (h : Accounted r pending es) (ht : s.tenants = r.tenants)
    (hh : s.history = r.history) (hc : s.historyCount = r.historyCount) :
    Accounted s pending es where
  receipts tenant hs := by
    rw [hh]
    exact h.receipts tenant (isTenant_congr ht tenant ▸ hs)
  readable := hh ▸ h.readable
  issued := hh ▸ hc ▸ h.issued
  distinct := hh ▸ h.distinct

theorem note (h : Accounted r pending es) (hr : isReadable e = true) :
    Accounted r (pending ++ [e]) (es ++ [.ran e.tenant (.ofEntry e)]) where
  receipts tenant ht := by
    rw [← List.append_assoc, receiptsOf_append, h.receipts tenant ht, kept_append_ran]
    by_cases he : e.tenant = tenant <;> simp [receiptsOf, he]
  readable := by
    rw [← List.append_assoc, List.forall_mem_append]
    exact ⟨h.readable, by simpa using hr⟩
  issued := h.issued
  distinct := h.distinct

theorem write (h : Accounted r (e :: pending) es) :
    Accounted (World.writeHistory.write r e) pending es := by
  let e' : HistoryEntry := { e with id := "query-" ++ (r.historyCount + 1).repr }
  have hissued : ∀ d ∈ r.history, ∃ n ≤ r.historyCount + 1, d.id = "query-" ++ n.repr := by
    intro d hd
    obtain ⟨n, hn, he⟩ := h.issued d hd
    exact ⟨n, Nat.le_succ_of_le hn, he⟩
  cases he : r.isTenant e.tenant with
  | false =>
    have hwrite : World.writeHistory.write r e = { r with historyCount := r.historyCount + 1 } :=
      if_neg (Bool.eq_false_iff.mp he)
    rw [hwrite]
    refine ⟨fun tenant ht => ?_, ?_, hissued, h.distinct⟩
    · have hne : (e.tenant == tenant) = false := by
        rw [beq_eq_false_iff_ne]
        rintro rfl
        exact absurd (he.symm.trans ht) Bool.false_ne_true
      have hr := h.receipts tenant ht
      simpa [receiptsOf, hne] using hr
    · intro d hd
      apply h.readable d
      rw [List.mem_append, List.mem_cons]
      rcases List.mem_append.mp hd with hd | hd
      · exact .inl hd
      · exact .inr (.inr hd)
  | true =>
    have hwrite : World.writeHistory.write r e =
        { r with historyCount := r.historyCount + 1, history := r.history ++ [e'] } :=
      if_pos he
    rw [hwrite]
    refine ⟨fun tenant ht => ?_, ?_, ?_, ?_⟩
    · have hsame : receiptsOf tenant (e' :: pending) = receiptsOf tenant (e :: pending) := by
        by_cases hn : e.tenant = tenant
        · simp [receiptsOf, e', hn, Receipt.ofEntry]
        · simp [receiptsOf, e', hn]
      rw [List.append_assoc, List.singleton_append, receiptsOf_append, hsame, ← receiptsOf_append]
      exact h.receipts tenant ht
    · intro d hd
      rw [List.append_assoc, List.singleton_append, List.mem_append, List.mem_cons] at hd
      rcases hd with hd | rfl | hd
      · exact h.readable d (List.mem_append_left _ hd)
      · exact h.readable e (List.mem_append_right _ List.mem_cons_self)
      · exact h.readable d (List.mem_append_right _ (List.mem_cons_of_mem e hd))
    · intro d hd
      rcases List.mem_append.mp hd with hd | hd
      · exact hissued d hd
      · obtain rfl := List.mem_singleton.mp hd
        exact ⟨_, Nat.le_refl _, rfl⟩
    · rw [List.map_append, List.nodup_append]
      refine ⟨h.distinct, List.nodup_singleton _, fun id hid id' hid' he' => ?_⟩
      obtain ⟨d, hd, rfl⟩ := List.mem_map.mp hid
      obtain rfl := List.mem_singleton.mp hid'
      obtain ⟨n, hn, hdn⟩ := h.issued d hd
      rw [hdn, String.append_right_inj, Nat.repr_inj] at he'
      omega

theorem drain (h : Accounted r pending es) :
    Accounted (pending.foldl World.writeHistory.write r) [] es := by
  induction pending generalizing r with
  | nil => exact h
  | cons e pending ih => exact ih h.write

theorem purge (h : Accounted r [] es) (c : Instant) :
    Accounted (r.purgeHistory c).1 [] (es ++ [.purged c]) where
  receipts tenant ht := by
    have hr := h.receipts tenant ht
    rw [List.append_nil] at hr ⊢
    rw [kept_append_purged, ← hr, receiptsOf, receiptsOf, List.filter_map, List.filter_filter,
      Registry.purgeHistory, List.filter_filter]
    simp only [Bool.and_comm]
    rfl
  readable e he := by
    rw [List.append_nil] at he
    exact h.readable e (List.mem_append_left _ (List.mem_filter.mp he).1)
  issued e he := h.issued e (List.mem_filter.mp he).1
  distinct := h.distinct.sublist (List.filter_sublist.map _)

end Accounted

/-! ## Runs -/

/-- Worlds without history and those that statements, pages and purges lead to, with what happened
on the way. Entries put aside may be written at any time, but always before a purge; in between
anything may happen outside the history. -/
inductive Follows : World → List Episode → Prop where
  | start {w : World} : w.registry.history = [] → w.pending = [] → Follows w []
  | ran {w : World} {es : List Episode} {tenant query : String} {who : Console.Requester}
      {o : Console.Outcome} : Follows w es → (Console.run tenant query who w).1 = .ok o →
      Follows (Console.run tenant query who w).2
        (es ++ [.ran tenant (.ofResult query o (Console.run tenant query who w).2.now)])
  | raised {w : World} {es : List Episode} {tenant query : String} {who : Console.Requester}
      {e : Failure} : Follows w es → (Console.run tenant query who w).1 = .error e →
      Follows (Console.run tenant query who w).2 es
  | paged {w : World} {es : List Episode} (f : Filter) (limit offset : Int) : Follows w es →
      Follows (page f limit offset w).2 es
  | purged {w : World} {es : List Episode} {micros : Option Int} {cutoff : Instant} :
      Follows w es → w.pending = [] →
      cutoff? w.now (micros.getD (w.settings.retentionDays * Instant.perDay)) = some cutoff →
      Follows (purge micros w).2 (es ++ [.purged cutoff])
  | unpurged {w : World} {es : List Episode} {micros : Option Int} {e : Failure} :
      Follows w es → (purge micros w).1 = .error e → Follows (purge micros w).2 es
  | written {w : World} {es : List Episode} : Follows w es → Follows w.writeHistory es
  | outside {w v : World} {es : List Episode} : Follows w es → SparesHistory w v → Follows v es

theorem search_snd (f : Filter) (limit offset : Int) (w : World) :
    (search f limit offset w).2 = w := by
  rw [search]
  cases f.isWritable with
  | true => cases isBounded limit offset <;> rfl
  | false => rfl

theorem page_snd (f : Filter) (limit offset : Int) (w : World) : (page f limit offset w).2 = w := by
  have hsearch := search_snd f limit offset w
  rw [page]
  cases hf : (search f limit offset w).1 with
  | error e => rw [run_bind_error hf, hsearch]
  | ok found =>
    rw [run_bind_ok hf, hsearch]
    dsimp only
    split
    · rfl
    · rfl

theorem purge_of_cutoff {micros : Option Int} {c : Instant}
    (hc : cutoff? w.now (micros.getD (w.settings.retentionDays * Instant.perDay)) = some c) :
    (purge micros w).2 = { w with registry := (w.registry.purgeHistory c).1 } ∧
      ∃ n, (purge micros w).1 = .ok n := by
  have hwritable : c.isWritable = true := by
    simp only [cutoff?] at hc
    split at hc
    · cases hc
      assumption
    · cases hc
  simp [purge, purgeBefore, hc, hwritable]

theorem purge_snd_of_error {micros : Option Int} {e : Failure}
    (h : (purge micros w).1 = .error e) : (purge micros w).2 = w := by
  cases hc : cutoff? w.now (micros.getD (w.settings.retentionDays * Instant.perDay)) with
  | none => simp [purge, hc]
  | some c =>
    obtain ⟨-, n, hn⟩ := purge_of_cutoff hc
    cases hn.symm.trans h

theorem Follows.accounted (h : Follows w es) : Accounted w.registry w.pending es := by
  induction h with
  | @start w hh hp =>
    rw [hp]
    exact {
      receipts := fun _ _ => by rw [hh]; rfl
      readable := by simp [hh]
      issued := by simp [hh]
      distinct := by simp [hh] }
  | @ran w es tenant query who o _ hok ih =>
    obtain ⟨e, he, -⟩ | ⟨o', s, v, hs, hv, hrun⟩ := Console.run_cases tenant query who w
    · cases he.symm.trans hok
    · rw [hrun] at hok ⊢
      cases hok
      have hreceipt : Receipt.ofResult query o v.now =
          .ofEntry (Console.entryOf v.settings tenant s who o v.now) := by
        rw [Console.validateQuery_eq_ok hs]
        rfl
      rw [hreceipt, hv.pending]
      exact (ih.of_eq hv.tenants hv.history hv.count).note (Console.isReadable_entryOf ..)
  | @raised w es tenant query who e _ herror ih =>
    obtain ⟨e, -, hv⟩ | ⟨o', s, v, hs, hv, hrun⟩ := Console.run_cases tenant query who w
    · rw [hv.pending]
      exact ih.of_eq hv.tenants hv.history hv.count
    · rw [hrun] at herror
      cases herror
  | paged f limit offset _ ih =>
    rw [page_snd]
    exact ih
  | @purged w es micros cutoff _ hp hc ih =>
    rw [hp] at ih
    rw [(purge_of_cutoff hc).1, hp]
    exact ih.purge cutoff
  | unpurged _ he ih =>
    rw [purge_snd_of_error he]
    exact ih
  | written _ ih => exact ih.drain
  | outside _ hv ih =>
    rw [hv.pending]
    exact ih.of_eq hv.tenants hv.history hv.count

/-- Over any run, once all is written, the pages of a tenant on record are those of one list: the
latest first, an entry for each statement that gave a result and that no later purge reached, and
nothing else. Every page gives the length of the list; there is none beyond the bounds that the
registry has room for. -/
theorem pages_of_follows (h : Follows w es) (hwritten : w.pending = [])
    (htenant : w.registry.isTenant tenant = true) {limit : Int} (hlimit : 0 < limit) :
    ∃ (entries : List HistoryEntry) (pages : Nat → List HistoryEntry),
      (∀ k : Nat, page { tenant } limit (k * limit) w =
        (if isBounded limit (k * limit) then .ok ⟨pages k, entries.length⟩ else .error .tooLarge,
          w)) ∧
      (∀ n, (List.range n).flatMap pages = entries.take (n * limit.toNat)) ∧
      (entries.Pairwise fun a b => b.executedAt.notAfter a.executedAt = true) ∧
      (entries.map (·.id)).Nodup ∧ (∀ e ∈ entries, e.tenant = tenant) ∧
      (entries.map Receipt.ofEntry).Perm (kept tenant es) := by
  have ha := h.accounted
  rw [hwritten] at ha
  have hperm := timeline_perm tenant w.registry
  refine ⟨timeline tenant w.registry,
    fun k => window limit (k * limit) (timeline tenant w.registry),
    fun k => ?_, flatMap_window hlimit _, timeline_sorted tenant w.registry, ?_, ?_, ?_⟩
  · exact page_eq fun e he => ha.readable e (List.mem_append_left _ he)
  · rw [(hperm.map _).nodup_iff]
    exact ha.distinct.sublist (List.filter_sublist.map _)
  · intro e he
    simpa using (List.mem_filter.mp (hperm.subset he)).2
  · have hr := ha.receipts tenant htenant
    rw [List.append_nil] at hr
    exact hr ▸ hperm.map _

/-! ## A run -/

def ranAt (now : Instant) (tenant query : String) (w : World) : World :=
  (Console.run tenant query {} { w with now := now }).2.writeHistory

def receipt (statement : String) (error : Option String) (now : Instant) : Receipt :=
  ⟨statement, Digest.sha256Text statement, error.isNone, 0, error, now⟩

/-- A statement whose result is known has left a receipt. -/
theorem Follows.ranAt (h : Follows w es) {now : Instant} {tenant query statement : String}
    {error : Option String} (hs : String.ofList (Text.trim query.toList) = statement)
    (hn : (Console.run tenant query {} { w with now := now }).2.now = now)
    (hr : (Console.run tenant query {} { w with now := now }).1.toOption.map
      (fun o => (o.success, o.rowsAffected, o.error)) = some (error.isNone, 0, error)) :
    Follows (ranAt now tenant query w) (es ++ [.ran tenant (receipt statement error now)]) := by
  have hv : Follows { w with now := now } es := .outside h ⟨rfl, rfl, rfl, rfl⟩
  cases ho : (Console.run tenant query {} { w with now := now }).1 with
  | error e =>
    rw [ho] at hr
    cases hr
  | ok o =>
    rw [ho] at hr
    obtain ⟨h₁, h₂, h₃⟩ : o.success = error.isNone ∧ o.rowsAffected = 0 ∧ o.error = error := by
      simpa [Except.toOption] using hr
    have hreceipt : receipt statement error now =
        .ofResult query o (Console.run tenant query {} { w with now := now }).2.now := by
      simp only [Receipt.ofResult, receipt, hs, hn, h₁, h₂, h₃]
    rw [hreceipt]
    exact .written (.ran hv ho)

/-- Two tenants, and statements on a missing table are turned down. -/
def shared : World :=
  { World.sample "t1" [("tenant_t1", { outages := [⟨"missing", .rejected, "no table", none⟩] }),
      ("tenant_t2", {})] with
    registry := { tenants := [World.sampleTenant "t1", World.sampleTenant "t2"] } }

/-- A statement of each tenant, and then a purge that reaches the first of them only. -/
def swept : World :=
  (purge (some 5) { ranAt ⟨5⟩ "t2" "SELECT 2" (ranAt ⟨0⟩ "t1" " SELECT 1 " shared) with
    now := ⟨10⟩ }).2

def filed : World :=
  ranAt ⟨13⟩ "t1" "SELECT 5" (ranAt ⟨12⟩ "t1" "SELECT missing" (ranAt ⟨11⟩ "t1" "SELECT 3" swept))

def latest : List Receipt :=
  [receipt "SELECT 5" none ⟨13⟩, receipt "SELECT missing" (some "no table") ⟨12⟩,
    receipt "SELECT 3" none ⟨11⟩]

theorem follows_filed : ∃ es, Follows filed es ∧ kept "t1" es = latest.reverse ∧
    kept "t2" es = [receipt "SELECT 2" none ⟨5⟩] := by
  have h₀ : Follows shared [] := .start rfl rfl
  have h₁ : Follows (ranAt ⟨0⟩ "t1" " SELECT 1 " shared)
      [.ran "t1" (receipt "SELECT 1" none ⟨0⟩)] :=
    h₀.ranAt (by decide) (by decide +kernel) (by decide +kernel)
  have h₂ : Follows (ranAt ⟨5⟩ "t2" "SELECT 2" _)
      (_ ++ [.ran "t2" (receipt "SELECT 2" none ⟨5⟩)]) :=
    h₁.ranAt (by decide) (by decide +kernel) (by decide +kernel)
  have hc : cutoff? ⟨10⟩ 5 = some ⟨5⟩ := by decide
  have h₃ : Follows swept _ := .purged (.outside h₂ ⟨rfl, rfl, rfl, rfl⟩) rfl hc
  have h₄ : Follows (ranAt ⟨11⟩ "t1" "SELECT 3" _)
      (_ ++ [.ran "t1" (receipt "SELECT 3" none ⟨11⟩)]) :=
    h₃.ranAt (by decide) (by decide +kernel) (by decide +kernel)
  have h₅ : Follows (ranAt ⟨12⟩ "t1" "SELECT missing" _)
      (_ ++ [.ran "t1" (receipt "SELECT missing" (some "no table") ⟨12⟩)]) :=
    h₄.ranAt (by decide) (by decide +kernel) (by decide +kernel)
  have h₆ : Follows filed (_ ++ [.ran "t1" (receipt "SELECT 5" none ⟨13⟩)]) :=
    h₅.ranAt (by decide) (by decide +kernel) (by decide +kernel)
  exact ⟨_, h₆, rfl, rfl⟩

/-- Two pages of two, the second of which is not full. -/
theorem pages_of_filed :
    ∃ (es : List Episode) (pages : Nat → List HistoryEntry),
      Follows filed es ∧ filed.pending = [] ∧ filed.registry.isTenant "t1" = true ∧
      page { tenant := "t1" } 2 0 filed = (.ok ⟨pages 0, 3⟩, filed) ∧
      page { tenant := "t1" } 2 2 filed = (.ok ⟨pages 1, 3⟩, filed) ∧
      (pages 0).map Receipt.ofEntry = latest.take 2 ∧
      (pages 1).map Receipt.ofEntry = latest.drop 2 := by
  obtain ⟨es, hrun, hkept, -⟩ := follows_filed
  have htenant : filed.registry.isTenant "t1" = true := by decide +kernel
  obtain ⟨entries, pages, hpage, hpages, hsorted, -, -, hperm⟩ :=
    pages_of_follows hrun rfl htenant (show (0 : Int) < 2 by decide)
  have hperm : (entries.map Receipt.ofEntry).Perm latest :=
    (hkept ▸ hperm).trans (List.reverse_perm _)
  -- no two of the receipts are of one time
  have hapart : ∀ a ∈ latest, ∀ b ∈ latest, a.executedAt.micros = b.executedAt.micros → a = b := by
    simp [latest, receipt]
  let isBefore (a b : Receipt) : Prop := b.executedAt.notAfter a.executedAt = true
  have hsorted : (entries.map Receipt.ofEntry).Pairwise isBefore := List.pairwise_map.mpr hsorted
  have hlatest : entries.map Receipt.ofEntry = latest := by
    refine hperm.eq_of_pairwise (fun a b ha hb hab hba => ?_) hsorted (by decide)
    refine hapart a (hperm.subset ha) b hb ?_
    simp only [isBefore, Instant.notAfter, decide_eq_true_eq] at hab hba
    exact Int.le_antisymm hba hab
  have hlength : entries.length = 3 := by
    rw [← List.length_map Receipt.ofEntry, hlatest]
    rfl
  have hfirst : pages 0 = entries.take 2 := by simpa using hpages 1
  have hsecond : pages 1 = entries.drop 2 := by
    have hall : entries.take 4 = entries := List.take_of_length_le (by omega)
    have hboth : pages 0 ++ pages 1 = entries.take 2 ++ entries.drop 2 := by
      rw [List.take_append_drop]
      simpa [List.range_succ, hall] using hpages 2
    exact List.append_cancel_left (hfirst ▸ hboth)
  refine ⟨es, pages, hrun, rfl, htenant, ?_, ?_, ?_, ?_⟩
  · exact (hpage 0).trans (by rw [hlength]; rfl)
  · exact (hpage 1).trans (by rw [hlength]; rfl)
  · rw [hfirst, List.map_take, hlatest]
  · rw [hsecond, List.map_drop, hlatest]

end History

end SchemaHost
