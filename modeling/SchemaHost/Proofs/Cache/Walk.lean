import Mathlib.Data.List.Nodup
import SchemaHost.Proofs.Cache.Sweep

/-! # Walks with a cursor

A walk asks for page after page until there is no more, and may unlink what it finds on a page
before it asks for the next. Keys that come back meanwhile may turn up ahead of the cursor, but
there are only so many of them, and so every walk comes to its end.
-/

namespace SchemaHost

open Cache Operation

variable {c d : CacheServer} {u v w : World} {space count : Int} {pattern front : String}
  {keys : List String} {pages : List (List String)} {cursor next fuel : Nat} {unlinks : Bool}

namespace CacheServer

/-- No command fails, entries stand in the order of their serial numbers, no key stands twice in a
namespace, and there is room on a page. -/
structure Orderly (c : CacheServer) : Prop where
  quiet : ∀ space command, c.fail? space command = none
  sorted : c.entries.Pairwise fun e e' => e.serial < e'.serial
  issued : ∀ e ∈ c.entries, c.Issued e.serial
  apart : (c.entries.map fun e => (e.space, e.key)).Nodup
  page : c.page ≠ some 0

/-- An upper bound on the entries that a scan may still meet. -/
def stock (c : CacheServer) (space : Int) (cursor : Nat) : Nat :=
  (c.ahead space cursor).length + c.respawn.flatten.length

def turned (unlinks : Bool) (space : Int) (keys : List String) (c : CacheServer) : CacheServer :=
  if unlinks && !keys.isEmpty then (c.eraseAll space keys).1.writeAnew space else c

def keysUnder (c : CacheServer) (space : Int) (front : String) : List String :=
  (c.entries.filter fun e => e.space == space && front.toList.isPrefixOf e.key.toList).map (·.key)

/-! ## Keys written anew -/

theorem set_with_respawn (c : CacheServer) (r : List (List String)) (space : Int)
    (key value : String) (expiry : Option Time.Instant) :
    ({ c with respawn := r } : CacheServer).set space key value expiry =
      { c.set space key value expiry with respawn := r } := by
  unfold set find?
  dsimp only
  split <;> rfl

theorem setAll_respawn (c : CacheServer) (space : Int) (ks : List String) (value : String) :
    (ks.foldl (fun c k => c.set space k value none) c).respawn = c.respawn := by
  induction ks generalizing c with
  | nil => rfl
  | cons k ks ih => exact (ih _).trans (set_outages c space k value none).2

theorem get?_setAll {ks : List String} {n : Int} {k : String} (h : n = space → k ∉ ks)
    (value : String) :
    (ks.foldl (fun c k => c.set space k value none) c).get? n k = c.get? n k := by
  induction ks generalizing c with
  | nil => rfl
  | cons k' ks ih =>
    refine (ih fun hn hk => h hn (List.mem_cons_of_mem _ hk)).trans ?_
    rw [get?_set, if_neg]
    rintro ⟨hn, rfl⟩
    exact h hn List.mem_cons_self

theorem expiry_of_mem_setAll {ks : List String} {value : String} {e : Entry}
    (he : e ∈ (ks.foldl (fun c k => c.set space k value none) c).entries) :
    e.expiry = none ∨ e ∈ c.entries := by
  induction ks generalizing c with
  | nil => exact .inr he
  | cons k ks ih =>
    rcases ih he with h | h
    · exact .inl h
    · exact expiry_of_mem_set h

theorem length_ahead_set_le (c : CacheServer) (n space : Int) (cursor : Nat) (key value : String)
    (expiry : Option Time.Instant) :
    ((c.set n key value expiry).ahead space cursor).length ≤
      (c.ahead space cursor).length + 1 := by
  unfold set
  split
  · have hkept := comp_given (fun e => e.space == space && decide (cursor < e.serial))
      (fun _ _ _ => rfl) (isAt n key) value expiry
    simp only [ahead, List.filter_map, List.length_map, hkept]
    exact Nat.le_succ _
  · refine (((insert_perm _ c.entries).filter _).length_eq.le).trans ?_
    simp only [List.filter_cons, ahead]
    split
    · exact Nat.le_refl _
    · exact Nat.le_succ _

theorem length_ahead_setAll_le (c : CacheServer) (n : Int) (ks : List String) (value : String) :
    ((ks.foldl (fun c k => c.set n k value none) c : CacheServer).ahead space cursor).length ≤
      (c.ahead space cursor).length + ks.length := by
  induction ks generalizing c with
  | nil => exact Nat.le_refl _
  | cons k ks ih =>
    have hk := length_ahead_set_le c n space cursor k value none
    have hks := ih (c.set n k value none)
    simp only [List.foldl_cons, List.length_cons]
    omega

theorem stock_writeAnew_le (c : CacheServer) (n : Int) :
    (c.writeAnew n).stock space cursor ≤ c.stock space cursor := by
  unfold writeAnew
  split
  · exact Nat.le_refl _
  · next ks rest hr =>
    have hahead : ((ks.foldl (fun c k => c.set n k "respawned" none)
        { c with respawn := rest } : CacheServer).ahead space cursor).length ≤
          (c.ahead space cursor).length + ks.length :=
      length_ahead_setAll_le { c with respawn := rest } n ks "respawned"
    simp only [stock, setAll_respawn, hr, List.flatten_cons, List.length_append]
    omega

theorem writeAnew_respawn (c : CacheServer) (n : Int) :
    (c.writeAnew n).respawn = c.respawn.tail := by
  unfold writeAnew
  split
  · next hr => rw [hr]; rfl
  · next hr => rw [hr, setAll_respawn]; rfl

theorem get?_writeAnew {n : Int} {k : String} (h : n = space → k ∉ c.respawn.flatten) :
    (c.writeAnew space).get? n k = c.get? n k := by
  unfold writeAnew
  split
  · rfl
  · next ks rest hr =>
    refine (get?_setAll (fun hn hk => h hn ?_) _).trans rfl
    rw [hr, List.flatten_cons]
    exact List.mem_append_left _ hk

theorem get?_eraseAll {n : Int} {k : String} (h : n = space → k ∉ keys) :
    (c.eraseAll space keys).1.get? n k = c.get? n k := by
  rw [eraseAll_eq]
  simp only [get?, find?, List.find?_filter]
  congr 1
  congr 1
  funext e
  rw [Bool.eq_iff_iff]
  simp only [decide_eq_true_eq, isAt_iff, Bool.not_eq_true', Bool.and_eq_false_iff]
  constructor
  · exact And.right
  · rintro ⟨rfl, rfl⟩
    refine ⟨?_, rfl, rfl⟩
    by_cases hs : e.space = space
    · simpa using Or.inr (h hs)
    · exact .inl (by simpa using hs)

/-! ## Servers in order -/

namespace Orderly

theorem holdsOnly (h : c.Orderly) :
    ({ c with respawn := [] } : CacheServer).HoldsOnly fun _ => True :=
  ⟨h.sorted, h.issued, h.page, rfl, fun _ _ => trivial⟩

theorem of_sublist (h : c.Orderly) (he : d.entries.Sublist c.entries)
    (hs : d.serials = c.serials) (hn : d.numbering = c.numbering) (hp : d.page = c.page)
    (ho : d.outages = c.outages) : d.Orderly where
  quiet := fail?_congr ho h.quiet
  sorted := h.sorted.sublist he
  issued e hm := (h.issued e (he.subset hm)).of_eq hs hn
  apart := h.apart.sublist (he.map _)
  page := hp ▸ h.page

theorem expire (h : c.Orderly) (now : Time.Instant) : (c.expire now).Orderly :=
  h.of_sublist List.filter_sublist rfl rfl rfl rfl

theorem set (h : c.Orderly) (space : Int) (key value : String) (expiry : Option Time.Instant) :
    (c.set space key value expiry).Orderly := by
  have hs : ({ c.set space key value expiry with respawn := [] } : CacheServer).HoldsOnly
      fun _ => True := by
    rw [← set_with_respawn]
    exact h.holdsOnly.set value expiry fun _ _ _ => trivial
  refine ⟨fail?_congr (set_outages ..).1 h.quiet, hs.sorted, hs.issued, ?_, hs.page⟩
  unfold CacheServer.set
  split
  · dsimp only
    rw [List.map_map, comp_given (fun e => (e.space, e.key)) fun _ _ _ => rfl]
    exact h.apart
  · next hf =>
    refine ((insert_perm _ c.entries).map _).nodup_iff.mpr
      (List.nodup_cons.mpr ⟨fun hm => ?_, h.apart⟩)
    obtain ⟨e, he, hp⟩ := List.mem_map.mp hm
    obtain ⟨hs, hk⟩ := Prod.mk.inj hp
    exact List.find?_eq_none.mp hf e he (isAt_iff.mpr ⟨hs, hk⟩)

theorem setAll (h : c.Orderly) (space : Int) (ks : List String) (value : String) :
    (ks.foldl (fun c k => c.set space k value none) c).Orderly := by
  induction ks generalizing c with
  | nil => exact h
  | cons k ks ih => exact ih (h.set space k value none)

theorem writeAnew (h : c.Orderly) (space : Int) : (c.writeAnew space).Orderly := by
  unfold CacheServer.writeAnew
  split
  · exact h
  · next ks rest _ =>
    have hr : ({ c with respawn := rest } : CacheServer).Orderly :=
      h.of_sublist (.refl _) rfl rfl rfl rfl
    exact hr.setAll space ks "respawned"

theorem turned (h : c.Orderly) (unlinks : Bool) (space : Int) (keys : List String) :
    (c.turned unlinks space keys).Orderly := by
  unfold CacheServer.turned
  split
  · rw [eraseAll_eq]
    exact (h.of_sublist (d := { c with entries := _ }) List.filter_sublist
      rfl rfl rfl rfl).writeAnew _
  · exact h

end Orderly

theorem turned_nil (unlinks : Bool) (space : Int) (c : CacheServer) :
    c.turned unlinks space [] = c := by
  simp [turned]

theorem stock_turned_le (c : CacheServer) (unlinks : Bool) (n : Int) (keys : List String)
    (space : Int) (cursor : Nat) :
    (c.turned unlinks n keys).stock space cursor ≤ c.stock space cursor := by
  unfold turned
  split
  · refine (stock_writeAnew_le _ n).trans ?_
    have hle := length_ahead_le (eraseAll_sublist c n keys) space cursor
    rw [eraseAll_eq] at hle ⊢
    exact Nat.add_le_add_right hle _
  · exact Nat.le_refl _

theorem expire_unlinked (c : CacheServer) (now : Time.Instant) (space : Int) (keys : List String) :
    (((c.expire now).eraseAll space keys).1.writeAnew space).expire now =
      ((c.expire now).eraseAll space keys).1.writeAnew space := by
  refine expire_eq_self (c := c) fun e he => ?_
  unfold writeAnew at he
  split at he
  · exact .inr ((eraseAll_sublist _ _ _).subset he)
  · rcases expiry_of_mem_setAll he with h | h
    · exact .inl h
    · exact .inr ((eraseAll_sublist _ _ _).subset h)

theorem expire_turned (c : CacheServer) (now : Time.Instant) (unlinks : Bool) (space : Int)
    (keys : List String) :
    ((c.expire now).turned unlinks space keys).expire now =
      (c.expire now).turned unlinks space keys := by
  unfold turned
  split
  · exact expire_unlinked c now space keys
  · exact expire_expire c now

theorem turned_of_nil (h : c.respawn = []) :
    c.turned true space keys =
      { c with entries := c.entries.filter fun e =>
          !(e.space == space && keys.contains e.key) } := by
  unfold turned
  split
  · rw [eraseAll_eq]
    exact writeAnew_of_nil space h
  · next hk =>
    obtain rfl : keys = [] := by simpa using hk
    rw [List.filter_eq_self.mpr (by simp)]

/-! ## Counting keys -/

theorem length_filter_add {l s : List String} (hs : s.Sublist l) (hl : l.Nodup) :
    s.length + (l.filter fun k => !s.contains k).length = l.length := by
  have hperm : s.Perm (l.filter fun k => s.contains k) := by
    refine (List.perm_ext_iff_of_nodup (hl.sublist hs) (hl.filter _)).mpr fun k => ?_
    simpa using fun hk => hs.subset hk
  rw [hperm.length_eq, ← List.length_eq_length_filter_add]

theorem mem_keysUnder {k : String} :
    k ∈ c.keysUnder space front ↔ ∃ e ∈ c.entries, e.IsUnder space front ∧ e.key = k := by
  simp [keysUnder, Entry.IsUnder, and_assoc]

theorem Orderly.nodup_keysUnder (h : c.Orderly) (space : Int) (front : String) :
    (c.keysUnder space front).Nodup := by
  let isUnder (e : Entry) : Bool := e.space == space && front.toList.isPrefixOf e.key.toList
  have hs : ((c.keysUnder space front).map fun k => (space, k)) =
      (c.entries.filter isUnder).map fun e => (e.space, e.key) := by
    rw [keysUnder, List.map_map]
    refine List.map_congr_left fun e he => ?_
    have : e.space = space := by simpa using (Bool.and_eq_true_iff.mp (List.mem_filter.mp he).2).1
    simp [this]
  refine List.Nodup.of_map (fun k => (space, k)) ?_
  rw [hs]
  exact h.apart.sublist (List.filter_sublist.map _)

theorem Orderly.keysUnder_eq_nil (h : c.Orderly)
    (hn : ∀ e ∈ c.entries, e.IsUnder space front → e.serial ≤ 0) :
    c.keysUnder space front = [] := by
  refine List.eq_nil_iff_forall_not_mem.mpr fun k hk => ?_
  obtain ⟨e, he, hm, -⟩ := mem_keysUnder.mp hk
  exact absurd (h.issued e he).pos (Nat.not_lt.mpr (hn e he hm))

/-- Of a family, a page takes what is on it. -/
theorem Orderly.keysUnder_turned (h : c.Orderly) (hr : c.respawn = [])
    (hk : keys.Sublist (c.keysUnder space front)) :
    keys.length + ((c.turned true space keys).keysUnder space front).length =
      (c.keysUnder space front).length := by
  have hleft : (c.turned true space keys).keysUnder space front =
      (c.keysUnder space front).filter fun k => !keys.contains k := by
    rw [turned_of_nil hr]
    simp only [keysUnder, List.filter_map, List.filter_filter]
    congr 1
    refine List.filter_congr fun e _ => ?_
    simp only [Function.comp]
    cases e.space == space <;> simp [Bool.and_comm]
  rw [hleft]
  exact length_filter_add hk (h.nodup_keysUnder space front)

/-! ## Pages of a scan -/

theorem Orderly.length_ahead_scan_lt (h : c.Orderly) {n : Nat} (hn : 0 < n) (cursor : Nat)
    (hs : (c.scan space cursor pattern n).1 = next) (h0 : next ≠ 0) :
    (c.ahead space next).length < (c.ahead space cursor).length :=
  h.holdsOnly.length_ahead_scan_lt hn cursor hs h0

section

variable (hf : isLiteral front.toList = true)
include hf

theorem scan_sublist {n : Nat} (h : c.scan space cursor (patternOf front) n = (next, keys)) :
    keys.Sublist (c.keysUnder space front) := by
  have hpage : (c.pageAt space cursor n).Sublist (c.entries.filter fun e => e.space == space) := by
    refine (List.take_sublist _ _).trans (List.monotone_filter_right _ fun e he => ?_)
    exact (Bool.and_eq_true_iff.mp he).1
  have hunder := hpage.filter fun e => front.toList.isPrefixOf e.key.toList
  rw [List.filter_filter] at hunder
  rw [← show _ = keys from congrArg Prod.snd h, scan_patternOf hf, List.filter_map, keysUnder]
  simp only [Bool.and_comm (List.isPrefixOf _ _)] at hunder
  exact hunder.map _

theorem Orderly.mem_of_scan (h : c.Orderly) {n : Nat} (hn : 0 < n) (cursor : Nat)
    (hs : c.scan space cursor (patternOf front) n = (next, keys)) {e : Entry} (he : e ∈ c.entries)
    (hu : e.IsUnder space front) (hc : cursor < e.serial) (hx : next = 0 ∨ e.serial ≤ next) :
    e.key ∈ keys :=
  h.holdsOnly.mem_of_scan hf hn cursor hs he hu hc hx

end

end CacheServer

/-! ## Turns -/

namespace Cache

def unlinkedIn (log : List Event) : List (Int × String) :=
  log.flatMap fun
    | .cache space (.unlink keys) => keys.map (space, ·)
    | _ => []

def deal (unlinks : Bool) (space : Int) (keys : List String) : Operation Unit :=
  if unlinks && !keys.isEmpty then unlink space keys else return ()

def turn (unlinks : Bool) (space : Int) (pattern : String) (count : Int) (cursor : Nat) :
    Operation (Nat × List String) := do
  let page ← scan space cursor pattern count
  deal unlinks space page.2
  return page

structure Turned (unlinks : Bool) (space : Int) (pattern : String) (count : Int) (cursor : Nat)
    (u : World) (next : Nat) (keys : List String) (v : World) : Prop where
  page : u.live.scan space cursor pattern count.toNat = (next, keys)
  live : v.live = u.live.turned unlinks space keys
  orderly : v.cache.Orderly
  log : unlinkedIn v.log = unlinkedIn u.log ++ if unlinks then keys.map (space, ·) else []

theorem unlinkedIn_append (log log' : List Event) :
    unlinkedIn (log ++ log') = unlinkedIn log ++ unlinkedIn log' :=
  List.flatMap_append

theorem deal_spec (h : u.cache.Orderly) (hl : u.live = u.cache) (unlinks : Bool) (space : Int)
    (keys : List String) :
    ∃ v, deal unlinks space keys u = (.ok (), v) ∧ v.now = u.now ∧
      v.cache = u.cache.turned unlinks space keys ∧
      unlinkedIn v.log = unlinkedIn u.log ++ if unlinks then keys.map (space, ·) else [] := by
  unfold deal CacheServer.turned
  split
  · next hd =>
    refine ⟨_, command_of_quiet h.quiet .., rfl, ?_, ?_⟩
    · rw [show u.cache.expire u.now = u.cache from hl]
    · rw [unlinkedIn_append, if_pos (Bool.and_eq_true_iff.mp hd).1]
      simp [unlinkedIn]
  · next hd =>
    refine ⟨u, rfl, rfl, rfl, ?_⟩
    cases unlinks
    · simp
    · obtain rfl : keys = [] := by simpa using hd
      simp

theorem turn_spec (h : u.cache.Orderly) (unlinks : Bool) (space : Int) (pattern : String)
    (count : Int) (cursor : Nat) :
    ∃ next keys v, turn unlinks space pattern count cursor u = (.ok (next, keys), v) ∧
      Turned unlinks space pattern count cursor u next keys v := by
  have hlive : u.live.Orderly := h.expire u.now
  let page := u.live.scan space cursor pattern count.toNat
  let u₁ : World :=
    { u with log := u.log ++ [.cache space (.scan cursor pattern count)], cache := u.live }
  have hscan : scan space cursor pattern count u = (.ok page, u₁) := command_of_quiet h.quiet ..
  obtain ⟨v, hdeal, hnow, hcache, hlog⟩ :=
    deal_spec (u := u₁) hlive (u.cache.expire_expire u.now) unlinks space page.2
  have hturn : turn unlinks space pattern count cursor u = (.ok page, v) := by
    rw [turn, run_bind, hscan]
    dsimp only
    rw [run_bind, hdeal]
    rfl
  refine ⟨page.1, page.2, v, hturn, rfl, ?_, hcache ▸ hlive.turned unlinks space page.2, ?_⟩
  · rw [World.live, hcache, hnow]
    exact u.cache.expire_turned u.now unlinks space page.2
  · rw [hlog]
    congr 1
    simp [u₁, unlinkedIn]

theorem Turned.of_turn (h : u.cache.Orderly)
    (ht : turn unlinks space pattern count cursor u = (.ok (next, keys), v)) :
    Turned unlinks space pattern count cursor u next keys v := by
  obtain ⟨next', keys', v', he, hv⟩ := turn_spec h unlinks space pattern count cursor
  obtain ⟨hp, rfl⟩ := Prod.mk.inj (he.symm.trans ht)
  obtain ⟨rfl, rfl⟩ := Prod.mk.inj (Except.ok.inj hp)
  exact hv

/-- From the cursor on, page after page until there is no more: what was on each. -/
inductive Walks (unlinks : Bool) (space : Int) (pattern : String) (count : Int) :
    Nat → World → List (List String) → World → Prop
  | last {cursor : Nat} {u v : World} {keys : List String} :
      turn unlinks space pattern count cursor u = (.ok (0, keys), v) →
      Walks unlinks space pattern count cursor u [keys] v
  | next {cursor next : Nat} {u v w : World} {keys : List String} {pages : List (List String)} :
      turn unlinks space pattern count cursor u = (.ok (next, keys), v) → next ≠ 0 →
      Walks unlinks space pattern count next v pages w →
      Walks unlinks space pattern count cursor u (keys :: pages) w

/-! ## Every walk ends -/

theorem exists_walks (unlinks : Bool) (space : Int) (pattern : String) (hc : 0 < count)
    (h : u.cache.Orderly) (cursor : Nat) :
    ∃ pages w, Walks unlinks space pattern count cursor u pages w ∧ w.cache.Orderly ∧
      pages.length ≤ u.live.stock space cursor + 1 := by
  induction hn : u.live.stock space cursor using Nat.strong_induction_on generalizing u cursor with
  | _ n ih =>
    obtain ⟨next, keys, v, ht, hv⟩ := turn_spec h unlinks space pattern count cursor
    by_cases h0 : next = 0
    · subst h0
      exact ⟨[keys], v, .last ht, hv.orderly, by simp⟩
    · -- the cursor has moved on, and what comes back was to come back before
      have hless := (h.expire u.now).length_ahead_scan_lt (by omega) cursor
        (congrArg Prod.fst hv.page) h0
      have hstock : v.live.stock space next < n := by
        have hle := u.live.stock_turned_le unlinks space keys space next
        rw [hv.live, ← hn]
        exact hle.trans_lt (Nat.add_lt_add_right hless _)
      obtain ⟨pages, w, hw, ho, hl⟩ := ih _ hstock hv.orderly next rfl
      exact ⟨keys :: pages, w, .next ht h0 hw, ho, by simp; omega⟩

theorem unlinkPages_succ (space : Int) (pattern : String) (count : Int) (cursor fuel : Nat) :
    unlinkPages space pattern count cursor (fuel + 1) =
      (turn true space pattern count cursor >>= fun page =>
        if page.1 = 0 then return page.2.length
        else do return page.2.length + (← unlinkPages space pattern count page.1 fuel)) := by
  rw [turn, bind_assoc, unlinkPages]
  congr 1
  funext page
  obtain ⟨next, keys⟩ := page
  rw [bind_assoc, deal]
  dsimp only
  cases keys.isEmpty <;> rfl

theorem scanPages_succ (space : Int) (pattern : String) (cursor fuel : Nat) :
    scanPages space pattern cursor (fuel + 1) =
      (turn false space pattern 1000 cursor >>= fun page =>
        if page.1 = 0 then return page.2
        else do return page.2 ++ (← scanPages space pattern page.1 fuel)) := by
  rw [turn, bind_assoc, scanPages]
  rfl

theorem unlinkPages_of_walks (h : Walks true space pattern count cursor u pages w)
    (hf : pages.length ≤ fuel) :
    unlinkPages space pattern count cursor fuel u = (.ok pages.flatten.length, w) := by
  induction h generalizing fuel with
  | last ht =>
    obtain ⟨fuel, rfl⟩ := Nat.exists_eq_add_of_le' (show 1 ≤ fuel from hf)
    rw [unlinkPages_succ, run_bind, ht]
    simp
  | next ht h0 _ ih =>
    obtain ⟨fuel, rfl⟩ := Nat.exists_eq_add_of_le' (Nat.one_le_of_lt hf)
    rw [unlinkPages_succ, run_bind, ht]
    simp [h0, ih (Nat.le_of_succ_le_succ hf)]

theorem scanPages_of_walks (h : Walks false space pattern 1000 cursor u pages w)
    (hf : pages.length ≤ fuel) :
    scanPages space pattern cursor fuel u = (.ok pages.flatten, w) := by
  induction h generalizing fuel with
  | last ht =>
    obtain ⟨fuel, rfl⟩ := Nat.exists_eq_add_of_le' (show 1 ≤ fuel from hf)
    rw [scanPages_succ, run_bind, ht]
    simp
  | next ht h0 _ ih =>
    obtain ⟨fuel, rfl⟩ := Nat.exists_eq_add_of_le' (Nat.one_le_of_lt hf)
    rw [scanPages_succ, run_bind, ht]
    simp [h0, ih (Nat.le_of_succ_le_succ hf)]

namespace Walks

theorem orderly (h : Walks unlinks space pattern count cursor u pages w) (hu : u.cache.Orderly) :
    w.cache.Orderly := by
  induction h with
  | last ht => exact (Turned.of_turn hu ht).orderly
  | next ht _ _ ih => exact ih (Turned.of_turn hu ht).orderly

theorem unlinkedIn_log (h : Walks unlinks space pattern count cursor u pages w)
    (hu : u.cache.Orderly) :
    unlinkedIn w.log =
      unlinkedIn u.log ++ if unlinks then pages.flatten.map (space, ·) else [] := by
  induction h with
  | last ht => simpa using (Turned.of_turn hu ht).log
  | next ht _ _ ih =>
    have hv := Turned.of_turn hu ht
    rw [ih hv.orderly, hv.log]
    cases unlinks <;> simp

theorem live_of_look (h : Walks false space pattern count cursor u pages w)
    (hu : u.cache.Orderly) : w.live = u.live := by
  induction h with
  | last ht => exact (Turned.of_turn hu ht).live
  | next ht _ _ ih =>
    have hv := Turned.of_turn hu ht
    exact (ih hv.orderly).trans hv.live

section Families

variable (hf : isLiteral front.toList = true)
include hf

theorem prefix_of_mem (h : Walks unlinks space (patternOf front) count cursor u pages w)
    (hu : u.cache.Orderly) : ∀ k ∈ pages.flatten, front.toList <+: k.toList := by
  have onPage {u v : World} {cursor next : Nat} {keys : List String}
      (hv : Turned unlinks space (patternOf front) count cursor u next keys v) (k : String)
      (hk : k ∈ keys) : front.toList <+: k.toList := by
    obtain ⟨e, -, hm, rfl⟩ :=
      CacheServer.mem_keysUnder.mp ((CacheServer.scan_sublist hf hv.page).subset hk)
    exact hm.2
  induction h with
  | last ht => simpa using onPage (Turned.of_turn hu ht)
  | next ht _ _ ih =>
    have hv := Turned.of_turn hu ht
    intro k hk
    rcases List.mem_append.mp hk with hk | hk
    · exact onPage hv k hk
    · exact ih hv.orderly k hk

theorem clear (h : Walks unlinks space (patternOf front) count cursor u pages w) (hc : 0 < count)
    (hu : u.cache.Orderly) (hp : pages.flatten = []) :
    w.live = u.live ∧ ∀ e ∈ u.live.entries, e.IsUnder space front → e.serial ≤ cursor := by
  induction h with
  | @last cursor u v keys ht =>
    have hv := Turned.of_turn hu ht
    obtain rfl : keys = [] := by simpa using hp
    refine ⟨hv.live.trans (CacheServer.turned_nil ..), fun e he hm => ?_⟩
    by_contra hlt
    have := (hu.expire u.now).mem_of_scan hf (by omega) cursor hv.page he hm (by omega) (.inl rfl)
    cases this
  | @next cursor next u v w keys pages ht _ _ ih =>
    have hv := Turned.of_turn hu ht
    rw [List.flatten_cons, List.append_eq_nil_iff] at hp
    obtain ⟨rfl, hp⟩ := hp
    have hlive : v.live = u.live := hv.live.trans (CacheServer.turned_nil ..)
    obtain ⟨hw, hnone⟩ := ih hv.orderly hp
    refine ⟨hw.trans hlive, fun e he hm => ?_⟩
    -- what is behind the next cursor and ahead of this one would have been on the page
    by_contra hlt
    have hle : e.serial ≤ next := hnone e (hlive ▸ he) hm
    have := (hu.expire u.now).mem_of_scan hf (by omega) cursor hv.page he hm (by omega) (.inr hle)
    cases this

theorem alone (h : Walks true space (patternOf front) count cursor u pages w) (hc : 0 < count)
    (hu : u.cache.Orderly) (hr : u.cache.respawn = []) :
    w.cache.respawn = [] ∧ w.live.entries ⊆ u.live.entries ∧
      (∀ e ∈ w.live.entries, e.IsUnder space front → e.serial ≤ cursor) ∧
      pages.flatten.length + (w.live.keysUnder space front).length =
        (u.live.keysUnder space front).length := by
  -- a page leaves nothing to find between its cursor and the next
  have onPage {u v : World} {cursor next : Nat} {keys : List String} (hu : u.cache.Orderly)
      (hr : u.cache.respawn = [])
      (hv : Turned true space (patternOf front) count cursor u next keys v) :
      v.cache.respawn = [] ∧ v.live.entries ⊆ u.live.entries ∧
        (∀ e ∈ v.live.entries, e.IsUnder space front → (next = 0 ∨ e.serial ≤ next) →
          e.serial ≤ cursor) ∧
        keys.length + (v.live.keysUnder space front).length =
          (u.live.keysUnder space front).length := by
    have hturned := hv.live.trans (CacheServer.turned_of_nil (c := u.live) hr)
    have hmem {e : Entry} (he : e ∈ v.live.entries) :
        e ∈ u.live.entries ∧ ¬ (e.space = space ∧ e.key ∈ keys) := by
      rw [hturned] at he
      simpa [imp_iff_not_or] using List.mem_filter.mp he
    refine ⟨(congrArg (·.respawn) hturned).trans hr, fun e he => (hmem he).1, ?_, ?_⟩
    · intro e he hm hx
      by_contra hlt
      refine (hmem he).2 ⟨hm.1, ?_⟩
      exact (hu.expire u.now).mem_of_scan hf (by omega) cursor hv.page (hmem he).1 hm (by omega) hx
    · rw [hv.live]
      exact (hu.expire u.now).keysUnder_turned hr (CacheServer.scan_sublist hf hv.page)
  induction h with
  | last ht =>
    obtain ⟨hr', hsub, hnone, hcount⟩ := onPage hu hr (Turned.of_turn hu ht)
    exact ⟨hr', hsub, fun e he hm => hnone e he hm (.inl rfl), by simpa using hcount⟩
  | next ht _ _ ih =>
    have hv := Turned.of_turn hu ht
    obtain ⟨hr', hsub, hnone, hcount⟩ := onPage hu hr hv
    obtain ⟨hw, hsub', hnone', hcount'⟩ := ih hv.orderly hr'
    refine ⟨hw, fun e he => hsub (hsub' he), fun e he hm => ?_, ?_⟩
    · exact hnone e (hsub' he) hm (.inr (hnone' e he hm))
    · rw [List.flatten_cons, List.length_append]
      omega

end Families

end Walks

end Cache

end SchemaHost
