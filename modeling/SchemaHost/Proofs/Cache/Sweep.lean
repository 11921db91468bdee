import Mathlib.Order.Nat
import SchemaHost.Proofs.Cache.Outage
import SchemaHost.Proofs.Cache.Pattern
import SchemaHost.Proofs.Cache.Working

/-! # Sweeping keys out

A scan takes the keys page by page in the order of their serial numbers, and what matches on a page
is unlinked before the next page is asked for. So behind the cursor nothing is left that matches,
and behind the last page nothing at all.
-/

namespace SchemaHost

open Cache Operation

variable {c : CacheServer} {P : Entry → Prop} {count space : Int}
  {pattern front tenant : String} {batch : Int} {next : Nat} {keys : List String}

def Cache.Entry.IsUnder (e : Entry) (space : Int) (front : String) : Prop :=
  e.space = space ∧ front.toList <+: e.key.toList

namespace CacheServer

theorem eraseAll_eq (c : CacheServer) (space : Int) (keys : List String) :
    (c.eraseAll space keys).1 =
      { c with entries := c.entries.filter fun e =>
          !(e.space == space && keys.contains e.key) } := by
  induction keys generalizing c with
  | nil =>
    rw [List.filter_eq_self.mpr (by simp)]
    rfl
  | cons k ks ih =>
    refine (ih (c.erase space k)).trans ?_
    simp only [erase, List.filter_filter, isAt, List.contains_cons]
    congr 2
    funext e
    cases e.space == space <;> cases e.key == k <;> simp

theorem eraseAll_sublist (c : CacheServer) (space : Int) (keys : List String) :
    (c.eraseAll space keys).1.entries.Sublist c.entries := by
  rw [eraseAll_eq]
  exact List.filter_sublist

def ahead (c : CacheServer) (space : Int) (cursor : Nat) : List Entry :=
  c.entries.filter fun e => e.space == space && cursor < e.serial

theorem mem_ahead {e : Entry} {cursor : Nat} :
    e ∈ c.ahead space cursor ↔ e ∈ c.entries ∧ e.space = space ∧ cursor < e.serial := by
  simp [ahead]

theorem length_ahead_le {d : CacheServer} (h : d.entries.Sublist c.entries) (space : Int)
    (cursor : Nat) : (d.ahead space cursor).length ≤ (c.ahead space cursor).length :=
  (h.filter _).length_le

def pageAt (c : CacheServer) (space : Int) (cursor count : Nat) : List Entry :=
  (c.ahead space cursor).take ((c.page.map (min count ·)).getD count)

theorem scan_eq (c : CacheServer) (space : Int) (cursor : Nat) (pattern : String) (count : Nat) :
    c.scan space cursor pattern count =
      (if (c.pageAt space cursor count).length < (c.ahead space cursor).length then
          ((c.pageAt space cursor count).getLast?.map (·.serial)).getD 0 else 0,
        ((c.pageAt space cursor count).map (·.key)).filter fun k =>
          c.matching.fits pattern.toList k.toList) := by
  unfold scan pageAt ahead
  cases c.page <;> rfl

/-- However the server reads patterns, a scan for a family finds the family. -/
theorem scan_patternOf (hf : isLiteral front.toList = true) (c : CacheServer) (space : Int)
    (cursor count : Nat) : (c.scan space cursor (patternOf front) count).2 =
      ((c.pageAt space cursor count).map (·.key)).filter fun k =>
        front.toList.isPrefixOf k.toList := by
  rw [scan_eq]
  refine List.filter_congr fun k _ => ?_
  rw [Bool.eq_iff_iff, fits_patternOf c.matching hf, List.isPrefixOf_iff_prefix]

theorem ahead_of_le {cursor next : Nat} (h : cursor ≤ next) :
    c.ahead space next = (c.ahead space cursor).filter fun e => next < e.serial := by
  rw [ahead, ahead, List.filter_filter]
  refine List.filter_congr fun e _ => ?_
  by_cases hn : next < e.serial
  · simp [hn, h.trans_lt hn]
  · simp [hn]

theorem length_ahead_lt_scanBound (c : CacheServer) (space : Int) (cursor : Nat) :
    (c.ahead space cursor).length < c.scanBound := by
  have := List.length_filter_le (fun e => e.space == space && cursor < e.serial) c.entries
  simp only [ahead, scanBound] at this ⊢
  omega

theorem HoldsOnly.pageAt_ne_nil (h : c.HoldsOnly P) {n cursor : Nat} (hn : 0 < n)
    (ha : c.ahead space cursor ≠ []) : c.pageAt space cursor n ≠ [] := by
  have hlimit : (c.page.map (min n ·)).getD n ≠ 0 := by
    have := h.page
    cases hp : c.page with
    | none => exact hn.ne'
    | some p =>
      have : p ≠ 0 := fun h0 => this (hp.trans (congrArg some h0))
      simp only [Option.map_some, Option.getD_some]
      omega
  rw [pageAt, Ne, List.take_eq_nil_iff, not_or]
  exact ⟨hlimit, ha⟩

/-- Whatever a scan is looking for, its cursor ends up behind everything that is ahead, or at an
entry up to which everything is on the page. -/
theorem HoldsOnly.scan_cursor (h : c.HoldsOnly P) {n : Nat} (hn : 0 < n) (cursor : Nat)
    (hs : (c.scan space cursor pattern n).1 = next) :
    (next = 0 ∧ c.pageAt space cursor n = c.ahead space cursor) ∨
      ∃ e ∈ c.ahead space cursor, e.serial = next ∧
        ∀ x ∈ c.ahead space cursor, x.serial ≤ next → x ∈ c.pageAt space cursor n := by
  have hsort : (c.ahead space cursor).Pairwise fun e e' => e.serial < e'.serial :=
    h.sorted.sublist List.filter_sublist
  have hsplit : c.pageAt space cursor n ++ (c.ahead space cursor).drop _ = c.ahead space cursor :=
    List.take_append_drop _ _
  rw [scan_eq] at hs
  dsimp only at hs
  split at hs
  · next hlt =>
    -- there is another page, and the cursor stands at the last entry of this one
    have hne := h.pageAt_ne_nil hn (List.ne_nil_of_length_pos (Nat.zero_lt_of_lt hlt))
    rw [List.getLast?_eq_some_getLast hne] at hs
    simp only [Option.map_some, Option.getD_some] at hs
    have hlast := List.getLast_mem hne
    refine .inr ⟨_, hsplit ▸ List.mem_append_left _ hlast, hs, fun x hx hle => ?_⟩
    rw [← hsplit] at hx hsort
    rcases List.mem_append.mp hx with hp | hd
    · exact hp
    · have := (List.pairwise_append.mp hsort).2.2 _ hlast x hd
      omega
  · next hge =>
    refine .inl ⟨hs.symm, List.take_of_length_le ?_⟩
    rw [pageAt, List.length_take] at hge
    omega

theorem HoldsOnly.length_ahead_scan_lt (h : c.HoldsOnly P) {n : Nat} (hn : 0 < n) (cursor : Nat)
    (hs : (c.scan space cursor pattern n).1 = next) (h0 : next ≠ 0) :
    (c.ahead space next).length < (c.ahead space cursor).length := by
  rcases h.scan_cursor hn cursor hs with ⟨h0', -⟩ | ⟨e, he, rfl, -⟩
  · exact absurd h0' h0
  · rw [ahead_of_le (mem_ahead.mp he).2.2.le, List.length_filter_lt_length_iff_exists]
    exact ⟨e, he, by simp⟩

/-- Of a family that a scan is looking for, all up to where it leaves the cursor is on the page. -/
theorem HoldsOnly.mem_of_scan (h : c.HoldsOnly P) (hf : isLiteral front.toList = true) {n : Nat}
    (hn : 0 < n) (cursor : Nat) (hs : c.scan space cursor (patternOf front) n = (next, keys))
    {e : Entry} (he : e ∈ c.entries) (hu : e.IsUnder space front) (hc : cursor < e.serial)
    (hx : next = 0 ∨ e.serial ≤ next) : e.key ∈ keys := by
  have hea : e ∈ c.ahead space cursor := mem_ahead.mpr ⟨he, hu.1, hc⟩
  have hp : e ∈ c.pageAt space cursor n := by
    rcases h.scan_cursor hn cursor (congrArg Prod.fst hs) with ⟨-, hall⟩ | ⟨x, hxa, rfl, hall⟩
    · exact hall ▸ hea
    · have := (mem_ahead.mp hxa).2.2
      exact hall e hea (hx.resolve_left (by omega))
  rw [← show _ = keys from congrArg Prod.snd hs, scan_patternOf hf]
  exact List.mem_filter.mpr ⟨List.mem_map_of_mem hp, List.isPrefixOf_iff_prefix.mpr hu.2⟩

/-- A scan has read a page and goes on from `next`. Of what matches, only the keys on the page are
left up to there, and so many more scans suffice for what is ahead. -/
structure Paged (P : Entry → Prop) (space : Int) (front : String) (next : Nat)
    (keys : List String) (fuel : Nat) (c : CacheServer) : Prop where
  holds : c.HoldsOnly fun e => P e ∧
    (e.IsUnder space front → (next = 0 ∨ e.serial ≤ next) → e.key ∈ keys)
  enough : next ≠ 0 → (c.ahead space next).length < fuel

end CacheServer

/-! ## Pages -/

namespace Cache

theorem log_caches {I : CacheServer → Prop} (e : Event) :
    Succeeds (World.Caches count I) (log e) fun _ => World.Caches count I :=
  .modify fun _ hw => hw.of_eq rfl rfl

theorem scansNeeded_caches {I : CacheServer → Prop} :
    Succeeds (World.Caches count I) scansNeeded
      fun n => World.Caches count fun c => I c ∧ n = c.scanBound :=
  .of_ok fun w hw => ⟨w.cache.scanBound, rfl, hw.mono fun hc => ⟨hc, rfl⟩⟩

theorem scanPages_caches {I : CacheServer → Prop} (hI : ∀ c now, I c → I (c.expire now))
    (pattern : String) (cursor fuel : Nat) :
    Succeeds (World.Caches count I) (scanPages space pattern cursor fuel)
      fun _ => World.Caches count I := by
  induction fuel generalizing cursor with
  | zero => exact .pure fun _ hw => hw
  | succ fuel ih =>
    refine (look_caches (e := .scan cursor pattern 1000) hI fun _ => rfl).bind fun page => ?_
    dsimp only
    split
    · exact .pure fun _ hw => hw
    · exact (ih page.1).bind fun _ => .pure fun _ hw => hw

theorem scan_caches (hf : isLiteral front.toList = true) (hb : 0 < batch) {cursor fuel : Nat}
    (hP : ∀ e, P e → e.IsUnder space front → cursor < e.serial) :
    Succeeds (World.Caches count fun c =>
        c.HoldsOnly P ∧ (c.ahead space cursor).length < fuel + 1)
      (scan space cursor (patternOf front) batch)
      fun page => World.Caches count (CacheServer.Paged P space front page.1 page.2 fuel) := by
  refine command_caches (fun _ => rfl) fun c now hc => ?_
  have hx := hc.1.expire now
  have hs : (c.expire now).scan space cursor (patternOf front) batch.toNat = (_, _) := rfl
  have hle := CacheServer.length_ahead_le (c := c) (d := c.expire now) List.filter_sublist
    space cursor
  exact
    { holds := hx.mono fun e he hp =>
        ⟨hp, fun hm => hx.mem_of_scan hf (by omega) cursor hs he hm (hP e hp hm)⟩
      enough := fun hne => Nat.lt_of_lt_of_le
        (hx.length_ahead_scan_lt (by omega) cursor (congrArg Prod.fst hs) hne) (by omega) }

theorem unlink_caches {next fuel : Nat} {keys : List String} :
    Succeeds (World.Caches count (CacheServer.Paged P space front next keys fuel))
      (unlink space keys)
      fun _ => World.Caches count (CacheServer.Paged P space front next [] fuel) := by
  refine command_caches (fun c => ?_) fun c now hc => ?_
  · rw [CacheServer.writeAnew_outages, CacheServer.eraseAll_outages]
  · have hx := (hc.holds.expire now).eraseAll space keys
    have hsub : ((c.expire now).eraseAll space keys).1.entries.Sublist c.entries :=
      (CacheServer.eraseAll_sublist _ _ _).trans List.filter_sublist
    rw [writeAnew_of_nil space hx.respawn]
    exact
      { holds := hx.mono fun e _ he => ⟨he.1.1, fun hm hn => (he.2 ⟨hm.1, he.1.2 hm hn⟩).elim⟩
        enough := fun hne =>
          Nat.lt_of_le_of_lt (CacheServer.length_ahead_le hsub space next) (hc.enough hne) }

/-- Everything that matches is unlinked, if the scans suffice for what is ahead. -/
theorem unlinkPages_caches (hf : isLiteral front.toList = true) (hb : 0 < batch) {cursor fuel : Nat}
    (hP : ∀ e, P e → e.IsUnder space front → cursor < e.serial) :
    Succeeds (World.Caches count fun c =>
        c.HoldsOnly P ∧ (c.ahead space cursor).length < fuel)
      (unlinkPages space (patternOf front) batch cursor fuel)
      fun _ => World.Caches count (CacheServer.HoldsOnly fun e =>
        P e ∧ ¬ e.IsUnder space front) := by
  induction fuel generalizing cursor P with
  | zero => exact .vacuous fun w hw => absurd hw.cache.2 (by omega)
  | succ fuel ih =>
    refine (scan_caches hf hb hP).bind fun (next, keys) => ?_
    have hrest : Succeeds (World.Caches count (CacheServer.Paged P space front next [] fuel))
        (if next = 0 then Pure.pure keys.length else do
          return keys.length + (← unlinkPages space (patternOf front) batch next fuel))
        fun _ => World.Caches count (CacheServer.HoldsOnly fun e =>
          P e ∧ ¬ e.IsUnder space front) := by
      split
      · next h0 =>
        exact .pure fun w hw => hw.mono fun hc => hc.holds.mono fun e _ he =>
          ⟨he.1, fun hm => List.not_mem_nil (he.2 hm (.inl h0))⟩
      · next hne =>
        -- what is left that matches is ahead of the next page
        have hahead (e : Entry) (he : P e ∧ (e.IsUnder space front →
            (next = 0 ∨ e.serial ≤ next) → e.key ∈ [])) (hm : e.IsUnder space front) :
            next < e.serial := by
          by_contra hn
          exact List.not_mem_nil (he.2 hm (.inr (by omega)))
        refine Triple.bind (Triple.restrict (ih hahead) fun w hw => hw.mono
          fun hc => ⟨hc.holds, hc.enough hne⟩) fun _ => .pure fun w hw => ?_
        exact hw.mono fun hc => hc.mono fun e _ he => ⟨he.1.1, he.2⟩
    dsimp only
    split
    · exact unlink_caches.bind fun _ => hrest
    · next hk =>
      obtain rfl : keys = [] := by simpa using hk
      exact hrest

/-! ## Families of keys -/

/-- A pass leaves nothing that matches, and none that follow write anything. -/
theorem deletePasses_caches (hf : isLiteral front.toList = true) (hb : 0 < batch) (delay : Float)
    (passes : Nat) :
    Succeeds (World.Caches count (CacheServer.HoldsOnly P))
      (deletePasses space (patternOf front) delay batch passes)
      fun _ => World.Caches count (CacheServer.HoldsOnly fun e =>
        P e ∧ (passes ≠ 0 → ¬ e.IsUnder space front)) := by
  induction passes generalizing P with
  | zero => exact .pure fun w hw => hw.mono fun hc => hc.mono fun e _ he => ⟨he, by simp⟩
  | succ passes ih =>
    let Q (e : Entry) : Prop := P e ∧ ¬ e.IsUnder space front
    have settle {w : World} (hw : w.Caches count (CacheServer.HoldsOnly Q)) :
        w.Caches count (CacheServer.HoldsOnly fun e =>
          P e ∧ (passes + 1 ≠ 0 → ¬ e.IsUnder space front)) :=
      hw.mono fun hc => hc.mono fun e _ he => ⟨he.1, fun _ => he.2⟩
    refine scansNeeded_caches.bind fun fuel => ?_
    have hu : Succeeds (World.Caches count fun c => c.HoldsOnly P ∧ fuel = c.scanBound)
        (unlinkPages space (patternOf front) batch 0 fuel)
        fun _ => World.Caches count (CacheServer.HoldsOnly Q) := by
      refine Triple.restrict (Triple.weaken (unlinkPages_caches (P := fun e => P e ∧ 0 < e.serial)
        hf hb fun e he _ => he.2) fun _ w hw => hw.mono fun hc => ?_)
        fun w hw => hw.mono fun hc => ?_
      · exact hc.mono fun e _ he => ⟨he.1.1, he.2⟩
      · refine ⟨hc.1.mono fun e he hp => ⟨hp, (hc.1.issued e he).pos⟩, ?_⟩
        exact hc.2 ▸ CacheServer.length_ahead_lt_scanBound _ space 0
    refine hu.bind fun n => ?_
    split
    · exact .pure fun _ hw => settle hw
    · refine (log_caches _).bind fun _ => scansNeeded_caches.bind fun fuel => ?_
      have hl : Succeeds (World.Caches count (CacheServer.HoldsOnly Q))
          (scanPages space (patternOf front) 0 fuel)
          fun _ => World.Caches count (CacheServer.HoldsOnly Q) :=
        scanPages_caches (fun _ now hc => hc.expire now) _ 0 fuel
      refine (hl.restrict fun w hw => hw.mono And.left).bind fun left => ?_
      split
      · exact .pure fun _ hw => settle hw
      · refine ih.bind fun _ => .pure fun _ hw => settle ?_
        exact hw.mono fun hc => hc.mono fun e _ he => he.1

/-- Nothing is left of the tenant's keys in its namespace. -/
theorem purgeTenant_caches (ht : isLiteral tenant.toList = true) :
    Succeeds (World.Caches count (CacheServer.HoldsOnly P)) (purgeTenant tenant)
      fun _ => World.Caches count (CacheServer.HoldsOnly fun e =>
        P e ∧ (Tenant.cacheNamespace tenant count = some e.space →
          ¬ (Tenant.keyPrefix tenant).toList <+: e.key.toList)) := by
  have hI (Q : Entry → Prop) (c : CacheServer) (now : Time.Instant) (hc : c.HoldsOnly Q) :
      (c.expire now).HoldsOnly Q := hc.expire now
  refine (client_caches (hI P) tenant).bind fun x => .lift fun hx => ?_
  refine (deletePasses_caches (Tenant.isLiteral_keyPrefix ht) (by decide) 0.2 3).bind fun n => ?_
  have hr : Succeeds (World.Caches count (CacheServer.HoldsOnly fun e => P e ∧
        (3 ≠ 0 → ¬ e.IsUnder x.space (Tenant.keyPrefix tenant))))
      (modify fun w =>
        { w with allocator :=
            { w.allocator with clients := w.allocator.clients.filter (·.1 != tenant) } })
      fun _ => World.Caches count _ :=
    .modify fun w hw => (admitsReads_caches (hI _)).release tenant w hw
  refine hr.bind fun _ => (look_caches (hI _) fun _ => rfl).bind fun _ => ?_
  refine .pure fun w hw => hw.mono fun hc => hc.mono fun e _ he => ⟨he.1, fun hs hp => ?_⟩
  rw [hx] at hs
  exact he.2 (by decide) ⟨(Option.some.inj hs).symm, hp⟩

end Cache

end SchemaHost
