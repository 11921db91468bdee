import SchemaHost.Proofs.Cache.Walk

/-! # Deleting a family of keys

A family is deleted in passes. Each unlinks what it finds and looks, after a while, whether anything
has come back. However often keys come back, only so many passes are made, and only keys of the
family go.
-/

namespace SchemaHost

open Cache Operation

variable {c : CacheServer} {u v w : World} {space : Int} {pattern front : String} {batch : Int}
  {delay : Float} {n : Nat}

namespace Cache

/-- What a pass unlinked, and what was left after it if it looked: page by page. -/
structure Pass where
  swept : List (List String)
  left : Option (List (List String))

def Pass.unlinked (p : Pass) : List String :=
  p.swept.flatten

def Pass.lastFound (p : Pass) : List String :=
  (p.left.getD p.swept).flatten

/-- At most so many passes, one after the other. -/
inductive Deletes (space : Int) (pattern : String) (delay : Float) (batch : Int) :
    Nat → World → List Pass → World → Prop
  | spent {w : World} : Deletes space pattern delay batch 0 w [] w
  | clear {n : Nat} {u v : World} {swept : List (List String)} :
      Walks true space pattern batch 0 u swept v → swept.flatten = [] →
      Deletes space pattern delay batch (n + 1) u [⟨swept, none⟩] v
  | done {n : Nat} {u v w : World} {swept left : List (List String)} :
      Walks true space pattern batch 0 u swept v → swept.flatten ≠ [] →
      Walks false space pattern 1000 0 (log (.slept delay) v).2 left w → left.flatten = [] →
      Deletes space pattern delay batch (n + 1) u [⟨swept, some left⟩] w
  | again {n : Nat} {u v w x : World} {swept left : List (List String)} {ps : List Pass} :
      Walks true space pattern batch 0 u swept v → swept.flatten ≠ [] →
      Walks false space pattern 1000 0 (log (.slept delay) v).2 left w → left.flatten ≠ [] →
      Deletes space pattern delay batch n w ps x →
      Deletes space pattern delay batch (n + 1) u (⟨swept, some left⟩ :: ps) x

/-! ## The passes of a deletion -/

theorem stock_lt_scanBound (u : World) (space : Int) :
    u.live.stock space 0 < u.cache.scanBound := by
  have hle := CacheServer.length_ahead_le (c := u.cache) (d := u.live) List.filter_sublist space 0
  have hentries := List.length_filter_le (fun e => e.space == space && 0 < e.serial) u.cache.entries
  have hr : u.live.respawn = u.cache.respawn := rfl
  simp only [CacheServer.stock, CacheServer.scanBound, CacheServer.ahead, hr] at hle hentries ⊢
  omega

theorem sweep_spec (space : Int) (pattern : String) (hb : 0 < batch) (hu : u.cache.Orderly) :
    ∃ swept v, Walks true space pattern batch 0 u swept v ∧ v.cache.Orderly ∧
      (scansNeeded >>= unlinkPages space pattern batch 0) u = (.ok swept.flatten.length, v) := by
  obtain ⟨swept, v, hs, hv, hl⟩ := exists_walks true space pattern hb hu 0
  exact ⟨swept, v, hs, hv, unlinkPages_of_walks hs (hl.trans (stock_lt_scanBound u space))⟩

theorem look_spec (space : Int) (pattern : String) (hu : u.cache.Orderly) :
    ∃ left v, Walks false space pattern 1000 0 u left v ∧ v.cache.Orderly ∧
      (scansNeeded >>= scanPages space pattern 0) u = (.ok left.flatten, v) := by
  obtain ⟨left, v, hl, hv, hlen⟩ :=
    exists_walks false space pattern (by decide : (0 : Int) < 1000) hu 0
  exact ⟨left, v, hl, hv, scanPages_of_walks hl (hlen.trans (stock_lt_scanBound u space))⟩

theorem deletePasses_succ (space : Int) (pattern : String) (delay : Float) (batch : Int) (n : Nat) :
    deletePasses space pattern delay batch (n + 1) = (do
      let k ← scansNeeded >>= unlinkPages space pattern batch 0
      if k = 0 then return 0
      log (.slept delay)
      let left ← scansNeeded >>= scanPages space pattern 0
      if left.isEmpty then return k
      return k + (← deletePasses space pattern delay batch n)) := by
  simp only [deletePasses, bind_assoc]

/-- No pass goes on forever. -/
theorem exists_passes (space : Int) (pattern : String) (delay : Float) (n : Nat) (hb : 0 < batch)
    (hu : u.cache.Orderly) :
    ∃ ps w, Deletes space pattern delay batch n u ps w ∧
      deletePasses space pattern delay batch n u = (.ok (ps.flatMap Pass.unlinked).length, w) := by
  induction n generalizing u with
  | zero => exact ⟨[], u, .spent, rfl⟩
  | succ n ih =>
    obtain ⟨swept, v, hs, hv, hsweep⟩ := sweep_spec space pattern hb hu
    rw [deletePasses_succ, run_bind, hsweep]
    dsimp only
    -- a pass that finds nothing does not wait to look again
    by_cases h0 : swept.flatten = []
    · refine ⟨_, v, .clear hs h0, ?_⟩
      simp [h0, Pass.unlinked]
    · have hslept : (log (.slept delay) v).2.cache.Orderly := hv
      obtain ⟨left, w, hl, hw, hlook⟩ := look_spec space pattern hslept
      rw [if_neg (mt List.length_eq_zero_iff.mp h0), run_bind_ok (a := log (.slept delay)) rfl,
        run_bind, hlook]
      dsimp only
      by_cases h1 : left.flatten = []
      · refine ⟨_, w, .done hs h0 hl h1, ?_⟩
        simp [h1, Pass.unlinked]
      · obtain ⟨ps, x, hp, hx⟩ := ih hw
        refine ⟨_, x, .again hs h0 hl h1 hp, ?_⟩
        rw [if_neg (mt List.isEmpty_iff.mp h1), run_bind, hx]
        simp [Pass.unlinked]

/-! ## What passes do -/

namespace Deletes

theorem length_le {ps : List Pass} (h : Deletes space pattern delay batch n u ps w) :
    ps.length ≤ n := by
  induction h with
  | spent => exact Nat.le_refl 0
  | clear => simp
  | done => simp
  | again _ _ _ _ _ ih => exact Nat.succ_le_succ ih

theorem unlinkedIn_log {ps : List Pass} (h : Deletes space pattern delay batch n u ps w)
    (hu : u.cache.Orderly) :
    unlinkedIn w.log = unlinkedIn u.log ++ (ps.flatMap Pass.unlinked).map (space, ·) := by
  have sleep (v : World) : unlinkedIn (log (.slept delay) v).2.log = unlinkedIn v.log := by
    simp [log, unlinkedIn]
  induction h with
  | spent => simp
  | clear hs => simpa [Pass.unlinked] using hs.unlinkedIn_log hu
  | done hs _ hl =>
    have hv := hs.orderly hu
    rw [hl.unlinkedIn_log hv, sleep, hs.unlinkedIn_log hu]
    simp [Pass.unlinked]
  | again hs _ hl _ _ ih =>
    have hv := hs.orderly hu
    rw [ih (hl.orderly hv), hl.unlinkedIn_log hv, sleep, hs.unlinkedIn_log hu]
    simp [Pass.unlinked]

section Families

variable {ps : List Pass} (h : Deletes space (patternOf front) delay batch n u ps w)
  (hf : isLiteral front.toList = true) (hu : u.cache.Orderly)
include h hf hu

theorem prefix_of_mem : ∀ k ∈ ps.flatMap Pass.unlinked, front.toList <+: k.toList := by
  induction h with
  | spent => simp
  | clear hs => simpa [Pass.unlinked] using hs.prefix_of_mem hf hu
  | done hs => simpa [Pass.unlinked] using hs.prefix_of_mem hf hu
  | again hs _ hl _ _ ih =>
    intro k hk
    rcases List.mem_append.mp hk with hk | hk
    · exact hs.prefix_of_mem hf hu k hk
    · exact ih (hl.orderly (hs.orderly hu)) k hk

variable (hb : 0 < batch)
include hb

/-- They end because nothing is found any more, or because there are to be no more of them. -/
theorem ends : (ps.length = n ∧ ∀ p ∈ ps, p.lastFound ≠ []) ∨
    ∃ p, ps.getLast? = some p ∧ p.lastFound = [] ∧ w.live.keysUnder space front = [] := by
  induction h with
  | spent => exact .inl ⟨rfl, by simp⟩
  | clear hs h0 =>
    obtain ⟨hlive, hnone⟩ := hs.clear hf hb hu h0
    refine .inr ⟨_, rfl, h0, ?_⟩
    rw [hlive]
    exact (hu.expire _).keysUnder_eq_nil hnone
  | done hs _ hl h0 =>
    have hv := hs.orderly hu
    obtain ⟨hlive, hnone⟩ := hl.clear hf (by decide) hv h0
    refine .inr ⟨_, rfl, h0, ?_⟩
    rw [hlive]
    exact CacheServer.Orderly.keysUnder_eq_nil (hv.expire _) hnone
  | again hs _ hl h1 _ ih =>
    rcases ih (hl.orderly (hs.orderly hu)) with ⟨hlen, hall⟩ | ⟨p, hp, hlast⟩
    · refine .inl ⟨congrArg (· + 1) hlen, fun p hp => ?_⟩
      rcases List.mem_cons.mp hp with rfl | hp
      · exact h1
      · exact hall p hp
    · exact .inr ⟨p, by simp [List.getLast?_cons, hp], hlast⟩

theorem alone (hr : u.cache.respawn = []) :
    (0 < n → w.live.keysUnder space front = []) ∧
      (ps.flatMap Pass.unlinked).length + (w.live.keysUnder space front).length =
        (u.live.keysUnder space front).length := by
  have sweep {u v : World} {swept : List (List String)} (hu : u.cache.Orderly)
      (hr : u.cache.respawn = []) (hs : Walks true space (patternOf front) batch 0 u swept v) :
      v.cache.respawn = [] ∧ v.live.keysUnder space front = [] ∧
        swept.flatten.length = (u.live.keysUnder space front).length := by
    obtain ⟨hv, -, hnone, hcount⟩ := hs.alone hf hb hu hr
    have hnil := ((hs.orderly hu).expire _).keysUnder_eq_nil hnone
    exact ⟨hv, hnil, by simpa [show v.live.keysUnder space front = [] from hnil] using hcount⟩
  induction h with
  | spent => exact ⟨by simp, by simp⟩
  | clear hs =>
    obtain ⟨-, hnil, hcount⟩ := sweep hu hr hs
    exact ⟨fun _ => hnil, by simpa [Pass.unlinked, hnil] using hcount⟩
  | @done _ _ v w _ _ hs _ hl =>
    obtain ⟨-, hnil, hcount⟩ := sweep hu hr hs
    have hlook : w.live = v.live := hl.live_of_look (hs.orderly hu)
    rw [hlook]
    exact ⟨fun _ => hnil, by simpa [Pass.unlinked, hnil] using hcount⟩
  | @again _ _ v w x _ _ ps hs _ hl _ _ ih =>
    obtain ⟨hv, hnil, hcount⟩ := sweep hu hr hs
    have hlook : w.live = v.live := hl.live_of_look (hs.orderly hu)
    have hw : w.cache.respawn = [] := (congrArg (·.respawn) hlook).trans hv
    obtain ⟨-, hrest⟩ := ih (hl.orderly (hs.orderly hu)) hw
    -- the passes to come find nothing, and so they count nothing
    rw [hlook, hnil, List.length_nil, Nat.add_eq_zero_iff] at hrest
    have hx := List.length_eq_zero_iff.mp hrest.2
    refine ⟨fun _ => hx, ?_⟩
    rw [hx, List.flatMap_cons, List.length_append, hrest.1, Pass.unlinked, hcount]
    rfl

end Families

end Deletes

end Cache

/-! ## What stays -/

/-- Nothing has changed but keys of the family and keys that were to come back. -/
structure KeepsOthers (space : Int) (front : String) (u v : World) : Prop where
  now : v.now = u.now
  respawn : v.cache.respawn <:+ u.cache.respawn
  kept : ∀ n k, (n = space → ¬ front.toList <+: k.toList ∧ k ∉ u.cache.respawn.flatten) →
    v.live.get? n k = u.live.get? n k

theorem isFrame_keepsOthers (space : Int) (front : String) : IsFrame (KeepsOthers space front) where
  refl w := ⟨rfl, List.suffix_refl _, fun _ _ _ => rfl⟩
  trans := by
    rintro u v w h h'
    refine ⟨h'.now.trans h.now, h'.respawn.trans h.respawn, fun n k hk => ?_⟩
    refine (h'.kept n k fun hn => ⟨(hk hn).1, fun hm => (hk hn).2 ?_⟩).trans (h.kept n k hk)
    obtain ⟨ks, hks, hm⟩ := List.mem_flatten.mp hm
    exact List.mem_flatten.mpr ⟨ks, h.respawn.subset hks, hm⟩

theorem looks_keepsOthers (space : Int) (front : String) : Looks (KeepsOthers space front) where
  toIsFrame := isFrame_keepsOthers space front
  look n e run _ hr := by
    intro w
    rcases command_cases n e run w with h | ⟨_, _, h, -⟩
    · rw [h]
      refine ⟨rfl, ?_, fun _ _ _ => ?_⟩
      · rw [hr]
        exact List.suffix_refl _
      · simp only [World.live, hr, CacheServer.expire_expire]
    · rw [h]
      exact ⟨rfl, List.suffix_refl _, fun _ _ _ => rfl⟩
  sleep _ := fun _ => ⟨rfl, List.suffix_refl _, fun _ _ _ => rfl⟩

theorem unlink_keepsOthers {keys : List String} (h : ∀ k ∈ keys, front.toList <+: k.toList) :
    Within (KeepsOthers space front) (unlink space keys) := by
  intro w
  rcases command_cases space (.unlink keys)
    (fun c => ((), (c.eraseAll space keys).1.writeAnew space)) w with hc | ⟨_, _, hc, -⟩
  · rw [unlink, hc]
    refine ⟨rfl, ?_, fun n k hk => ?_⟩
    · rw [CacheServer.writeAnew_respawn, CacheServer.eraseAll_eq]
      exact List.tail_suffix _
    · have hkept : (w.cache.expire w.now).get? n k = w.live.get? n k := rfl
      simp only [World.live, CacheServer.expire_unlinked]
      rw [CacheServer.get?_writeAnew, CacheServer.get?_eraseAll]
      · exact fun hn hm => (hk hn).1 (h k hm)
      · rw [CacheServer.eraseAll_eq]
        exact fun hn => (hk hn).2
  · rw [unlink, hc]
    exact ⟨rfl, List.suffix_refl _, fun _ _ _ => rfl⟩

/-! ## Families -/

/-- However the keys are paged and whatever comes back, a family is deleted in at most one pass more
than there are retries, all that is unlinked is of the family and counted, and nothing else is
touched. Where nothing comes back the whole family goes. When the passes end before there are to be
no more of them, nothing of the family is left. -/
theorem deleteFamily_passes (w : World) (space : Int) (front : String) (retries : Int)
    (delay : Float) (batch : Int) (hw : w.cache.Orderly) (hf : isLiteral front.toList = true)
    (hb : 0 < batch) :
    ∃ ps v, deleteFamily space front retries delay batch w =
        (.ok (ps.flatMap Pass.unlinked).length, v) ∧
      Deletes space (patternOf front) delay batch (retries + 1).toNat w ps v ∧
      ps.length ≤ (retries + 1).toNat ∧
      unlinkedIn v.log = unlinkedIn w.log ++ (ps.flatMap Pass.unlinked).map (space, ·) ∧
      (∀ k ∈ ps.flatMap Pass.unlinked, front.toList <+: k.toList) ∧
      (∀ n k, (n = space → ¬ front.toList <+: k.toList ∧ k ∉ w.cache.respawn.flatten) →
        v.live.get? n k = w.live.get? n k) ∧
      (0 ≤ retries → w.cache.respawn = [] → v.live.keysUnder space front = [] ∧
        (ps.flatMap Pass.unlinked).length = (w.live.keysUnder space front).length) ∧
      ((ps.length = (retries + 1).toNat ∧ ∀ p ∈ ps, p.lastFound ≠ []) ∨
        ∃ p, ps.getLast? = some p ∧ p.lastFound = [] ∧ v.live.keysUnder space front = []) := by
  obtain ⟨ps, v, hp, hd⟩ :=
    exists_passes space (patternOf front) delay (retries + 1).toNat hb hw
  have hothers : KeepsOthers space front w (deletePasses space (patternOf front) delay batch
      (retries + 1).toNat w).2 :=
    (looks_keepsOthers space front).deletePasses (fun w keys hk => unlink_keepsOthers (fun k hm =>
      (fits_patternOf _ hf k).mp (hk k hm)) w) delay batch _ w
  rw [hd] at hothers
  refine ⟨ps, v, hd, hp, hp.length_le, hp.unlinkedIn_log hw, hp.prefix_of_mem hf hw, hothers.kept,
    fun hretries hr => ?_, hp.ends hf hw hb⟩
  obtain ⟨hnil, hcount⟩ := hp.alone hf hw hb hr
  have hnil := hnil (by omega)
  exact ⟨hnil, by simpa [hnil] using hcount⟩

/-- The fifth key gets a number below all others. -/
def Cache.Numbering.unsteady : Numbering where
  number n := if n = 4 then 1 else n + 2
  injective {m n} h := by
    split at h <;> split at h <;> omega
  positive n := by
    split <;> omega

/-- Keys come back twice while a family is deleted: one behind the cursor, and then one ahead of it
and with it another key. -/
def World.restless : World :=
  { now := ⟨0⟩
    cache :=
      { entries := [⟨3, "t:a", "1", 2, none⟩, ⟨3, "u", "2", 3, none⟩, ⟨3, "t:b", "3", 4, none⟩,
          ⟨5, "t:a", "4", 5, none⟩]
        serials := 4
        respawn := [["t:a"], [], ["t:b", "v"]]
        page := some 1
        matching := .globs
        numbering := .unsteady } }

theorem orderly_restless : World.restless.cache.Orderly where
  quiet _ _ := rfl
  sorted := by decide
  issued := by decide
  apart := by decide
  page := by decide

theorem deleteFamily_passes_restless :
    World.restless.cache.Orderly ∧ isLiteral "t:".toList = true ∧ (0 : Int) < 500 ∧
      ∃ ps v, deleteFamily 3 "t:" 2 0.2 500 .restless = (.ok 4, v) ∧
        (ps.flatMap Pass.unlinked).length = 4 ∧
        Deletes 3 (patternOf "t:") 0.2 500 3 .restless ps v ∧
        (∀ k ∈ ps.flatMap Pass.unlinked, "t:".toList <+: k.toList) ∧
        v.live.get? 3 "u" = some "2" ∧ v.live.get? 5 "t:a" = some "4" := by
  refine ⟨orderly_restless, by decide, by decide, ?_⟩
  obtain ⟨ps, v, hd, hp, -, -, hunder, hkept, -⟩ :=
    deleteFamily_passes .restless 3 "t:" 2 0.2 500 orderly_restless (by decide) (by decide)
  have hrun : (deleteFamily 3 "t:" 2 0.2 500 .restless).1.toOption = some 4 := by decide +kernel
  have hcount : (ps.flatMap Pass.unlinked).length = 4 := by
    rw [hd] at hrun
    exact Option.some.inj hrun
  exact ⟨ps, v, hcount ▸ hd, hcount, hp, hunder, hkept 3 "u" (by decide), hkept 5 "t:a" (by decide)⟩

theorem orderly_holding (m : Matching) (count space : Int) (key : String) :
    (World.holding m count space key).cache.Orderly where
  quiet _ _ := rfl
  sorted := List.pairwise_singleton _ _
  issued e he := by
    obtain rfl := List.mem_singleton.mp he
    exact ⟨0, Nat.zero_lt_one, rfl⟩
  apart := List.nodup_singleton _
  page := nofun

/-- Other signs than the star in the front of a family let keys go that are not of the family, and
keys stay that are. -/
theorem not_forall_deleteFamily :
    (¬ ∀ (w : World) (space : Int) (front : String), w.cache.matching = .globs →
        w.cache.Orderly → '*' ∉ front.toList →
        ∀ q ∈ unlinkedIn (deleteFamily space front 2 0.2 500 w).2.log, q ∈ unlinkedIn w.log ∨
          front.toList <+: q.2.toList) ∧
      ¬ ∀ (w : World) (space : Int) (front : String), w.cache.matching = .globs →
        w.cache.Orderly → '*' ∉ front.toList → w.cache.respawn = [] →
        (deleteFamily space front 2 0.2 500 w).2.live.keysUnder space front = [] := by
  constructor
  · intro h
    have hq := h (.holding .globs 16 3 "tenant:o:info") 3 "tenant:?:" rfl (orderly_holding ..)
      (by decide) (3, "tenant:o:info") (by decide +kernel)
    exact absurd hq (by decide +kernel)
  · intro h
    have hq := h (.holding .globs 16 3 "a[b:1") 3 "a[b" rfl (orderly_holding ..) (by decide) rfl
    exact absurd hq (by decide +kernel)

end SchemaHost
