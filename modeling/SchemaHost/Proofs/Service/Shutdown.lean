import SchemaHost.Lifespan
import SchemaHost.Proofs.Cache.Frame
import SchemaHost.Proofs.Server.Frame
import SchemaHost.Proofs.World.Ledger

/-! # The end of the service, event by event

At the end every pool is given up, whatever comes of it. The clients are closed after that, unless
the maintenance pool could not be given up.
-/

namespace SchemaHost

open Operation Server

variable {w : World}

def Pool.disposal (p : Pool) : Event :=
  .server p.database (@ServerEvent.disposed p.serial)

def CacheClient.closing (c : CacheClient) : Event :=
  .cache c.space (@CacheEvent.closed c.serial)

/-- The pools of tenants, and then the one to the maintenance database. -/
def World.heldPools (w : World) : List Pool :=
  w.pools.map (·.2) ++ (w.maintenanceSerial.map (Pool.mk · w.settings.maintenanceName)).toList

def World.heldClients (w : World) : List CacheClient :=
  w.allocator.clients.map (·.2)

theorem Server.check_snd (name statement : String) (w : World) :
    ∃ s, (check name statement w).2 = { w with server := s } := by
  have hf : IsFrame fun u v : World => ∃ s, v = { u with server := s } :=
    { refl := fun w => ⟨w.server, rfl⟩
      trans := by rintro u _ _ ⟨s, rfl⟩ ⟨s', rfl⟩; exact ⟨s', rfl⟩ }
  exact within_check hf (fun _ _ _ _ _ _ => ⟨_, rfl⟩) w

theorem Server.dispose_snd (p : Pool) (w : World) :
    ∃ s, (dispose p w).2 = { w with log := w.log ++ [p.disposal], server := s } := by
  let v : World := { w with log := w.log ++ [p.disposal] }
  have hv : (record p.database (@ServerEvent.disposed p.serial) w) = (.ok (), v) := rfl
  simp only [dispose, run_bind, hv, run_get]
  cases v.server.get? p.database with
  | some _ => exact check_snd p.database "DISPOSE" v
  | none => exact ⟨w.server, rfl⟩

theorem Tenant.disposeAll_eq (ps : List (String × Pool)) (w : World) :
    ∃ s, attemptAll (fun p => dispose p.2) ps w =
      (.ok (), { w with log := w.log ++ ps.map (·.2.disposal), server := s }) := by
  induction ps generalizing w with
  | nil => exact ⟨w.server, by rw [List.map_nil, List.append_nil]; rfl⟩
  | cons p ps ih =>
    obtain ⟨s, hs⟩ := dispose_snd p.2 w
    obtain ⟨s', hs'⟩ := ih { w with log := w.log ++ [p.2.disposal], server := s }
    refine ⟨s', ?_⟩
    rw [attemptAll, run_bind, run_attempt, hs]
    simpa using hs'

theorem Tenant.releasePools_snd (w : World) :
    (releasePools w).2.log = w.log ++ w.heldPools.map Pool.disposal ∧
      (releasePools w).2.allocator = w.allocator := by
  obtain ⟨s, hs⟩ := disposeAll_eq w.pools w
  let v : World := { w with log := w.log ++ w.pools.map (·.2.disposal), server := s, pools := [] }
  cases hm : w.maintenanceSerial with
  | none =>
    have he : (releasePools w).2 = v := by simp [releasePools, hs, hm, v]
    simp [he, v, World.heldPools, hm]
  | some n =>
    obtain ⟨s', hs'⟩ := dispose_snd ⟨n, w.settings.maintenanceName⟩ v
    have he : releasePools w = (do
        dispose ⟨n, w.settings.maintenanceName⟩
        modify fun w => { w with maintenanceSerial := none }) v := by
      simp [releasePools, hs, hm, v]
    have hf : IsFrame fun u v : World => (v.log, v.allocator) = (u.log, u.allocator) :=
      .of_eq fun w => (w.log, w.allocator)
    have ha := hf.bind_after (a := dispose ⟨n, w.settings.maintenanceName⟩) (w := v)
      (f := fun _ => modify fun w => { w with maintenanceSerial := none }) fun _ _ => rfl
    obtain ⟨hl, ha⟩ := Prod.mk.inj ha
    rw [he, hl, ha, hs']
    simp [v, World.heldPools, hm]

theorem Cache.close_snd (c : CacheClient) (w : World) :
    ∃ s, (close c w).2 = { w with log := w.log ++ [c.closing], cache := s } :=
  command_snd c.space (@CacheEvent.closed c.serial) (fun s => ((), s)) w

theorem Cache.close_log (c : CacheClient) (w : World) :
    (close c w).2.log = w.log ++ [c.closing] := by
  obtain ⟨s, hs⟩ := close_snd c w
  rw [hs]

theorem Cache.releaseClients_eq (w : World) :
    (releaseClients w).1 = .ok () ∧
      (releaseClients w).2.log = w.log ++ w.heldClients.map CacheClient.closing := by
  have hl := attemptAll_log (fun c : String × CacheClient => close_log c.2) w.allocator.clients w
  have he : releaseClients w = (do
      attemptAll (fun c : String × CacheClient => close c.2) w.allocator.clients
      modify fun w => { w with allocator := { w.allocator with clients := [] } }) w := rfl
  rw [he, run_bind_ok (attemptAll_ok _ _ w)]
  simpa [World.heldClients, Function.comp_def] using hl

theorem World.shutdown_log (w : World) :
    w.shutdown.2.1 = w.heldPools.map Pool.disposal ++
      if w.shutdown.1.toBool then w.heldClients.map CacheClient.closing else [] := by
  let u : World := { w.writeHistory with log := [] }
  obtain ⟨hl, ha⟩ := Tenant.releasePools_snd u
  have hl : (Tenant.releasePools u).2.log = w.heldPools.map Pool.disposal := hl
  have hs : w.shutdown.1 = (release u).1 ∧ w.shutdown.2.1 = (release u).2.log := ⟨rfl, rfl⟩
  rw [hs.1, hs.2, release]
  cases hr : (Tenant.releasePools u).1 with
  | error e =>
    rw [run_bind_error hr, hl]
    exact (List.append_nil _).symm
  | ok _ =>
    obtain ⟨hok, hc⟩ := Cache.releaseClients_eq (Tenant.releasePools u).2
    have hh : (Tenant.releasePools u).2.heldClients = w.heldClients := by
      rw [World.heldClients, ha]
      rfl
    rw [run_bind_ok hr, hok, hc, hl, hh]
    rfl

end SchemaHost
