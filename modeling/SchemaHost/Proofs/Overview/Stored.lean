import Mathlib.Algebra.Ring.Int.Defs
import SchemaHost.Overview.Cached
import SchemaHost.Proofs.Cache.Live
import SchemaHost.Proofs.Overview.Form
import SchemaHost.Proofs.World.Sample

/-! # Stored overviews

An overview that is stored as JSON is the same when it is read, for as long as its text stays in
the cache, if its numbers have no more digits than the limit. Otherwise nothing is stored.
-/

namespace SchemaHost

open Cache Operation Json

theorem Json.not_isShort_pow {l : Limits} (h : 0 < l.digits) : ¬ IsShort l (10 ^ l.digits) := by
  rw [IsShort, Nat.length_repr_le_iff h, Int.natAbs_pow]
  exact Nat.lt_irrefl _

namespace Cache

variable {w v : World} {space : Int} {key value : String} {seconds : Option Int}

/-- What stands under the key in the one world is there in the other, and the seconds that it is
kept for, if they are counted, have not passed. -/
structure Remains (space : Int) (key : String) (seconds : Option Int) (w v : World) : Prop where
  entry : v.cache.find? space key = w.cache.find? space key
  inTime : ∀ n ∈ seconds, v.now.before (w.now.addSeconds n) = true

theorem write_of_answered (h : w.cache.fail? space "set" = none) :
    write space key value seconds w = (.ok (), { w with
      log := w.log ++ [.cache space (.set key value seconds)]
      cache := (w.cache.expire w.now).set space key value (seconds.map w.now.addSeconds) }) := by
  rw [write, run_bind, run_get]
  refine command_of_answered space (.set key value seconds) _ fun name hn => ?_
  cases hn
  exact h

theorem read_of_remains (hw : w.cache.fail? space "set" = none)
    (hv : v.cache.fail? space "get" = none)
    (h : Remains space key seconds (write space key value seconds w).2 v) :
    (read space key v).1 = .ok (some value) := by
  rw [write_of_answered hw] at h
  obtain ⟨e, he, rfl, ht⟩ := CacheServer.find?_set (w.cache.expire w.now) space key value
    (seconds.map w.now.addSeconds)
  have hlive : ∀ t ∈ e.expiry, v.now.before t = true := by
    intro t hm
    rw [ht] at hm
    obtain ⟨n, hn, rfl⟩ := Option.map_eq_some_iff.mp hm
    exact h.inTime n hn
  rw [read, command_of_answered]
  · exact congrArg Except.ok (CacheServer.get?_expire v.now (h.entry.trans he) hlive)
  · intro name hn
    cases hn
    exact hv

end Cache

namespace Overview

variable {w v : World} {space : Int} {key : String} {seconds : Option Int} {o : Overview}

theorem writeJson_of_isShort (h : o.IsShort {}) :
    writeJson space key o.toJson seconds = write space key o.toJson.write seconds :=
  writeJson_of_isEncodable (isEncodable_toJson_iff.mpr h) space key seconds

/-- The failure shows before any command is sent. -/
theorem writeJson_of_not_isShort (h : ¬ o.IsShort {}) :
    writeJson space key o.toJson seconds w = (.error (.unreadable .tooManyDigits), w) := by
  have : o.toJson.isEncodable {} = false := by
    rw [Bool.eq_false_iff]
    exact mt isEncodable_toJson_iff.mp h
  simp [writeJson, encode, this, fail]

/-- An overview whose time is one of the calendar, stored in a cache that takes it, is the same
when it is read while it stays there, exactly if its numbers have no more digits than the limit. If
they have, nothing is stored. -/
theorem stored_iff (ho : o.IsDated) (hw : w.cache.fail? space "set" = none)
    (hv : v.cache.fail? space "get" = none)
    (h : Remains space key seconds (writeJson space key o.toJson seconds w).2 v) :
    (((writeJson space key o.toJson seconds w).1 = .ok () ∧
      ∃ j, (readJson space key v).1 = .ok (some j) ∧ ofJson j = .ok o) ↔ o.IsShort {}) ∧
    (¬ o.IsShort {} →
      writeJson space key o.toJson seconds w = (.error (.unreadable .tooManyDigits), w)) := by
  refine ⟨⟨fun ⟨hok, _⟩ => ?_, fun hs => ?_⟩, writeJson_of_not_isShort⟩
  · by_contra hs
    rw [writeJson_of_not_isShort hs] at hok
    cases hok
  · rw [writeJson_of_isShort hs] at h ⊢
    have he : o.toJson.write.isEmpty = false := by simp [o.write_ne_empty]
    refine ⟨by rw [write_of_answered hw], o.toJson, ?_, ofJson_toJson ho⟩
    rw [readJson, run_bind_ok (read_of_remains hw hv h)]
    simp only [he, ofString_write hs]
    rfl

def varied : Overview where
  tenant := "t1"
  title := "Zoë \"😀\""
  tables := [
    { name := "a"
      columns := [{ name := "ä", type := "text", defaultText := some "'é'" }]
      rowCount := -1 }]
  relationships := [⟨"a", "ä", "b", "\n"⟩]
  totalTables := 1
  lastModified := some (⟨86399999999⟩ : Time.Instant).utc

def afterStoring (o : Overview) (n : Int) : World :=
  let w := (writeJson 3 "k" o.toJson (some 300) (.sample "t1" [])).2
  { w with now := w.now.addSeconds n }

theorem remains_afterStoring (o : Overview) {n : Int} (h : n < 300) :
    Remains 3 "k" (some 300) (writeJson 3 "k" o.toJson (some 300) (.sample "t1" [])).2
      (afterStoring o n) where
  entry := rfl
  inTime m hm := by
    cases hm
    simp [afterStoring, Time.Instant.before, Time.Instant.addSeconds, Time.Instant.addMicros,
      Time.Instant.perSecond]
    omega

theorem stored_varied :
    (writeJson 3 "k" varied.toJson (some 300) (.sample "t1" [])).1 = .ok () ∧
      ∃ j, (readJson 3 "k" (afterStoring varied 299)).1 = .ok (some j) ∧ ofJson j = .ok varied := by
  have hd : varied.IsDated := by
    intro s hs
    cases hs
    exact ⟨_, by decide, rfl⟩
  have hn : varied.IsShort {} := ⟨by decide, by decide, by decide⟩
  exact (stored_iff hd rfl rfl (remains_afterStoring varied (by decide))).1.mpr hn

/-- An overview with a number of one digit more than the limit. -/
def vast : Overview where
  tenant := "t1"
  title := "Acme"
  totalRows := 10 ^ 4300

theorem not_isShort_vast : ¬ vast.IsShort {} :=
  fun h => Json.not_isShort_pow (by decide) h.totalRows

/-- Not every overview is stored. -/
theorem not_forall_stored : ¬ ∀ (o : Overview) (w v : World) (space : Int) (key : String)
    (seconds : Option Int), o.IsDated → w.cache.fail? space "set" = none →
      v.cache.fail? space "get" = none →
      Remains space key seconds (writeJson space key o.toJson seconds w).2 v →
      (writeJson space key o.toJson seconds w).1 = .ok () ∧
        ∃ j, (readJson space key v).1 = .ok (some j) ∧ ofJson j = .ok o := by
  intro h
  have hw : writeJson 3 "k" vast.toJson none (.sample "t1" []) = _ :=
    writeJson_of_not_isShort not_isShort_vast
  have hm : Remains 3 "k" none (writeJson 3 "k" vast.toJson none (.sample "t1" [])).2
      (.sample "t1" []) := by
    rw [hw]
    exact ⟨rfl, fun _ hn => by cases hn⟩
  obtain ⟨hok, -⟩ := h vast _ _ _ _ _ (fun s hs => by cases hs) rfl rfl hm
  rw [hw] at hok
  cases hok

end Overview

end SchemaHost
