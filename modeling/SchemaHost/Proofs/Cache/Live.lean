import SchemaHost.Proofs.Cache.Purge

/-! # Keys that are there

What counts is which keys there are that have not expired. Looking for keys and making clients
leaves them alone, and a write changes the one key that it is about.
-/

namespace SchemaHost

open Cache Operation

variable {w : World} {c d : CacheServer} {space : Int} {key value tenant : String}

/-- The namespace in which the tenant's keys are looked for: that of the client in use, or else the
one that the tenant is allocated. -/
def World.cacheSpace? (w : World) (tenant : String) : Option Int :=
  ((w.allocator.clients.lookup tenant).map (·.space)).or
    (Tenant.cacheNamespace tenant w.allocator.namespaceCount)

namespace CacheServer

theorem expire_expire (c : CacheServer) (now : Time.Instant) :
    (c.expire now).expire now = c.expire now := by
  simp only [expire, List.filter_filter, Bool.and_self]

/-- Whatever a key is given, the rest of its entry is as before. -/
theorem comp_given {β : Type} (f : Entry → β)
    (hf : ∀ (e : Entry) (v : String) (t : Option Time.Instant),
      f { e with value := v, expiry := t } = f e)
    (p : Entry → Bool) (value : String) (expiry : Option Time.Instant) :
    (f ∘ fun e : Entry => if p e then { e with value := value, expiry := expiry } else e) = f := by
  funext e
  simp only [Function.comp]
  split
  · exact hf e value expiry
  · rfl

theorem find?_set (c : CacheServer) (space : Int) (key value : String)
    (expiry : Option Time.Instant) : ∃ e, (c.set space key value expiry).find? space key = some e ∧
      e.value = value ∧ e.expiry = expiry := by
  unfold set find?
  split
  · next e hf =>
    dsimp only
    rw [List.find?_map, comp_given (isAt _ _) fun _ _ _ => rfl, hf]
    exact ⟨_, rfl, by simp [List.find?_some hf], by simp [List.find?_some hf]⟩
  · next hf =>
    refine ⟨_, find?_insert_of_none (by simp [isAt]) fun x hx => ?_, rfl, rfl⟩
    simpa using List.find?_eq_none.mp hf x hx

theorem get?_expire {e : Entry} (now : Time.Instant) (h : c.find? space key = some e)
    (hn : ∀ t ∈ e.expiry, now.before t = true) :
    (c.expire now).get? space key = some e.value := by
  obtain ⟨hat, xs, ys, he, hxs⟩ := List.find?_eq_some_iff_append.mp h
  have hf : (c.expire now).find? space key = some e := by
    rw [find?, expire, List.find?_filter]
    refine List.find?_eq_some_iff_append.mpr ⟨?_, xs, ys, he, fun x hx => ?_⟩
    · simp only [hat, and_true, decide_eq_true_eq]
      split
      · next t ht => exact hn t ht
      · rfl
    · have hx : isAt space key x = false := by simpa using hxs x hx
      simp [hx]
  rw [get?, hf]
  rfl

theorem get?_set (c : CacheServer) (space : Int) (key value : String)
    (expiry : Option Time.Instant) (n : Int) (k : String) :
    (c.set space key value expiry).get? n k =
      if n = space ∧ k = key then some value else c.get? n k := by
  unfold set get? find?
  split
  · next e hf =>
    dsimp only
    rw [List.find?_map, comp_given (isAt _ _) fun _ _ _ => rfl, Option.map_map]
    split
    · next h =>
      obtain ⟨rfl, rfl⟩ := h
      have he := List.find?_some hf
      rw [hf]
      simp [he]
    · next h =>
      cases hg : c.entries.find? (isAt n k) with
      | none => rfl
      | some x =>
        have hx : isAt space key x = false := by
          rw [Bool.eq_false_iff]
          intro hs
          obtain ⟨h₁, h₂⟩ := isAt_iff.mp (List.find?_some hg)
          obtain ⟨h₃, h₄⟩ := isAt_iff.mp hs
          exact h ⟨h₁.symm.trans h₃, h₂.symm.trans h₄⟩
        simp [hx]
  · next hf =>
    dsimp only
    split
    · next h =>
      obtain ⟨rfl, rfl⟩ := h
      rw [find?_insert_of_none (by simp [isAt]) fun x hx => by
        simpa using List.find?_eq_none.mp hf x hx]
      rfl
    · next h =>
      rw [find?_insert_of_not]
      rw [Bool.eq_false_iff]
      intro hs
      obtain ⟨h₁, h₂⟩ := isAt_iff.mp hs
      exact h ⟨h₁.symm, h₂.symm⟩

theorem expiry_of_mem_set {e : Entry} (he : e ∈ (c.set space key value none).entries) :
    e.expiry = none ∨ e ∈ c.entries := by
  unfold set at he
  split at he
  · obtain ⟨x, hx, rfl⟩ := List.mem_map.mp he
    split
    · exact .inl rfl
    · exact .inr hx
  · rcases mem_insert.mp he with rfl | he
    · exact .inl rfl
    · exact .inr he

theorem expire_eq_self {now : Time.Instant}
    (h : ∀ e ∈ d.entries, e.expiry = none ∨ e ∈ (c.expire now).entries) : d.expire now = d := by
  have hs : (d.expire now).entries = d.entries := by
    refine List.filter_eq_self.mpr fun e he => ?_
    rcases h e he with hn | hm
    · simp only [hn]
    · exact (List.mem_filter.mp hm).2
  simp only [expire] at hs ⊢
  rw [hs]

theorem expire_set (c : CacheServer) (now : Time.Instant) (space : Int) (key value : String) :
    ((c.expire now).set space key value none).expire now =
      (c.expire now).set space key value none :=
  expire_eq_self fun _ he => expiry_of_mem_set he

end CacheServer

/-- Neither the clock nor any key that has not expired has changed. -/
structure Steady (u v : World) : Prop where
  now : v.now = u.now
  live : v.live.entries = u.live.entries

theorem Steady.get? {u v : World} (h : Steady u v) (n : Int) (k : String) :
    v.live.get? n k = u.live.get? n k := by
  simp only [CacheServer.get?, CacheServer.find?, h.live]

theorem isFrame_steady : IsFrame Steady where
  refl _ := ⟨rfl, rfl⟩
  trans h h' := ⟨h'.now.trans h.now, h'.live.trans h.live⟩

theorem admitsReads_steady : AdmitsReads Steady where
  toIsFrame := isFrame_steady
  record _ _ := fun _ => ⟨rfl, rfl⟩
  look space e run h := fun w => by
    rcases command_cases space e run w with hc | ⟨_, _, hc, -⟩
    · rw [hc]
      exact ⟨rfl, by simp only [World.live, h, CacheServer.expire_expire]⟩
    · rw [hc]
      exact ⟨rfl, rfl⟩
  keep _ _ _ _ := ⟨rfl, rfl⟩
  release _ := fun _ => ⟨rfl, rfl⟩
  count := fun _ => ⟨rfl, rfl⟩

theorem Cache.write_live (h : (write space key value none w).1 = .ok ()) :
    (write space key value none w).2.now = w.now ∧ ∀ n k,
      (write space key value none w).2.live.get? n k =
        if n = space ∧ k = key then some value else w.live.get? n k := by
  rcases command_cases space (.set key value none)
    (fun c => ((), c.set space key value none)) w with hc | ⟨_, _, hc, -⟩
  · have hw : write space key value none w = _ := hc
    rw [hw]
    refine ⟨rfl, fun n k => ?_⟩
    simp only [World.live, CacheServer.expire_set, CacheServer.get?_set]
  · have hw : write space key value none w = _ := hc
    rw [hw] at h
    cases h

theorem Cache.cacheSpace?_of_client {d : CacheClient} (h : (client tenant w).1 = .ok d) :
    w.cacheSpace? tenant = some d.space := by
  cases hl : w.allocator.clients.lookup tenant with
  | some x =>
    rw [client_of_kept hl] at h
    cases h
    simp [World.cacheSpace?, hl]
  | none =>
    rw [client_of_new hl] at h
    obtain ⟨space, hs, -, h⟩ := bind_eq_ok h
    have hn := (allocate_spec tenant w).2 space hs
    rw [(allocate_spec tenant w).1] at h
    cases hp : (ping space (makeClient space w).2).1 with
    | ok _ =>
      rw [setUp_of_ok hp] at h
      cases h
      simp [World.cacheSpace?, hl, hn]
    | error e =>
      rw [setUp_of_error hp] at h
      split at h
      · obtain ⟨_, -, -, h⟩ := bind_eq_ok h
        cases h
      · cases h

def Cache.writeAll (space : Int) : List (String × String) → Operation Unit :=
  forEach fun q => write space q.1 q.2

theorem Cache.writeAll_live {qs : List (String × String)} (h : (writeAll space qs w).1 = .ok ()) :
    (writeAll space qs w).2.now = w.now ∧ ∀ n k,
      (writeAll space qs w).2.live.get? n k =
        (if n = space then qs.reverse.lookup k else none).or (w.live.get? n k) := by
  induction qs generalizing w with
  | nil => exact ⟨rfl, fun n k => by split <;> rfl⟩
  | cons q qs ih =>
    obtain ⟨key, value⟩ := q
    obtain ⟨_, hq, he, h⟩ := bind_eq_ok h
    obtain ⟨hn, hl⟩ := write_live hq
    obtain ⟨hn', hl'⟩ := ih h
    rw [show writeAll space ((key, value) :: qs) w = _ from he]
    refine ⟨hn'.trans hn, fun n k => ?_⟩
    have hlast : (if n = space then ((key, value) :: qs).reverse.lookup k else none) =
        (if n = space then qs.reverse.lookup k else none).or
          (if n = space ∧ k = key then some value else none) := by
      by_cases hs : n = space
      · by_cases hk : k = key
        · simp [hs, hk, List.lookup_append]
        · simp [hs, hk, List.lookup_append, List.lookup_cons, beq_eq_false_iff_ne.mpr hk]
      · simp [hs]
    have hwritten : (if n = space ∧ k = key then some value else w.live.get? n k) =
        (if n = space ∧ k = key then some value else none).or (w.live.get? n k) := by
      split <;> rfl
    rw [hlast, Option.or_assoc, ← hwritten, ← hl n k]
    exact hl' n k

def Tenant.seeds (tenant name : String) (now : Time.Instant) : List (String × String) :=
  [(keyPrefix tenant ++ "info", (Json.obj [("name", .str name), ("createdAt", .str now.isoText),
      ("status", .str "active")]).write),
    (keyPrefix tenant ++ "users:count", "0"), (keyPrefix tenant ++ "cache:version", "1.0")]

theorem Tenant.prefix_of_mem_seeds {name : String} {now : Time.Instant} {q : String × String}
    (h : q ∈ seeds tenant name now) : (keyPrefix tenant).toList <+: q.1.toList := by
  simp only [seeds, List.mem_cons, List.not_mem_nil, or_false] at h
  rcases h with rfl | rfl | rfl <;> simp

theorem Tenant.lookup_reverse_seeds {name : String} {now : Time.Instant} {q : String × String}
    (h : q ∈ seeds tenant name now) : (seeds tenant name now).reverse.lookup q.1 = some q.2 := by
  have hne {a b : String} (h : a ≠ b) : (keyPrefix tenant ++ a == keyPrefix tenant ++ b) = false :=
    beq_eq_false_iff_ne.mpr fun he => h ((String.append_right_inj _).mp he)
  simp only [seeds, List.mem_cons, List.not_mem_nil, or_false] at h
  rcases h with rfl | rfl | rfl
  · simp [seeds, List.lookup_cons, hne]
  · simp [seeds, List.lookup_cons, hne]
  · simp [seeds]

theorem Cache.seedTenant_eq (tenant name : String) : seedTenant tenant name =
    (client tenant >>= fun c => Operation.get >>= fun w =>
      writeAll c.space (Tenant.seeds tenant name w.now)) := by
  simp only [seedTenant, writeAll, Tenant.seeds, forEach, bind_unit, Json.isEncodable,
    Json.haveEncodable, Bool.and_self, writeJson_of_isEncodable]

/-- Seeding writes the keys of a new tenant, and no others. -/
theorem Cache.seedTenant_live {name : String} (h : (seedTenant tenant name w).1 = .ok ()) :
    ∃ space, w.cacheSpace? tenant = some space ∧ (seedTenant tenant name w).2.now = w.now ∧
      ∀ n k, (seedTenant tenant name w).2.live.get? n k =
        (if n = space then (Tenant.seeds tenant name w.now).reverse.lookup k else none).or
          (w.live.get? n k) := by
  rw [seedTenant_eq] at h ⊢
  obtain ⟨d, hd, he, h⟩ := bind_eq_ok h
  have hc := admitsReads_steady.client tenant w
  rw [he]
  obtain ⟨hn, hl⟩ := writeAll_live h
  refine ⟨d.space, cacheSpace?_of_client hd, hn.trans hc.now, fun n k => ?_⟩
  rw [← hc.now, ← hc.get?]
  exact hl n k

end SchemaHost
