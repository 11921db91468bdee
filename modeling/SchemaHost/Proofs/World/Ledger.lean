import SchemaHost.Proofs.World.Frame

/-! # Ledgers

Things of some kind are made, held for a while and given up, and the log tells of both ends. A
ledger is balanced if what was made and not given up is what the world holds, or what an operation
has in hand; it is settled if nothing is left over.
-/

namespace SchemaHost

open Operation

/-- How the log tells that something was made or given up, by its number, and what is held. -/
structure Ledger where
  made? : Event → Option Nat
  givenUp? : Event → Option Nat
  held : World → List Nat

namespace Ledger

variable {l : Ledger} {u v w : World} {inHand left : List Nat} {e : Event} {es : List Event}
  {n : Nat}

def made (l : Ledger) (log : List Event) : List Nat := log.filterMap l.made?

def givenUp (l : Ledger) (log : List Event) : List Nat := log.filterMap l.givenUp?

/-- Nothing has the number of another, and what was made is what was given up, each once. -/
def Settled (l : Ledger) (log : List Event) : Prop :=
  (l.made log).Nodup ∧ (l.givenUp log).Perm (l.made log)

instance (l : Ledger) (log : List Event) : Decidable (l.Settled log) :=
  inferInstanceAs (Decidable (_ ∧ _))

structure Balanced (l : Ledger) (inHand : List Nat) (w : World) : Prop where
  distinct : (l.made w.log).Nodup
  counted : ∀ n ∈ l.made w.log, n < w.serials
  balance : (l.made w.log).Perm (l.givenUp w.log ++ (inHand ++ l.held w))

def Ignores (l : Ledger) (e : Event) : Prop :=
  l.made? e = none ∧ l.givenUp? e = none

theorem made_append (l : Ledger) (xs ys : List Event) :
    l.made (xs ++ ys) = l.made xs ++ l.made ys :=
  List.filterMap_append

theorem givenUp_append (l : Ledger) (xs ys : List Event) :
    l.givenUp (xs ++ ys) = l.givenUp xs ++ l.givenUp ys :=
  List.filterMap_append

/-- Nothing is made or given up, and the same is held. -/
structure Passes (l : Ledger) (u v : World) : Prop where
  log : Logs l.Ignores u v
  held : l.held v = l.held u
  serials : u.serials ≤ v.serials

theorem Passes.made_eq (h : l.Passes u v) : l.made v.log = l.made u.log := by
  obtain ⟨es, he, hi⟩ := h.log
  have hn : l.made es = [] := List.filterMap_eq_nil_iff.mpr fun e hm => (hi e hm).1
  rw [he, made_append, hn, List.append_nil]

theorem Passes.givenUp_eq (h : l.Passes u v) : l.givenUp v.log = l.givenUp u.log := by
  obtain ⟨es, he, hi⟩ := h.log
  have hn : l.givenUp es = [] := List.filterMap_eq_nil_iff.mpr fun e hm => (hi e hm).2
  rw [he, givenUp_append, hn, List.append_nil]

namespace Balanced

theorem start (hl : w.log = []) (hh : l.held w = []) : l.Balanced [] w := by
  constructor <;> simp [made, givenUp, hl, hh]

theorem pass (hb : l.Balanced inHand u) (h : l.Passes u v) : l.Balanced inHand v where
  distinct := h.made_eq ▸ hb.distinct
  counted n hn := Nat.lt_of_lt_of_le (hb.counted n (h.made_eq ▸ hn)) h.serials
  balance := by
    rw [h.made_eq, h.givenUp_eq, h.held]
    exact hb.balance

theorem make (hb : l.Balanced inHand u) (hm : l.made? e = some u.serials)
    (hg : l.givenUp? e = none) (hl : v.log = u.log ++ [e]) (hs : v.serials = u.serials + 1)
    (hh : l.held v = l.held u) : l.Balanced (u.serials :: inHand) v := by
  have hmade : l.made v.log = l.made u.log ++ [u.serials] := by simp [hl, made, hm]
  have hgiven : l.givenUp v.log = l.givenUp u.log := by simp [hl, givenUp, hg]
  have hnew : u.serials ∉ l.made u.log := fun h => Nat.lt_irrefl _ (hb.counted _ h)
  have hp : (l.made v.log).Perm (u.serials :: l.made u.log) := by
    rw [hmade]
    exact List.perm_append_singleton _ _
  constructor
  · exact hp.nodup_iff.mpr (List.nodup_cons.mpr ⟨hnew, hb.distinct⟩)
  · intro n hn
    rw [hs]
    rcases List.mem_cons.mp (hp.mem_iff.mp hn) with rfl | hn
    · exact Nat.lt_succ_self _
    · exact Nat.lt_succ_of_lt (hb.counted n hn)
  · rw [hgiven, hh]
    exact hp.trans ((hb.balance.cons _).trans List.perm_middle.symm)

theorem giveUp (hb : l.Balanced (n :: inHand) u) (hm : l.made? e = none)
    (hg : l.givenUp? e = some n) (hl : v.log = u.log ++ [e]) (hs : v.serials = u.serials)
    (hh : l.held v = l.held u) : l.Balanced inHand v := by
  have hmade : l.made v.log = l.made u.log := by simp [hl, made, hm]
  have hgiven : l.givenUp v.log = l.givenUp u.log ++ [n] := by simp [hl, givenUp, hg]
  refine ⟨hmade ▸ hb.distinct, fun n hn => hs ▸ hb.counted n (hmade ▸ hn), ?_⟩
  rw [hmade, hgiven, hh, List.append_assoc]
  exact hb.balance

theorem regroup (hb : l.Balanced inHand u) (hl : v.log = u.log) (hs : u.serials ≤ v.serials)
    (hp : (left ++ l.held v).Perm (inHand ++ l.held u)) : l.Balanced left v := by
  refine ⟨hl ▸ hb.distinct, fun n hn => Nat.lt_of_lt_of_le (hb.counted n (hl ▸ hn)) hs, ?_⟩
  rw [hl]
  exact hb.balance.trans (hp.symm.append_left _)

theorem not_mem_givenUp (hb : l.Balanced inHand w) (hn : n ∈ l.held w) :
    n ∉ l.givenUp w.log := by
  intro hg
  have hd := (List.nodup_append.mp (hb.balance.nodup_iff.mp hb.distinct)).2.2
  exact hd n hg n (List.mem_append_right _ hn) rfl

/-- It takes the giving up of all that is held, and of nothing else, to settle the ledger. -/
theorem settled_iff (hb : l.Balanced [] w) (hm : l.made es = []) :
    l.Settled (w.log ++ es) ↔ (l.givenUp es).Perm (l.held w) := by
  rw [Settled, made_append, givenUp_append, hm, List.append_nil]
  constructor
  · rintro ⟨-, h⟩
    exact (List.perm_append_left_iff _).mp (h.trans hb.balance)
  · intro h
    exact ⟨hb.distinct, (h.append_left _).trans hb.balance.symm⟩

end Balanced

end Ledger

theorem Operation.attemptAll_ok {α : Type} (f : α → Operation Unit) (xs : List α) (w : World) :
    (attemptAll f xs w).1 = .ok () := by
  induction xs generalizing w with
  | nil => rfl
  | cons x xs ih => exact ih (f x w).2

theorem Operation.attemptAll_log {α : Type} {f : α → Operation Unit} {event : α → Event}
    (h : ∀ x w, (f x w).2.log = w.log ++ [event x]) (xs : List α) (w : World) :
    (attemptAll f xs w).2.log = w.log ++ xs.map event := by
  induction xs generalizing w with
  | nil => exact (List.append_nil _).symm
  | cons x xs ih =>
    simp only [attemptAll, run_bind, run_attempt]
    rw [ih, h, List.append_assoc, List.map_cons, List.singleton_append]

end SchemaHost
