import SchemaHost.Console.Run
import SchemaHost.History.Search
import SchemaHost.Proofs.Overview.Form

/-! # Pages of the history

All pages are parts of one list, the tenant's entries with the latest first. Laid end to end they
give the whole list, and each of them says how long it is.
-/

namespace SchemaHost

open Json Operation Registry

variable {w : World} {tenant : String} {limit offset : Int}

theorem History.isColumns_columnsJson (names : Option (List String)) :
    isColumns (Console.columnsJson names) = true := by
  cases names with
  | none => rfl
  | some names =>
    have hread (s : String) : asText (.str s) = .ok s := rfl
    simp only [Console.columnsJson, Json.ofOption, isColumns, orNull, asList_arr hread]
    rfl

theorem History.isRows_rowsJson (rows : Option (List Console.Row)) :
    isRows (Console.rowsJson rows) = true := by
  cases rows with
  | none => rfl
  | some rows =>
    have hread (fs : Fields) : asFields .notObject (.obj fs) = .ok fs := rfl
    simp only [Console.rowsJson, Json.ofOption, isRows, orNull, asList_arr hread]
    rfl

theorem Console.isReadable_entryOf (s : Settings) (tenant statement : String) (who : Requester)
    (o : Outcome) (now : Time.Instant) :
    History.isReadable (entryOf s tenant statement who o now) = true := by
  rw [History.isReadable, Bool.and_eq_true]
  constructor
  · exact History.isColumns_columnsJson o.columns
  · cases hs : o.success with
    | true =>
      simp only [entryOf, hs, if_true, Option.getD_some]
      exact History.isRows_rowsJson _
    | false =>
      simp only [entryOf, hs, Bool.false_eq_true, if_false, Option.getD_some]
      rfl

namespace History

/-- All that is kept for the tenant, the latest first. -/
def timeline (tenant : String) (r : Registry) : List HistoryEntry :=
  latestFirst (r.history.filter (·.tenant == tenant))

theorem timeline_perm (tenant : String) (r : Registry) :
    (timeline tenant r).Perm (r.history.filter (·.tenant == tenant)) :=
  List.mergeSort_perm _ _

theorem timeline_sorted (tenant : String) (r : Registry) :
    (timeline tenant r).Pairwise fun a b => b.executedAt.notAfter a.executedAt = true := by
  apply List.pairwise_mergeSort
  · intro a b c hab hbc
    simp only [Time.Instant.notAfter, decide_eq_true_eq] at *
    omega
  · intro a b
    simp only [Time.Instant.notAfter, Bool.or_eq_true, decide_eq_true_eq]
    omega

theorem search_eq : search { tenant } limit offset w =
    (if isBounded limit offset then .ok (window limit offset (timeline tenant w.registry),
      (timeline tenant w.registry).length) else .error .tooLarge, w) := by
  have hadmits : Filter.admits { tenant } = fun e => e.tenant == tenant := by
    funext e
    simp [Filter.admits]
  rw [(timeline_perm tenant w.registry).length_eq]
  cases hb : isBounded limit offset with
  | true => simp [search, Filter.isWritable, select, hadmits, timeline, hb]
  | false => simp [search, Filter.isWritable, hb, fail]

/-- A page is a part of the list, if the registry has room for its bounds. -/
theorem page_eq (hr : ∀ e ∈ w.registry.history, isReadable e = true) :
    page { tenant } limit offset w =
      (if isBounded limit offset then .ok ⟨window limit offset (timeline tenant w.registry),
        (timeline tenant w.registry).length⟩ else .error .tooLarge, w) := by
  have hall : (window limit offset (timeline tenant w.registry)).all isReadable = true := by
    rw [List.all_eq_true]
    intro e he
    have hm : e ∈ timeline tenant w.registry := by
      unfold window at he
      split at he
      · exact List.mem_of_mem_drop (List.mem_of_mem_take he)
      · exact List.mem_of_mem_drop he
    exact hr e (List.mem_filter.mp ((timeline_perm _ _).subset hm)).1
  rw [page, run_bind, search_eq]
  cases isBounded limit offset with
  | true => simp only [if_true, hall, run_pure]
  | false => rfl

theorem flatMap_window {α : Type} (hlimit : 0 < limit) (xs : List α) (n : Nat) :
    (List.range n).flatMap (fun k : Nat => window limit (k * limit) xs) =
      xs.take (n * limit.toNat) := by
  induction n with
  | zero => simp
  | succ n ih =>
    have hoffset : ((n : Int) * limit).toNat = n * limit.toNat := by
      rw [Int.toNat_mul (by omega) (by omega), Int.toNat_natCast]
    rw [List.range_succ, List.flatMap_append, ih, Nat.succ_mul, List.take_add]
    simp [window, hlimit, hoffset]

end History

end SchemaHost
