import Covm.Maps.Table

/-!
# Undo logs

An undo log lists, in the order of the writes, the keys written and what each held before. Replayed
from its end, it brings a key back to the first value recorded for it and leaves the other keys
alone; so a log that starts empty and records before every write restores what it started from.
-/

namespace Maps

variable {κ ν : Type*} [DecidableEq κ]

/-- A written key and the value it held before, if any. -/
abbrev UndoLog (κ ν : Type*) := List (κ × Option ν)

namespace UndoLog

/-- What the log brings back, from its end. -/
def undo (log : UndoLog κ ν) (f : κ → Option ν) : κ → Option ν :=
  log.foldr (fun entry g => Function.update g entry.1 entry.2) f

/-- The keys the log has entries for. -/
def keys (log : UndoLog κ ν) : Finset κ := (log.map Prod.fst).toFinset

/-- The first value recorded for a key. -/
def recorded (log : UndoLog κ ν) (k : κ) : Option (Option ν) := log.lookup k

@[simp] theorem recorded_nil (k : κ) : recorded ([] : UndoLog κ ν) k = none := rfl

theorem recorded_eq_none {log : UndoLog κ ν} {k : κ} : log.recorded k = none ↔ k ∉ log.keys := by
  rw [recorded, keys, List.mem_toFinset, List.lookup_eq_none_iff]
  constructor
  · intro h hk
    obtain ⟨e, he, rfl⟩ := List.mem_map.mp hk
    simpa using h e he
  · intro h e he
    have hne : k ≠ e.1 := fun hk => h (hk ▸ List.mem_map_of_mem he)
    simpa using hne

/-- A later entry for a key does not count. -/
theorem recorded_append_self (log : UndoLog κ ν) (k : κ) (v : Option ν) :
    recorded (log ++ [(k, v)]) k = some ((log.recorded k).getD v) := by
  unfold recorded
  rw [List.lookup_append, List.lookup_cons, beq_self_eq_true]
  cases log.lookup k <;> rfl

theorem recorded_append_of_ne (log : UndoLog κ ν) {k j : κ} (h : k ≠ j) (v : Option ν) :
    recorded (log ++ [(j, v)]) k = log.recorded k := by
  unfold recorded
  rw [List.lookup_append, List.lookup_cons, beq_false_of_ne h]
  exact Option.or_none

/-- A key gets the first value recorded for it. -/
theorem undo_apply (log : UndoLog κ ν) (f : κ → Option ν) (k : κ) :
    log.undo f k = (log.recorded k).getD (f k) := by
  induction log with
  | nil => rfl
  | cons e log ih =>
    obtain ⟨j, old⟩ := e
    have hcons : undo ((j, old) :: log) f = Function.update (undo log f) j old := rfl
    rw [hcons, recorded, List.lookup_cons]
    by_cases hkj : k = j
    · subst hkj
      rw [Function.update_self, beq_self_eq_true]
      rfl
    · rw [Function.update_of_ne hkj, ih, beq_false_of_ne hkj]
      rfl

theorem undo_of_notMem {log : UndoLog κ ν} {k : κ} (h : k ∉ log.keys) (f : κ → Option ν) :
    log.undo f k = f k := by
  rw [undo_apply, recorded_eq_none.mpr h]
  rfl

end UndoLog

/-! ## Replaying a log on a table -/

namespace Table

variable {α β γ : Type*} [DecidableEq α] [DecidableEq β]

/-- Puts one entry back. -/
def restore (t : Table α β γ) (entry : (α × β) × Option γ) : Table α β γ :=
  match entry.2 with
  | some old => t.put entry.1 old
  | none => t.remove entry.1

theorem get_restore (t : Table α β γ) (entry : (α × β) × Option γ) :
    (t.restore entry).get = Function.update t.get entry.1 entry.2 := by
  obtain ⟨p, old⟩ := entry
  cases old with
  | some v => exact get_put t p v
  | none => exact get_remove t p

/-- The entries of the log are put back in reverse order. -/
def replay (t : Table α β γ) (log : UndoLog (α × β) γ) : Table α β γ :=
  log.reverse.foldl restore t

theorem get_replay (t : Table α β γ) (log : UndoLog (α × β) γ) :
    (t.replay log).get = log.undo t.get := by
  rw [replay, List.foldl_reverse]
  induction log with
  | nil => rfl
  | cons e log ih =>
    rw [List.foldr_cons, get_restore, ih]
    rfl

/-- What a replay brings back under the recorded keys, against what is there. -/
theorem total_replay (size : γ → Nat) (t : Table α β γ) (log : UndoLog (α × β) γ) :
    (t.replay log).total size + ∑ p ∈ log.keys, (t.get p).elim 0 size =
      t.total size + ∑ p ∈ log.keys, (log.undo t.get p).elim 0 size := by
  rw [← get_replay]
  apply total_add_sum
  intro p hp
  rw [get_replay, UndoLog.undo_of_notMem hp]

end Table

end Maps
