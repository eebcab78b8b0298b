import Mathlib.Logic.Function.Basic
import Mathlib.Data.List.Nodup

/-!
# Writes to a map

A map changed by a run of writes, each setting one key to a value, in order. A key no
write touches keeps its value; at distinct keys each key holds the value written to
it, so the order of the writes does not matter; and writing back, at each key of such
a run, what the map held there before restores the map. The last fact is what an undo
record rests on.
-/

namespace Writes

variable {α β : Type} [DecidableEq α]

/-- The map `m` after the writes `ws`, in order. -/
def applyWrites (m : α → β) : List (α × β) → α → β
  | [] => m
  | w :: ws => applyWrites (Function.update m w.1 w.2) ws

@[simp] theorem applyWrites_nil (m : α → β) : applyWrites m [] = m := rfl

@[simp] theorem applyWrites_cons (m : α → β) (w : α × β) (ws : List (α × β)) :
    applyWrites m (w :: ws) = applyWrites (Function.update m w.1 w.2) ws := rfl

theorem applyWrites_append (m : α → β) (ws vs : List (α × β)) :
    applyWrites m (ws ++ vs) = applyWrites (applyWrites m ws) vs := by
  induction ws generalizing m with
  | nil => rfl
  | cons w ws ih => exact ih _

/-- A key no write touches keeps its value. -/
theorem applyWrites_of_notMem (m : α → β) {ws : List (α × β)} {k : α}
    (hk : k ∉ ws.map Prod.fst) : applyWrites m ws k = m k := by
  induction ws generalizing m with
  | nil => rfl
  | cons w ws ih =>
    rw [List.map_cons, List.mem_cons, not_or] at hk
    rw [applyWrites_cons, ih _ hk.2, Function.update_of_ne hk.1]

/-- A key holds its old value or a value written to it. -/
theorem applyWrites_eq_or_mem (m : α → β) (ws : List (α × β)) (k : α) :
    applyWrites m ws k = m k ∨ (k, applyWrites m ws k) ∈ ws := by
  induction ws generalizing m with
  | nil => exact Or.inl rfl
  | cons w ws ih =>
    rw [applyWrites_cons]
    rcases ih (Function.update m w.1 w.2) with h | h
    · by_cases hk : k = w.1
      · subst hk
        rw [h, Function.update_self]
        exact Or.inr List.mem_cons_self
      · rw [h, Function.update_of_ne hk]
        exact Or.inl rfl
    · exact Or.inr (List.mem_cons_of_mem _ h)

/-- At distinct keys, each key holds the value written to it. -/
theorem applyWrites_of_mem (m : α → β) {ws : List (α × β)} (hws : (ws.map Prod.fst).Nodup)
    {k : α} {v : β} (hkv : (k, v) ∈ ws) : applyWrites m ws k = v := by
  induction ws generalizing m with
  | nil => cases hkv
  | cons w ws ih =>
    rw [List.map_cons, List.nodup_cons] at hws
    rw [applyWrites_cons]
    rcases List.mem_cons.mp hkv with rfl | hmem
    · rw [applyWrites_of_notMem _ hws.1, Function.update_self]
    · exact ih _ hws.2 hmem

/-- At distinct keys the order of the writes does not matter. -/
theorem applyWrites_reverse (m : α → β) {ws : List (α × β)} (hws : (ws.map Prod.fst).Nodup) :
    applyWrites m ws.reverse = applyWrites m ws := by
  have hrev : (ws.reverse.map Prod.fst).Nodup := by
    rw [List.map_reverse]
    exact List.nodup_reverse.mpr hws
  funext k
  by_cases hk : k ∈ ws.map Prod.fst
  · obtain ⟨⟨k, v⟩, hmem, rfl⟩ := List.mem_map.mp hk
    rw [applyWrites_of_mem m hws hmem, applyWrites_of_mem m hrev (List.mem_reverse.mpr hmem)]
  · have hk' : k ∉ ws.reverse.map Prod.fst := by
      rwa [List.map_reverse, List.mem_reverse]
    rw [applyWrites_of_notMem m hk, applyWrites_of_notMem m hk']

/-- Writing back what a run of writes at distinct keys overwrote restores the map. -/
theorem applyWrites_restore (m : α → β) {ws : List (α × β)} (hws : (ws.map Prod.fst).Nodup) :
    applyWrites (applyWrites m ws) (ws.map fun w => (w.1, m w.1)) = m := by
  have hkeys : (ws.map fun w => (w.1, m w.1)).map Prod.fst = ws.map Prod.fst := by
    rw [List.map_map]
    rfl
  funext k
  by_cases hk : k ∈ ws.map Prod.fst
  · obtain ⟨w, hw, rfl⟩ := List.mem_map.mp hk
    exact applyWrites_of_mem _ (hkeys ▸ hws) (List.mem_map_of_mem (f := fun w => (w.1, m w.1)) hw)
  · rw [applyWrites_of_notMem _ (hkeys ▸ hk), applyWrites_of_notMem m hk]

end Writes
