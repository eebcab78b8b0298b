import Mathlib.Data.List.AList

/-!
# Merging a table of changes into a finite map

A loop over the entries of one finite map whose step for the entry at key `a` reads
and writes another map at `a` only, and may fail. Since no two entries share a key,
the loop succeeds exactly when every step does on the value the target map had at
the start, and then computes the target key by key.
-/

namespace MapFold

variable {α : Type} [DecidableEq α] {β γ : α → Type} {ε : Type}

/-- `m` with the value at `a` set to `r`: inserted for a value, erased for `none`. -/
def setAt (m : AList γ) (a : α) : Option (γ a) → AList γ
  | some v => m.insert a v
  | none => m.erase a

@[simp] theorem lookup_setAt_self (m : AList γ) (a : α) (r : Option (γ a)) :
    (setAt m a r).lookup a = r := by
  cases r with
  | some v => exact AList.lookup_insert m
  | none => exact AList.lookup_erase a m

theorem lookup_setAt_ne (m : AList γ) {a a' : α} (h : a' ≠ a) (r : Option (γ a)) :
    (setAt m a r).lookup a' = m.lookup a' := by
  cases r with
  | some v => exact AList.lookup_insert_ne h
  | none => exact AList.lookup_erase_ne h

/-- The step of the loop for one entry: the new value at its key from the old one. -/
def stepAt (f : (a : α) → β a → Option (γ a) → Except ε (Option (γ a))) (m : AList γ)
    (e : Sigma β) : Except ε (AList γ) :=
  (fun r => setAt m e.1 r) <$> f e.1 e.2 (m.lookup e.1)

/-- What the whole loop does at `a`: the step of the entry at `a`, if there is one. -/
def atKey (f : (a : α) → β a → Option (γ a) → Except ε (Option (γ a))) (es : List (Sigma β))
    (a : α) (x : Option (γ a)) : Except ε (Option (γ a)) :=
  match es.dlookup a with
  | some b => f a b x
  | none => pure x

theorem atKey_cons_self (f : (a : α) → β a → Option (γ a) → Except ε (Option (γ a)))
    (es : List (Sigma β)) (e : Sigma β) (x : Option (γ e.1)) :
    atKey f (e :: es) e.1 x = f e.1 e.2 x := by
  rw [atKey, List.dlookup_cons_eq]

theorem atKey_cons_ne (f : (a : α) → β a → Option (γ a) → Except ε (Option (γ a)))
    (es : List (Sigma β)) {e : Sigma β} {a : α} (h : a ≠ e.1) (x : Option (γ a)) :
    atKey f (e :: es) a x = atKey f es a x := by
  rw [atKey, List.dlookup_cons_ne _ _ h]
  rfl

theorem atKey_of_notMem (f : (a : α) → β a → Option (γ a) → Except ε (Option (γ a)))
    {es : List (Sigma β)} {a : α} (h : a ∉ es.keys) (x : Option (γ a)) :
    atKey f es a x = pure x := by
  rw [atKey, List.dlookup_eq_none.mpr h]

variable (f : (a : α) → β a → Option (γ a) → Except ε (Option (γ a)))

/-- A successful loop computes the target key by key. -/
theorem lookup_of_foldlM_ok {es : List (Sigma β)} (hnd : es.NodupKeys) {m m' : AList γ}
    (h : es.foldlM (stepAt f) m = .ok m') (a : α) :
    atKey f es a (m.lookup a) = .ok (m'.lookup a) := by
  induction es generalizing m with
  | nil =>
    cases h
    rfl
  | cons e es ih =>
    have hfresh := List.notMem_keys_of_nodupKeys_cons hnd
    rw [List.foldlM_cons] at h
    -- the first step succeeds with some new value at its key
    rcases hf : f e.1 e.2 (m.lookup e.1) with err | r
    · rw [stepAt, hf] at h
      cases h
    · rw [stepAt, hf] at h
      have hrest := ih (List.nodupKeys_of_nodupKeys_cons hnd) h
      by_cases ha : a = e.1
      · subst ha
        rw [atKey_cons_self, hf, ← hrest, lookup_setAt_self, atKey_of_notMem f hfresh]
        rfl
      · rw [atKey_cons_ne f es ha, ← hrest, lookup_setAt_ne m ha]

/-- The loop succeeds where every step succeeds on the value the target starts with. -/
theorem foldlM_ok_of_forall {es : List (Sigma β)} (hnd : es.NodupKeys) (m : AList γ)
    (h : ∀ e ∈ es, ∃ r, f e.1 e.2 (m.lookup e.1) = .ok r) :
    ∃ m', es.foldlM (stepAt f) m = .ok m' := by
  induction es generalizing m with
  | nil => exact ⟨m, rfl⟩
  | cons e es ih =>
    have hfresh := List.notMem_keys_of_nodupKeys_cons hnd
    obtain ⟨r, hr⟩ := h e List.mem_cons_self
    -- the later entries read the target where the first step did not write
    have hlater : ∀ e' ∈ es, ∃ r', f e'.1 e'.2 ((setAt m e.1 r).lookup e'.1) = .ok r' := by
      intro e' he'
      have hne : e'.1 ≠ e.1 := fun heq => hfresh (heq ▸ List.mem_keys_of_mem he')
      rw [lookup_setAt_ne m hne]
      exact h e' (List.mem_cons_of_mem e he')
    obtain ⟨m', hm'⟩ := ih (List.nodupKeys_of_nodupKeys_cons hnd) (setAt m e.1 r) hlater
    refine ⟨m', ?_⟩
    rw [List.foldlM_cons, stepAt, hr]
    exact hm'

end MapFold
