import BitcoinPQ.Core.Relax

/-!
# Cost bounds

A computation of `ExceptT ε (StateM σ)` whose state carries a counter `c : σ → Nat`.
`CostAtMost c k Q m` says that from every state a run of `m` raises the counter by at
most `k`, whether it fails or succeeds, and that a success gives a value satisfying
`Q`. The rules follow the shape of the computation: guards and pure steps cost
nothing, sequencing adds the costs, and a lifted state computation costs what it
raises the counter by.
-/

namespace Relax

variable {ε σ α β : Type} (c : σ → Nat)

/-- Every run of `m` raises `c` by at most `k`, and its successes satisfy `Q`. -/
def CostAtMost (k : Nat) (Q : α → Prop) (m : ExceptT ε (StateM σ) α) : Prop :=
  ∀ s, c (m.run.run s).2 ≤ c s + k ∧ ∀ x, (m.run.run s).1 = .ok x → Q x

variable {c}

theorem CostAtMost.pure {k : Nat} {Q : α → Prop} {x : α} (h : Q x) :
    CostAtMost c k Q (pure x : ExceptT ε (StateM σ) α) := by
  intro s
  refine ⟨Nat.le_add_right _ _, ?_⟩
  rintro x' ⟨⟩
  exact h

theorem CostAtMost.throw {k : Nat} {Q : α → Prop} (e : ε) :
    CostAtMost c k Q (throw e : ExceptT ε (StateM σ) α) := by
  intro s
  refine ⟨Nat.le_add_right _ _, ?_⟩
  rintro x' ⟨⟩

theorem CostAtMost.mono {k k' : Nat} {Q Q' : α → Prop} {m : ExceptT ε (StateM σ) α}
    (hk : k ≤ k') (hQ : ∀ x, Q x → Q' x) (h : CostAtMost c k Q m) : CostAtMost c k' Q' m := by
  intro s
  obtain ⟨hc, hq⟩ := h s
  exact ⟨Nat.le_trans hc (Nat.add_le_add_left hk _), fun x hx => hQ x (hq x hx)⟩

/-- Sequencing adds the costs; the second part may assume what the first gives. -/
theorem CostAtMost.bind {k₁ k₂ : Nat} {P : α → Prop} {Q : β → Prop} {a : ExceptT ε (StateM σ) α}
    {f : α → ExceptT ε (StateM σ) β} (ha : CostAtMost c k₁ P a)
    (hf : ∀ x, P x → CostAtMost c k₂ Q (f x)) : CostAtMost c (k₁ + k₂) Q (a >>= f) := by
  intro s
  obtain ⟨hca, hqa⟩ := ha s
  rw [run_bind]
  rcases hrun : a.run.run s with ⟨r, s₁⟩
  rw [hrun] at hca hqa
  cases r with
  | error e =>
    refine ⟨Nat.le_trans hca (by omega), ?_⟩
    rintro x ⟨⟩
  | ok x =>
    obtain ⟨hcf, hqf⟩ := hf x (hqa x rfl) s₁
    have hc₁ : c s₁ ≤ c s + k₁ := hca
    exact ⟨Nat.le_trans hcf (by omega), hqf⟩

/-- A first part that costs nothing. -/
theorem CostAtMost.bind_free {k : Nat} {P : α → Prop} {Q : β → Prop} {a : ExceptT ε (StateM σ) α}
    {f : α → ExceptT ε (StateM σ) β} (ha : CostAtMost c 0 P a)
    (hf : ∀ x, P x → CostAtMost c k Q (f x)) : CostAtMost c k Q (a >>= f) :=
  (CostAtMost.bind ha hf).mono (by omega) fun _ h => h

theorem CostAtMost.ite {p : Prop} [Decidable p] {k : Nat} {Q : α → Prop}
    {a b : ExceptT ε (StateM σ) α} (ha : p → CostAtMost c k Q a) (hb : ¬p → CostAtMost c k Q b) :
    CostAtMost c k Q (if p then a else b) := by
  by_cases hp : p
  · rw [if_pos hp]
    exact ha hp
  · rw [if_neg hp]
    exact hb hp

/-- A guard costs nothing, and passes only where its condition fails. -/
theorem CostAtMost.failIf {p : Prop} [Decidable p] (e : ε) :
    CostAtMost c 0 (fun _ => ¬p) (failIf p e : ExceptT ε (StateM σ) Unit) :=
  CostAtMost.ite (fun _ => CostAtMost.throw e) fun hp => CostAtMost.pure hp

/-- A lifted state computation costs what it raises the counter by. -/
theorem CostAtMost.liftM {k : Nat} (m : StateM σ α) (h : ∀ s, c (m.run s).2 ≤ c s + k) :
    CostAtMost c k (fun _ => True) (liftM m : ExceptT ε (StateM σ) α) := by
  intro s
  exact ⟨h s, fun _ _ => trivial⟩

end Relax
