import Mathlib.Control.Basic

/-!
# Relaxed computations

A computation of `ExceptT ε (StateM σ)` fails or succeeds, and in both cases ends in
a state. `Relaxes R a b` says that `a` makes at most the checks `b` makes: from every
state where `b` succeeds with `y`, `a` succeeds in the same final state with an `x`
related to `y` by `R`. With `R = Eq` it is a preorder that sequencing preserves; a
failure is relaxed by anything, and a guard is relaxed by a weaker guard. A
computation is `Returns b x` when it fails or gives `x` without touching the state:
it may then be dropped in favour of `pure x`. `onSnd` runs a computation on one part
of a pair of states, as a layer runs its parent.
-/

namespace Relax

variable {ε σ α β γ δ : Type}

/-! ## Running -/

@[simp] theorem run_pure (x : α) (s : σ) :
    (pure x : ExceptT ε (StateM σ) α).run.run s = (.ok x, s) := rfl

@[simp] theorem run_throw (e : ε) (s : σ) :
    (throw e : ExceptT ε (StateM σ) α).run.run s = (.error e, s) := rfl

theorem run_throw_bind (e : ε) (f : α → ExceptT ε (StateM σ) β) (s : σ) :
    (throw e >>= f).run.run s = (.error e, s) := rfl

theorem run_bind (a : ExceptT ε (StateM σ) α) (f : α → ExceptT ε (StateM σ) β) (s : σ) :
    (a >>= f).run.run s =
      match a.run.run s with
      | (.ok x, s₁) => (f x).run.run s₁
      | (.error e, s₁) => (.error e, s₁) := by
  simp only [ExceptT.run_bind, StateT.run_bind]
  rcases a.run.run s with ⟨r, s₁⟩
  cases r <;> rfl

@[simp] theorem run_get_bind (f : σ → ExceptT ε (StateM σ) α) (s : σ) :
    (get >>= f).run.run s = (f s).run.run s := rfl

@[simp] theorem run_set_bind (s' : σ) (f : PUnit → ExceptT ε (StateM σ) α) (s : σ) :
    (set s' >>= f).run.run s = (f ⟨⟩).run.run s' := rfl

/-- A step that cannot fail. -/
@[simp] theorem run_liftM (m : StateM σ α) (s : σ) :
    (liftM m : ExceptT ε (StateM σ) α).run.run s = (.ok (m.run s).1, (m.run s).2) := rfl

/-- A step that cannot fail, its value dropped. -/
@[simp] theorem run_discard_liftM (m : StateM σ α) (s : σ) :
    (discard (liftM m : ExceptT ε (StateM σ) α)).run.run s = (.ok (), (m.run s).2) := rfl

theorem run_map (f : α → β) (m : ExceptT ε (StateM σ) α) (s : σ) :
    (f <$> m).run.run s = ((m.run.run s).1.map f, (m.run.run s).2) := by
  rw [map_eq_pure_bind, run_bind]
  rcases m.run.run s with ⟨_ | _, s'⟩ <;> rfl

/-- A change of the state, then a value. -/
@[simp] theorem run_modify_seqRight (f : σ → σ) (x : α) (s : σ) :
    ((modify f : ExceptT ε (StateM σ) PUnit) *> pure x).run.run s = (.ok x, f s) := rfl

/-- A first part that succeeds hands its value and its state to the rest. -/
theorem run_bind_of_ok {a : ExceptT ε (StateM σ) α} {f : α → ExceptT ε (StateM σ) β} {s s₁ : σ}
    {x : α} (h : a.run.run s = (.ok x, s₁)) : (a >>= f).run.run s = (f x).run.run s₁ := by
  rw [run_bind, h]

/-- A step that cannot fail, then the rest. -/
theorem run_liftM_bind (m : StateM σ α) (f : α → ExceptT ε (StateM σ) β) (s : σ) :
    (liftM m >>= f).run.run s = (f (m.run s).1).run.run (m.run s).2 :=
  run_bind_of_ok (run_liftM m s)

/-- A step of the state alone hands its value and its state to the rest. -/
theorem stateRun_bind_of_eq {a : StateM σ α} {f : α → StateM σ β} {s s₁ : σ} {x : α}
    (h : a.run s = (x, s₁)) : (a >>= f).run s = (f x).run s₁ := by
  rw [StateT.run_bind, h]
  rfl

/-- A sequence succeeds only after its first part succeeds. -/
theorem ok_of_bind_ok {a : ExceptT ε (StateM σ) α} {f : α → ExceptT ε (StateM σ) β}
    {s s' : σ} {y : β} (h : (a >>= f).run.run s = (.ok y, s')) :
    ∃ x s₁, a.run.run s = (.ok x, s₁) ∧ (f x).run.run s₁ = (.ok y, s') := by
  rw [run_bind] at h
  rcases ha : a.run.run s with ⟨r, s₁⟩
  rw [ha] at h
  cases r with
  | error e => cases h
  | ok x => exact ⟨x, s₁, rfl, h⟩

/-- A step whose value is dropped succeeds where the step does. -/
theorem run_discard_of_ok {m : ExceptT ε (StateM σ) α} {s s' : σ} {x : α}
    (h : m.run.run s = (.ok x, s')) : (discard m).run.run s = (.ok (), s') := by
  have hd : discard m = (m >>= fun _ => pure ()) := by
    rw [discard, LawfulFunctor.map_const, Function.comp_apply, map_eq_pure_bind]
  rw [hd, run_bind, h]
  rfl

/-! ## Guards -/

/-- `if (c) return error;`: fail with `e` when `c` holds. -/
def failIf (c : Prop) [Decidable c] (e : ε) : ExceptT ε (StateM σ) Unit :=
  if c then throw e else pure ()

@[simp] theorem failIf_pos {c : Prop} [Decidable c] (e : ε) (hc : c) :
    (failIf c e : ExceptT ε (StateM σ) Unit) = throw e := if_pos hc

@[simp] theorem failIf_neg {c : Prop} [Decidable c] (e : ε) (hc : ¬c) :
    (failIf c e : ExceptT ε (StateM σ) Unit) = pure () := if_neg hc

/-! ## The relation -/

/-- `a` succeeds wherever `b` does, in the same final state, with a value related by
`R` to the value of `b`. -/
def Relaxes (R : α → β → Prop) (a : ExceptT ε (StateM σ) α) (b : ExceptT ε (StateM σ) β) :
    Prop :=
  ∀ s y s', b.run.run s = (.ok y, s') → ∃ x, a.run.run s = (.ok x, s') ∧ R x y

theorem Relaxes.refl (a : ExceptT ε (StateM σ) α) : Relaxes Eq a a :=
  fun _ y _ h => ⟨y, h, rfl⟩

/-- With equal values, a relaxation is an implication between successes. -/
theorem Relaxes.eq_ok {a b : ExceptT ε (StateM σ) α} (hab : Relaxes Eq a b) {s s' : σ} {x : α}
    (h : b.run.run s = (.ok x, s')) : a.run.run s = (.ok x, s') := by
  obtain ⟨x', ha, rfl⟩ := hab s x s' h
  exact ha

theorem Relaxes.mono {R Q : α → β → Prop} {a : ExceptT ε (StateM σ) α}
    {b : ExceptT ε (StateM σ) β} (hRQ : ∀ x y, R x y → Q x y) (hab : Relaxes R a b) :
    Relaxes Q a b := by
  intro s y s' h
  obtain ⟨x, ha, hxy⟩ := hab s y s' h
  exact ⟨x, ha, hRQ x y hxy⟩

theorem Relaxes.bind {R : α → β → Prop} {Q : γ → δ → Prop} {a : ExceptT ε (StateM σ) α}
    {b : ExceptT ε (StateM σ) β} {f : α → ExceptT ε (StateM σ) γ} {g : β → ExceptT ε (StateM σ) δ}
    (hab : Relaxes R a b) (hfg : ∀ x y, R x y → Relaxes Q (f x) (g y)) :
    Relaxes Q (a >>= f) (b >>= g) := by
  intro s z s' h
  obtain ⟨y, s₁, hb, hg⟩ := ok_of_bind_ok h
  obtain ⟨x, ha, hxy⟩ := hab s y s₁ hb
  obtain ⟨w, hf, hwz⟩ := hfg x y hxy s₁ z s' hg
  refine ⟨w, ?_, hwz⟩
  rw [run_bind, ha]
  exact hf

/-- Sequencing after a first part that gives equal values. -/
theorem Relaxes.bind_eq {Q : γ → δ → Prop} {a b : ExceptT ε (StateM σ) α}
    {f : α → ExceptT ε (StateM σ) γ} {g : α → ExceptT ε (StateM σ) δ}
    (hab : Relaxes Eq a b) (hfg : ∀ x, Relaxes Q (f x) (g x)) : Relaxes Q (a >>= f) (b >>= g) :=
  Relaxes.bind hab fun x _ hxy => hxy ▸ hfg x

/-- Anything relaxes a failure. -/
theorem Relaxes.of_throw {R : α → β → Prop} (a : ExceptT ε (StateM σ) α) (e : ε) :
    Relaxes R a (throw e) := by
  intro s y s' h
  cases h

theorem Relaxes.ite {R : α → β → Prop} {c : Prop} [Decidable c] {a a' : ExceptT ε (StateM σ) α}
    {b b' : ExceptT ε (StateM σ) β} (hpos : c → Relaxes R a b) (hneg : ¬c → Relaxes R a' b') :
    Relaxes R (if c then a else a') (if c then b else b') := by
  by_cases hc : c
  · rw [if_pos hc, if_pos hc]
    exact hpos hc
  · rw [if_neg hc, if_neg hc]
    exact hneg hc

/-- A guard that fails in fewer cases relaxes one that fails in more. -/
theorem Relaxes.ite_throw {R : α → β → Prop} {p q : Prop} [Decidable p] [Decidable q]
    {a : ExceptT ε (StateM σ) α} {b : ExceptT ε (StateM σ) β} (e e' : ε) (hpq : p → q)
    (hab : ¬q → Relaxes R a b) :
    Relaxes R (if p then throw e else a) (if q then throw e' else b) := by
  by_cases hq : q
  · rw [if_pos hq]
    exact Relaxes.of_throw _ _
  · have hp : ¬p := fun hp => hq (hpq hp)
    rw [if_neg hp, if_neg hq]
    exact hab hq

/-- A weaker guard relaxes a stronger one. -/
theorem Relaxes.failIf {p q : Prop} [Decidable p] [Decidable q] (e e' : ε) (hpq : p → q) :
    Relaxes Eq (failIf p e : ExceptT ε (StateM σ) Unit) (failIf q e') :=
  Relaxes.ite_throw e e' hpq fun _ => Relaxes.refl _

/-- Where the state carries no information, a computation that cannot fail relaxes
everything up to its value. -/
theorem Relaxes.pure_of_subsingleton [Subsingleton σ] (x : α) (b : ExceptT ε (StateM σ) β) :
    Relaxes (fun _ _ => True) (pure x) b := by
  intro s y s' _
  exact ⟨x, by rw [run_pure, Subsingleton.elim s s'], trivial⟩

/-! ## Checks that return a fixed value -/

/-- `b` fails, or returns `x` and leaves the state alone. -/
def Returns (b : ExceptT ε (StateM σ) α) (x : α) : Prop :=
  ∀ s y s', b.run.run s = (.ok y, s') → y = x ∧ s' = s

theorem Returns.of_pure (x : α) : Returns (pure x : ExceptT ε (StateM σ) α) x := by
  intro s y s' h
  cases h
  exact ⟨rfl, rfl⟩

theorem Returns.of_throw (e : ε) (x : α) : Returns (throw e : ExceptT ε (StateM σ) α) x := by
  intro s y s' h
  cases h

/-- Where the state carries no information, only the last step decides the value. -/
theorem Returns.bind_of_subsingleton [Subsingleton σ] {a : ExceptT ε (StateM σ) α}
    {f : α → ExceptT ε (StateM σ) β} {y : β} (hf : ∀ x, Returns (f x) y) :
    Returns (a >>= f) y := by
  intro s z s' h
  obtain ⟨x, s₁, _, hfx⟩ := ok_of_bind_ok h
  exact ⟨(hf x s₁ z s' hfx).1, Subsingleton.elim s' s⟩

theorem Returns.ite {c : Prop} [Decidable c] {a b : ExceptT ε (StateM σ) α} {x : α}
    (ha : Returns a x) (hb : Returns b x) : Returns (if c then a else b) x := by
  by_cases hc : c
  · rw [if_pos hc]
    exact ha
  · rw [if_neg hc]
    exact hb

theorem Returns.failIf {c : Prop} [Decidable c] (e : ε) :
    Returns (failIf c e : ExceptT ε (StateM σ) Unit) () :=
  Returns.ite (Returns.of_throw e ()) (Returns.of_pure ())

/-- A computation that can only confirm `x` may be left out. -/
theorem Relaxes.pure_of_Returns {b : ExceptT ε (StateM σ) α} {x : α} (hb : Returns b x) :
    Relaxes Eq (pure x) b := by
  intro s y s' h
  obtain ⟨rfl, rfl⟩ := hb s y s' h
  exact ⟨y, rfl, rfl⟩

/-! ## Running on part of the state -/

/-- `m` run on the second component of a pair of states, the first left alone. -/
def onSnd {τ : Type} (m : ExceptT ε (StateM σ) α) : ExceptT ε (StateM (τ × σ)) α :=
  ExceptT.mk fun p => ((m.run.run p.2).1, (p.1, (m.run.run p.2).2))

@[simp] theorem run_onSnd {τ : Type} (m : ExceptT ε (StateM σ) α) (t : τ) (s : σ) :
    (onSnd m : ExceptT ε (StateM (τ × σ)) α).run.run (t, s) =
      ((m.run.run s).1, (t, (m.run.run s).2)) := rfl

end Relax
