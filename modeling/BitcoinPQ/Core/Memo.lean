import Mathlib.Logic.Function.Basic
import Mathlib.Data.Nat.Notation

/-!
# A cache filled by walking back and replaying forward

A value defined by recursion along a predecessor map, `f k = next k (f (pred k))` until
a key whose value is known outright, is computed with a cache: walk back along `pred`
until the cache holds the key or its value is known, remembering the keys passed, then
replay them forward, storing each value as it is found. The cache is a map from keys to
values, a function here. When every entry agrees with `f`, the walk returns `f` at the
key it started from and leaves every entry in agreement, whatever entries an earlier
walk left behind.
-/

namespace Memo

variable {κ σ : Type}

/-- A cache: the value stored for a key, if any. -/
abbrev Cache (κ σ : Type) := κ → Option σ

/-- Every entry of the cache is the value of `f` at its key. -/
def Agrees (f : κ → σ) (cache : Cache κ σ) : Prop :=
  ∀ k s, cache k = some s → f k = s

theorem agrees_empty (f : κ → σ) : Agrees f (fun _ => none) := by
  intro k s h
  cases h

/-- Replaying `ks` from the value at `k` gives each key its value under `f`, and ends
at `k₀`. -/
inductive Replays (f : κ → σ) (next : κ → σ → σ) : κ → List κ → κ → Prop
  | nil (k : κ) : Replays f next k [] k
  | cons {k k' k₀ : κ} {ks : List κ} : f k' = next k' (f k) → Replays f next k' ks k₀ →
      Replays f next k (k' :: ks) k₀

variable [DecidableEq κ]

/-- The walk back: while the cache has no entry for `k`, either `stop` knows its value,
which is stored and ends the walk, or `k` is pushed on the stack and the walk goes on at
`pred k`. The stack holds the key pushed last first. `fuel` bounds the steps. -/
def back (stop : κ → Option σ) (pred : κ → κ) : ℕ → Cache κ σ → κ → List κ → Cache κ σ × κ × List κ
  | 0, cache, k, ks => (cache, k, ks)
  | fuel + 1, cache, k, ks =>
    match cache k with
    | some _ => (cache, k, ks)
    | none =>
      match stop k with
      | some v => (Function.update cache k (some v), k, ks)
      | none => back stop pred fuel cache (pred k) (k :: ks)

/-- The replay: each key popped from the stack gets its value from the one before, and
the value is stored. -/
def forward (next : κ → σ → σ) : Cache κ σ → σ → List κ → Cache κ σ × σ
  | cache, s, [] => (cache, s)
  | cache, s, k :: ks => forward next (Function.update cache k (some (next k s))) (next k s) ks

theorem Agrees.update {f : κ → σ} {cache : Cache κ σ} (h : Agrees f cache) (k : κ) :
    Agrees f (Function.update cache k (some (f k))) := by
  intro k' s hk'
  by_cases hk : k' = k
  · subst hk
    rw [Function.update_self] at hk'
    exact Option.some.inj hk'
  · rw [Function.update_of_ne hk] at hk'
    exact h k' s hk'

section Walk

variable {f : κ → σ} {stop : κ → Option σ} {pred : κ → κ} {next : κ → σ → σ}

/-- The replay stores the value of each key it passes and ends with the value at `k₀`. -/
theorem forward_spec {cache : Cache κ σ} (hc : Agrees f cache) {k k₀ : κ} {ks : List κ}
    (hr : Replays f next k ks k₀) :
    (forward next cache (f k) ks).2 = f k₀ ∧ Agrees f (forward next cache (f k) ks).1 := by
  induction hr generalizing cache with
  | nil k => exact ⟨rfl, hc⟩
  | @cons k k' k₀ ks hstep _ ih =>
    rw [forward, ← hstep]
    exact ih (hc.update k')

variable (P : κ → Prop) (rank : κ → ℕ)
  (hstop : ∀ k v, P k → stop k = some v → f k = v)
  (hnext : ∀ k, P k → stop k = none → f k = next k (f (pred k)))
  (hpred : ∀ k, P k → stop k = none → P (pred k))
  (hrank : ∀ k, P k → stop k = none → rank (pred k) < rank k)
include hstop hnext hpred hrank

/-- The walk back ends at a key that the cache holds with its value, with a stack that
replays to the key it started from; the cache still agrees with `f`. -/
theorem back_spec : ∀ (fuel : ℕ) (cache : Cache κ σ) (k : κ) (ks : List κ) (k₀ : κ),
    Agrees f cache → P k → rank k < fuel → Replays f next k ks k₀ →
    Agrees f (back stop pred fuel cache k ks).1 ∧
      (back stop pred fuel cache k ks).1 (back stop pred fuel cache k ks).2.1 =
        some (f (back stop pred fuel cache k ks).2.1) ∧
      Replays f next (back stop pred fuel cache k ks).2.1 (back stop pred fuel cache k ks).2.2 k₀
  | 0, _, _, _, _, _, _, hfuel, _ => absurd hfuel (Nat.not_lt_zero _)
  | fuel + 1, cache, k, ks, k₀, hc, hk, hfuel, hr => by
    rw [back]
    cases hck : cache k with
    | some s =>
      -- a cached entry ends the walk; it is the value by agreement
      dsimp only
      rw [hc k s hck]
      exact ⟨hc, hck, hr⟩
    | none =>
      dsimp only
      cases hsk : stop k with
      | some v =>
        rw [← hstop k v hk hsk]
        exact ⟨hc.update k, Function.update_self .., hr⟩
      | none =>
        -- the key is pushed: it replays from its predecessor
        have hr' : Replays f next (pred k) (k :: ks) k₀ := .cons (hnext k hk hsk) hr
        exact back_spec fuel cache (pred k) (k :: ks) k₀ hc (hpred k hk hsk)
          (by have := hrank k hk hsk; omega) hr'

/-- Walking back from `k` and replaying forward from the value found gives `f k`, and
leaves a cache that agrees with `f`. -/
theorem back_forward_spec {fuel : ℕ} {cache : Cache κ σ} {k : κ} (hc : Agrees f cache) (hk : P k)
    (hfuel : rank k < fuel) (d : σ) :
    (forward next (back stop pred fuel cache k []).1
        (((back stop pred fuel cache k []).1 (back stop pred fuel cache k []).2.1).getD d)
        (back stop pred fuel cache k []).2.2).2 = f k ∧
    Agrees f (forward next (back stop pred fuel cache k []).1
        (((back stop pred fuel cache k []).1 (back stop pred fuel cache k []).2.1).getD d)
        (back stop pred fuel cache k []).2.2).1 := by
  obtain ⟨hc', hfound, hr⟩ := back_spec P rank hstop hnext hpred hrank fuel cache k [] k hc hk hfuel (.nil k)
  rw [hfound, Option.getD_some]
  exact forward_spec hc' hr

end Walk

end Memo
