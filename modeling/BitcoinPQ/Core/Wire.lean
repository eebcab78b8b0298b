import Mathlib

/-!
# Little-endian words and prefix readers

Fixed-width integers travel as little-endian base-256 digits. A reader consumes a
prefix of its input and keeps the rest; it fails with whatever error the stream
raises. `Reads read write ok` is the round-trip law of a field: `read` parses back
exactly the bytes `write` emits for every admissible value, and leaves every byte
after them alone. Records, counted runs and guarded fields derive their laws from
the laws of their parts through `Reads.run_bind`.
-/

namespace Wire

/-! ## Little-endian digits -/

/-- The `n` low base-256 digits of `x`, least significant first. -/
def leBytes : Nat → Nat → List UInt8
  | 0, _ => []
  | n + 1, x => UInt8.ofNat (x % 256) :: leBytes n (x / 256)

/-- The number that little-endian digits spell. -/
def leValue : List UInt8 → Nat
  | [] => 0
  | b :: bs => b.toNat + 256 * leValue bs

@[simp] theorem leValue_nil : leValue [] = 0 := rfl

@[simp] theorem leValue_cons (b : UInt8) (bs : List UInt8) :
    leValue (b :: bs) = b.toNat + 256 * leValue bs := rfl

@[simp] theorem length_leBytes (n x : Nat) : (leBytes n x).length = n := by
  induction n generalizing x with
  | zero => rfl
  | succ n ih => simp [leBytes, ih]

/-- Digits read back as the number reduced to the width they hold. -/
theorem leValue_leBytes (n x : Nat) : leValue (leBytes n x) = x % 256 ^ n := by
  induction n generalizing x with
  | zero => simp [leBytes, Nat.mod_one]
  | succ n ih =>
    have hb : (UInt8.ofNat (x % 256)).toNat = x % 256 := by
      simp [UInt8.toNat_ofNat', Nat.mod_mod_of_dvd]
    rw [leBytes, leValue_cons, ih, hb, Nat.pow_succ, Nat.mul_comm (256 ^ n) 256, Nat.mod_mul]

theorem leValue_leBytes_of_lt {n x : Nat} (h : x < 256 ^ n) : leValue (leBytes n x) = x := by
  rw [leValue_leBytes, Nat.mod_eq_of_lt h]

theorem leValue_lt (bs : List UInt8) : leValue bs < 256 ^ bs.length := by
  induction bs with
  | nil => simp
  | cons b bs ih =>
    have hb := b.toNat_lt
    simp only [leValue_cons, List.length_cons, Nat.pow_succ]
    omega

theorem leValue_append (as bs : List UInt8) : leValue (as ++ bs) = leValue as + 256 ^ as.length * leValue bs := by
  induction as with
  | nil => rw [List.nil_append, leValue_nil, List.length_nil, Nat.pow_zero, Nat.one_mul, Nat.zero_add]
  | cons a as ih =>
    rw [List.cons_append, leValue_cons, leValue_cons, ih, List.length_cons, Nat.pow_succ, Nat.mul_add,
      Nat.add_assoc, Nat.mul_comm (256 ^ as.length) 256, Nat.mul_assoc]

@[simp] theorem leValue_replicate_zero (k : Nat) : leValue (List.replicate k 0) = 0 := by
  induction k with
  | zero => rfl
  | succ k ih => simp [List.replicate_succ, ih]

/-- Zero digits at the top do not change the value. -/
@[simp] theorem leValue_append_replicate_zero (bs : List UInt8) (k : Nat) :
    leValue (bs ++ List.replicate k 0) = leValue bs := by
  induction bs with
  | nil => simp
  | cons b bs ih => simp [ih]

@[simp] theorem leValue_append_zero (bs : List UInt8) : leValue (bs ++ [0]) = leValue bs :=
  leValue_append_replicate_zero bs 1

/-- Only the low `n` digits of `x` reach its `n` bytes. -/
theorem leBytes_mod (n x : Nat) : leBytes n (x % 256 ^ n) = leBytes n x := by
  induction n generalizing x with
  | zero => rfl
  | succ n ih =>
    have hlow : x % 256 ^ (n + 1) % 256 = x % 256 :=
      Nat.mod_mod_of_dvd x ⟨256 ^ n, by rw [Nat.pow_succ, Nat.mul_comm]⟩
    have hhigh : x % 256 ^ (n + 1) / 256 = x / 256 % 256 ^ n := by
      rw [Nat.pow_succ, Nat.mul_comm, Nat.mod_mul_right_div_self]
    rw [leBytes, leBytes, hlow, hhigh, ih]

/-- Digits are determined by their value and their count. -/
theorem leBytes_leValue (bs : List UInt8) : leBytes bs.length (leValue bs) = bs := by
  induction bs with
  | nil => rfl
  | cons b bs ih =>
    have hb := b.toNat_lt
    have hmod : (b.toNat + 256 * leValue bs) % 256 = b.toNat := by omega
    have hdiv : (b.toNat + 256 * leValue bs) / 256 = leValue bs := by omega
    simp only [List.length_cons, leBytes, leValue_cons, hmod, hdiv, ih, UInt8.ofNat_toNat]

/-! ## Readers and their round-trip law -/

section Reads

variable {ε α β : Type}

/-- A successful step of an `Except` computation passes its value on. -/
@[simp] theorem except_ok_bind (a : α) (f : α → Except ε β) : (Except.ok a >>= f) = f a := rfl

/-- A failed step of an `Except` computation ends it. -/
@[simp] theorem except_error_bind (e : ε) (f : α → Except ε β) :
    (Except.error e >>= f) = Except.error e := rfl

@[simp] theorem except_throw (e : ε) : (throw e : Except ε α) = Except.error e := rfl

theorem except_pure (a : α) : (pure a : Except ε α) = Except.ok a := rfl

/-- An `Except` computation that ends in a value passed one from its first step. -/
theorem except_bind_eq_ok {x : Except ε α} {f : α → Except ε β} {b : β} :
    (x >>= f) = Except.ok b ↔ ∃ a, x = Except.ok a ∧ f a = Except.ok b := by
  cases x <;> simp

/-- A guard of an `Except` computation passes exactly when its condition fails. -/
theorem except_ite_throw_eq_ok {c : Prop} [Decidable c] (e : ε) :
    (if c then throw e else pure () : Except ε Unit) = Except.ok () ↔ ¬c := by
  by_cases hc : c <;> simp [hc, except_pure]

/-- A guard in the middle of a `do` block, as its join point leaves it: the block
succeeds exactly when the guard passes and the rest succeeds. -/
theorem except_guard_eq_ok {c : Prop} [Decidable c] (e : ε) (k : Unit → Except ε β) (b : β) :
    (if c then throw e >>= k else k ()) = Except.ok b ↔ ¬c ∧ k () = Except.ok b := by
  by_cases hc : c
  · simp only [hc, if_true, not_true, false_and, iff_false]
    intro h
    cases h
  · simp only [hc, if_false, not_false_eq_true, true_and]

/-- The next `n` bytes of the input, or `none` when fewer remain. -/
def take? (n : Nat) (s : List UInt8) : Option (List UInt8 × List UInt8) :=
  if n ≤ s.length then some (s.take n, s.drop n) else none

theorem take?_append {front rest : List UInt8} {n : Nat} (h : front.length = n) :
    take? n (front ++ rest) = some (front, rest) := by
  subst h
  simp [take?]

/-- What `take?` returns is the front of the input and the rest after it. -/
theorem take?_eq_some {n : Nat} {s front rest : List UInt8} :
    take? n s = some (front, rest) ↔ front.length = n ∧ s = front ++ rest := by
  constructor
  · intro h
    unfold take? at h
    split_ifs at h with hn
    cases h
    exact ⟨by simp [hn], (List.take_append_drop n s).symm⟩
  · rintro ⟨hlen, rfl⟩
    exact take?_append hlen

/-- `read` parses back what `write` emits for every value that `ok` admits,
whatever bytes follow. -/
def Reads (read : StateT (List UInt8) (Except ε) α) (write : α → List UInt8)
    (ok : α → Prop) : Prop :=
  ∀ a rest, ok a → read.run (write a ++ rest) = .ok (a, rest)

/-- A field that reads back lets the reader of the following fields start right
after it. -/
theorem Reads.run_bind {read : StateT (List UInt8) (Except ε) α} {write : α → List UInt8}
    {ok : α → Prop} (h : Reads read write ok) {a : α} (ha : ok a)
    (f : α → StateT (List UInt8) (Except ε) β) (rest : List UInt8) :
    (read >>= f).run (write a ++ rest) = (f a).run rest := by
  rw [StateT.run_bind, h a rest ha]
  rfl

theorem Reads.run_bind_append {read : StateT (List UInt8) (Except ε) α}
    {write : α → List UInt8} {ok : α → Prop} (h : Reads read write ok) {a : α} (ha : ok a)
    (f : α → StateT (List UInt8) (Except ε) β) (more rest : List UInt8) :
    (read >>= f).run (write a ++ more ++ rest) = (f a).run (more ++ rest) := by
  rw [List.append_assoc, h.run_bind ha]

/-- Reading a field and rebuilding a value from it. -/
theorem Reads.map {read : StateT (List UInt8) (Except ε) α} {write : α → List UInt8}
    {ok : α → Prop} (h : Reads read write ok) (g : α → β) (g' : β → α)
    (hg : ∀ b, g (g' b) = b) :
    Reads (g <$> read) (fun b => write (g' b)) (fun b => ok (g' b)) := by
  intro b rest hb
  rw [StateT.run_map, h (g' b) rest hb]
  simp [hg]

/-- Weaker admissibility keeps the law. -/
theorem Reads.mono {read : StateT (List UInt8) (Except ε) α} {write : α → List UInt8}
    {ok ok' : α → Prop} (h : Reads read write ok) (hw : ∀ a, ok' a → ok a) :
    Reads read write ok' :=
  fun a rest ha => h a rest (hw a ha)

/-- A writer whose output reads back loses nothing: admissible values with the same
bytes are equal. -/
theorem Reads.injective {read : StateT (List UInt8) (Except ε) α} {write : α → List UInt8}
    {ok : α → Prop} (h : Reads read write ok) {a b : α} (ha : ok a) (hb : ok b)
    (hw : write a = write b) : a = b := by
  have hra := h a [] ha
  have hrb := h b [] hb
  rw [hw, hrb] at hra
  have hpair := Except.ok.inj hra
  exact (Prod.mk.inj hpair).1.symm

/-- `read` accepts only what `write` emits: whatever it parses is the encoding of
its result, and what it leaves is what follows. The converse of `Reads`. -/
def Canonical (read : StateT (List UInt8) (Except ε) α) (write : α → List UInt8) : Prop :=
  ∀ s a rest, read.run s = .ok (a, rest) → s = write a ++ rest

/-- A value rebuilt from a canonical field is canonical for any writer that writes
the field's encoding. -/
theorem Canonical.map {read : StateT (List UInt8) (Except ε) α} {write : α → List UInt8}
    (h : Canonical read write) (g : α → β) (write' : β → List UInt8)
    (hg : ∀ a, write' (g a) = write a) : Canonical (g <$> read) write' := by
  intro s b rest hrun
  rw [StateT.run_map] at hrun
  cases hr : read.run s with
  | error e => rw [hr] at hrun; cases hrun
  | ok p =>
    rw [hr] at hrun
    obtain ⟨a, rest'⟩ := p
    cases hrun
    rw [hg]
    exact h s a rest' hr

/-- Read `n` items one after another. -/
def readMany (item : StateT (List UInt8) (Except ε) α) :
    Nat → StateT (List UInt8) (Except ε) (List α)
  | 0 => pure []
  | n + 1 => do
    let x ← item
    let xs ← readMany item n
    pure (x :: xs)

/-- A counted run reads back when every item does. -/
theorem readMany_flatMap {item : StateT (List UInt8) (Except ε) α} {write : α → List UInt8}
    {ok : α → Prop} (h : Reads item write ok) (xs : List α) (hxs : ∀ x ∈ xs, ok x)
    (rest : List UInt8) :
    (readMany item xs.length).run (xs.flatMap write ++ rest) = .ok (xs, rest) := by
  induction xs with
  | nil => rfl
  | cons x xs ih =>
    have hx : ok x := hxs x (by simp)
    have htail : ∀ y ∈ xs, ok y := fun y hy => hxs y (by simp [hy])
    rw [List.length_cons, readMany, List.flatMap_cons, h.run_bind_append hx, StateT.run_bind,
      ih htail]
    rfl

end Reads

end Wire
