import Mathlib.Data.List.Basic

/-!
# Buffers of elements

The memory operations of C on a buffer of `n` elements, as operations on a list of
length `n`: `memcpy` of a prefix from one buffer to another, `memmove` within one
buffer, `malloc` and `realloc`, whose new slots hold no element yet, and placement `new`
of a run of elements at consecutive slots. Each keeps the buffer's length when it stays
within the buffer; the lemmas say which elements end up where.
-/

namespace Buffer

variable {α : Type}

/-- `memcpy(dst, src, n)`: the first `n` elements of `src` over those of `dst`. -/
def memcpy (dst src : List α) (n : ℕ) : List α :=
  src.take n ++ dst.drop n

/-- `memmove(&buf[dst], &buf[src], n)`: `n` elements from `src` on copied to `dst` on. -/
def memmove (buf : List α) (dst src n : ℕ) : List α :=
  buf.take dst ++ (buf.drop src).take n ++ buf.drop (dst + n)

/-- Placement `new` of `xs` at slots `p`, `p + 1`, ... in turn. -/
def construct (buf : List α) (p : ℕ) : List α → List α
  | [] => buf
  | x :: xs => construct (buf.set p x) (p + 1) xs

theorem length_memcpy {dst src : List α} {n : ℕ} (hsrc : n ≤ src.length) (hdst : n ≤ dst.length) :
    (memcpy dst src n).length = dst.length := by
  rw [memcpy, List.length_append, List.length_take, List.length_drop]
  omega

theorem take_memcpy {dst src : List α} {n : ℕ} (hsrc : n ≤ src.length) : (memcpy dst src n).take n = src.take n := by
  rw [memcpy, List.take_append_of_le_length (by rw [List.length_take]; omega), List.take_take, Nat.min_self]

/-- An element stored at slot `p` follows the first `p` elements. -/
theorem take_set_succ {buf : List α} {p : ℕ} (x : α) (h : p < buf.length) :
    (buf.set p x).take (p + 1) = buf.take p ++ [x] := by
  rw [List.set_eq_take_append_cons_drop, if_pos h, List.take_append,
    List.take_of_length_le (by rw [List.length_take]; omega), List.length_take, Nat.min_eq_left (Nat.le_of_lt h),
    Nat.add_sub_cancel_left, List.take_succ_cons, List.take_zero]

theorem length_construct (buf : List α) (p : ℕ) (xs : List α) : (construct buf p xs).length = buf.length := by
  induction xs generalizing buf p with
  | nil => rfl
  | cons x xs ih => rw [construct, ih, List.length_set]

/-- Constructing `xs` inside the buffer puts them in place of the slots they fill. -/
theorem construct_eq {buf : List α} {p : ℕ} {xs : List α} (h : p + xs.length ≤ buf.length) :
    construct buf p xs = buf.take p ++ xs ++ buf.drop (p + xs.length) := by
  induction xs generalizing buf p with
  | nil => rw [construct, List.append_nil, List.length_nil, Nat.add_zero, List.take_append_drop]
  | cons x xs ih =>
    rw [List.length_cons] at h
    have hset : buf.set p x = buf.take p ++ x :: buf.drop (p + 1) := by
      rw [List.set_eq_take_append_cons_drop, if_pos (by omega)]
    have hlen : p + 1 + xs.length ≤ (buf.set p x).length := by rw [List.length_set]; omega
    rw [construct, ih hlen, hset]
    -- the slots before `p + 1` are those of `buf` and `x`, the rest those after
    have htake : (buf.take p ++ x :: buf.drop (p + 1)).take (p + 1) = buf.take p ++ [x] := by
      rw [List.take_append, List.take_of_length_le (by rw [List.length_take]; omega), List.length_take,
        Nat.min_eq_left (by omega), show p + 1 - p = 1 by omega]
      rfl
    have hdrop : (buf.take p ++ x :: buf.drop (p + 1)).drop (p + 1 + xs.length) =
        buf.drop (p + (xs.length + 1)) := by
      rw [List.drop_append, List.length_take, Nat.min_eq_left (by omega),
        List.drop_eq_nil_of_le (by rw [List.length_take]; omega), List.nil_append,
        show p + 1 + xs.length - p = xs.length + 1 by omega, List.drop_succ_cons, List.drop_drop,
        show p + 1 + xs.length = p + (xs.length + 1) by omega]
    rw [htake, hdrop]
    simp only [List.append_assoc, List.cons_append, List.nil_append, List.length_cons]

/-- Making room at `p` for `xs` with `memmove`, then constructing them there, inserts
them into the first `s` elements. -/
theorem take_construct_memmove {buf : List α} {p s : ℕ} {xs : List α} (hp : p ≤ s)
    (hs : s + xs.length ≤ buf.length) :
    (construct (memmove buf (p + xs.length) p (s - p)) p xs).take (s + xs.length) =
      (buf.take s).take p ++ xs ++ (buf.take s).drop p := by
  have hmove : memmove buf (p + xs.length) p (s - p) =
      buf.take (p + xs.length) ++ (buf.drop p).take (s - p) ++ buf.drop (s + xs.length) := by
    rw [memmove, show p + xs.length + (s - p) = s + xs.length by omega]
  have hlen : (memmove buf (p + xs.length) p (s - p)).length = buf.length := by
    rw [hmove, List.length_append, List.length_append, List.length_take, List.length_take, List.length_drop,
      List.length_drop]
    omega
  rw [construct_eq (by rw [hlen]; omega), hmove]
  -- the slots before `p` are untouched, those after `p + xs.length` hold the old ones from `p`
  have hpre : (buf.take (p + xs.length) ++ (buf.drop p).take (s - p) ++ buf.drop (s + xs.length)).take p =
      buf.take p := by
    rw [List.append_assoc, List.take_append_of_le_length (by rw [List.length_take]; omega), List.take_take,
      Nat.min_eq_left (by omega)]
  have hpost : (buf.take (p + xs.length) ++ (buf.drop p).take (s - p) ++ buf.drop (s + xs.length)).drop
      (p + xs.length) = (buf.drop p).take (s - p) ++ buf.drop (s + xs.length) := by
    rw [List.append_assoc, List.drop_append, List.length_take, Nat.min_eq_left (by omega),
      List.drop_eq_nil_of_le (by rw [List.length_take]; omega), List.nil_append, Nat.sub_self, List.drop_zero]
  have hmid : ((buf.drop p).take (s - p)).length = s - p := by
    rw [List.length_take, List.length_drop]
    omega
  rw [hpre, hpost, ← List.append_assoc, List.take_left' (by
      rw [List.length_append, List.length_append, List.length_take, hmid]
      omega),
    List.take_take, Nat.min_eq_left hp, List.drop_take]

/-- `memmove` of the elements after `last` down to `first` erases those in between from
the first `s`. -/
theorem take_memmove_erase {buf : List α} {first last s : ℕ} (hfl : first ≤ last) (hl : last ≤ s)
    (hs : s ≤ buf.length) :
    (memmove buf first last (s - last)).take (s - (last - first)) = (buf.take s).take first ++ (buf.take s).drop last := by
  have hfirst : (buf.take first).length = first := by
    rw [List.length_take]
    omega
  have hmid : ((buf.drop last).take (s - last)).length = s - last := by
    rw [List.length_take, List.length_drop]
    omega
  rw [memmove, List.take_left' (by rw [List.length_append, hfirst, hmid]; omega), List.take_take,
    Nat.min_eq_left (Nat.le_trans hfl hl), List.drop_take]

theorem length_memmove {buf : List α} {dst src n : ℕ} (hdst : dst + n ≤ buf.length) (hsrc : src + n ≤ buf.length) :
    (memmove buf dst src n).length = buf.length := by
  rw [memmove, List.length_append, List.length_append, List.length_take, List.length_take, List.length_drop,
    List.length_drop]
  omega

variable [Inhabited α]

/-- `malloc` of `n` slots. -/
def malloc (n : ℕ) : List α :=
  List.replicate n default

/-- `realloc` to `n` slots: the elements of the first `n` slots are kept. -/
def realloc (buf : List α) (n : ℕ) : List α :=
  buf.take n ++ List.replicate (n - buf.length) default

theorem length_malloc (n : ℕ) : (malloc n : List α).length = n :=
  List.length_replicate

theorem length_realloc (buf : List α) (n : ℕ) : (realloc buf n).length = n := by
  rw [realloc, List.length_append, List.length_take, List.length_replicate]
  omega

theorem take_realloc {buf : List α} {n k : ℕ} (hk : k ≤ n) (hb : k ≤ buf.length) :
    (realloc buf n).take k = buf.take k := by
  rw [realloc, List.take_append_of_le_length (by rw [List.length_take]; omega), List.take_take,
    Nat.min_eq_left hk]

end Buffer
