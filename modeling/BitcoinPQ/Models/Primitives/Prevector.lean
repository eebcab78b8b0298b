import Mathlib
import BitcoinPQ.Core.Buffer

/-!
# prevector

`prevector<N, T>` (`prevector.h`) replaces `std::vector<T>`, keeping up to `N` elements
inside the object and moving them to the heap beyond that. One field, `_size`, holds both
the element count and the storage mode: the count in direct mode, the count plus `N + 1`
in indirect mode, so that `is_direct()` is `_size <= N`. The inline buffer and the heap
buffer's capacity and pointer share storage in `_union`; both members are kept here, and
the one the mode does not select holds what was last left in it and is never read.

Buffers are lists (`Buffer`), a slot that holds no element holding `default`. `_size`,
`_union.capacity` and the counts are of type `Size`, `uint32_t`: the sums the source
forms of them are taken modulo `2 ^ 32` (`wrapSize`), and positions are `Diff`,
`int32_t`. A range passed to `insert` or `assign` is the list of its elements, read before
the call, as a range from outside the vector is.

`std::vector<T>` is its list of elements. Over a store of vectors indexed by numbers,
every run of calls made within their preconditions from empty vectors, with fewer than
`2 ^ 31` elements in every vector and slots in the inline buffer, keeps every prevector
well formed and holding the elements of the vector that the same calls give. Past that
bound the sums wrap: the growth step of an insertion of `3 * 2 ^ 30` elements asks for
`2 ^ 29` slots.
-/

namespace BitcoinPQ

/-- `prevector<N, T>`: `_size` and the members of `_union`. -/
structure prevector (N : ℕ) (T : Type) where
  _size : ℕ
  /-- `_union.direct`, the inline buffer of `N` slots. -/
  _union_direct : List T
  /-- `_union.capacity`, the number of slots of the heap buffer. -/
  _union_capacity : ℕ
  /-- `_union.indirect`, the heap buffer. -/
  _union_indirect : List T
  deriving Repr

namespace prevector

variable {N : ℕ} {T : Type}

/-- `is_direct()`. -/
def is_direct (v : prevector N T) : Bool :=
  v._size ≤ N

/-- `size()`. -/
def size (v : prevector N T) : ℕ :=
  if v.is_direct then v._size else v._size - N - 1

/-- `capacity()`. -/
def capacity (v : prevector N T) : ℕ :=
  if v.is_direct then N else v._union_capacity

/-- The buffer `item_ptr` points into. -/
def items (v : prevector N T) : List T :=
  if v.is_direct then v._union_direct else v._union_indirect

/-- A store through `item_ptr`: the buffer it points into becomes `buf`. -/
def setItems (v : prevector N T) (buf : List T) : prevector N T :=
  if v.is_direct then { v with _union_direct := buf } else { v with _union_indirect := buf }

/-- The elements from `begin()` to `end()`. -/
def toList (v : prevector N T) : List T :=
  v.items.take v.size

/-- The representation invariant: the inline buffer has its `N` slots, and in indirect
mode the heap buffer has more than `N` slots, `_union.capacity` of them, of which the
first `_size - N - 1` hold the elements. -/
structure Wf (v : prevector N T) : Prop where
  direct_length : v._union_direct.length = N
  indirect : v.is_direct = false →
    N < v._union_capacity ∧ v._size - N - 1 ≤ v._union_capacity ∧ v._union_indirect.length = v._union_capacity

/-- `Size` arithmetic: `uint32_t` sums wrap modulo `2 ^ 32`. -/
def wrapSize (n : ℕ) : ℕ := n % 2 ^ 32

theorem wrapSize_of_lt {n : ℕ} (h : n < 2 ^ 32) : wrapSize n = n :=
  Nat.mod_eq_of_lt h

/-! ## The representation -/

section Representation

variable {v : prevector N T}

theorem is_direct_iff : v.is_direct = true ↔ v._size ≤ N :=
  decide_eq_true_iff

theorem not_is_direct_iff : v.is_direct = false ↔ N < v._size := by
  rw [← Bool.not_eq_true, is_direct_iff, Nat.not_le]

theorem size_of_direct (h : v.is_direct = true) : v.size = v._size := by
  rw [size, if_pos h]

theorem size_of_indirect (h : v.is_direct = false) : v.size = v._size - N - 1 := by
  rw [size, if_neg (ne_true_of_eq_false h)]

theorem capacity_of_direct (h : v.is_direct = true) : v.capacity = N := by
  rw [capacity, if_pos h]

theorem capacity_of_indirect (h : v.is_direct = false) : v.capacity = v._union_capacity := by
  rw [capacity, if_neg (ne_true_of_eq_false h)]

theorem items_of_direct (h : v.is_direct = true) : v.items = v._union_direct := by
  rw [items, if_pos h]

theorem items_of_indirect (h : v.is_direct = false) : v.items = v._union_indirect := by
  rw [items, if_neg (ne_true_of_eq_false h)]

/-- `_size` moved by `k` elements, in the same mode. -/
theorem _size_add (k : ℕ) : v._size + k = if v.is_direct then v.size + k else v.size + k + N + 1 := by
  cases hd : v.is_direct with
  | true => rw [size_of_direct hd, if_pos rfl]
  | false =>
    rw [size_of_indirect hd, if_neg Bool.false_ne_true]
    have := not_is_direct_iff.1 hd
    omega

theorem _size_sub {k : ℕ} (hk : k ≤ v.size) :
    v._size - k = if v.is_direct then v.size - k else v.size - k + N + 1 := by
  cases hd : v.is_direct with
  | true => rw [size_of_direct hd, if_pos rfl]
  | false =>
    rw [size_of_indirect hd] at hk
    rw [size_of_indirect hd, if_neg Bool.false_ne_true]
    have := not_is_direct_iff.1 hd
    omega

theorem _size_le : v._size ≤ v.size + N + 1 := by
  cases hd : v.is_direct with
  | true => rw [size_of_direct hd]; omega
  | false => rw [size_of_indirect hd]; omega

/-- Below `2 ^ 31` elements and inline slots, a `Size` sum of `_size` and a count does not
wrap, and moves `_size` by the count in the same mode. -/
theorem wrapSize_add (hN : N < 2 ^ 31) {k : ℕ} (hk : v.size + k < 2 ^ 31) :
    wrapSize (v._size + k) = if v.is_direct then v.size + k else v.size + k + N + 1 := by
  have hle : v._size ≤ v.size + N + 1 := _size_le
  rw [wrapSize_of_lt (by omega), _size_add]

theorem Wf.length_items (hv : v.Wf) : v.items.length = v.capacity := by
  cases hd : v.is_direct with
  | true => rw [items_of_direct hd, capacity_of_direct hd, hv.direct_length]
  | false => rw [items_of_indirect hd, capacity_of_indirect hd, (hv.indirect hd).2.2]

theorem Wf.size_le_capacity (hv : v.Wf) : v.size ≤ v.capacity := by
  cases hd : v.is_direct with
  | true => rw [size_of_direct hd, capacity_of_direct hd]; exact is_direct_iff.1 hd
  | false => rw [size_of_indirect hd, capacity_of_indirect hd]; exact (hv.indirect hd).2.1

theorem Wf.length_toList (hv : v.Wf) : v.toList.length = v.size := by
  rw [toList, List.length_take, hv.length_items]
  exact Nat.min_eq_left hv.size_le_capacity

/-! A store through `item_ptr` changes the buffer and nothing else. -/

@[simp]
theorem is_direct_setItems (buf : List T) : (v.setItems buf).is_direct = v.is_direct := by
  unfold setItems
  split <;> rfl

@[simp]
theorem size_setItems (buf : List T) : (v.setItems buf).size = v.size := by
  unfold setItems
  split <;> rfl

@[simp]
theorem capacity_setItems (buf : List T) : (v.setItems buf).capacity = v.capacity := by
  unfold setItems
  split <;> rfl

@[simp]
theorem _size_setItems (buf : List T) : (v.setItems buf)._size = v._size := by
  unfold setItems
  split <;> rfl

@[simp]
theorem items_setItems (buf : List T) : (v.setItems buf).items = buf := by
  cases hd : v.is_direct with
  | true =>
    rw [items_of_direct ((is_direct_setItems buf).trans hd), setItems, if_pos hd]
  | false =>
    rw [items_of_indirect ((is_direct_setItems buf).trans hd), setItems, if_neg (ne_true_of_eq_false hd)]

theorem Wf.setItems (hv : v.Wf) (buf : List T) (hbuf : buf.length = v.items.length) : (v.setItems buf).Wf := by
  cases hd : v.is_direct with
  | true =>
    rw [prevector.setItems, if_pos hd]
    refine ⟨?_, fun h => absurd (h.symm.trans hd) Bool.false_ne_true⟩
    rw [hbuf, items_of_direct hd, hv.direct_length]
  | false =>
    rw [prevector.setItems, if_neg (ne_true_of_eq_false hd)]
    obtain ⟨hN, hs, hlen⟩ := hv.indirect hd
    refine ⟨hv.direct_length, fun _ => ⟨hN, hs, ?_⟩⟩
    rw [hbuf, items_of_indirect hd, hlen]

/-! Setting `_size` to the encoding of a count within the capacity, in the same mode. -/

section SetSize

variable {m s : ℕ} (hm : m ≤ v.capacity) (hs : s = if v.is_direct then m else m + N + 1)
include hm hs

theorem is_direct_setSize : ({ v with _size := s } : prevector N T).is_direct = v.is_direct := by
  cases hd : v.is_direct with
  | true =>
    rw [if_pos hd] at hs
    rw [capacity_of_direct hd] at hm
    exact is_direct_iff.2 (hs ▸ hm)
  | false =>
    rw [if_neg (ne_true_of_eq_false hd)] at hs
    exact not_is_direct_iff.2 (by show N < s; omega)

theorem size_setSize : ({ v with _size := s } : prevector N T).size = m := by
  have hd := is_direct_setSize hm hs
  cases hd' : v.is_direct with
  | true =>
    rw [size_of_direct (hd.trans hd'), show s = m by rw [hs, if_pos hd']]
  | false =>
    rw [size_of_indirect (hd.trans hd')]
    rw [if_neg (ne_true_of_eq_false hd')] at hs
    show s - N - 1 = m
    omega

theorem capacity_setSize : ({ v with _size := s } : prevector N T).capacity = v.capacity := by
  rw [capacity, capacity, is_direct_setSize hm hs]

theorem items_setSize : ({ v with _size := s } : prevector N T).items = v.items := by
  rw [items, items, is_direct_setSize hm hs]

theorem Wf.setSize (hv : v.Wf) : ({ v with _size := s } : prevector N T).Wf := by
  refine ⟨hv.direct_length, fun hd => ?_⟩
  have hd' := (is_direct_setSize hm hs).symm.trans hd
  obtain ⟨hN, _, hlen⟩ := hv.indirect hd'
  refine ⟨hN, ?_, hlen⟩
  have := size_setSize hm hs
  rw [size_of_indirect hd] at this
  dsimp only at this
  rw [capacity_of_indirect hd'] at hm
  show s - N - 1 ≤ v._union_capacity
  omega

end SetSize

/-- A store through `item_ptr` followed by a new `_size`: the buffer and the count both
change. -/
theorem spec_setSize_setItems (hv : v.Wf) (buf : List T) {m s : ℕ} (hbuf : buf.length = v.items.length)
    (hm : m ≤ v.capacity) (hs : s = if v.is_direct then m else m + N + 1) :
    ({ v.setItems buf with _size := s } : prevector N T).Wf ∧
      ({ v.setItems buf with _size := s } : prevector N T).size = m ∧
      ({ v.setItems buf with _size := s } : prevector N T).items = buf := by
  have hw := hv.setItems buf hbuf
  rw [← capacity_setItems buf] at hm
  rw [← is_direct_setItems buf] at hs
  exact ⟨hw.setSize hm hs, size_setSize hm hs, by rw [items_setSize hm hs, items_setItems]⟩

/-- A prevector in direct mode, with the inline buffer's `N` slots. -/
theorem spec_of_direct (h : v._size ≤ N) (hl : v._union_direct.length = N) :
    v.Wf ∧ v.toList = v._union_direct.take v._size ∧ v.capacity = N := by
  have hd := is_direct_iff.2 h
  refine ⟨⟨hl, fun h' => absurd (h'.symm.trans hd) Bool.false_ne_true⟩, ?_, capacity_of_direct hd⟩
  rw [toList, items_of_direct hd, size_of_direct hd]

/-- A prevector in indirect mode, with its elements within the heap buffer's slots. -/
theorem spec_of_indirect (h : N < v._size) (hl : v._union_direct.length = N) (hN : N < v._union_capacity)
    (hs : v._size - N - 1 ≤ v._union_capacity) (hi : v._union_indirect.length = v._union_capacity) :
    v.Wf ∧ v.toList = v._union_indirect.take (v._size - N - 1) ∧ v.capacity = v._union_capacity := by
  have hd := not_is_direct_iff.2 h
  refine ⟨⟨hl, fun _ => ⟨hN, hs, hi⟩⟩, ?_, capacity_of_indirect hd⟩
  rw [toList, items_of_indirect hd, size_of_indirect hd]

end Representation

variable [Inhabited T]

/-- `operator[]`. -/
def get (v : prevector N T) (pos : ℕ) : T :=
  v.items.getD pos default

/-- `prevector()`: `_size(0)`, and `_union{{}}` clears the inline buffer. -/
def empty : prevector N T :=
  ⟨0, List.replicate N default, 0, []⟩

/-- `change_capacity`: to the inline buffer when `new_capacity <= N`, else to a heap
buffer of `new_capacity` slots, by `realloc` when already there. -/
def change_capacity (v : prevector N T) (new_capacity : ℕ) : prevector N T :=
  if new_capacity ≤ N then
    if !v.is_direct then
      { v with _union_direct := Buffer.memcpy v._union_direct v._union_indirect v.size,
               _size := v._size - (N + 1) }
    else v
  else if !v.is_direct then
    { v with _union_indirect := Buffer.realloc v._union_indirect new_capacity,
             _union_capacity := new_capacity }
  else
    { v with _union_indirect := Buffer.memcpy (Buffer.malloc new_capacity) v._union_direct v.size,
             _union_capacity := new_capacity,
             _size := wrapSize (v._size + (N + 1)) }

/-- The loop of `resize`, `assign` and the copies: for each element, `_size++`, then the
element is constructed at `item_ptr(size() - 1)`. -/
def appendLoop (v : prevector N T) : List T → prevector N T
  | [] => v
  | x :: xs =>
    let v := { v with _size := wrapSize (v._size + 1) }
    (v.setItems (v.items.set (v.size - 1) x)).appendLoop xs

/-- The growth step of `push_back` and `insert`: when `new_size` elements do not fit, the
capacity becomes half as much again, as a `Size`. -/
def growFor (v : prevector N T) (new_size : ℕ) : prevector N T :=
  if v.capacity < new_size then v.change_capacity (wrapSize (new_size + (new_size >>> 1))) else v

/-- `erase(first, last)`, with iterators as positions. Both branches of the source lower
`_size` by `last - first`; the `memmove` goes through pointers taken before, into the
buffer of the mode the call started in. -/
def eraseRange (v : prevector N T) (first last : ℕ) : prevector N T :=
  let endp := v.size
  { v.setItems (Buffer.memmove v.items first last (endp - last)) with _size := v._size - (last - first) }

/-- `erase(pos)`. -/
def erase (v : prevector N T) (pos : ℕ) : prevector N T :=
  v.eraseRange pos (pos + 1)

/-- `push_back(value)`. -/
def push_back (v : prevector N T) (value : T) : prevector N T :=
  let new_size := wrapSize (v.size + 1)
  let v := v.growFor new_size
  let v := v.setItems (v.items.set v.size value)
  { v with _size := wrapSize (v._size + 1) }

/-- `pop_back()`: `erase(end() - 1, end())`. -/
def pop_back (v : prevector N T) : prevector N T :=
  v.eraseRange (v.size - 1) v.size

/-- `insert(pos, first, last)`: the elements from `p` on are moved up by the range's
length, then the range is constructed from `p` on. -/
def insertRange (v : prevector N T) (p : ℕ) (xs : List T) : prevector N T :=
  let count := xs.length
  let new_size := wrapSize (v.size + count)
  let v := v.growFor new_size
  let v := v.setItems (Buffer.memmove v.items (p + count) p (v.size - p))
  let v := { v with _size := wrapSize (v._size + count) }
  v.setItems (Buffer.construct v.items p xs)

/-- `insert(pos, value)`. -/
def insert (v : prevector N T) (p : ℕ) (value : T) : prevector N T :=
  v.insertRange p [value]

/-- `insert(pos, count, value)`. -/
def insertCount (v : prevector N T) (p count : ℕ) (value : T) : prevector N T :=
  v.insertRange p (List.replicate count value)

/-- `resize(new_size)`: the elements from `new_size` on are erased, the capacity raised to
`new_size` if short, and value-initialised elements appended. -/
def resize (v : prevector N T) (new_size : ℕ) : prevector N T :=
  let v := if v.size > new_size then v.eraseRange new_size v.size else v
  let v := if new_size > v.capacity then v.change_capacity new_size else v
  v.appendLoop (List.replicate (new_size - v.size) default)

/-- `reserve(new_capacity)`. -/
def reserve (v : prevector N T) (new_capacity : ℕ) : prevector N T :=
  if new_capacity > v.capacity then v.change_capacity new_capacity else v

/-- `shrink_to_fit()`. -/
def shrink_to_fit (v : prevector N T) : prevector N T :=
  v.change_capacity v.size

/-- `clear()`. -/
def clear (v : prevector N T) : prevector N T :=
  v.resize 0

/-- `assign(first, last)`. -/
def assignRange (v : prevector N T) (xs : List T) : prevector N T :=
  let n := xs.length
  let v := v.clear
  let v := if v.capacity < n then v.change_capacity n else v
  v.appendLoop xs

/-- `assign(n, val)`. -/
def assign (v : prevector N T) (n : ℕ) (val : T) : prevector N T :=
  v.assignRange (List.replicate n val)

/-- The copy constructor `prevector(other)`: from `_size(0)`, capacity for `other.size()`
elements, then `other`'s elements appended. The inline buffer of the new object is
modelled by `empty`'s. -/
def copy (other : prevector N T) : prevector N T :=
  (empty.change_capacity other.size).appendLoop other.toList

/-- Copy assignment `*this = other`, for `other` another object. -/
def assignCopy (v other : prevector N T) : prevector N T :=
  ((v.resize 0).change_capacity other.size).appendLoop other.toList

/-- `swap(other)`: `std::swap` of `_union` and of `_size`, all of the two objects' state. -/
def swap (v other : prevector N T) : prevector N T × prevector N T :=
  (other, v)

/-! ## The operations on the list of elements -/

section Operations

variable {v : prevector N T}

/-- `change_capacity` to at least the elements keeps them, in a buffer of `max N c` slots. -/
theorem change_capacity_spec (hN : N < 2 ^ 31) (hv : v.Wf) {c : ℕ} (hc : v.size ≤ c) :
    (v.change_capacity c).Wf ∧ (v.change_capacity c).toList = v.toList ∧
      (v.change_capacity c).capacity = max N c := by
  unfold change_capacity
  have hl := hv.direct_length
  by_cases hcN : c ≤ N
  · rw [if_pos hcN, Nat.max_eq_left hcN]
    cases hd : v.is_direct with
    | true =>
      rw [Bool.not_true, if_neg Bool.false_ne_true]
      exact ⟨hv, rfl, capacity_of_direct hd⟩
    | false =>
      -- back to the inline buffer: the elements are copied down from the heap
      simp only [Bool.not_false, ↓reduceIte]
      obtain ⟨_, _, hi⟩ := hv.indirect hd
      have hsize := size_of_indirect hd
      have hdN := not_is_direct_iff.1 hd
      have hcap := hv.size_le_capacity
      rw [capacity_of_indirect hd] at hcap
      generalize hw : ({ v with _union_direct := Buffer.memcpy v._union_direct v._union_indirect v.size,
                                _size := v._size - (N + 1) } : prevector N T) = w
      have hws : w._size = v.size := by rw [← hw, hsize]; dsimp only; omega
      have hwl : w._union_direct.length = N := by
        rw [← hw]
        exact (Buffer.length_memcpy (by omega) (by omega)).trans hl
      obtain ⟨hwf, hwt, hwc⟩ := spec_of_direct (by omega) hwl
      refine ⟨hwf, ?_, hwc⟩
      rw [hwt, hws, toList, items_of_indirect hd, ← hw]
      exact Buffer.take_memcpy (by omega)
  · rw [if_neg hcN, Nat.max_eq_right (by omega)]
    have hcN' : N < c := by omega
    cases hd : v.is_direct with
    | true =>
      -- out to a new heap buffer
      simp only [Bool.not_true, Bool.false_eq_true, ↓reduceIte]
      have hsize := size_of_direct hd
      have hdN := is_direct_iff.1 hd
      generalize hw : ({ v with _union_indirect := Buffer.memcpy (Buffer.malloc c) v._union_direct v.size,
                                _union_capacity := c, _size := wrapSize (v._size + (N + 1)) } : prevector N T) = w
      have hws : w._size = v.size + (N + 1) := by
        rw [← hw, hsize]
        exact wrapSize_of_lt (by omega)
      have hwc : w._union_capacity = c := by rw [← hw]
      have hwi : w._union_indirect.length = c := by
        rw [← hw]
        exact (Buffer.length_memcpy (by omega) (by rw [Buffer.length_malloc]; omega)).trans (Buffer.length_malloc c)
      obtain ⟨hwf, hwt, hwcap⟩ := spec_of_indirect (by omega) (by rw [← hw]; exact hl) (by omega) (by omega)
        (hwi.trans hwc.symm)
      refine ⟨hwf, ?_, hwcap.trans hwc⟩
      rw [hwt, show w._size - N - 1 = v.size by omega, toList, items_of_direct hd, ← hw]
      exact Buffer.take_memcpy (by omega)
    | false =>
      -- to a heap buffer of another size, by realloc
      simp only [Bool.not_false, ↓reduceIte]
      obtain ⟨_, hsc, hi⟩ := hv.indirect hd
      have hsize := size_of_indirect hd
      have hdN := not_is_direct_iff.1 hd
      generalize hw : ({ v with _union_indirect := Buffer.realloc v._union_indirect c,
                                _union_capacity := c } : prevector N T) = w
      have hws : w._size = v._size := by rw [← hw]
      have hwc : w._union_capacity = c := by rw [← hw]
      have hwi : w._union_indirect.length = c := by rw [← hw]; exact Buffer.length_realloc _ c
      obtain ⟨hwf, hwt, hwcap⟩ := spec_of_indirect (by omega) (by rw [← hw]; exact hl) (by omega) (by omega)
        (hwi.trans hwc.symm)
      refine ⟨hwf, ?_, hwcap.trans hwc⟩
      rw [hwt, hws, ← hsize, toList, items_of_indirect hd, ← hw]
      exact Buffer.take_realloc hc (by omega)

/-- After the growth step there is room for `new_size` elements, when half as much again
is a `Size`. -/
theorem growFor_spec (hN : N < 2 ^ 31) (hv : v.Wf) {new_size : ℕ} (hn : v.size ≤ new_size)
    (hfit : new_size < 2 ^ 31) :
    (v.growFor new_size).Wf ∧ (v.growFor new_size).toList = v.toList ∧
      new_size ≤ (v.growFor new_size).capacity := by
  unfold growFor
  split
  · have hgrow : wrapSize (new_size + (new_size >>> 1)) = new_size + new_size / 2 := by
      rw [Nat.shiftRight_eq_div_pow, Nat.pow_one]
      exact wrapSize_of_lt (by omega)
    rw [hgrow]
    obtain ⟨hw, ht, hc⟩ := change_capacity_spec hN hv (Nat.le_trans hn (Nat.le_add_right _ _))
    exact ⟨hw, ht, hc ▸ Nat.le_trans (Nat.le_add_right _ _) (Nat.le_max_right _ _)⟩
  · exact ⟨hv, rfl, by omega⟩

/-- `reserve(new_capacity)` keeps the elements and leaves room for `new_capacity`. -/
theorem reserve_spec (hN : N < 2 ^ 31) (hv : v.Wf) (new_capacity : ℕ) :
    (v.reserve new_capacity).Wf ∧ (v.reserve new_capacity).toList = v.toList ∧
      new_capacity ≤ (v.reserve new_capacity).capacity := by
  unfold reserve
  split
  · next h =>
    obtain ⟨hw, ht, hc⟩ := change_capacity_spec hN hv (Nat.le_of_lt (Nat.lt_of_le_of_lt hv.size_le_capacity h))
    exact ⟨hw, ht, hc ▸ Nat.le_max_right _ _⟩
  · exact ⟨hv, rfl, by omega⟩

/-- `shrink_to_fit()` keeps the elements. -/
theorem shrink_to_fit_spec (hN : N < 2 ^ 31) (hv : v.Wf) :
    v.shrink_to_fit.Wf ∧ v.shrink_to_fit.toList = v.toList :=
  (change_capacity_spec hN hv (Nat.le_refl _)).imp_right And.left

omit [Inhabited T] in
/-- The append loop follows the elements with `xs` when they fit. -/
theorem appendLoop_spec (hN : N < 2 ^ 31) (hv : v.Wf) (xs : List T) (hxs : v.size + xs.length ≤ v.capacity)
    (hfit : v.size + xs.length < 2 ^ 31) :
    (v.appendLoop xs).Wf ∧ (v.appendLoop xs).toList = v.toList ++ xs ∧
      (v.appendLoop xs).capacity = v.capacity := by
  induction xs generalizing v with
  | nil => exact ⟨hv, (List.append_nil _).symm, rfl⟩
  | cons x xs ih =>
    rw [List.length_cons] at hxs hfit
    have hm : v.size + 1 ≤ v.capacity := by omega
    have hs := wrapSize_add hN (v := v) (k := 1) (by omega)
    -- `_size++` counts one more slot, in which `x` is then constructed
    rw [appendLoop]
    generalize hw : ({ v with _size := wrapSize (v._size + 1) } : prevector N T) = w
    have hwf : w.Wf := hw ▸ hv.setSize hm hs
    have hws : w.size = v.size + 1 := hw ▸ size_setSize hm hs
    have hwi : w.items = v.items := hw ▸ items_setSize hm hs
    have hwc : w.capacity = v.capacity := hw ▸ capacity_setSize hm hs
    rw [hws, Nat.add_sub_cancel, hwi]
    have hlen : (v.items.set v.size x).length = w.items.length := by rw [List.length_set, hwi]
    obtain ⟨hf, ht, hc⟩ := ih (hwf.setItems _ hlen) (by rw [size_setItems, capacity_setItems, hws, hwc]; omega)
      (by rw [size_setItems, hws]; omega)
    refine ⟨hf, ?_, by rw [hc, capacity_setItems, hwc]⟩
    rw [ht, toList, items_setItems, size_setItems, hws,
      Buffer.take_set_succ x (by rw [hv.length_items]; omega), ← toList, List.append_assoc, List.singleton_append]

omit [Inhabited T] in
/-- `erase(first, last)` removes the elements from `first` up to `last`. -/
theorem eraseRange_spec (hv : v.Wf) {first last : ℕ} (hfl : first ≤ last) (hl : last ≤ v.size) :
    (v.eraseRange first last).Wf ∧
      (v.eraseRange first last).toList = v.toList.take first ++ v.toList.drop last := by
  have hcap := hv.size_le_capacity
  have hlen := hv.length_items
  have hbuf : (Buffer.memmove v.items first last (v.size - last)).length = v.items.length :=
    Buffer.length_memmove (by omega) (by omega)
  obtain ⟨hw, hs, hi⟩ := spec_setSize_setItems hv _ hbuf (show v.size - (last - first) ≤ v.capacity by omega)
    (_size_sub (show last - first ≤ v.size by omega))
  refine ⟨hw, ?_⟩
  rw [eraseRange]
  rw [toList, hs, hi, toList]
  exact Buffer.take_memmove_erase hfl hl (by omega)

omit [Inhabited T] in
/-- `erase(pos)` removes the element at `pos`. -/
theorem erase_spec (hv : v.Wf) {pos : ℕ} (hpos : pos < v.size) :
    (v.erase pos).Wf ∧ (v.erase pos).toList = v.toList.eraseIdx pos := by
  rw [List.eraseIdx_eq_take_drop_succ]
  exact eraseRange_spec hv (Nat.le_succ pos) hpos

omit [Inhabited T] in
/-- `pop_back()` removes the last element. -/
theorem pop_back_spec (hv : v.Wf) : v.pop_back.Wf ∧ v.pop_back.toList = v.toList.dropLast := by
  obtain ⟨hw, ht⟩ := eraseRange_spec hv (Nat.sub_le v.size 1) (Nat.le_refl _)
  refine ⟨hw, ?_⟩
  rw [pop_back, ht, List.drop_eq_nil_of_le (Nat.le_of_eq hv.length_toList), List.append_nil, List.dropLast_eq_take,
    hv.length_toList]

/-- `push_back(value)` appends `value`. -/
theorem push_back_spec (hN : N < 2 ^ 31) (hv : v.Wf) (value : T) (hfit : v.size + 1 < 2 ^ 31) :
    (v.push_back value).Wf ∧ (v.push_back value).toList = v.toList ++ [value] := by
  obtain ⟨hu, hut, hucap⟩ := growFor_spec hN hv (Nat.le_succ v.size) hfit
  rw [push_back, wrapSize_of_lt (show v.size + 1 < 2 ^ 32 by omega)]
  generalize v.growFor (v.size + 1) = u at hu hut hucap ⊢
  have husize : u.size = v.size := by rw [← hu.length_toList, hut, hv.length_toList]
  have hlen : (u.items.set u.size value).length = u.items.length := List.length_set
  obtain ⟨hw, hs, hi⟩ := spec_setSize_setItems hu _ hlen (show u.size + 1 ≤ u.capacity by omega)
    (show wrapSize ((u.setItems (u.items.set u.size value))._size + 1) = _ by
      rw [_size_setItems]; exact wrapSize_add hN (by omega))
  refine ⟨hw, ?_⟩
  rw [toList, hs, hi, Buffer.take_set_succ value (by rw [hu.length_items]; omega), ← toList, hut]

/-- `insert(pos, first, last)` inserts the range's elements at `p`. -/
theorem insertRange_spec (hN : N < 2 ^ 31) (hv : v.Wf) {p : ℕ} (hp : p ≤ v.size) (xs : List T)
    (hfit : v.size + xs.length < 2 ^ 31) :
    (v.insertRange p xs).Wf ∧ (v.insertRange p xs).toList = v.toList.take p ++ xs ++ v.toList.drop p := by
  obtain ⟨hu, hut, hucap⟩ := growFor_spec hN hv (Nat.le_add_right v.size xs.length) hfit
  rw [insertRange, wrapSize_of_lt (show v.size + xs.length < 2 ^ 32 by omega)]
  generalize v.growFor (v.size + xs.length) = u at hu hut hucap ⊢
  have husize : u.size = v.size := by rw [← hu.length_toList, hut, hv.length_toList]
  have hlen := hu.length_items
  -- the elements from `p` on move up by the range's length
  have hbuf : (Buffer.memmove u.items (p + xs.length) p (u.size - p)).length = u.items.length :=
    Buffer.length_memmove (by omega) (by omega)
  obtain ⟨hw, hs, hi⟩ := spec_setSize_setItems hu _ hbuf (show u.size + xs.length ≤ u.capacity by omega)
    (show wrapSize ((u.setItems (Buffer.memmove u.items (p + xs.length) p (u.size - p)))._size + xs.length) = _ by
      rw [_size_setItems]; exact wrapSize_add hN (by omega))
  generalize ({ u.setItems (Buffer.memmove u.items (p + xs.length) p (u.size - p)) with
                _size := wrapSize ((u.setItems (Buffer.memmove u.items (p + xs.length) p (u.size - p)))._size +
                  xs.length) } : prevector N T) = z at hw hs hi ⊢
  -- then the range is constructed in the slots made free
  refine ⟨hw.setItems _ (by rw [Buffer.length_construct]), ?_⟩
  rw [toList, items_setItems, size_setItems, hs, hi, Buffer.take_construct_memmove (by omega) (by omega), ← toList,
    hut]

/-- `insert(pos, value)` inserts `value` at `p`. -/
theorem insert_spec (hN : N < 2 ^ 31) (hv : v.Wf) {p : ℕ} (hp : p ≤ v.size) (value : T)
    (hfit : v.size + 1 < 2 ^ 31) :
    (v.insert p value).Wf ∧ (v.insert p value).toList = v.toList.take p ++ value :: v.toList.drop p := by
  rw [← List.singleton_append, ← List.append_assoc]
  exact insertRange_spec hN hv hp [value] hfit

/-- `insert(pos, count, value)` inserts `count` copies of `value` at `p`. -/
theorem insertCount_spec (hN : N < 2 ^ 31) (hv : v.Wf) {p : ℕ} (hp : p ≤ v.size) (count : ℕ) (value : T)
    (hfit : v.size + count < 2 ^ 31) :
    (v.insertCount p count value).Wf ∧
      (v.insertCount p count value).toList = v.toList.take p ++ List.replicate count value ++ v.toList.drop p :=
  insertRange_spec hN hv hp (List.replicate count value) (by rw [List.length_replicate]; exact hfit)

/-- `resize(new_size)` keeps the first `new_size` elements and appends value-initialised
ones up to `new_size`. -/
theorem resize_spec (hN : N < 2 ^ 31) (hv : v.Wf) (new_size : ℕ) (hfit : new_size < 2 ^ 31) :
    (v.resize new_size).Wf ∧
      (v.resize new_size).toList = v.toList.take new_size ++ List.replicate (new_size - v.toList.length) default := by
  -- the elements from `new_size` on are erased
  have herase : (if v.size > new_size then v.eraseRange new_size v.size else v).Wf ∧
      (if v.size > new_size then v.eraseRange new_size v.size else v).toList = v.toList.take new_size := by
    split
    · next h =>
      obtain ⟨hw, ht⟩ := eraseRange_spec hv (Nat.le_of_lt h) (Nat.le_refl _)
      rw [ht, List.drop_eq_nil_of_le (Nat.le_of_eq hv.length_toList), List.append_nil]
      exact ⟨hw, rfl⟩
    · next h => exact ⟨hv, (List.take_of_length_le (by rw [hv.length_toList]; omega)).symm⟩
  rw [resize]
  generalize (if v.size > new_size then v.eraseRange new_size v.size else v) = u at herase ⊢
  obtain ⟨hu, hut⟩ := herase
  -- the second step is `reserve(new_size)`
  rw [show (if new_size > u.capacity then u.change_capacity new_size else u) = u.reserve new_size from rfl]
  obtain ⟨hw, hwt, hwc⟩ := reserve_spec hN hu new_size
  generalize u.reserve new_size = w at hw hwt hwc ⊢
  have hws : w.size = min new_size v.size := by
    rw [← hw.length_toList, hwt, hut, List.length_take, hv.length_toList]
  obtain ⟨hf, ht, _⟩ := appendLoop_spec hN hw (List.replicate (new_size - w.size) default)
    (by rw [List.length_replicate]; omega) (by rw [List.length_replicate]; omega)
  refine ⟨hf, ?_⟩
  rw [ht, hwt, hut, hv.length_toList, hws]
  congr 2
  omega

/-- `clear()` leaves no element. -/
theorem clear_spec (hN : N < 2 ^ 31) (hv : v.Wf) : v.clear.Wf ∧ v.clear.toList = [] := by
  obtain ⟨hw, ht⟩ := resize_spec hN hv 0 (Nat.two_pow_pos 31)
  exact ⟨hw, by rw [clear, ht, List.take_zero, Nat.zero_sub, List.replicate_zero, List.append_nil]⟩

/-- Capacity for the elements of a well-formed `other`, then `other`'s elements appended:
the tail of the copies, on a prevector without elements. -/
theorem appendLoop_change_capacity_spec (hN : N < 2 ^ 31) (hv : v.Wf) (hnil : v.toList = [])
    {other : prevector N T} (hother : other.Wf) (hfit : other.size < 2 ^ 31) :
    ((v.change_capacity other.size).appendLoop other.toList).Wf ∧
      ((v.change_capacity other.size).appendLoop other.toList).toList = other.toList := by
  have hsize : v.size = 0 := by rw [← hv.length_toList, hnil, List.length_nil]
  obtain ⟨hw, hwt, hwc⟩ := change_capacity_spec hN hv (show v.size ≤ other.size by omega)
  have hws : (v.change_capacity other.size).size = 0 := by rw [← hw.length_toList, hwt, hnil, List.length_nil]
  obtain ⟨hf, ht, _⟩ := appendLoop_spec hN hw other.toList
    (by rw [hws, hother.length_toList, hwc]; exact Nat.le_trans (Nat.le_of_eq (Nat.zero_add _)) (Nat.le_max_right _ _))
    (by rw [hws, hother.length_toList]; omega)
  exact ⟨hf, by rw [ht, hwt, hnil, List.nil_append]⟩

/-- `assign(first, last)` replaces the elements with the range's. -/
theorem assignRange_spec (hN : N < 2 ^ 31) (hv : v.Wf) (xs : List T) (hfit : xs.length < 2 ^ 31) :
    (v.assignRange xs).Wf ∧ (v.assignRange xs).toList = xs := by
  obtain ⟨hc, hct⟩ := clear_spec hN hv
  -- the second step is `reserve(n)`
  obtain ⟨hw, hwt, hwc⟩ := reserve_spec hN hc xs.length
  have hws : (v.clear.reserve xs.length).size = 0 := by rw [← hw.length_toList, hwt, hct, List.length_nil]
  obtain ⟨hf, ht, _⟩ := appendLoop_spec hN hw xs (by rw [hws, Nat.zero_add]; exact hwc)
    (by rw [hws, Nat.zero_add]; exact hfit)
  have hres : (if v.clear.capacity < xs.length then v.clear.change_capacity xs.length else v.clear) =
      v.clear.reserve xs.length := rfl
  rw [assignRange]
  exact ⟨hres ▸ hf, by rw [hres, ht, hwt, hct, List.nil_append]⟩

/-- `assign(n, val)` replaces the elements with `n` copies of `val`. -/
theorem assign_spec (hN : N < 2 ^ 31) (hv : v.Wf) (n : ℕ) (val : T) (hfit : n < 2 ^ 31) :
    (v.assign n val).Wf ∧ (v.assign n val).toList = List.replicate n val :=
  assignRange_spec hN hv (List.replicate n val) (by rw [List.length_replicate]; exact hfit)

/-- The empty prevector is well formed and holds no element. -/
theorem empty_spec : (empty : prevector N T).Wf ∧ (empty : prevector N T).toList = [] := by
  obtain ⟨hw, ht, _⟩ := spec_of_direct (v := (empty : prevector N T)) (Nat.zero_le N) (List.length_replicate ..)
  exact ⟨hw, by rw [ht]; rfl⟩

/-- The copy constructor gives a prevector with `other`'s elements. -/
theorem copy_spec (hN : N < 2 ^ 31) {other : prevector N T} (hother : other.Wf) (hfit : other.size < 2 ^ 31) :
    (copy other).Wf ∧ (copy other).toList = other.toList :=
  appendLoop_change_capacity_spec hN empty_spec.1 empty_spec.2 hother hfit

/-- Copy assignment replaces the elements with `other`'s. -/
theorem assignCopy_spec (hN : N < 2 ^ 31) (hv : v.Wf) {other : prevector N T} (hother : other.Wf)
    (hfit : other.size < 2 ^ 31) :
    (v.assignCopy other).Wf ∧ (v.assignCopy other).toList = other.toList := by
  obtain ⟨hw, ht⟩ := resize_spec hN hv 0 (Nat.two_pow_pos 31)
  rw [List.take_zero, Nat.zero_sub, List.replicate_zero, List.append_nil] at ht
  exact appendLoop_change_capacity_spec hN hw ht hother hfit

end Operations

end prevector

/-! ## Programs over a store of vectors -/

/-- A call on the vectors of a store: `i` is the vector called, `j` the other vector of
`swap`, the copies and the moves. Construction puts the new object in place of `i`. -/
inductive VectorOp (T : Type) where
  | push_back (i : ℕ) (value : T)
  | pop_back (i : ℕ)
  | insert (i pos : ℕ) (value : T)
  | insertCount (i pos count : ℕ) (value : T)
  | insertRange (i pos : ℕ) (xs : List T)
  | erase (i pos : ℕ)
  | eraseRange (i first last : ℕ)
  | resize (i new_size : ℕ)
  | reserve (i new_capacity : ℕ)
  | shrink_to_fit (i : ℕ)
  | assign (i n : ℕ) (val : T)
  | assignRange (i : ℕ) (xs : List T)
  | clear (i : ℕ)
  | swap (i j : ℕ)
  | copyConstruct (i j : ℕ)
  | moveConstruct (i j : ℕ)
  | copyAssign (i j : ℕ)
  | moveAssign (i j : ℕ)
  deriving Repr

namespace VectorOp

open Function (update)

variable {T : Type}

/-- The preconditions of a call on the elements `l` of the vectors: an element to pop,
and positions within the vector. -/
def Valid : VectorOp T → (ℕ → List T) → Prop
  | pop_back i, l => 0 < (l i).length
  | insert i pos _, l | insertCount i pos _ _, l | insertRange i pos _, l => pos ≤ (l i).length
  | erase i pos, l => pos < (l i).length
  | eraseRange i first last, l => first ≤ last ∧ last ≤ (l i).length
  | _, _ => True

instance (op : VectorOp T) (l : ℕ → List T) : Decidable (op.Valid l) :=
  match op with
  | pop_back i => inferInstanceAs (Decidable (0 < (l i).length))
  | insert i pos _ => inferInstanceAs (Decidable (pos ≤ (l i).length))
  | insertCount i pos _ _ => inferInstanceAs (Decidable (pos ≤ (l i).length))
  | insertRange i pos _ => inferInstanceAs (Decidable (pos ≤ (l i).length))
  | erase i pos => inferInstanceAs (Decidable (pos < (l i).length))
  | eraseRange i first last => inferInstanceAs (Decidable (first ≤ last ∧ last ≤ (l i).length))
  | push_back .. | resize .. | reserve .. | shrink_to_fit .. | assign .. | assignRange .. | clear ..
  | swap .. | copyConstruct .. | moveConstruct .. | copyAssign .. | moveAssign .. => isTrue trivial

/-- The calls that leave fewer than `2 ^ 31` elements in the vector they write: below that,
no `Size` sum of the source wraps and every position is a `Diff`. -/
def Fits : VectorOp T → (ℕ → List T) → Prop
  | push_back i _, l | insert i _ _, l => (l i).length + 1 < 2 ^ 31
  | insertCount i _ count _, l => (l i).length + count < 2 ^ 31
  | insertRange i _ xs, l => (l i).length + xs.length < 2 ^ 31
  | resize _ n, _ | assign _ n _, _ => n < 2 ^ 31
  | assignRange _ xs, _ => xs.length < 2 ^ 31
  | copyConstruct _ j, l | copyAssign _ j, l => (l j).length < 2 ^ 31
  | _, _ => True

instance (op : VectorOp T) (l : ℕ → List T) : Decidable (op.Fits l) :=
  match op with
  | push_back i _ => inferInstanceAs (Decidable ((l i).length + 1 < 2 ^ 31))
  | insert i _ _ => inferInstanceAs (Decidable ((l i).length + 1 < 2 ^ 31))
  | insertCount i _ count _ => inferInstanceAs (Decidable ((l i).length + count < 2 ^ 31))
  | insertRange i _ xs => inferInstanceAs (Decidable ((l i).length + xs.length < 2 ^ 31))
  | resize _ n => inferInstanceAs (Decidable (n < 2 ^ 31))
  | assign _ n _ => inferInstanceAs (Decidable (n < 2 ^ 31))
  | assignRange _ xs => inferInstanceAs (Decidable (xs.length < 2 ^ 31))
  | copyConstruct _ j => inferInstanceAs (Decidable ((l j).length < 2 ^ 31))
  | copyAssign _ j => inferInstanceAs (Decidable ((l j).length < 2 ^ 31))
  | pop_back .. | erase .. | eraseRange .. | reserve .. | shrink_to_fit .. | clear .. | swap ..
  | moveConstruct .. | moveAssign .. => isTrue trivial

variable [Inhabited T]

/-- `std::vector<T>`: the elements of each vector after the call. -/
def vectorExec : VectorOp T → (ℕ → List T) → (ℕ → List T)
  | push_back i value, l => update l i (l i ++ [value])
  | pop_back i, l => update l i (l i).dropLast
  | insert i pos value, l => update l i ((l i).take pos ++ value :: (l i).drop pos)
  | insertCount i pos count value, l =>
    update l i ((l i).take pos ++ List.replicate count value ++ (l i).drop pos)
  | insertRange i pos xs, l => update l i ((l i).take pos ++ xs ++ (l i).drop pos)
  | erase i pos, l => update l i ((l i).eraseIdx pos)
  | eraseRange i first last, l => update l i ((l i).take first ++ (l i).drop last)
  | resize i n, l => update l i ((l i).take n ++ List.replicate (n - (l i).length) default)
  | reserve _ _, l => l
  | shrink_to_fit _, l => l
  | assign i n val, l => update l i (List.replicate n val)
  | assignRange i xs, l => update l i xs
  | clear i, l => update l i []
  | swap i j, l => update (update l i (l j)) j (l i)
  | copyConstruct i j, l => update l i (l j)
  | moveConstruct i j, l => update (update l j []) i (l j)
  | copyAssign i j, l => update l i (l j)
  | moveAssign i j, l => update l i (l j)

/-- A call of `std::vector<T>` takes the elements `l` to `l'`. A move-assigned vector is
left valid but unspecified: it may hold any elements after. -/
def VectorStep (op : VectorOp T) (l l' : ℕ → List T) : Prop :=
  match op with
  | moveAssign _ j => ∀ k, k ≠ j → l' k = op.vectorExec l k
  | _ => l' = op.vectorExec l

variable {N : ℕ}

/-- The call on a store of prevectors. -/
def exec : VectorOp T → (ℕ → prevector N T) → (ℕ → prevector N T)
  | push_back i value, s => update s i ((s i).push_back value)
  | pop_back i, s => update s i (s i).pop_back
  | insert i pos value, s => update s i ((s i).insert pos value)
  | insertCount i pos count value, s => update s i ((s i).insertCount pos count value)
  | insertRange i pos xs, s => update s i ((s i).insertRange pos xs)
  | erase i pos, s => update s i ((s i).erase pos)
  | eraseRange i first last, s => update s i ((s i).eraseRange first last)
  | resize i n, s => update s i ((s i).resize n)
  | reserve i n, s => update s i ((s i).reserve n)
  | shrink_to_fit i, s => update s i (s i).shrink_to_fit
  | assign i n val, s => update s i ((s i).assign n val)
  | assignRange i xs, s => update s i ((s i).assignRange xs)
  | clear i, s => update s i (s i).clear
  | swap i j, s =>
    let p := (s i).swap (s j)
    update (update s i p.1) j p.2
  | copyConstruct i j, s => update s i (prevector.copy (s j))
  | moveConstruct i j, s =>
    -- `prevector(other&&) : _size(0) { swap(other); }`
    let p := prevector.empty.swap (s j)
    update (update s j p.2) i p.1
  | copyAssign i j, s => if i = j then s else update s i ((s i).assignCopy (s j))
  | moveAssign i j, s =>
    -- `operator=(other&&)` is `swap(other)`
    let p := (s i).swap (s j)
    update (update s i p.1) j p.2

/-- The prevectors after the calls `ops`. -/
def run (ops : List (VectorOp T)) (s : ℕ → prevector N T) : ℕ → prevector N T :=
  ops.foldl (fun s op => op.exec s) s

/-- Each call of `ops` is made within its preconditions and leaves fewer than `2 ^ 31`
elements, on the elements the prevectors hold when it is made. -/
def CallsValid : List (VectorOp T) → (ℕ → prevector N T) → Prop
  | [], _ => True
  | op :: ops, s => op.Valid (fun k => (s k).toList) ∧ op.Fits (fun k => (s k).toList) ∧ CallsValid ops (op.exec s)

instance decidableCallsValid : (ops : List (VectorOp T)) → (s : ℕ → prevector N T) → Decidable (CallsValid ops s)
  | [], _ => isTrue trivial
  | op :: ops, s =>
    haveI := decidableCallsValid ops (op.exec s)
    inferInstanceAs (Decidable (op.Valid _ ∧ op.Fits _ ∧ CallsValid ops (op.exec s)))

theorem CallsValid.take {ops : List (VectorOp T)} {s : ℕ → prevector N T} (n : ℕ) (h : CallsValid ops s) :
    CallsValid (ops.take n) s := by
  induction ops generalizing s n with
  | nil => rw [List.take_nil]; trivial
  | cons op ops ih =>
    cases n with
    | zero => trivial
    | succ n => exact ⟨h.1, h.2.1, ih n h.2.2⟩

/-! ### Refinement -/

section Refinement

variable {s : ℕ → prevector N T}

omit [Inhabited T] in
theorem toList_update (s : ℕ → prevector N T) (i : ℕ) (x : prevector N T) :
    (fun k => (update s i x k).toList) = update (fun k => (s k).toList) i x.toList := by
  funext k
  exact Function.apply_update (fun _ v => prevector.toList v) s i x k

omit [Inhabited T] in
theorem wf_update (hs : ∀ k, (s k).Wf) {i : ℕ} {x : prevector N T} (hx : x.Wf) : ∀ k, (update s i x k).Wf := by
  intro k
  by_cases hk : k = i
  · rw [hk, Function.update_self]
    exact hx
  · rw [Function.update_of_ne hk]
    exact hs k

omit [Inhabited T] in
/-- A call on one prevector, against the same call on its vector. -/
theorem spec_update (hs : ∀ k, (s k).Wf) {i : ℕ} {x : prevector N T} {xs : List T} (hx : x.Wf ∧ x.toList = xs) :
    (∀ k, (update s i x k).Wf) ∧ (fun k => (update s i x k).toList) = update (fun k => (s k).toList) i xs := by
  refine ⟨wf_update hs hx.1, ?_⟩
  rw [toList_update, hx.2]

omit [Inhabited T] in
/-- `swap`: the two prevectors exchange their elements. -/
theorem spec_swap (hs : ∀ k, (s k).Wf) (i j : ℕ) :
    (∀ k, (update (update s i (s j)) j (s i) k).Wf) ∧
      (fun k => (update (update s i (s j)) j (s i) k).toList) =
        update (update (fun k => (s k).toList) i (s j).toList) j (s i).toList := by
  refine ⟨wf_update (wf_update hs (hs j)) (hs i), ?_⟩
  rw [toList_update, toList_update]

/-- One call: the prevectors stay well formed, and their elements change as the vectors'
do. -/
theorem exec_spec (hN : N < 2 ^ 31) (hs : ∀ k, (s k).Wf) {op : VectorOp T} (hop : op.Valid (fun k => (s k).toList))
    (hfit : op.Fits (fun k => (s k).toList)) :
    (∀ k, (op.exec s k).Wf) ∧ op.VectorStep (fun k => (s k).toList) (fun k => (op.exec s k).toList) := by
  cases op with
  | push_back i value =>
    exact spec_update hs (prevector.push_back_spec hN (hs i) value (by rw [← (hs i).length_toList]; exact hfit))
  | pop_back i => exact spec_update hs (prevector.pop_back_spec (hs i))
  | insert i pos value =>
    exact spec_update hs (prevector.insert_spec hN (hs i) (by rw [← (hs i).length_toList]; exact hop) value
      (by rw [← (hs i).length_toList]; exact hfit))
  | insertCount i pos count value =>
    exact spec_update hs (prevector.insertCount_spec hN (hs i) (by rw [← (hs i).length_toList]; exact hop) count
      value (by rw [← (hs i).length_toList]; exact hfit))
  | insertRange i pos xs =>
    exact spec_update hs (prevector.insertRange_spec hN (hs i) (by rw [← (hs i).length_toList]; exact hop) xs
      (by rw [← (hs i).length_toList]; exact hfit))
  | erase i pos => exact spec_update hs (prevector.erase_spec (hs i) (by rw [← (hs i).length_toList]; exact hop))
  | eraseRange i first last =>
    exact spec_update hs (prevector.eraseRange_spec (hs i) hop.1 (by rw [← (hs i).length_toList]; exact hop.2))
  | resize i n => exact spec_update hs (prevector.resize_spec hN (hs i) n hfit)
  | reserve i n =>
    -- the elements stay: the store of elements is unchanged
    obtain ⟨hw, ht⟩ := spec_update hs ((prevector.reserve_spec hN (hs i) n).imp_right And.left)
    exact ⟨hw, ht.trans (Function.update_eq_self i _)⟩
  | shrink_to_fit i =>
    obtain ⟨hw, ht⟩ := spec_update hs (prevector.shrink_to_fit_spec hN (hs i))
    exact ⟨hw, ht.trans (Function.update_eq_self i _)⟩
  | assign i n val => exact spec_update hs (prevector.assign_spec hN (hs i) n val hfit)
  | assignRange i xs => exact spec_update hs (prevector.assignRange_spec hN (hs i) xs hfit)
  | clear i => exact spec_update hs (prevector.clear_spec hN (hs i))
  | swap i j => exact spec_swap hs i j
  | copyConstruct i j =>
    exact spec_update hs (prevector.copy_spec hN (hs j) (by rw [← (hs j).length_toList]; exact hfit))
  | moveConstruct i j =>
    -- the source is left with `_size(0)`: no element
    have hj := spec_update hs (i := j) prevector.empty_spec
    obtain ⟨hw, ht⟩ := spec_update hj.1 (i := i) ⟨hs j, rfl⟩
    refine ⟨hw, ?_⟩
    show (fun k => (update (update s j prevector.empty) i (s j) k).toList) = _
    rw [ht, hj.2]
    rfl
  | copyAssign i j =>
    by_cases hij : i = j
    · -- self-assignment returns at once
      subst hij
      refine ⟨by simp only [exec]; exact hs, ?_⟩
      show (fun k => (exec (copyAssign i i) s k).toList) = update (fun k => (s k).toList) i (s i).toList
      simp only [exec]
      exact (Function.update_eq_self i _).symm
    · have h := spec_update hs (i := i)
        (prevector.assignCopy_spec hN (hs i) (hs j) (by rw [← (hs j).length_toList]; exact hfit))
      simp only [exec, if_neg hij]
      exact h
  | moveAssign i j =>
    -- the source takes the destination's elements, one of the values the standard allows
    obtain ⟨hw, ht⟩ := spec_swap hs i j
    refine ⟨hw, fun k hk => ?_⟩
    show (update (update s i (s j)) j (s i) k).toList = _
    rw [congrFun ht k, Function.update_of_ne hk]
    rfl

end Refinement

end VectorOp

end BitcoinPQ
