import BitcoinPQ.Models.Primitives.Transaction
import Mathlib.Data.List.GetD

/-!
# The cuckoo cache

`CuckooCache::cache` (`cuckoocache.h`) is the table behind the signature cache: `size`
slots of elements, each element with eight candidate slots `compute_hashes`. A slot
whose collection flag is set may be overwritten; `insert` first looks for its element
among the eight slots, then walks at most `depth_limit` steps, each time storing the
carried element in a discardable slot of its own or swapping it with the element of the
next of its slots. `contains` looks at the eight slots only.

`setup` fills the table with default elements, which sit wherever they were put, not at
their own slots: `SignatureCacheHasher` sends the zero `uint256` to slot `0` eight times,
while every slot holds it (`setup_default_off_its_locations`). What holds of every run is
`Stored`: each slot holds the default element, or an element passed to `insert` at one of
its own slots. So `contains` finds only inserted elements and the default one, and since
`contains` never writes the table, only an `insert` can make a found element disappear.

`setup` computes `depth_limit` as the base-two logarithm of the size in single precision;
the model takes it as given. The collection flags are one `Bool` a slot: the bit packing
of `bit_packed_atomic_flags` does not change which flag an index reads.
-/

namespace BitcoinPQ

open Wire

/-- The state of a `CuckooCache::cache`. -/
structure CuckooCache (Element : Type) where
  table : List Element
  size : ℕ
  collection_flags : List Bool
  epoch_flags : List Bool
  epoch_heuristic_counter : ℕ
  epoch_size : ℕ
  depth_limit : ℕ

/-- A call on the cache: `insert(e)` or `contains(e, erase)`. -/
inductive CuckooCall (Element : Type)
  | insert (e : Element)
  | contains (e : Element) (erase : Bool)

/-- The elements a call passes to `insert`. -/
def CuckooCall.inserted {Element : Type} : CuckooCall Element → List Element
  | .insert e => [e]
  | .contains _ _ => []

namespace CuckooCache

/-- `invalid()`, the slot `~(uint32_t)0` that no location equals. -/
def invalid : ℕ := 2 ^ 32 - 1

section Cache

variable {Element : Type} [DecidableEq Element] [Inhabited Element]

/-- `allow_erase`: slot `n` may be overwritten. -/
def allow_erase (c : CuckooCache Element) (n : ℕ) : CuckooCache Element :=
  { c with collection_flags := c.collection_flags.set n true }

/-- `please_keep`: slot `n` is to be kept. -/
def please_keep (c : CuckooCache Element) (n : ℕ) : CuckooCache Element :=
  { c with collection_flags := c.collection_flags.set n false }

/-- One slot of the aging loop of `epoch_check`: a slot of the current epoch moves to the
old one, a slot of the old epoch becomes discardable. -/
def age (c : CuckooCache Element) (i : ℕ) : CuckooCache Element :=
  if c.epoch_flags.getD i false then { c with epoch_flags := c.epoch_flags.set i false }
  else c.allow_erase i

/-- `epoch_check`: every `epoch_heuristic_counter` inserts, count the slots of the current
epoch still kept, and when they fill an epoch age every slot. -/
def epoch_check (c : CuckooCache Element) : CuckooCache Element :=
  if c.epoch_heuristic_counter ≠ 0 then
    { c with epoch_heuristic_counter := c.epoch_heuristic_counter - 1 }
  else
    let epoch_unused_count := ((List.range c.size).filter fun i =>
      c.epoch_flags.getD i false && !c.collection_flags.getD i false).length
    if epoch_unused_count ≥ c.epoch_size then
      let aged := (List.range c.size).foldl age c
      { aged with epoch_heuristic_counter := c.epoch_size }
    else
      let epoch_heuristic_counter := max 1 (max (c.epoch_size / 16) (c.epoch_size - epoch_unused_count))
      { c with epoch_heuristic_counter }

/-- `setup(new_size)`, given the `depth_limit` it computes: `max(2, new_size)` default
elements, all discardable, none of the current epoch. -/
def setup (new_size : UInt32) (depth_limit : ℕ) : CuckooCache Element :=
  let size := max 2 new_size.toNat
  let epoch_size := max 1 (45 * size % 2 ^ 32 / 100)
  { table := List.replicate size default
    size := size
    collection_flags := List.replicate size true
    epoch_flags := List.replicate size false
    epoch_heuristic_counter := epoch_size
    epoch_size := epoch_size
    depth_limit := depth_limit }

variable (hash_function : ℕ → Element → UInt32)

/-- `compute_hashes`: hash `k` of `e` scaled from `[0, 2^32)` to `[0, size)`. -/
def compute_hashes (c : CuckooCache Element) (e : Element) : List ℕ :=
  (List.range 8).map fun k => ((hash_function k e).toNat * c.size) >>> 32

/-- The loop of `insert`, with `fuel` the depths left: `e` is the element carried, `locs`
its locations, `last_loc` the slot it was taken from and `last_epoch` its epoch flag. At
the end of the fuel the carried element is dropped. -/
def evict : ℕ → CuckooCache Element → ℕ → Bool → Element → List ℕ → CuckooCache Element
  | 0, c, _, _, _, _ => c
  | fuel + 1, c, last_loc, last_epoch, e, locs =>
    match locs.find? (fun loc => c.collection_flags.getD loc false) with
    | some loc =>
      let c := { c with table := c.table.set loc e }
      let c := c.please_keep loc
      { c with epoch_flags := c.epoch_flags.set loc last_epoch }
    | none =>
      -- the location after the one the carried element came from
      let last_loc := locs.getD ((1 + locs.idxOf last_loc) &&& 7) 0
      let e' := c.table.getD last_loc default
      let c := { c with table := c.table.set last_loc e }
      let epoch := last_epoch
      let last_epoch := c.epoch_flags.getD last_loc false
      let c := { c with epoch_flags := c.epoch_flags.set last_loc epoch }
      evict fuel c last_loc last_epoch e' (c.compute_hashes hash_function e')

/-- `insert(e)`. -/
def insert (c : CuckooCache Element) (e : Element) : CuckooCache Element :=
  let c := c.epoch_check
  let locs := c.compute_hashes hash_function e
  match locs.find? (fun loc => decide (c.table.getD loc default = e)) with
  | some loc =>
    let c := c.please_keep loc
    { c with epoch_flags := c.epoch_flags.set loc true }
  | none => evict hash_function c.depth_limit c invalid true e locs

/-- `contains(e, erase)`: the answer, and the collection flags it may set. -/
def contains (c : CuckooCache Element) (e : Element) (erase : Bool) : Bool × CuckooCache Element :=
  match (c.compute_hashes hash_function e).find? (fun loc => decide (c.table.getD loc default = e)) with
  | some loc => (true, if erase then c.allow_erase loc else c)
  | none => (false, c)

/-- One call on the cache. -/
def call (c : CuckooCache Element) : CuckooCall Element → CuckooCache Element
  | .insert e => c.insert hash_function e
  | .contains e erase => (c.contains hash_function e erase).2

/-- The cache after `setup` and a sequence of calls. -/
def run (new_size : UInt32) (depth_limit : ℕ) (calls : List (CuckooCall Element)) :
    CuckooCache Element :=
  calls.foldl (call hash_function) (setup new_size depth_limit)

/-- The elements that a sequence of calls passes to `insert`, in order. -/
def inserted (calls : List (CuckooCall Element)) : List Element :=
  calls.flatMap CuckooCall.inserted

end Cache

/-! ## Where elements are stored -/

theorem getD_set_eq {α : Type} (l : List α) (j : ℕ) (v : α) (k : ℕ) (d : α) :
    (l.set j v).getD k d = if j = k ∧ j < l.length then v else l.getD k d := by
  rw [List.getD_eq_getElem?_getD, List.getElem?_set, List.getD_eq_getElem?_getD]
  by_cases hjk : j = k
  · subst hjk
    by_cases hj : j < l.length <;> simp [hj]
  · simp [hjk]

section Stored

variable {Element : Type} [DecidableEq Element] [Inhabited Element]
variable (hash_function : ℕ → Element → UInt32)

omit [DecidableEq Element] [Inhabited Element] in
theorem compute_hashes_of_size {c c' : CuckooCache Element} (hsize : c'.size = c.size) (e : Element) :
    c'.compute_hashes hash_function e = c.compute_hashes hash_function e := by
  rw [compute_hashes, compute_hashes, hsize]

omit [DecidableEq Element] [Inhabited Element] in
@[simp] theorem length_compute_hashes (c : CuckooCache Element) (e : Element) :
    (c.compute_hashes hash_function e).length = 8 := by
  simp [compute_hashes]

omit [DecidableEq Element] [Inhabited Element] in
/-- A location is a slot: `(h * size) >> 32 < size` for a 32-bit `h`. -/
theorem lt_size_of_mem_compute_hashes {c : CuckooCache Element} {e : Element} {loc : ℕ}
    (hpos : 0 < c.size) (hloc : loc ∈ c.compute_hashes hash_function e) : loc < c.size := by
  simp only [compute_hashes, List.mem_map, List.mem_range] at hloc
  obtain ⟨k, -, rfl⟩ := hloc
  rw [Nat.shiftRight_eq_div_pow, Nat.div_lt_iff_lt_mul (Nat.two_pow_pos 32)]
  calc (hash_function k e).toNat * c.size < 2 ^ 32 * c.size :=
        Nat.mul_lt_mul_of_pos_right (UInt32.toNat_lt _) hpos
    _ = c.size * 2 ^ 32 := Nat.mul_comm _ _

/-- Every slot holds the default element, or an element of `inserted` at one of its own
locations; the table has its `size` slots, at least one. -/
structure Stored (c : CuckooCache Element) (inserted : List Element) : Prop where
  length_table : c.table.length = c.size
  size_pos : 0 < c.size
  slot : ∀ j < c.size, c.table.getD j default = default ∨
    c.table.getD j default ∈ inserted ∧ j ∈ c.compute_hashes hash_function (c.table.getD j default)

variable {hash_function}

omit [DecidableEq Element] in
/-- `Stored` reads only the table and the size. -/
theorem Stored.congr {c c' : CuckooCache Element} {ins : List Element} (hs : Stored hash_function c ins)
    (htable : c'.table = c.table) (hsize : c'.size = c.size) : Stored hash_function c' ins where
  length_table := by rw [htable, hsize, hs.length_table]
  size_pos := hsize ▸ hs.size_pos
  slot j hj := by
    rw [htable, compute_hashes_of_size hash_function hsize]
    exact hs.slot j (hsize ▸ hj)

omit [DecidableEq Element] in
theorem Stored.mono {c : CuckooCache Element} {ins ins' : List Element} (hs : Stored hash_function c ins)
    (hsub : ins ⊆ ins') : Stored hash_function c ins' where
  length_table := hs.length_table
  size_pos := hs.size_pos
  slot j hj := (hs.slot j hj).imp_right fun h => ⟨hsub h.1, h.2⟩

omit [DecidableEq Element] in
theorem Stored.default_or_mem {c : CuckooCache Element} {ins : List Element}
    (hs : Stored hash_function c ins) {j : ℕ} (hj : j < c.size) :
    c.table.getD j default = default ∨ c.table.getD j default ∈ ins :=
  (hs.slot j hj).imp_right And.left

omit [DecidableEq Element] in
/-- Writing the default element or an element of `inserted` at one of its own locations
keeps `Stored`. -/
theorem Stored.set {c c' : CuckooCache Element} {ins : List Element} (hs : Stored hash_function c ins)
    {loc : ℕ} {e : Element} (hloc : loc ∈ c.compute_hashes hash_function e) (he : e = default ∨ e ∈ ins)
    (htable : c'.table = c.table.set loc e) (hsize : c'.size = c.size) : Stored hash_function c' ins where
  length_table := by rw [htable, List.length_set, hs.length_table, hsize]
  size_pos := hsize ▸ hs.size_pos
  slot j hj := by
    have hlt := lt_size_of_mem_compute_hashes hash_function hs.size_pos hloc
    rw [htable, compute_hashes_of_size hash_function hsize, getD_set_eq]
    by_cases hj' : loc = j
    case pos =>
      subst hj'
      simp only [hs.length_table, hlt, and_self, if_true]
      exact he.imp_right fun h => ⟨h, hloc⟩
    case neg =>
      simp only [hj', false_and, if_false]
      exact hs.slot j (hsize ▸ hj)

omit [DecidableEq Element] [Inhabited Element] in
theorem table_foldl_age (l : List ℕ) (c : CuckooCache Element) :
    (l.foldl age c).table = c.table ∧ (l.foldl age c).size = c.size := by
  induction l generalizing c with
  | nil => exact ⟨rfl, rfl⟩
  | cons i l ih =>
    have hage : (c.age i).table = c.table ∧ (c.age i).size = c.size := by
      unfold age
      split <;> exact ⟨rfl, rfl⟩
    rw [List.foldl_cons, (ih (c.age i)).1, (ih (c.age i)).2]
    exact hage

omit [DecidableEq Element] [Inhabited Element] in
/-- `epoch_check` changes flags and counters only. -/
theorem table_epoch_check (c : CuckooCache Element) :
    c.epoch_check.table = c.table ∧ c.epoch_check.size = c.size := by
  unfold epoch_check
  split
  · exact ⟨rfl, rfl⟩
  · dsimp only
    split
    · exact table_foldl_age _ c
    · exact ⟨rfl, rfl⟩

omit [DecidableEq Element] in
theorem Stored.epoch_check {c : CuckooCache Element} {ins : List Element}
    (hs : Stored hash_function c ins) : Stored hash_function c.epoch_check ins :=
  hs.congr (table_epoch_check c).1 (table_epoch_check c).2

/-- The location the walk swaps at is one of the carried element's. -/
theorem getD_idxOf_mem (locs : List ℕ) (hlen : locs.length = 8) (last_loc : ℕ) :
    locs.getD ((1 + locs.idxOf last_loc) &&& 7) 0 ∈ locs := by
  have hlt : (1 + locs.idxOf last_loc) &&& 7 < locs.length := by
    have := @Nat.and_le_right (1 + locs.idxOf last_loc) 7
    omega
  rw [List.getD_eq_getElem _ _ hlt]
  exact List.getElem_mem hlt

omit [DecidableEq Element] in
/-- The walk keeps `Stored` while the element it carries is the default one or an
inserted one: it is put down only at its own locations, and the element it picks up is
the default one or an inserted one. -/
theorem Stored.evict {ins : List Element} (fuel : ℕ) : ∀ (c : CuckooCache Element) (last_loc : ℕ)
    (last_epoch : Bool) (e : Element), Stored hash_function c ins → (e = default ∨ e ∈ ins) →
    Stored hash_function (evict hash_function fuel c last_loc last_epoch e (c.compute_hashes hash_function e)) ins := by
  induction fuel with
  | zero => exact fun _ _ _ _ hs _ => hs
  | succ fuel ih =>
    intro c last_loc last_epoch e hs he
    unfold CuckooCache.evict
    split
    case h_1 loc hfind =>
      exact hs.set (List.mem_of_find?_eq_some hfind) he rfl rfl
    case h_2 =>
      dsimp only
      have hmem := getD_idxOf_mem _ (length_compute_hashes hash_function c e) last_loc
      have hlt := lt_size_of_mem_compute_hashes hash_function hs.size_pos hmem
      exact ih _ _ _ _ (hs.set hmem he rfl rfl) (hs.default_or_mem hlt)

theorem Stored.insert {c : CuckooCache Element} {ins : List Element} (hs : Stored hash_function c ins)
    (e : Element) : Stored hash_function (c.insert hash_function e) (ins ++ [e]) := by
  have hs' := (hs.mono (List.subset_append_left ins [e])).epoch_check
  unfold CuckooCache.insert
  dsimp only
  split
  · exact hs'.congr rfl rfl
  · exact Stored.evict _ _ _ _ _ hs' (Or.inr (List.mem_append_right _ (List.mem_singleton_self e)))

/-- `contains` writes no slot. -/
theorem table_contains (c : CuckooCache Element) (e : Element) (erase : Bool) :
    (c.contains hash_function e erase).2.table = c.table ∧
      (c.contains hash_function e erase).2.size = c.size := by
  unfold contains
  split
  · cases erase <;> exact ⟨rfl, rfl⟩
  · exact ⟨rfl, rfl⟩

/-- `contains` answers from the table and the size alone. -/
theorem contains_congr {c c' : CuckooCache Element} (htable : c'.table = c.table) (hsize : c'.size = c.size)
    (e : Element) (erase erase' : Bool) :
    (c'.contains hash_function e erase).1 = (c.contains hash_function e erase').1 := by
  unfold contains
  rw [htable, compute_hashes_of_size hash_function hsize]
  split <;> rfl

/-- What `contains` finds is the default element or an inserted one. -/
theorem Stored.found {c : CuckooCache Element} {ins : List Element} (hs : Stored hash_function c ins)
    {e : Element} {erase : Bool} (hfound : (c.contains hash_function e erase).1 = true) :
    e ∈ ins ∨ e = default := by
  unfold contains at hfound
  split at hfound
  case h_1 loc hfind =>
    have hloc := List.mem_of_find?_eq_some hfind
    have hp := List.find?_some hfind
    have heq : c.table.getD loc default = e := of_decide_eq_true hp
    rw [← heq]
    exact (hs.default_or_mem (lt_size_of_mem_compute_hashes hash_function hs.size_pos hloc)).symm
  case h_2 =>
    exact absurd hfound Bool.false_ne_true

theorem Stored.call {c : CuckooCache Element} {ins : List Element} (hs : Stored hash_function c ins)
    (k : CuckooCall Element) : Stored hash_function (c.call hash_function k) (ins ++ k.inserted) := by
  cases k with
  | insert e => exact hs.insert e
  | contains e erase =>
    exact (hs.congr (table_contains c e erase).1 (table_contains c e erase).2).mono (List.subset_append_left _ _)

/-- The run lemma: every sequence of calls keeps `Stored`, with the elements it inserts. -/
theorem Stored.foldl_call (calls : List (CuckooCall Element)) :
    ∀ {c : CuckooCache Element} {ins : List Element}, Stored hash_function c ins →
      Stored hash_function (calls.foldl (CuckooCache.call hash_function) c) (ins ++ inserted calls) := by
  induction calls with
  | nil => exact fun hs => by simpa [inserted] using hs
  | cons k calls ih =>
    intro c ins hs
    have h := ih (hs.call k)
    rwa [List.append_assoc] at h

omit [DecidableEq Element] in
theorem stored_setup (new_size : UInt32) (depth_limit : ℕ) :
    Stored hash_function (setup new_size depth_limit : CuckooCache Element) [] where
  length_table := List.length_replicate
  size_pos := Nat.lt_of_lt_of_le (by decide) (Nat.le_max_left 2 _)
  slot j hj := by
    simp only [setup] at hj ⊢
    exact Or.inl (List.getD_replicate default hj)

/-- Calls without an insert leave the table and the size as they are. -/
theorem table_foldl_call_of_inserted_eq_nil (calls : List (CuckooCall Element))
    (hnone : inserted calls = []) (c : CuckooCache Element) :
    (calls.foldl (call hash_function) c).table = c.table ∧
      (calls.foldl (call hash_function) c).size = c.size := by
  induction calls generalizing c with
  | nil => exact ⟨rfl, rfl⟩
  | cons k calls ih =>
    cases k with
    | insert e => simp [inserted, CuckooCall.inserted] at hnone
    | contains e erase =>
      have hrest : inserted calls = [] := by simpa [inserted, CuckooCall.inserted] using hnone
      have h := ih hrest ((c.contains hash_function e erase).2)
      rw [List.foldl_cons, call, h.1, h.2]
      exact table_contains c e erase

end Stored

section Run

variable {Element : Type} [DecidableEq Element] [Inhabited Element]

/-- Whatever the hashes and the size, after any sequence of calls every slot holds the
default element or an inserted element at one of its own locations; `contains` finds only
inserted elements and the default one, and what it finds stays found through every later
sequence of calls without an insert. -/
theorem CuckooCache_contains_inserted (hash_function : ℕ → Element → UInt32) (new_size : UInt32)
    (depth_limit : ℕ) (calls : List (CuckooCall Element)) :
    (∀ j < (run hash_function new_size depth_limit calls).size,
      (run hash_function new_size depth_limit calls).table.getD j default = default ∨
        (run hash_function new_size depth_limit calls).table.getD j default ∈ inserted calls ∧
          j ∈ (run hash_function new_size depth_limit calls).compute_hashes hash_function
            ((run hash_function new_size depth_limit calls).table.getD j default)) ∧
    ∀ (e : Element) (erase : Bool),
      ((run hash_function new_size depth_limit calls).contains hash_function e erase).1 = true →
        (e ∈ inserted calls ∨ e = default) ∧
        ∀ (later : List (CuckooCall Element)), inserted later = [] → ∀ erase' : Bool,
          ((run hash_function new_size depth_limit (calls ++ later)).contains hash_function e erase').1 = true := by
  have hs : Stored hash_function (run hash_function new_size depth_limit calls) (inserted calls) :=
    Stored.foldl_call calls (stored_setup new_size depth_limit)
  refine ⟨hs.slot, fun e erase hfound => ⟨hs.found hfound, fun later hnone erase' => ?_⟩⟩
  -- the later calls are all `contains`, which leave the table and the size alone
  set c := run hash_function new_size depth_limit calls
  have hkeep : (later.foldl (call hash_function) c).table = c.table ∧
      (later.foldl (call hash_function) c).size = c.size :=
    table_foldl_call_of_inserted_eq_nil later hnone c
  rw [run, List.foldl_append, ← run, contains_congr hkeep.1 hkeep.2 e erase' erase]
  exact hfound

end Run

/-! ## The signature cache's hasher -/

/-- The default `uint256()`, all zero. -/
scoped instance : Inhabited UInt256 := ⟨UInt256.zero⟩

/-- `SignatureCacheHasher`: hash `hash_select` of a key is its four bytes from
`4 * hash_select` on, copied into a `uint32_t` of a little-endian host. -/
def SignatureCacheHasher (hash_select : ℕ) (key : UInt256) : UInt32 :=
  UInt32.ofNat (leValue ((key.data.drop (4 * hash_select)).take 4))

/-- A cache of sixteen `uint256`s just set up: slot `1` holds the zero `uint256`, whose
eight locations are all slot `0`. -/
theorem setup_default_off_its_locations :
    1 < (run SignatureCacheHasher 16 4 []).size ∧
      1 ∉ (run SignatureCacheHasher 16 4 []).compute_hashes SignatureCacheHasher
        ((run SignatureCacheHasher 16 4 []).table.getD 1 default) := by
  decide


/-- A key whose bytes are `0, 1, ..., 31`, so its eight hashes differ. -/
def rangeKey : UInt256 := ⟨(List.range 32).map UInt8.ofNat, rfl⟩

theorem CuckooCache_contains_inserted_rangeKey :
    (rangeKey ∈ inserted [CuckooCall.insert rangeKey, .insert UInt256.zero] ∨ rangeKey = default) ∧
      ((run SignatureCacheHasher 16 4
        ([.insert rangeKey, .insert UInt256.zero] ++ [.contains UInt256.zero true])).contains
          SignatureCacheHasher rangeKey false).1 = true := by
  obtain ⟨hmem, hkeep⟩ := (CuckooCache_contains_inserted SignatureCacheHasher 16 4
    [.insert rangeKey, .insert UInt256.zero]).2 rangeKey false (by decide)
  exact ⟨hmem, hkeep [.contains UInt256.zero true] rfl false⟩

end CuckooCache

end BitcoinPQ
