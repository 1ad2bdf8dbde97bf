import Mathlib.Data.List.GetD
import Mathlib.Tactic

/-!
# Layouts of values in memory

A layout says how many bytes a value takes, how it is read from a memory and how it
is stored there. Memory is a byte function that counts from the address of the value,
so a layout does not know where its values lie. Scalars are little endian; arrays and
structs are made from their elements and members. A struct lays each member down at
the next multiple of its alignment, unless it is packed tighter, and leaves the bytes
in between as they are.
-/
namespace Xiaoxin

/-- The memory from the address `p` on. -/
def view (m : ℕ → UInt8) (p : ℕ) : ℕ → UInt8 := fun i => m (p + i)

/-- A list of bytes as the beginning of a memory. -/
def ofBytes (bs : List UInt8) : ℕ → UInt8 := fun i => bs.getD i 0

structure Layout (α : Type*) where
  size : ℕ
  align : ℕ
  load : (ℕ → UInt8) → α
  store : α → (ℕ → UInt8) → ℕ → UInt8
  /-- A load looks at the bytes of the value alone. -/
  load_congr : ∀ {m m'}, (∀ i < size, m i = m' i) → load m = load m'
  /-- A store changes the bytes of the value alone. -/
  store_of_le : ∀ v m {i}, size ≤ i → store v m i = m i
  load_store : ∀ v m, load (store v m) = v

@[simp] theorem view_apply (m : ℕ → UInt8) (p i : ℕ) : view m p i = m (p + i) := rfl

@[simp] theorem view_zero (m : ℕ → UInt8) : view m 0 = m := by
  ext i
  rw [view_apply, Nat.zero_add]

@[simp] theorem view_view (m : ℕ → UInt8) (p q : ℕ) : view (view m p) q = view m (p + q) := by
  ext i
  simp only [view_apply, Nat.add_assoc]

/-! ## Scalars -/

/-- The number in the first `k` bytes. -/
def littleEndian (m : ℕ → UInt8) : ℕ → ℕ
  | 0 => 0
  | k + 1 => littleEndian m k + 256 ^ k * (m k).toNat

theorem littleEndian_congr {m m' : ℕ → UInt8} {k : ℕ} (h : ∀ i < k, m i = m' i) :
    littleEndian m k = littleEndian m' k := by
  induction k with
  | zero => rfl
  | succ k ih =>
    rw [littleEndian, littleEndian, ih fun i hi => h i (by omega), h k (by omega)]

/-- The digits of a number make up the number. -/
theorem littleEndian_digits {m : ℕ → UInt8} {n k : ℕ}
    (h : ∀ i < k, m i = UInt8.ofNat (n / 256 ^ i)) : littleEndian m k = n % 256 ^ k := by
  induction k with
  | zero => rw [littleEndian, pow_zero, Nat.mod_one]
  | succ k ih =>
    rw [littleEndian, ih fun i hi => h i (by omega), h k (by omega), Nat.pow_succ,
      Nat.mod_mul]
    congr 2

theorem littleEndian_lt (m : ℕ → UInt8) (k : ℕ) : littleEndian m k < 256 ^ k := by
  induction k with
  | zero => exact Nat.one_pos
  | succ k ih =>
    have hbyte : (m k).toNat + 1 ≤ 256 := (m k).toNat_lt
    calc littleEndian m k + 256 ^ k * (m k).toNat < 256 ^ k + 256 ^ k * (m k).toNat := by omega
      _ = 256 ^ k * ((m k).toNat + 1) := by ring
      _ ≤ 256 ^ k * 256 := Nat.mul_le_mul_left _ hbyte
      _ = 256 ^ (k + 1) := (pow_succ ..).symm

/-- The numbers that `k` bytes can hold. -/
theorem pow_bytes (k : ℕ) : 256 ^ k = 2 ^ (8 * k) := by
  rw [pow_mul]
  rfl

namespace Layout

variable {α β : Type*}

/-- An integer of `k` bytes. -/
def scalar (k : ℕ) : Layout (BitVec (8 * k)) where
  size := k
  align := k
  load m := BitVec.ofNat (8 * k) (littleEndian m k)
  store v m i := if i < k then UInt8.ofNat (v.toNat / 256 ^ i) else m i
  load_congr h := congrArg _ (littleEndian_congr h)
  store_of_le v m i hi := if_neg (by omega)
  load_store v m := by
    have hlt : v.toNat < 256 ^ k := pow_bytes k ▸ v.isLt
    rw [littleEndian_digits fun i hi => if_pos hi, Nat.mod_eq_of_lt hlt]
    exact BitVec.eq_of_toNat_eq (by rw [BitVec.toNat_ofNat, Nat.mod_eq_of_lt v.isLt])

@[simp] theorem scalar_load_toNat (k : ℕ) (m : ℕ → UInt8) :
    ((scalar k).load m).toNat = littleEndian m k := by
  have hlt := littleEndian_lt m k
  rw [pow_bytes] at hlt
  exact Nat.mod_eq_of_lt hlt

/-- An integer that lies in memory byte by byte. -/
theorem scalar_load_eq {k : ℕ} {v : BitVec (8 * k)} {m : ℕ → UInt8}
    (h : ∀ i < k, m i = UInt8.ofNat (v.toNat / 256 ^ i)) : (scalar k).load m = v := by
  rw [← (scalar k).load_store v m]
  exact (scalar k).load_congr fun i hi => by rw [h i hi]; exact (if_pos hi).symm

/-- A type whose values are held as values of another one. -/
def via (L : Layout β) (held : α → β) (value : β → α)
    (h : ∀ a, value (held a) = a) : Layout α where
  size := L.size
  align := L.align
  load m := value (L.load m)
  store v m := L.store (held v) m
  load_congr hm := congrArg value (L.load_congr hm)
  store_of_le v m _ hi := L.store_of_le (held v) m hi
  load_store v m := by rw [L.load_store, h]

/-- Nothing. -/
def unit : Layout Unit where
  size := 0
  align := 1
  load _ := ()
  store _ m := m
  load_congr _ := rfl
  store_of_le _ _ _ _ := rfl
  load_store _ _ := rfl

/-! ## A value inside a memory -/

/-- Store a value at the address `p`. -/
def storeAt (L : Layout α) (p : ℕ) (v : α) (m : ℕ → UInt8) : ℕ → UInt8 :=
  fun a => if p ≤ a then L.store v (view m p) (a - p) else m a

variable {L : Layout α} {p : ℕ} {v : α} {m : ℕ → UInt8}

theorem storeAt_of_lt {a : ℕ} (h : a < p) : L.storeAt p v m a = m a := if_neg (by omega)

theorem storeAt_of_le {a : ℕ} (h : p + L.size ≤ a) : L.storeAt p v m a = m a := by
  rw [storeAt, if_pos (by omega), L.store_of_le v _ (by omega), view_apply]
  congr 1
  omega

@[simp] theorem view_storeAt : view (L.storeAt p v m) p = L.store v (view m p) := by
  ext i
  rw [view_apply, storeAt, if_pos (by omega), Nat.add_sub_cancel_left]

/-- What is stored at an address is loaded from there. -/
@[simp] theorem load_storeAt : L.load (view (L.storeAt p v m) p) = v := by
  rw [view_storeAt, L.load_store]

/-! ## Structs -/

/-- The least multiple of `a` that is not below `n`. -/
def alignUp (n a : ℕ) : ℕ := n + (a - n % a) % a

theorem le_alignUp (n a : ℕ) : n ≤ alignUp n a := Nat.le_add_right ..

@[simp] theorem alignUp_zero (n : ℕ) : alignUp n 0 = n := by
  rw [alignUp, Nat.zero_sub, Nat.mod_zero, Nat.add_zero]

@[simp] theorem alignUp_one (n : ℕ) : alignUp n 1 = n := by
  rw [alignUp, Nat.mod_one, Nat.add_zero]

/-- Where a member with a layout lies behind what is laid out already; `pack` bounds
the alignment. -/
def offsetBehind (L : Layout α) (pack : ℕ) (M : Layout β) : ℕ :=
  alignUp L.size (min M.align pack)

/-- One more member. -/
def next (L : Layout α) (pack : ℕ) (M : Layout β) : Layout (α × β) where
  size := L.offsetBehind pack M + M.size
  align := max L.align (min M.align pack)
  load m := (L.load m, M.load (view m (L.offsetBehind pack M)))
  store v m := M.storeAt (L.offsetBehind pack M) v.2 (L.store v.1 m)
  load_congr {m m'} h := by
    have hle : L.size ≤ L.offsetBehind pack M := le_alignUp ..
    have hfst : L.load m = L.load m' := L.load_congr fun i hi => h i (by omega)
    have hsnd : M.load (view m _) = M.load (view m' _) :=
      M.load_congr fun i hi => h (L.offsetBehind pack M + i) (by omega)
    rw [hfst, hsnd]
  store_of_le v m i hi := by
    have hle : L.size ≤ L.offsetBehind pack M := le_alignUp ..
    rw [storeAt_of_le hi, L.store_of_le _ _ (by omega)]
  load_store v m := by
    have hle : L.size ≤ L.offsetBehind pack M := le_alignUp ..
    have hfst : L.load (M.storeAt (L.offsetBehind pack M) v.2 (L.store v.1 m)) =
        L.load (L.store v.1 m) := L.load_congr fun i hi => storeAt_of_lt (by omega)
    rw [hfst, L.load_store, load_storeAt]

/-- The end of a struct: it fills up to a multiple of its alignment. -/
def padded (L : Layout α) : Layout α where
  size := alignUp L.size L.align
  align := L.align
  load := L.load
  store := L.store
  load_congr h := L.load_congr fun i hi => h i (lt_of_lt_of_le hi (le_alignUp ..))
  store_of_le v m _ hi := L.store_of_le v m ((le_alignUp ..).trans hi)
  load_store := L.load_store

section Next

variable {pack : ℕ} {M : Layout β} {w : α × β}

@[simp] theorem next_load : (L.next pack M).load m =
    (L.load m, M.load (view m (L.offsetBehind pack M))) := rfl

/-- Packed to single bytes, members follow each other without gaps. -/
@[simp] theorem offsetBehind_one : L.offsetBehind 1 M = L.size := by
  rw [offsetBehind]
  rcases Nat.eq_zero_or_pos M.align with h0 | hpos
  · rw [h0, Nat.zero_min, alignUp_zero]
  · rw [Nat.min_eq_right hpos, alignUp_one]

end Next

/-! ## Arrays -/

/-- `n` elements one behind the other. -/
def array (L : Layout α) (n : ℕ) : Layout (Vector α n) where
  size := n * L.size
  align := L.align
  load m := Vector.ofFn fun i => L.load (view m (i * L.size))
  store v m a :=
    if h : a / L.size < n then
      if 0 < L.size then L.store v[a / L.size] (view m (a / L.size * L.size)) (a % L.size)
      else m a
    else m a
  load_congr {m m'} h := by
    congr 1
    ext i
    refine L.load_congr fun j hj => h (i * L.size + j) ?_
    calc i * L.size + j < i * L.size + L.size := by omega
      _ = (i + 1) * L.size := by ring
      _ ≤ n * L.size := Nat.mul_le_mul_right _ i.isLt
  store_of_le v m a ha := by
    rcases Nat.eq_zero_or_pos L.size with h0 | hpos
    · split_ifs with h h'
      · omega
      · rfl
      · rfl
    · exact dif_neg (by rw [Nat.div_lt_iff_lt_mul hpos]; omega)
  load_store v m := by
    ext i hi
    rw [Vector.getElem_ofFn, ← L.load_store v[i] (view m (i * L.size))]
    refine L.load_congr fun j hj => ?_
    have hpos : 0 < L.size := by omega
    have hmod : (i * L.size + j) % L.size = j := Nat.mul_add_mod_of_lt hj
    have hdiv : (i * L.size + j) / L.size = i :=
      Nat.div_eq_of_lt_le (by omega) (by rw [Nat.succ_mul]; omega)
    simp only [view_apply, hdiv, hmod, hi, hpos, dif_pos, if_pos]

@[simp] theorem array_load_getElem {n i : ℕ} (hi : i < n) :
    ((L.array n).load m)[i] = L.load (view m (i * L.size)) := Vector.getElem_ofFn ..

/-! ## The bytes of a value -/

/-- The bytes that a store leaves where the value lies. -/
def bytes (L : Layout α) (v : α) (m : ℕ → UInt8) : List UInt8 :=
  (List.range L.size).map (L.store v m)

@[simp] theorem length_bytes : (L.bytes v m).length = L.size := by simp [bytes]

theorem ofBytes_bytes {i : ℕ} (hi : i < L.size) : ofBytes (L.bytes v m) i = L.store v m i := by
  rw [ofBytes, List.getD_eq_getElem _ _ (by rwa [length_bytes])]
  simp [bytes]

/-- The bytes of a value are loaded as the value. -/
@[simp] theorem load_bytes : L.load (ofBytes (L.bytes v m)) = v := by
  have hsame : L.load (ofBytes (L.bytes v m)) = L.load (L.store v m) :=
    L.load_congr fun i hi => ofBytes_bytes hi
  rw [hsame, L.load_store]

end Layout

end Xiaoxin
