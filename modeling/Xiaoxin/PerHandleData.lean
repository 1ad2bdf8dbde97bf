import Xiaoxin.Packet

/-!
# Handles

`sPerHandleData` names a socket and a position in a block of memory. A handle
keeps the block beside the position that `_buffer` points to, so that moving
`_buffer` inside the block and reading past its end are both visible. What lies
behind the block is not the program's: reads there take an arbitrary `past`.
-/
namespace Xiaoxin

/-- A socket object. An identity is used for one object only; objects that live
one after the other may still share an address. -/
abbrev Socket := ℕ

/-- `sPerHandleData`. `socket = none` is a null pointer. -/
structure PerHandleData where
  /-- The address of the object itself, as `_obj_pool` gave it out. -/
  address : ℕ
  socket : Option Socket
  /-- The block that `_buffer` was allocated as. -/
  memory : List UInt8
  /-- Where in the block `_buffer` points to. -/
  buffer : ℕ
  bufferSize : ℕ
  offset : ℕ
  deriving DecidableEq, Repr

/-- Replace the bytes of a block from a position on. -/
def overwrite (memory : List UInt8) (pos : ℕ) (bs : List UInt8) : List UInt8 :=
  memory.take pos ++ bs ++ memory.drop (pos + bs.length)

namespace PerHandleData

variable (past : ℕ → UInt8) (h : PerHandleData)

/-- The byte `_buffer[i]`. -/
def byteAt (i : ℕ) : UInt8 := h.memory.getD (h.buffer + i) (past (h.buffer + i))

/-- What `memcpy` reads from `_buffer`. -/
def bytes (n : ℕ) : List UInt8 := (List.range n).map (h.byteAt past)

/-- The first `n` bytes at `_buffer`, as far as they lie in the block. -/
def slice (n : ℕ) : List UInt8 := (h.memory.drop h.buffer).take n

/-- The bytes received and not yet delivered. -/
def window : List UInt8 := h.slice h.offset

/-- `sPerHandleData::operator=`. -/
def assign (tmpData data : PerHandleData) : PerHandleData :=
  { tmpData with
    socket := data.socket
    bufferSize := data.bufferSize
    offset := data.offset
    memory := overwrite tmpData.memory tmpData.buffer (data.bytes past data.bufferSize) }

/-- Step over the first `k` received bytes. -/
def advance (k : ℕ) : PerHandleData :=
  { h with buffer := h.buffer + k, offset := h.offset - k }

/-- Bytes that the socket writes behind those already received. -/
def fill (data : List UInt8) : PerHandleData :=
  { h with memory := overwrite h.memory (h.buffer + h.offset) data }

/-- `Offset(val)`. -/
def setOffset (val : ℕ) : PerHandleData := { h with offset := val }

/-- Write into the buffer from `_buffer + pos` on. Only writes inside the block mean anything. -/
def poke (pos : ℕ) (bs : List UInt8) : PerHandleData :=
  { h with memory := overwrite h.memory (h.buffer + pos) bs }

/-- The received bytes lie in a block of `size` bytes, and the handle knows its size. -/
structure InBuffer (size : ℕ) (h : PerHandleData) : Prop where
  block : h.memory.length = size
  known : h.bufferSize = size
  bound : h.buffer + h.offset ≤ size

variable {past h} {size : ℕ}

@[simp] theorem bytes_length (n : ℕ) : (h.bytes past n).length = n := by simp [bytes]

theorem slice_length {n : ℕ} (hn : h.buffer + n ≤ h.memory.length) :
    (h.slice n).length = n := by
  simp only [slice, List.length_take, List.length_drop]
  omega

theorem byteAt_eq_slice {n i : ℕ} (hn : h.buffer + n ≤ h.memory.length) (hi : i < n) :
    h.byteAt past i = (h.slice n).getD i 0 := by
  have hm : h.buffer + i < h.memory.length := by omega
  have hs : i < (h.slice n).length := by rw [slice_length hn]; exact hi
  rw [byteAt, List.getD_eq_getElem _ _ hm, List.getD_eq_getElem _ _ hs]
  simp [slice]

/-- A copy that stays inside the block reads what is there. -/
theorem bytes_eq_slice {n : ℕ} (hn : h.buffer + n ≤ h.memory.length) :
    h.bytes past n = h.slice n := by
  apply List.ext_getElem
  · rw [bytes_length, slice_length hn]
  · intro i h1 h2
    have hi : i < n := by simpa using h1
    simp only [bytes, List.getElem_map, List.getElem_range]
    rw [byteAt_eq_slice hn hi, List.getD_eq_getElem _ _ h2]

/-- The beginning of a longer copy, whatever the copy picks up behind the block. -/
theorem bytes_take {n k : ℕ} (hk : k ≤ n) : (h.bytes past n).take k = h.bytes past k := by
  simp only [bytes, ← List.map_take, List.take_range, Nat.min_eq_left hk]

theorem InBuffer.window_length (hb : h.InBuffer size) : h.window.length = h.offset :=
  slice_length (by rw [hb.block]; exact hb.bound)

theorem InBuffer.read_eq (hb : h.InBuffer size) (h8 : packetSize ≤ h.offset) :
    Packet.read (h.byteAt past) = headerOf h.window := by
  apply Packet.read_congr
  intro i hi
  exact byteAt_eq_slice (by rw [hb.block]; exact hb.bound) (by omega)

theorem InBuffer.advance (hb : h.InBuffer size) {k : ℕ} (hk : k ≤ h.offset) :
    (h.advance k).InBuffer size where
  block := hb.block
  known := hb.known
  bound := by
    have := hb.bound
    simp only [PerHandleData.advance]
    omega

@[simp] theorem advance_offset (k : ℕ) : (h.advance k).offset = h.offset - k := rfl

@[simp] theorem advance_socket (k : ℕ) : (h.advance k).socket = h.socket := rfl

theorem advance_advance (j k : ℕ) : (h.advance k).advance j = h.advance (k + j) := by
  simp only [advance, Nat.add_assoc, Nat.sub_sub]

theorem window_advance (k : ℕ) : (h.advance k).window = h.window.drop k := by
  simp only [window, slice, advance, List.drop_take, List.drop_drop]

section Poke

variable {pos : ℕ} {bs : List UInt8}

@[simp] theorem poke_buffer : (h.poke pos bs).buffer = h.buffer := rfl

@[simp] theorem poke_offset : (h.poke pos bs).offset = h.offset := rfl

@[simp] theorem poke_socket : (h.poke pos bs).socket = h.socket := rfl

/-- A write inside the block leaves the block as long as it was. -/
theorem poke_length (hroom : h.buffer + pos + bs.length ≤ h.memory.length) :
    (h.poke pos bs).memory.length = h.memory.length := by
  simp only [poke, overwrite, List.length_append, List.length_take, List.length_drop]
  omega

/-- A write inside the block shows where it was made and nowhere else. -/
theorem byteAt_poke (hroom : h.buffer + pos + bs.length ≤ h.memory.length) (i : ℕ) :
    (h.poke pos bs).byteAt past i =
      if pos ≤ i ∧ i < pos + bs.length then bs.getD (i - pos) 0 else h.byteAt past i := by
  have hpre : (h.memory.take (h.buffer + pos)).length = h.buffer + pos := by
    rw [List.length_take]
    omega
  have hmid : (h.memory.take (h.buffer + pos) ++ bs).length = h.buffer + pos + bs.length := by
    rw [List.length_append, hpre]
  simp only [byteAt, poke, overwrite]
  rcases Nat.lt_or_ge i pos with hlt | hge
  · -- in front of the write
    rw [if_neg (by omega), List.getD_append _ _ _ _ (by omega),
      List.getD_append _ _ _ _ (by omega), List.getD_eq_getElem _ _ (by omega),
      List.getD_eq_getElem _ _ (by omega), List.getElem_take]
  rcases Nat.lt_or_ge i (pos + bs.length) with hin | hout
  · rw [if_pos ⟨hge, hin⟩, List.getD_append _ _ _ _ (by omega),
      List.getD_append_right _ _ _ _ (by omega), hpre,
      List.getD_eq_getElem _ _ (by omega), List.getD_eq_getElem _ _ (by omega)]
    congr 1
    omega
  · rw [if_neg (by omega), List.getD_append_right _ _ _ _ (by omega), hmid]
    simp only [List.getD_eq_getElem?_getD, List.getElem?_drop]
    congr 2
    omega

end Poke

end PerHandleData

end Xiaoxin
