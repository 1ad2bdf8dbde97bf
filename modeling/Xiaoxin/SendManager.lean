import Xiaoxin.SendOrRecvMngBase

/-!
# The send manager

`GetData` makes a handle with the header already written into its buffer, the
application writes its payload behind the header, and `PostSend` starts one
`async_write_some` of the first `_offset` bytes. When that operation has ended,
`SendComplete` gives the handle back.

The size of a packet is given as an `int` and stored in unsigned fields, in the
header and in `_offset` alike.
-/
namespace Xiaoxin
open SendOrRecvMngBase

/-- The `err` values that the send manager returns. -/
inductive Err
  | success | failed
  deriving DecidableEq, Repr

/-- An integer as an unsigned field of `bits` bits holds it. -/
def toUnsigned (bits : ℕ) (n : ℤ) : ℕ := (n % 2 ^ bits).toNat

theorem toUnsigned_lt (bits : ℕ) (n : ℤ) : toUnsigned bits n < 2 ^ bits := by
  have hpos : (0 : ℤ) < 2 ^ bits := by positivity
  have hlt := Int.emod_lt_of_pos n hpos
  have hnonneg := Int.emod_nonneg n hpos.ne'
  rw [toUnsigned, Int.toNat_lt hnonneg]
  exact_mod_cast hlt

structure SendManager where
  bufferSize : ℕ
  /-- `_buffer_size` is an `unsigned int`. -/
  unsigned : bufferSize < 4294967296
  deriving DecidableEq, Repr

namespace SendManager

/-- `PostSend`. A null handle, or one without a socket, is refused. -/
def postSend (m : SendManager) : Option PerHandleData → Err × List Effect
  | none => (.failed, [])
  | some data =>
    if data.socket = none then (.failed, [])
    else if m.bufferSize < data.offset then (.failed, [])
    else (.success, [.asyncWriteSome data])

/-- `SendComplete`; the class does not override `CloseSocket`, which does nothing. -/
def sendComplete (data : PerHandleData) (_error : Bool) (_bytesTransferred : ℕ) : List Effect :=
  releaseMemory (fun _ => []) data

/-- `sizeof(sMessageRoot)`: a header, the category and the protocol. -/
def messageRootSize : ℕ := 12

/-- `GetData` for a message of a category and a protocol. -/
def getData (m : SendManager) (address : Option ℕ) (socket : Option Socket)
    (category protocol : ℤ) : Option PerHandleData :=
  (SendOrRecvMngBase.getData m.bufferSize address socket).map fun data =>
    (data.poke 8 (writeUInt16 (toUnsigned 16 category))).poke 10
      (writeUInt16 (toUnsigned 16 protocol))

/-- `GetData` with the header. -/
def getDataSized (m : SendManager) (address : Option ℕ) (socket : Option Socket)
    (category protocol wholePacketSize : ℤ) (packet : EPacketType) (device : EDeviceType) :
    Option PerHandleData :=
  (m.getData address socket category protocol).map fun data =>
    let size := toUnsigned 32 wholePacketSize
    ((((data.poke 2 (writeUInt16 packetSize)).setOffset size).poke 4 (writeUInt32 size)).poke 1
      [UInt8.ofNat device.value]).poke 0 [UInt8.ofNat packet.value]

/-- `sizeof(sMessageError)`, which adds the error code. -/
def messageErrorSize : ℕ := 16

/-- `PostError`. -/
def postError (m : SendManager) (address : Option ℕ) (socket : Option Socket)
    (errorcode category protocol : ℤ) (packet : EPacketType) (device : EDeviceType) :
    Err × List Effect :=
  match m.getDataSized address socket category protocol messageErrorSize packet device with
  | none => (.failed, [])
  | some data =>
    let r := m.postSend (some (data.poke 12 (writeUInt32 (toUnsigned 32 errorcode))))
    (r.1, .construct data :: r.2)

variable {m : SendManager} {data h : PerHandleData}

/-- What `PostSend` accepts, and what it does then. -/
theorem postSend_success {d : Option PerHandleData} (hr : (m.postSend d).1 = .success) :
    ∃ h s, d = some h ∧ h.socket = some s ∧ h.offset ≤ m.bufferSize ∧
      m.postSend d = (.success, [.asyncWriteSome h]) := by
  cases d with
  | none => cases hr
  | some h =>
    simp only [postSend] at hr ⊢
    split_ifs at hr ⊢ with hs ho
    obtain ⟨s, hs⟩ := Option.ne_none_iff_exists'.mp hs
    exact ⟨h, s, rfl, hs, by omega, rfl⟩

/-- What `PostSend` refuses is not sent. -/
theorem postSend_failed {d : Option PerHandleData} (hr : (m.postSend d).1 = .failed) :
    m.postSend d = (.failed, []) := by
  cases d with
  | none => rfl
  | some h =>
    simp only [postSend] at hr ⊢
    split_ifs at hr ⊢
    · rfl
    · rfl

/-- The block of a handle of this manager, with `_buffer` at its front. -/
structure Owns (m : SendManager) (h : PerHandleData) : Prop where
  block : h.memory.length = m.bufferSize
  front : h.buffer = 0

theorem Owns.room (ho : m.Owns h) {pos n : ℕ} (hn : pos + n ≤ m.bufferSize) :
    h.buffer + pos + n ≤ h.memory.length := by
  rw [ho.block, ho.front]
  omega

theorem Owns.poke (ho : m.Owns h) {pos : ℕ} {bs : List UInt8}
    (hb : pos + bs.length ≤ m.bufferSize) : m.Owns (h.poke pos bs) where
  block := by rw [PerHandleData.poke_length (ho.room hb), ho.block]
  front := ho.front

theorem Owns.setOffset (ho : m.Owns h) (n : ℕ) : m.Owns (h.setOffset n) := ⟨ho.block, ho.front⟩

/-- What `PostSend` accepts of a handle of its own lies in the block. -/
theorem Owns.bytes_eq_slice (ho : m.Owns h) (hle : h.offset ≤ m.bufferSize) (past : ℕ → UInt8) :
    h.bytes past h.offset = h.slice h.offset :=
  PerHandleData.bytes_eq_slice (by rw [ho.block, ho.front]; omega)

/-- A handle made for a packet: where it lies, how many of its bytes are to be sent,
and its header. -/
structure Sized (m : SendManager) (wholePacketSize : ℤ) (packet : EPacketType)
    (device : EDeviceType) (h : PerHandleData) : Prop where
  owns : m.Owns h
  offset : h.offset = toUnsigned 32 wholePacketSize
  header : ∀ past, Packet.read (h.byteAt past) =
    ⟨packet.value, device.value, packetSize, toUnsigned 32 wholePacketSize⟩

variable {address : Option ℕ} {socket : Option Socket} {category protocol wholePacketSize : ℤ}
  {packet : EPacketType} {device : EDeviceType}

theorem getData_owns (hB : messageRootSize ≤ m.bufferSize)
    (hg : m.getData address socket category protocol = some h) : m.Owns h := by
  have h12 : messageRootSize = 12 := rfl
  simp only [getData, SendOrRecvMngBase.getData, Option.map_map, Option.map_eq_some_iff] at hg
  obtain ⟨a, -, rfl⟩ := hg
  have hbase : m.Owns ⟨a, socket, List.replicate m.bufferSize 0, 0, m.bufferSize, 0⟩ :=
    ⟨List.length_replicate, rfl⟩
  exact (hbase.poke (by simp [writeUInt16]; omega)).poke (by simp [writeUInt16]; omega)

/-- The header that `GetData` writes. -/
theorem getDataSized_sized (hB : messageRootSize ≤ m.bufferSize)
    (hg : m.getDataSized address socket category protocol wholePacketSize packet device =
      some h) : m.Sized wholePacketSize packet device h := by
  have h12 : messageRootSize = 12 := rfl
  obtain ⟨d, hd, rfl⟩ := Option.map_eq_some_iff.mp hg
  generalize hw : toUnsigned 32 wholePacketSize = w
  have hlt : w < 4294967296 := hw ▸ toUnsigned_lt 32 wholePacketSize
  have l2 : 2 + (writeUInt16 packetSize).length ≤ m.bufferSize := by simp [writeUInt16]; omega
  have l4 : 4 + (writeUInt32 w).length ≤ m.bufferSize := by
    simp [writeUInt32, writeUInt16]; omega
  have l1 : 1 + [UInt8.ofNat device.value].length ≤ m.bufferSize := by simp; omega
  have l0 : 0 + [UInt8.ofNat packet.value].length ≤ m.bufferSize := by simp; omega
  have o := getData_owns hB hd
  have o2 := (o.poke l2).setOffset w
  have o4 := o2.poke l4
  have o1 := o4.poke l1
  refine ⟨o1.poke l0, hw.symm, fun past => ?_⟩
  -- the last write to a byte decides
  have hlast : ∀ i, PerHandleData.byteAt past (PerHandleData.poke _ 0 _) i = _ :=
    PerHandleData.byteAt_poke (o1.room l0)
  have hb := fun i => (hlast i).trans (congrArg _ ((PerHandleData.byteAt_poke (o4.room l1) i).trans
    (congrArg _ ((PerHandleData.byteAt_poke (o2.room l4) i).trans
      (congrArg _ (PerHandleData.byteAt_poke (o.room l2) i))))))
  generalize PerHandleData.byteAt past (PerHandleData.poke _ 0 _) = f at hb ⊢
  simp only [Packet.read, Packet.mk.injEq]
  refine ⟨?_, ?_, ?_, ?_⟩
  · simp [hb, Nat.mod_eq_of_lt packet.value_lt]
  · simp [hb, Nat.mod_eq_of_lt device.value_lt]
  · apply readUInt16_eq (by decide) <;> simp [hb, writeUInt16, packetSize]
  · rw [hw]
    apply readUInt32_eq hlt <;> simp [hb, writeUInt32, writeUInt16]

section Sized

variable (hs : m.Sized wholePacketSize packet device h)
include hs

/-- A payload behind the header leaves the header as it is. -/
theorem Sized.poke {pos : ℕ} {payload : List UInt8} (hpos : packetSize ≤ pos)
    (hroom : pos + payload.length ≤ m.bufferSize) :
    m.Sized wholePacketSize packet device (h.poke pos payload) where
  owns := hs.owns.poke hroom
  offset := hs.offset
  header past := by
    rw [← hs.header past]
    apply Packet.read_congr
    intro i hi
    rw [PerHandleData.byteAt_poke (hs.owns.room hroom), if_neg (by omega)]

theorem Sized.slice_length (hle : h.offset ≤ m.bufferSize) :
    (h.slice h.offset).length = h.offset :=
  PerHandleData.slice_length (by rw [hs.owns.block, hs.owns.front]; omega)

theorem Sized.headerOf_slice (hle : h.offset ≤ m.bufferSize) (h8 : packetSize ≤ h.offset) :
    headerOf (h.slice h.offset) =
      ⟨packet.value, device.value, packetSize, toUnsigned 32 wholePacketSize⟩ := by
  rw [← hs.header (fun _ => 0)]
  apply Packet.read_congr
  intro i hi
  have hroom : h.buffer + h.offset ≤ h.memory.length := by
    rw [hs.owns.block, hs.owns.front]
    omega
  rw [PerHandleData.byteAt_eq_slice hroom (by omega)]

/-- What is sent of a handle made for a packet is a packet, if it is not shorter than
its header. -/
theorem Sized.complete (hle : h.offset ≤ m.bufferSize) (h8 : packetSize ≤ h.offset) :
    Complete (h.slice h.offset) where
  hasHeader := by rw [hs.slice_length hle]; exact h8
  headerSize := by rw [hs.headerOf_slice hle h8]
  wholeSize := by rw [hs.headerOf_slice hle h8, hs.slice_length hle, hs.offset]

end Sized

end SendManager

end Xiaoxin
