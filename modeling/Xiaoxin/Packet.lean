import Xiaoxin.Framing
import Mathlib.Data.List.GetD

/-!
# Packets

The header of a packet is `sPacket`, packed to eight bytes: the packet type, the
device type, the size of the header in two bytes and the size of the whole packet
in four, both little endian. Memory is read through a byte function, so that the
same reader serves a receive buffer and a list of bytes.

`packetFramer` is the decision `ReceiveManager::Receive` takes on the bytes it
has, cleared of buffers and handles. It cuts by the announced whole size alone: a
frame may be shorter than a header.
-/
namespace Xiaoxin
open Framing

/-- `ePacketType`. -/
inductive EPacketType
  | none | middle | child | login | max
  deriving DecidableEq, Repr

def EPacketType.value : EPacketType → ℕ
  | none => 0
  | middle => 1
  | child => 2
  | login => 100
  | max => 101

theorem EPacketType.value_lt (packet : EPacketType) : packet.value < 256 := by
  cases packet <;> decide

/-- `eDeviceType`. -/
inductive EDeviceType
  | unknown | pc | android | ios | max
  deriving DecidableEq, Repr

def EDeviceType.value : EDeviceType → ℕ
  | unknown => 0
  | pc => 1
  | android => 2
  | ios => 3
  | max => 4

theorem EDeviceType.value_lt (device : EDeviceType) : device.value < 256 := by
  cases device <;> decide

/-- `PACKET_SIZE`. -/
def packetSize : ℕ := 8

/-- `sPacket`. -/
structure Packet where
  packetType : ℕ
  deviceType : ℕ
  thePacketHeaderSize : ℕ
  theWholePacketSize : ℕ
  deriving DecidableEq, Repr

def readUInt16 (m : ℕ → UInt8) (i : ℕ) : ℕ := (m i).toNat + 256 * (m (i + 1)).toNat

def readUInt32 (m : ℕ → UInt8) (i : ℕ) : ℕ := readUInt16 m i + 65536 * readUInt16 m (i + 2)

def writeUInt16 (n : ℕ) : List UInt8 := [UInt8.ofNat n, UInt8.ofNat (n / 256)]

def writeUInt32 (n : ℕ) : List UInt8 := writeUInt16 n ++ writeUInt16 (n / 65536)

/-- The value of an `unsigned __int32` after a store. -/
def u32 (n : ℕ) : ℕ := n % 4294967296

theorem u32_of_lt {n : ℕ} (h : n < 4294967296) : u32 n = n := Nat.mod_eq_of_lt h

/-- A field that was written to memory is read back. -/
theorem readUInt16_eq {m : ℕ → UInt8} {i n : ℕ} (hn : n < 65536) (h0 : m i = UInt8.ofNat n)
    (h1 : m (i + 1) = UInt8.ofNat (n / 256)) : readUInt16 m i = n := by
  rw [readUInt16, h0, h1, UInt8.toNat_ofNat', UInt8.toNat_ofNat']
  omega

theorem readUInt32_eq {m : ℕ → UInt8} {i n : ℕ} (hn : n < 4294967296)
    (h0 : m i = UInt8.ofNat n) (h1 : m (i + 1) = UInt8.ofNat (n / 256))
    (h2 : m (i + 2) = UInt8.ofNat (n / 65536))
    (h3 : m (i + 3) = UInt8.ofNat (n / 65536 / 256)) : readUInt32 m i = n := by
  rw [readUInt32, readUInt16, readUInt16, h0, h1, h2, h3]
  simp only [UInt8.toNat_ofNat']
  omega

/-- The header at the address that `m` counts from. -/
def Packet.read (m : ℕ → UInt8) : Packet where
  packetType := (m 0).toNat
  deviceType := (m 1).toNat
  thePacketHeaderSize := readUInt16 m 2
  theWholePacketSize := readUInt32 m 4

theorem Packet.read_congr {m m' : ℕ → UInt8} (h : ∀ i < packetSize, m i = m' i) :
    Packet.read m = Packet.read m' := by
  have h' : ∀ i < 8, m i = m' i := h
  simp only [Packet.read, readUInt16, readUInt32]
  rw [h' 0 (by omega), h' 1 (by omega), h' 2 (by omega), h' 3 (by omega), h' 4 (by omega),
    h' 5 (by omega), h' 6 (by omega), h' 7 (by omega)]

/-- The header at the front of a list of bytes. -/
def headerOf (w : List UInt8) : Packet := Packet.read (fun i => w.getD i 0)

theorem headerOf_append {w : List UInt8} (h : packetSize ≤ w.length) (x : List UInt8) :
    headerOf (w ++ x) = headerOf w := by
  apply Packet.read_congr
  intro i hi
  exact List.getD_append _ _ _ _ (by omega)

theorem headerOf_take {w : List UInt8} {k : ℕ} (hk : packetSize ≤ k) (hw : packetSize ≤ w.length) :
    headerOf (w.take k) = headerOf w := by
  have h : packetSize ≤ (w.take k).length := by simp only [List.length_take]; omega
  rw [← headerOf_append h (w.drop k), List.take_append_drop]

/-- A packet with its header: what a sender means by a packet. -/
structure Complete (p : List UInt8) : Prop where
  hasHeader : packetSize ≤ p.length
  headerSize : (headerOf p).thePacketHeaderSize = packetSize
  wholeSize : (headerOf p).theWholePacketSize = p.length

theorem complete_iff (p : List UInt8) :
    Complete p ↔ packetSize ≤ p.length ∧ (headerOf p).thePacketHeaderSize = packetSize ∧
      (headerOf p).theWholePacketSize = p.length :=
  ⟨fun h => ⟨h.hasHeader, h.headerSize, h.wholeSize⟩, fun h => ⟨h.1, h.2.1, h.2.2⟩⟩

instance (p : List UInt8) : Decidable (Complete p) := decidable_of_iff _ (complete_iff p).symm

/-! ## Framing by the header -/

def packetVerdict (w : List UInt8) : Verdict :=
  if w.length < packetSize then .more
  else if (headerOf w).thePacketHeaderSize ≠ packetSize then .stop
  else if 0 < (headerOf w).theWholePacketSize ∧ (headerOf w).theWholePacketSize ≤ w.length then
    .frame (headerOf w).theWholePacketSize
  else .more

theorem packetVerdict_frame {w : List UInt8} {k : ℕ} :
    packetVerdict w = .frame k ↔ packetSize ≤ w.length ∧
      (headerOf w).thePacketHeaderSize = packetSize ∧
      (headerOf w).theWholePacketSize = k ∧ 0 < k ∧ k ≤ w.length := by
  simp only [packetVerdict]
  split_ifs with h1 h2 h3
  · simp only [false_iff]
    omega
  · simp only [false_iff]
    tauto
  · simp only [Verdict.frame.injEq]
    constructor
    · rintro rfl
      exact ⟨by omega, by tauto, rfl, h3⟩
    · tauto
  · simp only [false_iff]
    rintro ⟨-, -, rfl, hk⟩
    exact h3 hk

theorem packetVerdict_stop {w : List UInt8} :
    packetVerdict w = .stop ↔
      packetSize ≤ w.length ∧ (headerOf w).thePacketHeaderSize ≠ packetSize := by
  simp only [packetVerdict]
  split_ifs with h1 h2 h3
  · simp only [false_iff]
    omega
  · simp only [true_iff]
    exact ⟨by omega, h2⟩
  · simp only [false_iff]
    tauto
  · simp only [false_iff]
    tauto

theorem packetVerdict_ne_last {w : List UInt8} {k : ℕ} : packetVerdict w ≠ .last k := by
  simp only [packetVerdict]
  split_ifs <;> simp

/-- Cutting a byte stream by the sizes that its headers announce. -/
def packetFramer : Framer UInt8 where
  verdict := packetVerdict
  frame_bounds h := (packetVerdict_frame.mp h).2.2.2
  last_bound h := absurd h packetVerdict_ne_last
  stable {w} x h := by
    cases hv : packetVerdict w with
    | more => exact absurd hv h
    | last k => exact absurd hv packetVerdict_ne_last
    | stop =>
      obtain ⟨hw, hs⟩ := packetVerdict_stop.mp hv
      rw [packetVerdict_stop, headerOf_append hw]
      exact ⟨by simp only [List.length_append]; omega, hs⟩
    | frame k =>
      obtain ⟨hw, hs, hk, hpos, hle⟩ := packetVerdict_frame.mp hv
      rw [packetVerdict_frame, headerOf_append hw]
      exact ⟨by simp only [List.length_append]; omega, hs, hk, hpos,
        by simp only [List.length_append]; omega⟩

@[simp] theorem packetFramer_verdict (w : List UInt8) :
    packetFramer.verdict w = packetVerdict w := rfl

theorem Complete.verdict {p : List UInt8} (h : Complete p) :
    packetVerdict p = .frame p.length := by
  have h8 : 0 < packetSize := by decide
  exact packetVerdict_frame.mpr
    ⟨h.hasHeader, h.headerSize, h.wholeSize, lt_of_lt_of_le h8 h.hasHeader, le_rfl⟩

end Xiaoxin
