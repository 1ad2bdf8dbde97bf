import Xiaoxin.Wire

/-!
# The list of child servers

The middle server answers `sChildServerListRes` with `_count` entries of its own
`sChildServerData`, whose first member is a pointer; the login server reads them as its
own, whose first member is an `int`. The two structs agree where a pointer has the size
of an `int`. With pointers of eight bytes they have the same size and the members lie
elsewhere.
-/
namespace Xiaoxin
open Layout

namespace TypedMessage

/-- The answer with the entries of a list. -/
def childServerList (packet : EPacketType) (device : EDeviceType) (category protocol : ℤ)
    {pointerSize : ℕ} (list : List (BitVec (8 * pointerSize) × SChildServerData)) :
    TypedMessage where
  packet := packet
  device := device
  category := category
  protocol := protocol
  kind := .childServerListRes (.middle pointerSize) list.length
  body := (BitVec.ofNat 32 list.length, ⟨list.toArray, List.size_toArray⟩)

/-- `_count`. -/
def readCount (m : ℕ → UInt8) : ℕ := ((derived uint32).load m).2.toNat

/-- The entries of `_list` up to `_count`. -/
def readList (server : Server) (m : ℕ → UInt8) : List (server.First × SChildServerData) :=
  let body : (Kind.childServerListRes server (readCount m)).Body :=
    ((Kind.childServerListRes server (readCount m)).layout.load m).2
  body.2.toList

variable {packet : EPacketType} {device : EDeviceType} {category protocol : ℤ}
  {pointerSize : ℕ} {list : List (BitVec (8 * pointerSize) × SChildServerData)} {d : Delivery}

/-- The count is found before the number of the entries is known. -/
theorem readCount_eq (h : ReadFrom d (childServerList packet device category protocol list))
    (hlen : list.length < 4294967296) : readCount (ofBytes d.bytes) = list.length := by
  have hload := h.2
  rw [Kind.layout, derived_load] at hload
  have hcount : uint32.load (view (ofBytes d.bytes) SMessageRoot.layout.size) =
      BitVec.ofNat 32 list.length := congrArg (fun x => (Prod.fst x.2 : BitVec 32)) hload
  rw [readCount, derived_load, hcount, BitVec.toNat_ofNat, Nat.mod_eq_of_lt hlen]

/-- The entries are found by the struct of the server that has sent them. -/
theorem readList_middle (h : ReadFrom d (childServerList packet device category protocol list))
    (hlen : list.length < 4294967296) :
    readList (.middle pointerSize) (ofBytes d.bytes) = list := by
  have hcount := readCount_eq h hlen
  rw [readList, hcount]
  exact congrArg (fun x => x.2.2.toList) h.2

/-- Every message is read from its own bytes. -/
theorem exists_readFrom (msg : TypedMessage) : ∃ d : Delivery,
    d.bytes = msg.kind.layout.bytes (msg.root, msg.body) (fun _ => 0) ∧ ReadFrom d msg := by
  let d : Delivery :=
    ⟨⟨0, none, msg.kind.layout.bytes (msg.root, msg.body) (fun _ => 0), 0, 0, 0⟩, msg.size⟩
  have hb : d.bytes = msg.kind.layout.bytes (msg.root, msg.body) fun _ => 0 :=
    List.take_of_length_le length_bytes.le
  refine ⟨d, hb, rfl, ?_⟩
  rw [hb]
  exact load_bytes

/-- One entry with a pointer from the upper half of the address space. -/
def highPointer : TypedMessage :=
  childServerList .middle .pc 0 0
    [((4294967296 : BitVec (8 * 8)), (SChildServerData.init (.middle 8)).2)]

/-- Its bytes in a buffer that was cleared before. -/
def highPointerBytes : List UInt8 :=
  highPointer.kind.layout.bytes (highPointer.root, highPointer.body) fun _ => 0

/-- Pointers of eight bytes shift the members: the upper half of the pointer is read for
the number of the database. -/
theorem readList_highPointer :
    (readList .login (ofBytes highPointerBytes)).map (fun e => e.2.databaseData.dbId) = [1] := by
  decide +kernel

/-- The login server finds each entry of the list in its place, with the pointer for an
index, if and only if the pointers of the middle server have the size of an `int`. -/
theorem readList_iff (hp : pointerSize = 4 ∨ pointerSize = 8) :
    (∀ (packet : EPacketType) (device : EDeviceType) (category protocol : ℤ)
      (list : List (BitVec (8 * pointerSize) × SChildServerData)) (d : Delivery),
      list.length < 4294967296 →
      ReadFrom d (childServerList packet device category protocol list) →
      readList .login (ofBytes d.bytes) =
        list.map fun e => ((e.1.setWidth 32 : BitVec 32), e.2)) ↔ pointerSize = 4 := by
  constructor
  · rcases hp with rfl | rfl
    · exact fun _ => rfl
    · intro h
      obtain ⟨d, hb, hd⟩ := exists_readFrom highPointer
      have hid := readList_highPointer
      rw [highPointerBytes, ← hb, h .middle .pc 0 0 _ d (by decide) hd] at hid
      exact absurd hid (by decide +kernel)
  · rintro rfl packet device category protocol list d hlen h
    have hid : (list.map fun e => ((e.1.setWidth 32 : BitVec 32), e.2)) = list := by
      refine (List.map_congr_left fun e _ => ?_).trans (List.map_id list)
      exact Prod.ext (BitVec.setWidth_eq e.1) rfl
    exact (readList_middle h hlen).trans hid.symm

/-- Two entries with pointers of the size of an `int`. -/
def twoEntries : List (BitVec (8 * 4) × SChildServerData) :=
  [(0x00a81230, (SChildServerData.init (.middle 4)).2),
    (0xfffe4000, { (SChildServerData.init (.middle 4)).2 with port := 8080, userCount := 3 })]

theorem readList_iff_int_pointer : ∃ d : Delivery,
    ReadFrom d (childServerList .middle .pc 0 0 twoEntries) ∧
    readList .login (ofBytes d.bytes) =
      twoEntries.map fun e => ((e.1.setWidth 32 : BitVec 32), e.2) := by
  obtain ⟨d, -, hd⟩ := exists_readFrom (childServerList .middle .pc 0 0 twoEntries)
  exact ⟨d, hd, (readList_iff (.inl rfl)).mpr rfl .middle .pc 0 0 _ d (by decide) hd⟩

end TypedMessage

end Xiaoxin
