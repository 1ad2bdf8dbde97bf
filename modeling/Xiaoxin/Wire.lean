import Xiaoxin.Exchange
import Xiaoxin.Messages

/-!
# Messages over a connection

`GetData` writes the members of `sMessageRoot` into a cleared buffer, the application
sets the members of its struct behind them, and what `PostSend` accepts is written to
the socket. On the other side `Receive` cuts the stream into packets, and the
application reads a packet through the same struct. Each message comes out with the
members it was given.
-/
namespace Xiaoxin
open Framing Layout Transition

/-- Set the members behind those of `sMessageRoot` through a pointer to the buffer. -/
def PerHandleData.setMembers {α : Type} (past : ℕ → UInt8) (h : PerHandleData) (body : Layout α)
    (v : α) : PerHandleData :=
  h.poke SendManager.messageRootSize
    (body.bytes v (view (h.byteAt past) SendManager.messageRootSize))

/-- A message, with the arguments that `GetData` is given for it. -/
structure TypedMessage where
  packet : EPacketType
  device : EDeviceType
  category : ℤ
  protocol : ℤ
  kind : Kind
  body : kind.Body

namespace TypedMessage

/-- `sizeof` of the struct. -/
def size (msg : TypedMessage) : ℕ := msg.kind.layout.size

/-- The members of `sMessageRoot` in a message. -/
def root (msg : TypedMessage) : SMessageRoot where
  packetType := BitVec.ofNat 8 msg.packet.value
  deviceType := BitVec.ofNat 8 msg.device.value
  thePacketHeaderSize := BitVec.ofNat 16 packetSize
  theWholePacketSize := BitVec.ofInt 32 msg.size
  messageTypeCategory := BitVec.ofInt 16 msg.category
  messageTypeProtocol := BitVec.ofInt 16 msg.protocol

/-- `GetData` for the message, and the members that the application sets in what it gets. -/
def handle (msg : TypedMessage) (sender : SendManager) (address : Option ℕ) (socket : Option Socket)
    (past : ℕ → UInt8) : Option PerHandleData :=
  (sender.getDataSized address socket msg.category msg.protocol msg.size msg.packet
    msg.device).map fun data => data.setMembers past msg.kind.body msg.body

/-- A handle that was made for a message. That the members fit into the buffer is left to
the application. -/
structure Made (sender : SendManager) (msg : TypedMessage) (h : PerHandleData) : Prop where
  fits : msg.size ≤ sender.bufferSize
  made : ∃ address socket past, msg.handle sender address socket past = some h

/-- What the application reads in a message that it is handed. -/
def ReadFrom (d : Delivery) (msg : TypedMessage) : Prop :=
  d.len = msg.size ∧ msg.kind.layout.load (ofBytes d.bytes) = (msg.root, msg.body)

/-! ## The members of `sMessageRoot` -/

/-- The struct and the numbers in it are read from the same bytes. -/
theorem toPacket_load (m : ℕ → UInt8) : (SPacket.layout.load m).toPacket = Packet.read m := by
  have hload : SPacket.layout.load m =
      ⟨uint8.load m, uint8.load (view m 1), uint16.load (view m 2), uint32.load (view m 4)⟩ := rfl
  simp only [hload, SPacket.toPacket, uint8, uint16, uint32, scalar_load_toNat, Packet.read]
  simp [littleEndian, readUInt16, readUInt32]
  ring

theorem toPacket_injective : Function.Injective SPacket.toPacket := by
  rintro ⟨t, d, hs, ws⟩ ⟨t', d', hs', ws'⟩ h
  obtain ⟨ht, hd, hh, hw⟩ := Packet.mk.injEq .. ▸ h
  rw [SPacket.mk.injEq]
  exact ⟨BitVec.eq_of_toNat_eq ht, BitVec.eq_of_toNat_eq hd, BitVec.eq_of_toNat_eq hh,
    BitVec.eq_of_toNat_eq hw⟩

variable {sender : SendManager} {address : Option ℕ} {socket : Option Socket}
  {category protocol wholePacketSize : ℤ} {packet : EPacketType} {device : EDeviceType}
  {data : PerHandleData}

/-- A write in front of a byte leaves it. -/
theorem byteAt_poke_behind {h : PerHandleData} {pos : ℕ} {bs : List UInt8} {past : ℕ → UInt8}
    (ho : sender.Owns h) (hroom : pos + bs.length ≤ sender.bufferSize) {i : ℕ}
    (hi : pos + bs.length ≤ i) : (h.poke pos bs).byteAt past i = h.byteAt past i := by
  rw [PerHandleData.byteAt_poke (ho.room hroom), if_neg (by omega)]

/-- The header is written in front of what `GetData` has written before. -/
theorem getDataSized_byteAt (hB : SendManager.messageRootSize ≤ sender.bufferSize)
    (hg : sender.getDataSized address socket category protocol wholePacketSize packet device =
      some data) : ∃ d, sender.getData address socket category protocol = some d ∧
    ∀ past i, packetSize ≤ i → data.byteAt past i = d.byteAt past i := by
  have h12 : SendManager.messageRootSize = 12 := rfl
  have h8 : packetSize = 8 := rfl
  obtain ⟨d, hd, rfl⟩ := Option.map_eq_some_iff.mp hg
  refine ⟨d, hd, fun past i hi => ?_⟩
  generalize toUnsigned 32 wholePacketSize = w
  have l2 : (writeUInt16 packetSize).length = 2 := rfl
  have l4 : (writeUInt32 w).length = 4 := rfl
  have l1 (b : UInt8) : [b].length = 1 := rfl
  have o := SendManager.getData_owns hB hd
  have o2 : sender.Owns ((d.poke 2 (writeUInt16 packetSize)).setOffset w) :=
    (o.poke (by omega)).setOffset w
  have o4 : sender.Owns (((d.poke 2 (writeUInt16 packetSize)).setOffset w).poke 4
    (writeUInt32 w)) := o2.poke (by omega)
  have o1 : sender.Owns ((((d.poke 2 (writeUInt16 packetSize)).setOffset w).poke 4
    (writeUInt32 w)).poke 1 [UInt8.ofNat device.value]) := o4.poke (by rw [l1]; omega)
  rw [byteAt_poke_behind o1 (by rw [l1]; omega) (by rw [l1]; omega),
    byteAt_poke_behind o4 (by rw [l1]; omega) (by rw [l1]; omega),
    byteAt_poke_behind o2 (by omega) (by omega)]
  exact byteAt_poke_behind o (by omega) (by omega)

/-- The four bytes behind the header. -/
theorem getData_byteAt (hB : SendManager.messageRootSize ≤ sender.bufferSize)
    (hg : sender.getData address socket category protocol = some data) (past : ℕ → UInt8)
    {i : ℕ} (hi : i < 4) : data.byteAt past (packetSize + i) =
      (writeUInt16 (toUnsigned 16 category) ++ writeUInt16 (toUnsigned 16 protocol)).getD i 0 := by
  have h12 : SendManager.messageRootSize = 12 := rfl
  have h8 : packetSize = 8 := rfl
  simp only [SendManager.getData, Option.map_eq_some_iff] at hg
  obtain ⟨d, hd, rfl⟩ := hg
  have l2 (n : ℕ) : (writeUInt16 n).length = 2 := rfl
  have o : sender.Owns d := by
    obtain ⟨a, -, rfl⟩ := Option.map_eq_some_iff.mp hd
    exact ⟨List.length_replicate, rfl⟩
  have o8 : sender.Owns (d.poke 8 (writeUInt16 (toUnsigned 16 category))) :=
    o.poke (by rw [l2]; omega)
  rw [PerHandleData.byteAt_poke (o8.room (by rw [l2]; omega)), l2, h8]
  rcases Nat.lt_or_ge i 2 with hlow | hhigh
  · rw [if_neg (by omega), List.getD_append _ _ _ _ (by rw [l2]; omega)]
    have hroom : d.buffer + 8 + (writeUInt16 (toUnsigned 16 category)).length ≤ d.memory.length :=
      o.room (by rw [l2]; omega)
    have hpoke := @PerHandleData.byteAt_poke past d _ _ hroom (8 + i)
    rw [l2, if_pos (by omega), Nat.add_sub_cancel_left] at hpoke
    exact hpoke
  · rw [if_pos (by omega), List.getD_append_right _ _ _ _ (by rw [l2]; omega), l2]
    congr 1
    omega

/-- What `toUnsigned` stores is the integer in that many bits. -/
theorem toNat_ofInt (bits : ℕ) (n : ℤ) : (BitVec.ofInt bits n).toNat = toUnsigned bits n :=
  BitVec.toNat_ofInt n

/-- A field that was written is loaded. -/
theorem load_uint16 {m : ℕ → UInt8} {n : ℤ} (h : ∀ i < 2,
    m i = (writeUInt16 (toUnsigned 16 n)).getD i 0) : uint16.load m = BitVec.ofInt 16 n := by
  refine scalar_load_eq (k := 2) fun i hi => ?_
  rw [h i hi, toNat_ofInt]
  interval_cases i <;> simp [writeUInt16]

/-- The members of `sMessageRoot` in a handle made for a message. -/
theorem load_root (hB : SendManager.messageRootSize ≤ sender.bufferSize)
    (hg : sender.getDataSized address socket category protocol wholePacketSize packet device =
      some data) (past : ℕ → UInt8) : SMessageRoot.layout.load (data.byteAt past) =
      ⟨⟨BitVec.ofNat 8 packet.value, BitVec.ofNat 8 device.value, BitVec.ofNat 16 packetSize,
        BitVec.ofInt 32 wholePacketSize⟩, BitVec.ofInt 16 category, BitVec.ofInt 16 protocol⟩ := by
  have h8 : packetSize = 8 := rfl
  obtain ⟨d, hd, hsame⟩ := getDataSized_byteAt hB hg
  have hbyte : ∀ i < 4, data.byteAt past (packetSize + i) = _ := fun i hi =>
    (hsame past _ (by omega)).trans (getData_byteAt hB hd past hi)
  have hload : SMessageRoot.layout.load (data.byteAt past) =
      ⟨SPacket.layout.load (data.byteAt past), uint16.load (view (data.byteAt past) 8),
        uint16.load (view (data.byteAt past) 10)⟩ := rfl
  have hcat : uint16.load (view (data.byteAt past) 8) = BitVec.ofInt 16 category := by
    refine load_uint16 fun i hi => ?_
    rw [view_apply, ← h8, hbyte i (by omega), List.getD_append _ _ _ _ hi]
  have hprot : uint16.load (view (data.byteAt past) 10) = BitVec.ofInt 16 protocol := by
    refine load_uint16 fun i hi => ?_
    rw [view_apply, show 10 + i = packetSize + (2 + i) by omega, hbyte _ (by omega),
      List.getD_append_right _ _ _ _ (Nat.le_add_right 2 i)]
    exact congrArg (fun k => List.getD _ k 0) (Nat.add_sub_cancel_left 2 i)
  have hpacket : SPacket.layout.load (data.byteAt past) =
      ⟨BitVec.ofNat 8 packet.value, BitVec.ofNat 8 device.value, BitVec.ofNat 16 packetSize,
        BitVec.ofInt 32 wholePacketSize⟩ := by
    apply toPacket_injective
    rw [toPacket_load, (SendManager.getDataSized_sized hB hg).header past]
    simp only [SPacket.toPacket, BitVec.toNat_ofNat, toNat_ofInt, Packet.mk.injEq]
    exact ⟨(Nat.mod_eq_of_lt packet.value_lt).symm, (Nat.mod_eq_of_lt device.value_lt).symm, rfl,
      trivial⟩
  rw [hload, hpacket, hcat, hprot]

/-! ## A handle made for a message -/

variable {msg : TypedMessage} {h : PerHandleData}

theorem size_eq (msg : TypedMessage) :
    msg.size = SendManager.messageRootSize + msg.kind.body.size := by
  show SMessageRoot.layout.offsetBehind 1 msg.kind.body + msg.kind.body.size = _
  rw [offsetBehind_one]
  rfl

/-- The size goes through the `int` that `GetData` takes unchanged. -/
theorem toUnsigned_size (hlt : msg.size < 4294967296) : toUnsigned 32 msg.size = msg.size := by
  rw [toUnsigned, ← Nat.cast_ofNat, ← Nat.cast_pow, ← Int.natCast_mod, Int.toNat_natCast]
  exact Nat.mod_eq_of_lt hlt

namespace Made

variable (hm : Made sender msg h)
include hm

theorem root_fits : SendManager.messageRootSize ≤ sender.bufferSize := by
  have := hm.fits
  rw [size_eq] at this
  omega

theorem size_lt : msg.size < 4294967296 := lt_of_le_of_lt hm.fits sender.unsigned

/-- It is a handle for a packet of the size of the struct. -/
theorem sized : sender.Sized msg.size msg.packet msg.device h := by
  have h12 : SendManager.messageRootSize = 12 := rfl
  have h8 : packetSize = 8 := rfl
  obtain ⟨address, socket, past, hh⟩ := hm.made
  obtain ⟨data, hg, rfl⟩ := Option.map_eq_some_iff.mp hh
  refine (SendManager.getDataSized_sized hm.root_fits hg).poke (by omega) ?_
  have := hm.fits
  rw [size_eq] at this
  rwa [length_bytes]

theorem offset : h.offset = msg.size := by
  rw [hm.sized.offset, toUnsigned_size hm.size_lt]

/-- It holds the members that `GetData` and the application have set. -/
theorem load (past : ℕ → UInt8) : msg.kind.layout.load (h.byteAt past) = (msg.root, msg.body) := by
  have hfits := hm.fits
  have hB := hm.root_fits
  rw [size_eq] at hfits
  obtain ⟨address, socket, past', hh⟩ := hm.made
  obtain ⟨data, hg, rfl⟩ := Option.map_eq_some_iff.mp hh
  have howns := (SendManager.getDataSized_sized hB hg).owns
  rw [PerHandleData.setMembers]
  have hlen : (msg.kind.body.bytes msg.body (view (data.byteAt past')
    SendManager.messageRootSize)).length = msg.kind.body.size := length_bytes
  have hload := load_bytes (L := msg.kind.body) (v := msg.body)
    (m := view (data.byteAt past') SendManager.messageRootSize)
  generalize msg.kind.body.bytes msg.body (view _ _) = bs at hlen hload ⊢
  have hroom : data.buffer + SendManager.messageRootSize + bs.length ≤ data.memory.length :=
    howns.room (by omega)
  have hbyte := @PerHandleData.byteAt_poke past data _ _ hroom
  have hroot : SMessageRoot.layout.load ((data.poke SendManager.messageRootSize bs).byteAt past) =
      msg.root := by
    refine (SMessageRoot.layout.load_congr fun i hi => ?_).trans (load_root hB hg past)
    have hi' : i < SendManager.messageRootSize := hi
    rw [hbyte, if_neg (by omega)]
  have hbody : msg.kind.body.load (view ((data.poke SendManager.messageRootSize bs).byteAt past)
      SendManager.messageRootSize) = msg.body := by
    rw [← hload]
    refine msg.kind.body.load_congr fun i hi => ?_
    rw [view_apply, hbyte, if_pos (by omega), Nat.add_sub_cancel_left, ofBytes]
  rw [Kind.layout, derived_load, hroot]
  exact congrArg _ hbody

/-- What is sent of it is a packet. -/
theorem complete (past : PerHandleData → ℕ → UInt8) : Complete (Sending.toSend past h) := by
  have h12 : SendManager.messageRootSize = 12 := rfl
  have h8 : packetSize = 8 := rfl
  have hsize := size_eq msg
  have hle : h.offset ≤ sender.bufferSize := hm.offset ▸ hm.fits
  rw [Sending.toSend, hm.sized.owns.bytes_eq_slice hle]
  exact hm.sized.complete hle (by rw [hm.offset]; omega)

/-- The application reads it in what was sent of it. -/
theorem readFrom {past : PerHandleData → ℕ → UInt8} {d : Delivery}
    (hb : d.bytes = Sending.toSend past h) (hl : d.len = d.bytes.length) : ReadFrom d msg := by
  refine ⟨by rw [hl, hb, Sending.toSend_length, hm.offset], ?_⟩
  rw [← hm.load (past h)]
  refine msg.kind.layout.load_congr fun i hi => ?_
  have hi' : i < h.offset := hm.offset ▸ hi
  rw [ofBytes, hb, Sending.toSend, List.getD_eq_getElem _ _ (by simpa using hi')]
  simp [PerHandleData.bytes]

end Made

/-- The bytes of an `int` as they are written one by one. -/
theorem bytes_int (v : BitVec 32) (m : ℕ → UInt8) : int.bytes v m = writeUInt32 v.toNat := by
  have hrange : List.range int.size = [0, 1, 2, 3] := rfl
  rw [Layout.bytes, hrange]
  simp [int, scalar, writeUInt32, writeUInt16, Nat.div_div_eq_div_mul]

/-- The message that `PostError` sends. -/
def error (packet : EPacketType) (device : EDeviceType) (category protocol errorcode : ℤ) :
    TypedMessage where
  packet := packet
  device := device
  category := category
  protocol := protocol
  kind := .messageError
  body := BitVec.ofInt 32 errorcode

theorem size_error (errorcode : ℤ) :
    (error packet device category protocol errorcode).size = SendManager.messageErrorSize := by
  rw [size_eq]
  rfl

theorem handle_error (errorcode : ℤ) (past : ℕ → UInt8) :
    (error packet device category protocol errorcode).handle sender address socket past =
      (sender.getDataSized address socket category protocol SendManager.messageErrorSize packet
        device).map fun data => data.poke 12 (writeUInt32 (toUnsigned 32 errorcode)) := by
  rw [handle, size_error]
  congr 1
  ext data
  rw [PerHandleData.setMembers]
  show data.poke 12 (int.bytes (BitVec.ofInt 32 errorcode) _) = _
  rw [bytes_int, toNat_ofInt]

/-- `PostError` posts a handle that was made for its message. -/
theorem postError_made {errorcode : ℤ} (hB : SendManager.messageErrorSize ≤ sender.bufferSize)
    (hr : (sender.postError address socket errorcode category protocol packet device).1 =
      .success) : ∃ d h,
    (sender.postError address socket errorcode category protocol packet device).2 =
      [.construct d, .asyncWriteSome h] ∧
    Made sender (error packet device category protocol errorcode) h := by
  simp only [SendManager.postError] at hr ⊢
  cases hg : sender.getDataSized address socket category protocol SendManager.messageErrorSize
      packet device with
  | none => simp [hg] at hr
  | some data =>
    simp only [hg] at hr ⊢
    obtain ⟨h, s, hh, -, -, hpost⟩ := SendManager.postSend_success hr
    rw [hpost]
    refine ⟨data, h, rfl, (size_error errorcode).trans_le hB, address, socket, fun _ => 0, ?_⟩
    rw [handle_error, hg, Option.map_some, hh]

/-! ## Across the wire -/

/-- Messages that arrive as they were sent are read one by one. -/
theorem forall₂_readFrom {past : PerHandleData → ℕ → UInt8} {ds : List Delivery}
    {hs : List PerHandleData} {msgs : List TypedMessage}
    (hmade : List.Forall₂ (Made sender) msgs hs)
    (hcar : Carries ds (hs.map (Sending.toSend past))) : List.Forall₂ ReadFrom ds msgs := by
  induction hmade generalizing ds with
  | nil => rw [List.map_eq_nil_iff.mp hcar.bytes]; exact .nil
  | cons hm _ ih =>
    obtain ⟨d, ds', rfl, hb, hbs⟩ := List.map_eq_cons_iff.mp hcar.bytes
    refine .cons (hm.readFrom hb (hcar.len d (List.mem_cons_self ..))) (ih ⟨hbs, fun x hx => ?_⟩)
    exact hcar.len x (List.mem_cons_of_mem d hx)

/-- Packets that were made for messages are well formed for a receiver that has room. -/
theorem wellFormed {past : PerHandleData → ℕ → UInt8} {receiver : ReceiveManager}
    {hs : List PerHandleData} {msgs : List TypedMessage}
    (hmade : List.Forall₂ (Made sender) msgs hs)
    (hfit : ∀ msg ∈ msgs, msg.size ≤ receiver.bufferSize) :
    Connection.WellFormed receiver (hs.map (Sending.toSend past)) := by
  induction hmade with
  | nil => exact fun p hp => absurd hp List.not_mem_nil
  | cons hm _ ih =>
    rw [List.map_cons]
    refine List.forall_mem_cons.mpr ⟨⟨hm.complete past, ?_⟩, ih fun msg hmsg => ?_⟩
    · rw [Sending.toSend_length, hm.offset]
      exact hfit _ (List.mem_cons_self ..)
    · exact hfit msg (List.mem_cons_of_mem _ hmsg)

/-- When a run of the sender has come to rest and every write was a full one, a receiver
between packets whose buffer holds the largest of the messages posted on a socket hands
them on one by one, in the order in which they were posted, each with all its members,
however the stream was cut on the way. What `PostError` posts is one of these messages. -/
theorem messages_delivered {past : PerHandleData → ℕ → UInt8} {ls : List Sending.Label}
    {sent : Sending} (hrun : exec (Sending.step sender past) Sending.start ls = some sent)
    (hq : sent.Quiet) (hfull : Along (Sending.step sender past) Sending.FullWrite Sending.start ls)
    {s : Socket} {msgs : List TypedMessage}
    (hmade : List.Forall₂ (Made sender) msgs (sent.outboxes s).accepted)
    {receiver : ReceiveManager} (hB : 0 < receiver.bufferSize)
    (hfit : ∀ msg ∈ msgs, msg.size ≤ receiver.bufferSize) {c d : Connection}
    (hc : c.BetweenPackets receiver) (hun : c.unread = (sent.outboxes s).written)
    {xs : List Completion} (hx : ∀ x ∈ xs, x.env.Sound)
    (hread : exec (Connection.step receiver) c xs = some d) (hf : d.Finished receiver) :
    (∃ ds, d.delivered = c.delivered ++ ds ∧ List.Forall₂ ReadFrom ds msgs) ∧
    ∀ (packet : EPacketType) (device : EDeviceType) (category protocol errorcode : ℤ)
      (address : Option ℕ) (socket : Option Socket),
      SendManager.messageErrorSize ≤ sender.bufferSize →
      (sender.postError address socket errorcode category protocol packet device).1 = .success →
      ∃ data h, (sender.postError address socket errorcode category protocol packet device).2 =
          [.construct data, .asyncWriteSome h] ∧
        Made sender (error packet device category protocol errorcode) h := by
  obtain ⟨ds, hds, hcar⟩ := Sending.packets_delivered hrun hq hfull (wellFormed hmade hfit) hB hc
    hun hx hread hf
  exact ⟨⟨ds, hds, forall₂_readFrom hmade hcar⟩, fun _ _ _ _ _ _ _ => postError_made⟩

instance (c : Sending) : ∀ l, Decidable (Sending.FullWrite c l)
  | .write s k => inferInstanceAs (Decidable (∀ h ∈ (c.outboxes s).pending.head?, k = h.offset))
  | .postSend _ => isTrue trivial
  | .sendComplete _ => isTrue trivial

/-- A heartbeat of a child server and one of the login server. -/
def heartbeats : List TypedMessage :=
  [⟨.child, .pc, 1, 7, .heartpacketReq, (100, 42)⟩,
    ⟨.login, .pc, 3, 1, .loginMiddleHeartReq, (9 : BitVec 64)⟩]

/-- Their handles. -/
def heartbeatHandles : List (Option PerHandleData) :=
  heartbeats.zipIdx.map fun x => x.1.handle ⟨32, by decide⟩ (some x.2) (some 0) fun _ => 0

/-- The sender posts both before it writes the first. -/
def heartbeatRun : List Sending.Label :=
  heartbeatHandles.map .postSend ++
    [.write 0 20, .write 0 20, .sendComplete 1, .sendComplete 0]

/-- The receiver is cut off in the header of the second. -/
def heartbeatReads : List Completion :=
  [⟨25, some 1, some 2, true, fun _ => 0⟩, ⟨15, some 3, some 4, true, fun _ => 0⟩]

theorem forall₂_made_heartbeats {hs : List PerHandleData} (h : hs.map some = heartbeatHandles) :
    List.Forall₂ (Made ⟨32, by decide⟩) heartbeats hs := by
  obtain ⟨h₁, hs, rfl, e₁, h⟩ := List.map_eq_cons_iff.mp h
  obtain ⟨h₂, hs, rfl, e₂, h⟩ := List.map_eq_cons_iff.mp h
  rw [List.map_eq_nil_iff.mp h]
  exact .cons ⟨by decide, _, _, _, e₁.symm⟩ (.cons ⟨by decide, _, _, _, e₂.symm⟩ .nil)

theorem messages_delivered_heartbeats :
    ∃ sent d, exec (Sending.step ⟨32, by decide⟩ fun _ _ => 0) Sending.start heartbeatRun =
        some sent ∧
      exec (Connection.step ⟨32, false, by decide⟩)
        (Connection.start ⟨32, false, by decide⟩ 0 5 (sent.outboxes 0).written false)
        heartbeatReads = some d ∧
      (∃ ds, d.delivered = [] ++ ds ∧ List.Forall₂ ReadFrom ds heartbeats) ∧
      ∃ data h, (SendManager.postError ⟨32, by decide⟩ (some 3) (some 0) 5 1 7 .child .pc).2 =
          [.construct data, .asyncWriteSome h] ∧
        Made ⟨32, by decide⟩ (error .child .pc 1 7 5) h := by
  have hrun : (exec (Sending.step ⟨32, by decide⟩ fun _ _ => 0) Sending.start heartbeatRun).map
      (fun sent => (((sent.outboxes 0).pending, sent.ended),
        (sent.outboxes 0).accepted.map some, (sent.outboxes 0).written)) =
      some (([], []), heartbeatHandles, heartbeatHandles.reduceOption.flatMap
        (Sending.toSend fun _ _ => 0)) := by decide +kernel
  have hread : (exec (Connection.step ⟨32, false, by decide⟩)
      (Connection.start ⟨32, false, by decide⟩ 0 5 (heartbeatHandles.reduceOption.flatMap
        (Sending.toSend fun _ _ => 0)) false) heartbeatReads).map
      (fun d => ((d.unread, d.shut), d.posted.map PerHandleData.offset)) =
      some (([], false), [0]) := by decide +kernel
  obtain ⟨sent, hsent, hv⟩ := Option.map_eq_some_iff.mp hrun
  obtain ⟨hpe, haw⟩ := Prod.mk.inj hv
  obtain ⟨hp, he⟩ := Prod.mk.inj hpe
  obtain ⟨ha, hw⟩ := Prod.mk.inj haw
  rw [← hw] at hread
  obtain ⟨d, hd, hv⟩ := Option.map_eq_some_iff.mp hread
  obtain ⟨hus, hoff⟩ := Prod.mk.inj hv
  obtain ⟨hu, hsh⟩ := Prod.mk.inj hus
  have hf : d.Finished ⟨32, false, by decide⟩ := by
    apply Connection.finished_of_waiting hu hsh
    intro h hm
    have h0 : h.offset = 0 := by
      have := List.mem_map_of_mem (f := PerHandleData.offset) hm
      rw [hoff] at this
      exact List.mem_singleton.mp this
    simp [ReceiveManager.room, h0]
  obtain ⟨hread, herror⟩ := messages_delivered hsent
    (Sending.quiet_of_one_socket 0 (by decide) hsent hp he) (by decide +kernel)
    (forall₂_made_heartbeats ha) (by decide) (by decide) (Connection.start_between _ 0 5 _) rfl
    (by decide) hd hf
  exact ⟨sent, d, hsent, hd, hread, herror _ _ _ _ _ _ _ (by decide) (by decide)⟩

end TypedMessage

end Xiaoxin
