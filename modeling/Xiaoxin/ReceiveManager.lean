import Xiaoxin.SendOrRecvMngBase

/-!
# The receive manager

`AsynReceive` is the handler of a completed receive. It cuts the bytes it has into
packets, gives all but the last to `DoData` at once and the last to the message
queue, and posts the next receive: on a fresh handle when nothing is left over, on
a handle that holds a copy of the remainder otherwise.

The first half of the file is the code. The second half says what a call does in
terms of `packetFramer`: what it delivers (`handle_carries`), what it posts
(`handle_posts`) and when it closes the socket (`handle_closes`).
-/
namespace Xiaoxin
open Framing SendOrRecvMngBase

/-- A receive manager. Its message queue has the same buffer size. -/
structure ReceiveManager where
  bufferSize : ℕ
  /-- Whether `_socket_manager` is set. -/
  hasSocketManager : Bool
  /-- `_buffer_size` is an `unsigned int`. -/
  unsigned : bufferSize < 4294967296

/-- What the calls made by one handler answer. -/
structure Env where
  /-- The handle `MessageQueue::GetData` finds, if any. -/
  queueAlloc : Option ℕ
  /-- The handle `ReceiveManager::GetData` finds, if any. -/
  recvAlloc : Option ℕ
  isOpen : Bool
  /-- What lies behind the receive buffer. -/
  past : ℕ → UInt8

namespace ReceiveManager

/-- The constructor leaves `_socket_manager` null. -/
def new (recvBufferSize : ℕ) (h : recvBufferSize < 4294967296) : ReceiveManager :=
  ⟨recvBufferSize, false, h⟩

def setSocketManager (m : ReceiveManager) (socketManager : Bool) : ReceiveManager :=
  { m with hasSocketManager := socketManager }

variable (m : ReceiveManager) (env : Env)

def closeSocket : Option Socket → List Effect
  | none => []
  | some s => .closeSocket s :: if m.hasSocketManager then SocketManager.socketClosed s else []

def dispatch (handledata : PerHandleData) : List Effect :=
  [.doData handledata handledata.offset]

/-- `MessageQueue::Add`. When there is no handle for the copy the message is
dispatched at once. -/
def add (data : PerHandleData) : List Effect :=
  match getData m.bufferSize env.queueAlloc data.socket with
  | none => dispatch data
  | some tmpData => [.construct tmpData, .pushFront (tmpData.assign env.past data)]

/-- `PostReceive(socket)`. -/
def postReceive (socket : Option Socket) : List Effect :=
  if env.isOpen = false then m.closeSocket socket
  else
    match getData m.bufferSize env.recvAlloc socket with
    | none => []
    | some tmpPerHandledata => [.construct tmpPerHandledata, .asyncReceive tmpPerHandledata]

/-- `PostReceive(handledata)`. -/
def postReceiveHandle (handledata : PerHandleData) : List Effect :=
  if env.isOpen = false then m.closeSocket handledata.socket
  else [.asyncReceive handledata]

/-- The label `FALG_4` in `Receive`: copy what is left to a new handle and go on
receiving behind it. -/
def flag4 (handledata : PerHandleData) : List Effect :=
  match getData m.bufferSize env.recvAlloc handledata.socket with
  | none => []
  | some tmpPerHandledata =>
    .construct tmpPerHandledata ::
      m.postReceiveHandle env
        { tmpPerHandledata with
          memory := overwrite tmpPerHandledata.memory tmpPerHandledata.buffer
            (handledata.bytes env.past handledata.offset)
          offset := handledata.offset }

/-- What `Receive` did, the handle as it leaves it, and its result. -/
structure Received where
  effects : List Effect
  handledata : PerHandleData
  result : Bool
  deriving DecidableEq, Repr

/-- The loop of `Receive`. The source also counts `bytes_transferred` down in its
third branch, and does not read it again. -/
def receiveLoop (handledata : PerHandleData) : Received :=
  let tmpPacket := Packet.read (handledata.byteAt env.past)
  if handledata.offset < packetSize then ⟨m.flag4 env handledata, handledata, false⟩
  else if tmpPacket.thePacketHeaderSize ≠ packetSize then ⟨[], handledata, false⟩
  else if tmpPacket.theWholePacketSize = handledata.offset then
    ⟨m.add env handledata, handledata, true⟩
  else if handledata.offset < tmpPacket.theWholePacketSize then
    ⟨m.flag4 env handledata, handledata, false⟩
  else if _h : handledata.offset > tmpPacket.theWholePacketSize ∧
      tmpPacket.theWholePacketSize ≠ 0 then
    let r := receiveLoop (handledata.advance tmpPacket.theWholePacketSize)
    { r with effects := .doData handledata tmpPacket.theWholePacketSize :: r.effects }
  else ⟨m.flag4 env handledata, handledata, false⟩
termination_by handledata.offset
decreasing_by
  change handledata.offset - tmpPacket.theWholePacketSize < handledata.offset
  omega

def receive (handledata : PerHandleData) (bytesTransferred : ℕ) : Received :=
  if bytesTransferred = 0 then ⟨m.add env handledata, handledata, false⟩
  else m.receiveLoop env handledata

/-- `AsynReceive`. The error code is not looked at. -/
def asynReceive (handledata : PerHandleData) (bytesTransferred : ℕ) : List Effect :=
  let tmpPtr := handledata.buffer
  let r := m.receive env
    { handledata with offset := u32 (handledata.offset + bytesTransferred) } bytesTransferred
  r.effects ++
    (if r.result then m.postReceive env r.handledata.socket else []) ++
    releaseMemory m.closeSocket { r.handledata with buffer := tmpPtr }

end ReceiveManager

/-! ## What a list of effects delivers, posts and closes -/

/-- A message as it is handed on: the handle and how many bytes of it count. -/
structure Delivery where
  handledata : PerHandleData
  len : ℕ
  deriving DecidableEq, Repr

def Delivery.bytes (d : Delivery) : List UInt8 := d.handledata.slice d.len

/-- A direct call of `DoData`, or a handle put in the message queue, which a worker
passes on with its `_offset`. -/
@[simp] def Effect.delivery? : Effect → Option Delivery
  | .doData h bytesTransferred => some ⟨h, bytesTransferred⟩
  | .pushFront h => some ⟨h, h.offset⟩
  | _ => none

@[simp] def Effect.post? : Effect → Option PerHandleData
  | .asyncReceive h => some h
  | _ => none

@[simp] def Effect.closes : Effect → Bool
  | .closeSocket _ => true
  | _ => false

def deliveries (es : List Effect) : List Delivery := es.filterMap Effect.delivery?

def posts (es : List Effect) : List PerHandleData := es.filterMap Effect.post?

def closes (es : List Effect) : Bool := es.any Effect.closes

/-- The deliveries carry these byte strings, each with its length. -/
structure Carries (ds : List Delivery) (frames : List (List UInt8)) : Prop where
  bytes : ds.map Delivery.bytes = frames
  len : ∀ d ∈ ds, d.len = d.bytes.length

theorem Carries.nil : Carries [] [] := ⟨rfl, by simp⟩

theorem Carries.append {ds es : List Delivery} {fs gs : List (List UInt8)} (h : Carries ds fs)
    (h' : Carries es gs) : Carries (ds ++ es) (fs ++ gs) where
  bytes := by rw [List.map_append, h.bytes, h'.bytes]
  len d hd := (List.mem_append.mp hd).elim (h.len d) (h'.len d)

theorem Carries.single {d : Delivery} {f : List UInt8} (hb : d.bytes = f)
    (hl : d.len = f.length) : Carries [d] [f] where
  bytes := by simp [hb]
  len e he := by rw [List.mem_singleton.mp he, hb, hl]

section Projections

variable (es fs : List Effect) (h : PerHandleData) (n : ℕ) (s : Socket) (e : ESocketEvent)

@[simp] theorem deliveries_nil : deliveries [] = [] := rfl
@[simp] theorem posts_nil : posts [] = [] := rfl
@[simp] theorem closes_nil : closes [] = false := rfl

@[simp] theorem deliveries_append : deliveries (es ++ fs) = deliveries es ++ deliveries fs :=
  List.filterMap_append

@[simp] theorem posts_append : posts (es ++ fs) = posts es ++ posts fs := List.filterMap_append

@[simp] theorem closes_append : closes (es ++ fs) = (closes es || closes fs) := List.any_append

@[simp] theorem deliveries_cons (x : Effect) :
    deliveries (x :: es) = x.delivery?.toList ++ deliveries es := by
  cases x <;> rfl

@[simp] theorem posts_cons (x : Effect) : posts (x :: es) = x.post?.toList ++ posts es := by
  cases x <;> rfl

@[simp] theorem closes_cons (x : Effect) : closes (x :: es) = (x.closes || closes es) := rfl

end Projections

namespace ReceiveManager

variable (m : ReceiveManager) (env : Env)

/-- A receive handle that holds `rest` at the start of its buffer and nothing else. -/
def holding (address : ℕ) (socket : Option Socket) (rest : List UInt8) : PerHandleData where
  address := address
  socket := socket
  memory := rest ++ List.replicate (m.bufferSize - rest.length) 0
  buffer := 0
  bufferSize := m.bufferSize
  offset := rest.length

/-- The receive that is posted when `rest` is left over, if one can be posted. -/
def nextReceive (socket : Option Socket) (rest : List UInt8) : List PerHandleData :=
  if env.isOpen then (env.recvAlloc.map fun a => m.holding a socket rest).toList else []

variable {m env}

theorem nextReceive_length (s : Option Socket) (rest : List UInt8) :
    (m.nextReceive env s rest).length ≤ 1 := by
  unfold nextReceive
  split_ifs
  · cases env.recvAlloc <;> simp
  · simp

theorem mem_nextReceive {s : Option Socket} {rest : List UInt8} {p : PerHandleData}
    (hp : p ∈ m.nextReceive env s rest) : ∃ a, p = m.holding a s rest := by
  unfold nextReceive at hp
  split_ifs at hp
  · obtain ⟨a, -, ha⟩ := Option.map_eq_some_iff.mp (Option.mem_toList.mp hp)
    exact ⟨a, ha.symm⟩
  · cases hp

@[simp] theorem holding_socket (a : ℕ) (s : Option Socket) (rest : List UInt8) :
    (m.holding a s rest).socket = s := rfl

@[simp] theorem holding_offset (a : ℕ) (s : Option Socket) (rest : List UInt8) :
    (m.holding a s rest).offset = rest.length := rfl

theorem holding_window (a : ℕ) (s : Option Socket) (rest : List UInt8) :
    (m.holding a s rest).window = rest := by
  simp [holding, PerHandleData.window, PerHandleData.slice]

theorem holding_inBuffer {rest : List UInt8} (h : rest.length ≤ m.bufferSize) (a : ℕ)
    (s : Option Socket) : (m.holding a s rest).InBuffer m.bufferSize where
  block := by simp only [holding, List.length_append, List.length_replicate]; omega
  known := rfl
  bound := by simpa [holding] using h

theorem getData_eq (a : ℕ) (s : Option Socket) :
    getData m.bufferSize (some a) s = some (m.holding a s []) := by
  simp [getData, holding]

theorem getData_none (s : Option Socket) : getData m.bufferSize none s = none := rfl

/-- Bytes written behind those received and counted by `_offset`. -/
theorem holding_fill (a : ℕ) (s : Option Socket) {rest data : List UInt8}
    (h : rest.length + data.length ≤ m.bufferSize) :
    { (m.holding a s rest).fill data with offset := u32 (rest.length + data.length) } =
      m.holding a s (rest ++ data) := by
  have hu : u32 (rest.length + data.length) = rest.length + data.length :=
    u32_of_lt (lt_of_le_of_lt h m.unsigned)
  have hd : m.bufferSize - rest.length - data.length =
      m.bufferSize - (rest.length + data.length) := by omega
  simp [holding, PerHandleData.fill, overwrite, hu, List.drop_append, hd]

/-- The handle `FALG_4` makes. -/
theorem flag4_handle (past : ℕ → UInt8) (a : ℕ) {h : PerHandleData}
    (hb : h.InBuffer m.bufferSize) :
    { m.holding a h.socket [] with
      memory := overwrite (m.holding a h.socket []).memory (m.holding a h.socket []).buffer
        (h.bytes past h.offset)
      offset := h.offset } = m.holding a h.socket h.window := by
  have hw : h.bytes past h.offset = h.window :=
    PerHandleData.bytes_eq_slice (by rw [hb.block]; exact hb.bound)
  simp [holding, overwrite, hw, hb.window_length]

/-- The copy in the message queue. -/
theorem assign_slice (past : ℕ → UInt8) (a : ℕ) (s : Option Socket) {h : PerHandleData}
    (hb : h.InBuffer m.bufferSize) :
    ((m.holding a s []).assign past h).slice h.offset = h.window := by
  have hfresh : m.holding a s [] = fresh m.bufferSize a s := by simp [holding, fresh]
  rw [hfresh]
  exact SendOrRecvMngBase.assign_slice past a s hb

/-! ## The single calls -/

@[simp] theorem closeSocket_deliveries (s : Option Socket) : deliveries (m.closeSocket s) = [] := by
  cases s with
  | none => rfl
  | some s =>
    simp only [closeSocket]
    split <;> rfl

@[simp] theorem closeSocket_posts (s : Option Socket) : posts (m.closeSocket s) = [] := by
  cases s with
  | none => rfl
  | some s =>
    simp only [closeSocket]
    split <;> rfl

@[simp] theorem closeSocket_closes (s : Option Socket) :
    closes (m.closeSocket s) = s.isSome := by
  cases s <;> rfl

theorem add_carries (env : Env) {h : PerHandleData} (hb : h.InBuffer m.bufferSize) :
    Carries (deliveries (m.add env h)) [h.window] := by
  cases ha : env.queueAlloc with
  | none =>
    simp only [add, ha, getData_none, dispatch]
    exact Carries.single rfl hb.window_length.symm
  | some a =>
    simp only [add, ha, getData_eq]
    exact Carries.single (assign_slice env.past a h.socket hb) hb.window_length.symm

@[simp] theorem add_posts (h : PerHandleData) : posts (m.add env h) = [] := by
  cases ha : env.queueAlloc <;> simp [add, ha, getData_none, getData_eq, dispatch]

@[simp] theorem add_closes (h : PerHandleData) : closes (m.add env h) = false := by
  cases ha : env.queueAlloc <;> simp [add, ha, getData_none, getData_eq, dispatch]

@[simp] theorem postReceive_deliveries (s : Option Socket) :
    deliveries (m.postReceive env s) = [] := by
  simp only [postReceive]
  split_ifs
  · simp
  · cases env.recvAlloc <;> rfl

theorem postReceive_posts (s : Option Socket) :
    posts (m.postReceive env s) = m.nextReceive env s [] := by
  cases ho : env.isOpen <;> cases ha : env.recvAlloc <;>
    simp [postReceive, nextReceive, ho, ha, getData_none, getData_eq]

theorem postReceive_closes (s : Socket) :
    closes (m.postReceive env (some s)) = !env.isOpen := by
  cases ho : env.isOpen <;> cases ha : env.recvAlloc <;>
    simp [postReceive, ho, ha, getData_none, getData_eq]

@[simp] theorem flag4_deliveries (h : PerHandleData) : deliveries (m.flag4 env h) = [] := by
  cases ho : env.isOpen <;> cases ha : env.recvAlloc <;>
    simp [flag4, postReceiveHandle, ho, ha, getData_none, getData_eq]

theorem flag4_posts {h : PerHandleData} (hb : h.InBuffer m.bufferSize) :
    posts (m.flag4 env h) = m.nextReceive env h.socket h.window := by
  cases ha : env.recvAlloc with
  | none => simp [flag4, nextReceive, ha, getData_none]
  | some a =>
    cases ho : env.isOpen with
    | false => simp [flag4, nextReceive, postReceiveHandle, ho, ha, getData_eq]
    | true =>
      simp only [flag4, nextReceive, postReceiveHandle, ho, ha, getData_eq, posts_cons,
        Effect.post?, Bool.true_eq_false, if_false, if_true, Option.toList_none,
        Option.toList_some, List.nil_append, Option.map_some, posts_nil]
      exact congrArg (· :: []) (flag4_handle env.past a hb)

theorem flag4_closes {h : PerHandleData} {s : Socket} (hs : h.socket = some s) :
    closes (m.flag4 env h) = (env.recvAlloc.isSome && !env.isOpen) := by
  cases ho : env.isOpen <;> cases ha : env.recvAlloc <;>
    simp [flag4, postReceiveHandle, ho, ha, hs, getData_none, getData_eq, holding]

/-! ## The loop -/

variable (env)

section Loop

variable {h : PerHandleData} (hb : h.InBuffer m.bufferSize)
include hb

theorem receiveLoop_more (hv : packetVerdict h.window = .more) :
    m.receiveLoop env h = ⟨m.flag4 env h, h, false⟩ := by
  have h0 : packetSize = 8 := rfl
  rw [receiveLoop]
  simp only [packetVerdict, hb.window_length] at hv
  split_ifs at hv with h8 hs hz
  · simp [h8]
  · rw [hb.read_eq (by omega)]
    simp only [if_neg h8, if_neg hs]
    rw [if_neg (by omega)]
    split_ifs with h1 h2
    · rfl
    · omega
    · rfl

theorem receiveLoop_stop (hv : packetVerdict h.window = .stop) :
    m.receiveLoop env h = ⟨[], h, false⟩ := by
  obtain ⟨h8, hs⟩ := packetVerdict_stop.mp hv
  rw [hb.window_length] at h8
  rw [receiveLoop]
  simp only [hb.read_eq h8, if_neg (not_lt.mpr h8), if_pos hs]

theorem receiveLoop_exact (hv : packetVerdict h.window = .frame h.offset) :
    m.receiveLoop env h = ⟨m.add env h, h, true⟩ := by
  obtain ⟨h8, hs, hk, -⟩ := packetVerdict_frame.mp hv
  rw [hb.window_length] at h8
  rw [receiveLoop]
  simp only [hb.read_eq h8, if_neg (not_lt.mpr h8), hs, hk, ne_eq, not_true_eq_false, if_false,
    if_true]

theorem receiveLoop_frame {k : ℕ} (hv : packetVerdict h.window = .frame k) (hk : k ≠ h.offset) :
    m.receiveLoop env h =
      { m.receiveLoop env (h.advance k) with
        effects := .doData h k :: (m.receiveLoop env (h.advance k)).effects } := by
  obtain ⟨h8, hs, hw, hpos, hle⟩ := packetVerdict_frame.mp hv
  rw [hb.window_length] at h8 hle
  conv_lhs => rw [receiveLoop]
  simp only [hb.read_eq h8, if_neg (not_lt.mpr h8), hs, hw, ne_eq, not_true_eq_false, if_false,
    if_neg hk]
  rw [if_neg (by omega), dif_pos (by omega)]

end Loop

/-- Induction along the loop: the verdict on the bytes that are left decides which
branch is taken, and the third branch goes on with fewer bytes. -/
theorem loop_induction {motive : (h : PerHandleData) → h.InBuffer m.bufferSize → Prop}
    (more : ∀ h hb, packetVerdict h.window = .more → motive h hb)
    (stop : ∀ h hb, packetVerdict h.window = .stop → motive h hb)
    (exact : ∀ h hb, packetVerdict h.window = .frame h.offset → motive h hb)
    (frame : ∀ h hb k, packetVerdict h.window = .frame k → 0 < k → (hk : k < h.offset) →
      motive (h.advance k) (hb.advance hk.le) → motive h hb)
    (h : PerHandleData) (hb : h.InBuffer m.bufferSize) : motive h hb := by
  induction hn : h.offset using Nat.strong_induction_on generalizing h with
  | _ n ih =>
    subst hn
    cases hv : packetVerdict h.window with
    | more => exact more h hb hv
    | stop => exact stop h hb hv
    | last k => exact absurd hv packetVerdict_ne_last
    | frame k =>
      obtain ⟨-, -, -, hpos, hle⟩ := packetVerdict_frame.mp hv
      rw [hb.window_length] at hle
      by_cases hk : k = h.offset
      · exact exact h hb (hk ▸ hv)
      · have hlt : k < h.offset := by omega
        refine frame h hb k hv hpos hlt (ih _ ?_ _ _ rfl)
        rw [PerHandleData.advance_offset]
        omega

/-- The loop steps over received bytes only, and never over the last of them. -/
theorem receiveLoop_handledata {h : PerHandleData} (hb : h.InBuffer m.bufferSize)
    (h0 : 0 < h.offset) :
    ∃ k < h.offset, (m.receiveLoop env h).handledata = h.advance k := by
  have hz : ∀ g : PerHandleData, g = g.advance 0 := fun g => rfl
  induction h, hb using loop_induction with
  | more h hb hv => exact ⟨0, h0, by rw [receiveLoop_more env hb hv]; exact hz h⟩
  | stop h hb hv => exact ⟨0, h0, by rw [receiveLoop_stop env hb hv]; exact hz h⟩
  | exact h hb hv => exact ⟨0, h0, by rw [receiveLoop_exact env hb hv]; exact hz h⟩
  | frame h hb k hv hpos hlt ih =>
    obtain ⟨j, hj, he⟩ := ih (by rw [PerHandleData.advance_offset]; omega)
    rw [PerHandleData.advance_offset] at hj
    refine ⟨k + j, by omega, ?_⟩
    rw [receiveLoop_frame env hb hv (by omega)]
    exact he.trans (PerHandleData.advance_advance j k)

/-- What the loop hands on are the frames of the received bytes. -/
theorem receiveLoop_carries {h : PerHandleData} (hb : h.InBuffer m.bufferSize) :
    Carries (deliveries (m.receiveLoop env h).effects) (packetFramer.drain h.window).frames := by
  induction h, hb using loop_induction with
  | more h hb hv =>
    rw [receiveLoop_more env hb hv, packetFramer.drain_more hv]
    simpa using Carries.nil
  | stop h hb hv =>
    rw [receiveLoop_stop env hb hv, packetFramer.drain_stop hv]
    exact Carries.nil
  | exact h hb hv =>
    rw [receiveLoop_exact env hb hv, packetFramer.drain_frame hv, ← hb.window_length,
      List.drop_length, List.take_length, packetFramer.drain_more (w := []) (by rfl)]
    exact add_carries env hb
  | frame h hb k hv hpos hlt ih =>
    rw [receiveLoop_frame env hb hv (by omega), packetFramer.drain_frame hv, ← h.window_advance]
    simp only [deliveries_cons, Effect.delivery?, Option.toList_some]
    refine Carries.append (Carries.single ?_ ?_) ih
    · simp only [Delivery.bytes, PerHandleData.window, PerHandleData.slice, List.take_take]
      congr 1
      omega
    · simp only [List.length_take, hb.window_length]
      omega

/-- `Receive` returns true when nothing is left over. -/
theorem receiveLoop_result {h : PerHandleData} (hb : h.InBuffer m.bufferSize)
    (h0 : 0 < h.offset) :
    (m.receiveLoop env h).result = true ↔
      (packetFramer.drain h.window).outcome = .waiting [] := by
  induction h, hb using loop_induction with
  | more h hb hv =>
    have hne : h.window ≠ [] := by
      rw [← List.length_pos_iff, hb.window_length]
      exact h0
    simp [receiveLoop_more env hb hv, packetFramer.drain_more hv, hne]
  | stop h hb hv => simp [receiveLoop_stop env hb hv, packetFramer.drain_stop hv]
  | exact h hb hv =>
    rw [receiveLoop_exact env hb hv, packetFramer.drain_frame hv, ← hb.window_length,
      List.drop_length, packetFramer.drain_more (w := []) (by rfl)]
    simp
  | frame h hb k hv hpos hlt ih =>
    rw [receiveLoop_frame env hb hv (by omega), packetFramer.drain_frame hv, ← h.window_advance]
    exact ih (by rw [PerHandleData.advance_offset]; omega)

/-- The loop itself posts a receive when something is left over. -/
theorem receiveLoop_posts {h : PerHandleData} (hb : h.InBuffer m.bufferSize)
    (h0 : 0 < h.offset) :
    posts (m.receiveLoop env h).effects =
      match (packetFramer.drain h.window).outcome with
      | .waiting r => if r = [] then [] else m.nextReceive env h.socket r
      | .ended => [] := by
  induction h, hb using loop_induction with
  | more h hb hv =>
    have hne : h.window ≠ [] := by
      rw [← List.length_pos_iff, hb.window_length]
      exact h0
    rw [receiveLoop_more env hb hv, packetFramer.drain_more hv, flag4_posts hb]
    simp [hne]
  | stop h hb hv => rw [receiveLoop_stop env hb hv, packetFramer.drain_stop hv]; rfl
  | exact h hb hv =>
    rw [receiveLoop_exact env hb hv, packetFramer.drain_frame hv, ← hb.window_length,
      List.drop_length, packetFramer.drain_more (w := []) (by rfl)]
    simp
  | frame h hb k hv hpos hlt ih =>
    rw [receiveLoop_frame env hb hv (by omega), packetFramer.drain_frame hv, ← h.window_advance]
    simpa using ih (by rw [PerHandleData.advance_offset]; omega)

/-- The loop closes the socket when it has a remainder to wait for and a handle to
hold it, and finds the socket not open. -/
theorem receiveLoop_closes {h : PerHandleData} (hb : h.InBuffer m.bufferSize)
    (h0 : 0 < h.offset) {s : Socket} (hs : h.socket = some s) :
    closes (m.receiveLoop env h).effects =
      match (packetFramer.drain h.window).outcome with
      | .waiting r => decide (r ≠ []) && (env.recvAlloc.isSome && !env.isOpen)
      | .ended => false := by
  induction h, hb using loop_induction with
  | more h hb hv =>
    have hne : h.window ≠ [] := by
      rw [← List.length_pos_iff, hb.window_length]
      exact h0
    rw [receiveLoop_more env hb hv, packetFramer.drain_more hv, flag4_closes hs]
    simp [hne]
  | stop h hb hv => rw [receiveLoop_stop env hb hv, packetFramer.drain_stop hv]; rfl
  | exact h hb hv =>
    rw [receiveLoop_exact env hb hv, packetFramer.drain_frame hv, ← hb.window_length,
      List.drop_length, packetFramer.drain_more (w := []) (by rfl)]
    simp
  | frame h hb k hv hpos hlt ih =>
    rw [receiveLoop_frame env hb hv (by omega), packetFramer.drain_frame hv, ← h.window_advance]
    simpa using ih (by rw [PerHandleData.advance_offset]; omega) hs

/-! ## The handler -/

/-- The handler of a receive that brought `data` to a handle holding `rest`. -/
def handle (m : ReceiveManager) (env : Env) (a : ℕ) (s : Socket) (rest data : List UInt8) :
    List Effect :=
  m.asynReceive env ((m.holding a (some s) rest).fill data) data.length

variable (a : ℕ) (s : Socket) {rest data : List UInt8}

theorem handle_eq (hfit : rest.length + data.length ≤ m.bufferSize) :
    m.handle env a s rest data =
      let r := m.receive env (m.holding a (some s) (rest ++ data)) data.length
      r.effects ++ (if r.result then m.postReceive env r.handledata.socket else []) ++
        releaseMemory m.closeSocket { r.handledata with buffer := 0 } := by
  rw [← holding_fill a (some s) hfit]
  rfl

/-- A completion without bytes hands on what was held, posts nothing, and closes
the socket when nothing was held. -/
theorem handle_nil (hfit : rest.length ≤ m.bufferSize) :
    m.handle env a s rest [] =
      m.add env (m.holding a (some s) rest) ++
        (if rest = [] then m.closeSocket (some s) else []) ++
        [.destroy (m.holding a (some s) rest)] := by
  rw [handle_eq env a s (by simpa using hfit)]
  simp only [List.append_nil, List.length_nil, receive, if_true, Bool.false_eq_true, if_false,
    releaseMemory, holding_socket, holding_offset, ne_eq, reduceCtorEq, not_false_eq_true,
    true_and, List.length_eq_zero_iff, List.append_assoc]
  rfl

theorem handle_nil_deliveries (hfit : rest.length ≤ m.bufferSize) :
    deliveries (m.handle env a s rest []) =
      deliveries (m.add env (m.holding a (some s) rest)) := by
  rw [handle_nil env a s hfit]
  split_ifs <;> simp

theorem handle_nil_posts (hfit : rest.length ≤ m.bufferSize) :
    posts (m.handle env a s rest []) = [] := by
  rw [handle_nil env a s hfit]
  split_ifs <;> simp

theorem handle_nil_closes (hfit : rest.length ≤ m.bufferSize) :
    closes (m.handle env a s rest []) = decide (rest = []) := by
  rw [handle_nil env a s hfit]
  split_ifs with hr <;> simp [hr]

/-- A completion with bytes runs the loop, posts a fresh receive when the loop left
nothing over, and never closes the socket for want of bytes. -/
theorem handle_of_bytes (hfit : rest.length + data.length ≤ m.bufferSize) (hd : data ≠ []) :
    ∃ h : PerHandleData, h.socket = some s ∧ m.handle env a s rest data =
      (m.receiveLoop env (m.holding a (some s) (rest ++ data))).effects ++
        (if (packetFramer.drain (rest ++ data)).outcome = .waiting [] then
          m.postReceive env (some s) else []) ++ [.destroy h] := by
  have hb : (m.holding a (some s) (rest ++ data)).InBuffer m.bufferSize :=
    holding_inBuffer (by simpa using hfit) a (some s)
  have hn : data.length ≠ 0 := by simpa using hd
  have h0 : 0 < (m.holding a (some s) (rest ++ data)).offset := by
    rw [holding_offset, List.length_append]
    omega
  have hr := receiveLoop_result env hb h0
  obtain ⟨k, hk, hh⟩ := receiveLoop_handledata env hb h0
  rw [holding_window] at hr
  have hpos : (m.holding a (some s) (rest ++ data)).offset - k ≠ 0 := by omega
  have hrel : releaseMemory m.closeSocket
      { (m.holding a (some s) (rest ++ data)).advance k with buffer := 0 } = [.destroy _] :=
    releaseMemory_of_ne _ hpos
  rw [handle_eq env a s hfit]
  simp only [receive, if_neg hn, hr, hh]
  rw [hrel]
  exact ⟨_, rfl, rfl⟩

section Bytes

variable (hfit : rest.length + data.length ≤ m.bufferSize) (hd : data ≠ [])
include hfit hd

/-- A completion with bytes hands on the frames of what was held and the new bytes. -/
theorem handle_carries :
    Carries (deliveries (m.handle env a s rest data))
      (packetFramer.drain (rest ++ data)).frames := by
  have hb : (m.holding a (some s) (rest ++ data)).InBuffer m.bufferSize :=
    holding_inBuffer (by simpa using hfit) a (some s)
  have hc := receiveLoop_carries env hb
  rw [holding_window] at hc
  obtain ⟨h, -, he⟩ := handle_of_bytes env a s hfit hd
  rw [he]
  split_ifs <;> simpa using hc

/-- A completion with bytes posts the next receive, on a handle that holds what is
left over, unless framing has ended. -/
theorem handle_posts :
    posts (m.handle env a s rest data) =
      match (packetFramer.drain (rest ++ data)).outcome with
      | .waiting r => m.nextReceive env (some s) r
      | .ended => [] := by
  have hb : (m.holding a (some s) (rest ++ data)).InBuffer m.bufferSize :=
    holding_inBuffer (by simpa using hfit) a (some s)
  have h0 : 0 < (m.holding a (some s) (rest ++ data)).offset := by
    have := List.length_pos_iff.mpr hd
    rw [holding_offset, List.length_append]
    omega
  have hp := receiveLoop_posts env hb h0
  rw [holding_window] at hp
  obtain ⟨h, -, he⟩ := handle_of_bytes env a s hfit hd
  rw [he, posts_append, posts_append, hp]
  cases (packetFramer.drain (rest ++ data)).outcome with
  | ended => simp
  | waiting r =>
    by_cases hne : r = []
    · simp [hne, postReceive_posts]
    · simp [hne]

/-- A completion with bytes closes the socket when it finds it not open, having
something to wait for and, if that needs a copy, a handle for it. -/
theorem handle_closes :
    closes (m.handle env a s rest data) =
      match (packetFramer.drain (rest ++ data)).outcome with
      | .waiting r => !env.isOpen && (decide (r = []) || env.recvAlloc.isSome)
      | .ended => false := by
  have hb : (m.holding a (some s) (rest ++ data)).InBuffer m.bufferSize :=
    holding_inBuffer (by simpa using hfit) a (some s)
  have h0 : 0 < (m.holding a (some s) (rest ++ data)).offset := by
    have := List.length_pos_iff.mpr hd
    rw [holding_offset, List.length_append]
    omega
  have hc := receiveLoop_closes env hb h0 (s := s) rfl
  rw [holding_window] at hc
  obtain ⟨h, -, he⟩ := handle_of_bytes env a s hfit hd
  rw [he, closes_append, closes_append, hc]
  cases (packetFramer.drain (rest ++ data)).outcome with
  | ended => simp
  | waiting r =>
    by_cases hne : r = []
    · simp [hne, postReceive_closes]
    · simp [hne, Bool.and_comm]

end Bytes

end ReceiveManager

end Xiaoxin
