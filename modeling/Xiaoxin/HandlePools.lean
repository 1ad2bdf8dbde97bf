import Xiaoxin.Hands
import Xiaoxin.SendManager
import Xiaoxin.ReceiveManager
import Xiaoxin.Transition

/-!
# Who has the handles

Every handle that `GetData` makes is with a pending operation, in the message queue, with
a caller that has not posted it yet, or in the hands of a call that is running. A call is
what a thread of the io service does from a completion on, what a worker does with one
message, or `PostReceive`, `PostSend` and `PostError` for their callers; it has in hand
the handle that it was called with and those that it has made, until it passes them on or
gives them to `ReleaseMemory`. What a call still has in hand when it returns is lost.

Any number of calls run at the same time, and each of their effects is a step.
-/
namespace Xiaoxin
open Framing Hands SendOrRecvMngBase Transition

/-- What an effect does with a handle, which is known by its address. -/
def Effect.deed : Effect → Deed ℕ
  | .construct h => .make h.address
  | .pushFront h => .pass h.address
  | .asyncReceive h => .pass h.address
  | .asyncWriteSome h => .pass h.address
  | .destroy h => .pass h.address
  | _ => .other

structure HandlePools where
  /-- The handles that are not released: where each lies, and which call of `GetData`
  made it. -/
  live : List (ℕ × ℕ)
  /-- How many handles have been made. -/
  made : ℕ
  /-- What was passed to `ReleaseMemory`: which handle lay there, if any. -/
  released : List (Option ℕ)
  /-- The receives that are posted and have not completed. -/
  receives : List PerHandleData
  /-- The sends that are posted and have not completed. -/
  sends : List PerHandleData
  handleDataList : List PerHandleData
  /-- The send handles that callers hold. -/
  held : List ℕ
  calls : List (Hand Effect ℕ)

namespace HandlePools

inductive Event
  /-- `PostReceive(socket)` is called. -/
  | postReceive (socket : Socket) (env : Env)
  /-- A pending receive completes with some bytes, and `AsynReceive` is called. -/
  | asynReceive (i : ℕ) (data : List UInt8) (env : Env)
  /-- A worker takes the message at the back of the queue. -/
  | dispatch
  | getData (address : Option ℕ) (socket : Option Socket) (category protocol : ℤ)
  | getDataSized (address : Option ℕ) (socket : Option Socket)
    (category protocol wholePacketSize : ℤ) (packet : EPacketType) (device : EDeviceType)
  /-- `PostSend` is called with null, or with a handle that the caller holds. -/
  | postSend (data : Option PerHandleData)
  | postError (address : Option ℕ) (socket : Option Socket) (errorcode category protocol : ℤ)
    (packet : EPacketType) (device : EDeviceType)
  /-- A pending send completes, and `SendComplete` is called. -/
  | sendComplete (i : ℕ) (error : Bool) (bytesTransferred : ℕ)
  /-- The `i`-th call does the next thing. -/
  | act (i : ℕ)

/-- No handle has been made. -/
def start : HandlePools := ⟨[], 0, [], [], [], [], [], []⟩

/-- Where the handles lie that are not released. -/
def addresses (s : HandlePools) : List ℕ := s.live.map Prod.fst

/-- A call is made; it has the handles in hand that it is given. -/
def call (s : HandlePools) (es : List Effect) (hand : Multiset ℕ) : HandlePools :=
  { s with calls := s.calls ++ [⟨es, hand⟩] }

/-- What lies at the address is released. -/
def release (s : HandlePools) (address : ℕ) : HandlePools :=
  { s with
    live := s.live.eraseP (fun l => l.1 = address)
    released := s.released ++ [(s.live.find? (fun l => l.1 = address)).map Prod.snd] }

def perform (s : HandlePools) : Effect → HandlePools
  | .construct h => { s with live := (h.address, s.made) :: s.live, made := s.made + 1 }
  | .pushFront h => { s with handleDataList := h :: s.handleDataList }
  | .asyncReceive h => { s with receives := s.receives ++ [h] }
  | .asyncWriteSome h => { s with sends := s.sends ++ [h] }
  | .destroy h => s.release h.address
  | _ => s

/-- An object is made where none lies. -/
def Free (s : HandlePools) : Effect → Prop
  | .construct h => h.address ∉ s.addresses
  | _ => True

instance (s : HandlePools) : ∀ e : Effect, Decidable (s.Free e)
  | .construct h => inferInstanceAs (Decidable (h.address ∉ s.addresses))
  | .doData _ _ | .pushFront _ | .asyncReceive _ | .asyncWriteSome _ | .closeSocket _
  | .lockedErase _ | .closeAndDelete _ _ | .first _ | .destroy _ => isTrue trivial

/-- The send manager's `GetData` returns to its caller. -/
def give (s : HandlePools) : Option PerHandleData → Option HandlePools
  | none => some s
  | some data =>
    if s.Free (.construct data) then
      some { s.perform (.construct data) with held := data.address :: s.held }
    else none

/-- The `i`-th call works off its next effect. -/
def work (s : HandlePools) (i : ℕ) (e : Effect) (es : List Effect) (hand : Multiset ℕ) :
    HandlePools :=
  { s with calls := s.calls.set i ⟨es, e.deed.after hand⟩ }.perform e

def step (m : ReceiveManager) (sm : SendManager) (s : HandlePools) : Event → Option HandlePools
  | .postReceive socket env => some (s.call (m.postReceive env (some socket)) 0)
  | .asynReceive i data env =>
    match s.receives[i]? with
    | none => none
    | some h =>
      if data.length ≤ m.bufferSize - h.offset then
        some ({ s with receives := s.receives.eraseIdx i }.call
          (m.asynReceive env (h.fill data) data.length) {h.address})
      else none
  | .dispatch =>
    match s.handleDataList.getLast? with
    | none => none
    | some h =>
      some ({ s with handleDataList := s.handleDataList.dropLast }.call
        (ReceiveManager.dispatch h ++ releaseMemory (fun _ => []) h) {h.address})
  | .getData address socket category protocol =>
    s.give (sm.getData address socket category protocol)
  | .getDataSized address socket category protocol wholePacketSize packet device =>
    s.give (sm.getDataSized address socket category protocol wholePacketSize packet device)
  | .postSend none => some (s.call (sm.postSend none).2 0)
  | .postSend (some data) =>
    if data.address ∈ s.held then
      match sm.postSend (some data) with
      | (.success, es) =>
        some ({ s with held := s.held.erase data.address }.call es {data.address})
      | (.failed, es) => some (s.call es 0)
    else none
  | .postError address socket errorcode category protocol packet device =>
    some (s.call (sm.postError address socket errorcode category protocol packet device).2 0)
  | .sendComplete i error bytesTransferred =>
    match s.sends[i]? with
    | none => none
    | some h =>
      some ({ s with sends := s.sends.eraseIdx i }.call
        (SendManager.sendComplete h error bytesTransferred) {h.address})
  | .act i =>
    match s.calls[i]? with
    | some ⟨e :: es, hand⟩ => if s.Free e then some (s.work i e es hand) else none
    | _ => none

/-- No call is running. -/
def Idle (s : HandlePools) : Prop := ∀ c ∈ s.calls, c.todo = []

/-- The handles of pending receives, pending sends, queued messages and callers. -/
def kept (s : HandlePools) : Multiset ℕ :=
  (s.receives.map PerHandleData.address : Multiset ℕ) + s.sends.map PerHandleData.address +
    s.handleDataList.map PerHandleData.address + s.held

/-- The handles that are not released are those that somebody keeps. -/
def Accounted (s : HandlePools) : Prop := (s.addresses : Multiset ℕ) = s.kept

/-- Each handle that was made was passed to `ReleaseMemory` once, or is not released; and
nothing else was passed to it. -/
structure ReleasedOnce (s : HandlePools) : Prop where
  once : (s.released ++ s.live.map (fun l => some l.2)).Perm ((List.range s.made).map some)
  distinct : s.addresses.Nodup

/-- The bytes end in the middle of a packet. -/
def Unfinished (w : List UInt8) : Prop :=
  ∃ r, r ≠ [] ∧ (packetFramer.drain w).outcome = .waiting r

/-- A handle that is obtained for the rest of a packet does not meet a closed socket, and
one that is obtained for an error message can be sent. -/
def KeepsHandles (sm : SendManager) (s : HandlePools) : Event → Prop
  | .asynReceive i data env => ∀ h ∈ s.receives[i]?, data ≠ [] → Unfinished (h.window ++ data) →
    env.recvAlloc.isSome → env.isOpen = true
  | .postError address socket _ _ _ _ _ => address.isSome →
    socket ≠ none ∧ SendManager.messageErrorSize ≤ sm.bufferSize
  | _ => True

end HandlePools

end Xiaoxin
