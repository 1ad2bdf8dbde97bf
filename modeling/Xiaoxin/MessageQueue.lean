import Xiaoxin.Transition
import Xiaoxin.Threads
import Xiaoxin.ReceiveManager

/-!
# The message queue

Threads call `MessageQueue::Add`; workers go round the loop of `Dispatch`. `Add` makes
its copy before it locks `_mutex`, so it is two steps here, and calls that have made
their copies may get `_mutex` in any order. A worker that found the list empty has
left `_mutex` before it waits. `_notify_mutex`, which the wait gives back and takes
again, guards nothing else: it makes workers return from the wait one after another,
and here they return in any order. `_dispatch_func` stays set, and the queue is not
destroyed in these runs.

A pointer keeps the number of the call of `Add` that made the copy. The program sees
the address alone, which the pools may give out again after `ReleaseMemory`.
-/
namespace Xiaoxin
open Transition

/-- A pointer to a copy: its address, and which call of `Add` made the copy. -/
structure PPerHandleData where
  address : ℕ
  number : ℕ
  deriving DecidableEq, Repr

/-- Where a worker stands in the loop of `Dispatch`. -/
inductive QueueWorker
  /-- Before `tmpFunc`. -/
  | looking
  /-- Found the list empty, and has not reached the wait yet. -/
  | entering
  /-- Blocked in the wait. -/
  | waiting
  /-- Blocked in the wait, with a notification pending. -/
  | notified
  /-- Before `_dispatch_func`. -/
  | took (tmpData : PPerHandleData)
  /-- Before `ReleaseMemory`. -/
  | done (tmpData : PPerHandleData)
  deriving DecidableEq, Repr

namespace QueueWorker

/-- `notify_all`. -/
def notify : QueueWorker → QueueWorker
  | waiting => notified
  | v => v

/-- What the worker has in hand. -/
def data : QueueWorker → Option PPerHandleData
  | took p => some p
  | done p => some p
  | _ => none

@[simp] theorem notify_data (v : QueueWorker) : v.notify.data = v.data := by
  cases v <;> rfl

end QueueWorker

/-- A call of `_dispatch_func` by a worker, with what lay at the pointer. -/
structure DispatchCall where
  number : ℕ
  worker : ℕ
  handledata : Option PerHandleData
  deriving DecidableEq, Repr

structure MessageQueue where
  /-- What lies at the addresses that the pools have given out. -/
  handles : ℕ → Option PerHandleData
  /-- The calls of `Add` that have made their copies and wait for `_mutex`. -/
  copied : List PPerHandleData
  /-- `_handle_data_list`. -/
  handleDataList : List PPerHandleData
  workers : List QueueWorker
  /-- What the calls of `Add` were given, by their numbers. -/
  passed : List PerHandleData
  inserted : List ℕ
  /-- What was removed from the list, and by which worker. -/
  removed : List (ℕ × ℕ)
  dispatched : List DispatchCall
  /-- What was released, and by which worker. -/
  released : List (ℕ × ℕ)

namespace MessageQueue

inductive Event
  /-- `Add` up to the lock, with what `GetData` finds and what lies behind the block of
  its argument. -/
  | copy (data : PerHandleData) (address : Option ℕ) (past : ℕ → UInt8)
  /-- The rest of the `k`-th of the calls of `Add` under way. -/
  | insert (k : ℕ)
  /-- `tmpFunc`. -/
  | look (i : ℕ)
  | wait (i : ℕ)
  /-- The wait of a notified worker returns. -/
  | wake (i : ℕ)
  /-- A wait returns without a notification. -/
  | spurious (i : ℕ)
  | dispatch (i : ℕ)
  | release (i : ℕ)

/-- `Init` with `n` workers. -/
def start (n : ℕ) : MessageQueue where
  handles := fun _ => none
  copied := []
  handleDataList := []
  workers := List.replicate n .looking
  passed := []
  inserted := []
  removed := []
  dispatched := []
  released := []

def move (s : MessageQueue) (i : ℕ) (v : QueueWorker) : MessageQueue :=
  { s with workers := s.workers.set i v }

/-- `*tmpData = *data`. -/
def copyData (s : MessageQueue) (past : ℕ → UInt8) (tmpData data : PerHandleData) : MessageQueue :=
  { s with
    handles := Function.update s.handles tmpData.address (some (tmpData.assign past data))
    copied := s.copied ++ [⟨tmpData.address, s.passed.length⟩]
    passed := s.passed ++ [data] }

/-- `push_front` and `notify_all`. -/
def pushFront (s : MessageQueue) (k : ℕ) (tmpData : PPerHandleData) : MessageQueue :=
  { s with
    copied := s.copied.eraseIdx k
    handleDataList := tmpData :: s.handleDataList
    workers := s.workers.map QueueWorker.notify
    inserted := s.inserted ++ [tmpData.number] }

/-- `tmpFunc` on `_handle_data_list`: what is left of it, and the result. -/
def tmpFunc (handleDataList : List PPerHandleData) : List PPerHandleData × Option PPerHandleData :=
  if handleDataList.length = 0 then (handleDataList, none)
  else (handleDataList.dropLast, handleDataList.getLast?)

/-- The `i`-th worker takes a handle from the list. -/
def take (s : MessageQueue) (i : ℕ) (rest : List PPerHandleData) (tmpData : PPerHandleData) :
    MessageQueue :=
  { s.move i (.took tmpData) with
    handleDataList := rest
    removed := s.removed ++ [(tmpData.number, i)] }

/-- `_dispatch_func` on the `i`-th worker. -/
def dispatchFunc (s : MessageQueue) (i : ℕ) (tmpData : PPerHandleData) : MessageQueue :=
  { s.move i (.done tmpData) with
    dispatched := s.dispatched ++ [⟨tmpData.number, i, s.handles tmpData.address⟩] }

/-- `ReleaseMemory` on the `i`-th worker. The queue does not override `CloseSocket`,
which does nothing. -/
def releaseMemory (s : MessageQueue) (i : ℕ) (tmpData : PPerHandleData) : MessageQueue :=
  { s.move i .looking with
    handles := Function.update s.handles tmpData.address none
    released := s.released ++ [(tmpData.number, i)] }

/-- Without memory for the copy `Add` dispatches the message on its own thread and does
not touch the queue. -/
def step (bufferSize : ℕ) (s : MessageQueue) : Event → Option MessageQueue
  | .copy data address past =>
    match SendOrRecvMngBase.getData bufferSize address data.socket with
    | none => some s
    | some tmpData =>
      if s.handles tmpData.address = none then some (s.copyData past tmpData data) else none
  | .insert k => s.copied[k]?.map (s.pushFront k)
  | .look i =>
    if s.workers[i]? = some .looking then
      match tmpFunc s.handleDataList with
      | (_, none) => some (s.move i .entering)
      | (rest, some tmpData) => some (s.take i rest tmpData)
    else none
  | .wait i => if s.workers[i]? = some .entering then some (s.move i .waiting) else none
  | .wake i => if s.workers[i]? = some .notified then some (s.move i .looking) else none
  | .spurious i => if s.workers[i]? = some .waiting then some (s.move i .looking) else none
  | .dispatch i =>
    match s.workers[i]? with
    | some (.took tmpData) => some (s.dispatchFunc i tmpData)
    | _ => none
  | .release i =>
    match s.workers[i]? with
    | some (.done tmpData) => some (s.releaseMemory i tmpData)
    | _ => none

/-- What a step can do. -/
inductive Steps (bufferSize : ℕ) (s : MessageQueue) : Event → MessageQueue → Prop
  | noMemory (data : PerHandleData) (past : ℕ → UInt8) : Steps bufferSize s (.copy data none past) s
  | copied (data : PerHandleData) (a : ℕ) (past : ℕ → UInt8) (ha : s.handles a = none) :
    Steps bufferSize s (.copy data (some a) past)
      (s.copyData past (SendOrRecvMngBase.fresh bufferSize a data.socket) data)
  | inserted (k : ℕ) (p : PPerHandleData) (hk : s.copied[k]? = some p) :
    Steps bufferSize s (.insert k) (s.pushFront k p)
  | foundEmpty (i : ℕ) (hi : s.workers[i]? = some .looking) (hl : s.handleDataList = []) :
    Steps bufferSize s (.look i) (s.move i .entering)
  | taken (i : ℕ) (rest : List PPerHandleData) (p : PPerHandleData)
    (hi : s.workers[i]? = some .looking) (hl : s.handleDataList = rest ++ [p]) :
    Steps bufferSize s (.look i) (s.take i rest p)
  | waited (i : ℕ) (hi : s.workers[i]? = some .entering) :
    Steps bufferSize s (.wait i) (s.move i .waiting)
  | woke (i : ℕ) (hi : s.workers[i]? = some .notified) :
    Steps bufferSize s (.wake i) (s.move i .looking)
  | wokeAlone (i : ℕ) (hi : s.workers[i]? = some .waiting) :
    Steps bufferSize s (.spurious i) (s.move i .looking)
  | did (i : ℕ) (p : PPerHandleData) (hi : s.workers[i]? = some (.took p)) :
    Steps bufferSize s (.dispatch i) (s.dispatchFunc i p)
  | freed (i : ℕ) (p : PPerHandleData) (hi : s.workers[i]? = some (.done p)) :
    Steps bufferSize s (.release i) (s.releaseMemory i p)

/-- The list is empty, or its last entry is taken. -/
theorem tmpFunc_cases (l : List PPerHandleData) :
    (l = [] ∧ tmpFunc l = ([], none)) ∨ ∃ rest p, l = rest ++ [p] ∧ tmpFunc l = (rest, some p) := by
  rcases List.eq_nil_or_concat l with rfl | ⟨rest, p, rfl⟩
  · exact .inl ⟨rfl, rfl⟩
  · exact .inr ⟨rest, p, List.concat_eq_append, by simp [tmpFunc]⟩

theorem step_cases {bufferSize : ℕ} {s t : MessageQueue} {e : Event}
    (h : s.step bufferSize e = some t) : Steps bufferSize s e t := by
  cases e with
  | copy data address past =>
    cases address with
    | none => exact Option.some.inj h ▸ .noMemory data past
    | some a =>
      simp only [step, SendOrRecvMngBase.getData, Option.map_some] at h
      split_ifs at h with ha
      exact Option.some.inj h ▸ .copied data a past ha
  | insert k =>
    obtain ⟨p, hk, rfl⟩ := Option.map_eq_some_iff.mp h
    exact .inserted k p hk
  | look i =>
    simp only [step] at h
    split_ifs at h with hi
    rcases tmpFunc_cases s.handleDataList with ⟨hl, hf⟩ | ⟨rest, p, hl, hf⟩
    · rw [hf] at h
      exact Option.some.inj h ▸ .foundEmpty i hi hl
    · rw [hf] at h
      exact Option.some.inj h ▸ .taken i rest p hi hl
  | wait i =>
    simp only [step] at h
    split_ifs at h with hi
    exact Option.some.inj h ▸ .waited i hi
  | wake i =>
    simp only [step] at h
    split_ifs at h with hi
    exact Option.some.inj h ▸ .woke i hi
  | spurious i =>
    simp only [step] at h
    split_ifs at h with hi
    exact Option.some.inj h ▸ .wokeAlone i hi
  | dispatch i =>
    simp only [step] at h
    split at h
    · rename_i p hi
      exact Option.some.inj h ▸ .did i p hi
    · cases h
  | release i =>
    simp only [step] at h
    split at h
    · rename_i p hi
      exact Option.some.inj h ▸ .freed i p hi
    · cases h

/-! ## The caller -/

/-- A handle shows what another one was given with. -/
structure Shows (h data : PerHandleData) : Prop where
  socket : h.socket = data.socket
  offset : h.offset = data.offset
  bytes : h.window = data.window

/-- The copy has the socket, the offset and the first `_offset` bytes of the original. -/
theorem assign_shows {bufferSize : ℕ} (a : ℕ) (past : ℕ → UInt8) {data : PerHandleData}
    (hb : data.InBuffer bufferSize) :
    Shows ((SendOrRecvMngBase.fresh bufferSize a data.socket).assign past data) data :=
  ⟨rfl, rfl, SendOrRecvMngBase.assign_slice past a data.socket hb⟩

variable {m : ReceiveManager} {env : Env} {h c : PerHandleData}

/-- A handle in the list of the receive manager is a copy of one that lies in a buffer. -/
def IsCopy (m : ReceiveManager) (env : Env) (c : PerHandleData) : Prop :=
  ∃ a data, env.queueAlloc = some a ∧ data.InBuffer m.bufferSize ∧
    c = (SendOrRecvMngBase.fresh m.bufferSize a data.socket).assign env.past data

theorem isCopy_of_add (hb : h.InBuffer m.bufferSize) (hc : .pushFront c ∈ m.add env h) :
    IsCopy m env c := by
  cases ha : env.queueAlloc with
  | none => simp [ReceiveManager.add, ReceiveManager.dispatch, SendOrRecvMngBase.getData, ha] at hc
  | some a =>
    rw [ReceiveManager.add, ha, SendOrRecvMngBase.getData_some] at hc
    obtain rfl : c = _ := by simpa using hc
    exact ⟨a, h, ha, hb, rfl⟩

theorem pushFront_notMem_closeSocket (socket : Option Socket) :
    .pushFront c ∉ m.closeSocket socket := by
  cases socket with
  | none => simp [ReceiveManager.closeSocket]
  | some x =>
    simp only [ReceiveManager.closeSocket]
    split_ifs <;> simp [SocketManager.socketClosed, SocketManager.socketErrorNotify]

theorem pushFront_notMem_flag4 : .pushFront c ∉ m.flag4 env h := by
  cases ha : env.recvAlloc with
  | none => simp [ReceiveManager.flag4, SendOrRecvMngBase.getData, ha]
  | some a =>
    cases ho : env.isOpen <;>
      simp [ReceiveManager.flag4, ReceiveManager.postReceiveHandle, ha, ho,
        SendOrRecvMngBase.getData_some, pushFront_notMem_closeSocket]

theorem pushFront_notMem_postReceive (socket : Option Socket) :
    .pushFront c ∉ m.postReceive env socket := by
  cases ho : env.isOpen with
  | false => simp [ReceiveManager.postReceive, ho, pushFront_notMem_closeSocket]
  | true =>
    cases ha : env.recvAlloc <;>
      simp [ReceiveManager.postReceive, ha, ho, SendOrRecvMngBase.getData]

theorem pushFront_notMem_releaseMemory :
    .pushFront c ∉ SendOrRecvMngBase.releaseMemory m.closeSocket h := by
  simp only [SendOrRecvMngBase.releaseMemory]
  split_ifs <;> simp [pushFront_notMem_closeSocket]

theorem isCopy_of_receiveLoop (hb : h.InBuffer m.bufferSize)
    (hc : .pushFront c ∈ (m.receiveLoop env h).effects) : IsCopy m env c := by
  induction h, hb using ReceiveManager.loop_induction with
  | more h hb hv =>
    rw [ReceiveManager.receiveLoop_more env hb hv] at hc
    exact absurd hc pushFront_notMem_flag4
  | stop h hb hv =>
    rw [ReceiveManager.receiveLoop_stop env hb hv] at hc
    cases hc
  | exact h hb hv =>
    rw [ReceiveManager.receiveLoop_exact env hb hv] at hc
    exact isCopy_of_add hb hc
  | frame h hb k hv _ hk ih =>
    rw [ReceiveManager.receiveLoop_frame env hb hv hk.ne] at hc
    exact ih (by simpa using hc)

/-- What a completed receive puts in the list is a copy of a handle that lies in a
buffer of the queue's own size. -/
theorem isCopy_of_asynReceive {n : ℕ}
    (hb : { h with offset := u32 (h.offset + n) }.InBuffer m.bufferSize)
    (hc : .pushFront c ∈ m.asynReceive env h n) : IsCopy m env c := by
  simp only [ReceiveManager.asynReceive, List.mem_append] at hc
  rcases hc with (hc | hc) | hc
  · by_cases hn : n = 0
    · simp only [ReceiveManager.receive, hn, if_true] at hc
      exact isCopy_of_add (by simpa [hn] using hb) hc
    · rw [ReceiveManager.receive, if_neg hn] at hc
      exact isCopy_of_receiveLoop hb hc
  · split_ifs at hc
    · exact absurd hc (pushFront_notMem_postReceive _)
    · cases hc
  · exact absurd hc pushFront_notMem_releaseMemory

end MessageQueue
end Xiaoxin
