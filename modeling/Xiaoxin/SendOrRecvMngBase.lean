import Xiaoxin.SocketManager

/-!
# What the network layer does

`SendOrRecvMngBase` hands out handles and takes them back. A member function of
its subclasses is modelled as the list of what it does to the world, in the order
in which it does it; the world decides beforehand what the calls answer (whether
an allocation succeeds, whether a socket is open).
-/
namespace Xiaoxin

inductive Effect
  /-- `GetData` made a handle. -/
  | construct (h : PerHandleData)
  /-- `DoData` is called on the thread that runs the handler. -/
  | doData (h : PerHandleData) (bytesTransferred : ℕ)
  /-- A handle is put at the front of `_handle_data_list`. -/
  | pushFront (h : PerHandleData)
  /-- `async_receive` into `_buffer + _offset`, `_buffer_size - _offset` bytes long. -/
  | asyncReceive (h : PerHandleData)
  /-- `async_write_some` of the first `_offset` bytes at `_buffer`. -/
  | asyncWriteSome (h : PerHandleData)
  /-- `ReceiveManager::CloseSocket` is called. -/
  | closeSocket (s : Socket)
  /-- The locked part of `SocketErrorNotify`. -/
  | lockedErase (s : Socket)
  /-- The rest of `SocketErrorNotify`. -/
  | closeAndDelete (s : Socket) (eventID : ESocketEvent)
  /-- `First` is called. -/
  | first (s : Socket)
  /-- `ReleaseMemory` gave the handle back to the pools. -/
  | destroy (h : PerHandleData)
  deriving DecidableEq, Repr

/-- `SocketManager::SocketErrorNotify`, in its two steps. -/
def SocketManager.socketErrorNotify (s : Socket) (eventID : ESocketEvent) : List Effect :=
  [.lockedErase s, .closeAndDelete s eventID]

def SocketManager.socketClosed (s : Socket) : List Effect :=
  SocketManager.socketErrorNotify s .closed

namespace SendOrRecvMngBase

/-- `GetData`. Either pool may be exhausted; then the result is null. Otherwise
`address` is where the new object lies. The buffer is cleared. -/
def getData (bufferSize : ℕ) (address : Option ℕ) (socket : Option Socket) :
    Option PerHandleData :=
  address.map fun a =>
    { address := a
      socket := socket
      memory := List.replicate bufferSize 0
      buffer := 0
      bufferSize := bufferSize
      offset := 0 }

/-- The handle that `getData` makes at an address. -/
def fresh (bufferSize a : ℕ) (socket : Option Socket) : PerHandleData where
  address := a
  socket := socket
  memory := List.replicate bufferSize 0
  buffer := 0
  bufferSize := bufferSize
  offset := 0

theorem getData_some (bufferSize a : ℕ) (socket : Option Socket) :
    getData bufferSize (some a) socket = some (fresh bufferSize a socket) := rfl

/-- A copy into a new handle. Its first `_offset` bytes are those of the original, even
when `operator=` runs over the end of the original's block. -/
theorem assign_slice {bufferSize : ℕ} (past : ℕ → UInt8) (a : ℕ) (socket : Option Socket)
    {data : PerHandleData} (hb : data.InBuffer bufferSize) :
    ((fresh bufferSize a socket).assign past data).slice data.offset = data.window := by
  have hle : data.offset ≤ bufferSize := by
    have := hb.bound
    omega
  have hmem :
      ((fresh bufferSize a socket).assign past data).memory = data.bytes past bufferSize := by
    simp [PerHandleData.assign, fresh, overwrite, hb.known]
  have hzero : ((fresh bufferSize a socket).assign past data).buffer = 0 := rfl
  rw [PerHandleData.slice, hmem, hzero, List.drop_zero, PerHandleData.bytes_take hle]
  exact PerHandleData.bytes_eq_slice (by rw [hb.block]; exact hb.bound)

/-- `ReleaseMemory`, with the subclass's `CloseSocket`. -/
def releaseMemory (closeSocket : Option Socket → List Effect) (handledata : PerHandleData) :
    List Effect :=
  (if handledata.socket ≠ none ∧ handledata.offset = 0 then closeSocket handledata.socket
    else []) ++ [.destroy handledata]

theorem releaseMemory_of_ne (closeSocket : Option Socket → List Effect)
    {handledata : PerHandleData} (h : handledata.offset ≠ 0) :
    releaseMemory closeSocket handledata = [.destroy handledata] := by
  rw [releaseMemory, if_neg (fun hc => h hc.2)]
  rfl

end SendOrRecvMngBase

end Xiaoxin
