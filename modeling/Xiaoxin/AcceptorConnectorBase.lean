import Xiaoxin.Calls

/-!
# Setting up an acceptor or a connector

`Acceptor_Connector_Base::Initialize` makes a socket manager, gives it the close
notification, and keeps the receive manager it was handed. Attaching the socket
manager to the receive manager is a private operation that only this class may call,
and `Initialize` does not call it.
-/
namespace Xiaoxin
open SendOrRecvMngBase

structure AcceptorConnectorBase where
  receiveManager : Option ReceiveManager
  socketManager : Option SocketManager
  ioService : Bool
  isRun : Bool

namespace AcceptorConnectorBase

/-- The constructor. -/
def new : AcceptorConnectorBase := ⟨none, none, false, false⟩

/-- `Initialize`; it throws when there is no receive manager. -/
def initializeWith (b : AcceptorConnectorBase) (recvMng : Option ReceiveManager) :
    Option AcceptorConnectorBase :=
  recvMng.map fun m =>
    { b with
      socketManager := some (SocketManager.new.init true)
      receiveManager := some m
      ioService := true }

/-- `ReleaseResource`. -/
def releaseResource (_ : AcceptorConnectorBase) : AcceptorConnectorBase := new

/-- `PostRecvAndFirst` behind its first statement, which adds the socket to the set. -/
def postRecvAndFirst (m : ReceiveManager) (env : Env) (s : Socket) : List Effect :=
  m.postReceive env (some s) ++ [.first s]

theorem postRecvAndFirst_shape (m : ReceiveManager) (env : Env) (s : Socket) :
    Shape m s (postRecvAndFirst m env s) :=
  (ReceiveManager.postReceive_shape env s).before_quiet (by simp [Effect.socket]) rfl

end AcceptorConnectorBase

/-- `Acceptor`. -/
structure Acceptor where
  base : AcceptorConnectorBase
  maxPrepareAcceptCount : ℕ
  /-- The accepts that are posted. -/
  pendingAccepts : ℕ

/-- `Acceptor::Initialize` also posts the accepts. -/
def Acceptor.initializeWith (a : Acceptor) (recvMng : Option ReceiveManager) : Option Acceptor :=
  (a.base.initializeWith recvMng).map fun b =>
    { a with base := b, pendingAccepts := a.maxPrepareAcceptCount }

/-- `Connector`. -/
structure Connector where
  base : AcceptorConnectorBase
  socket : Option Socket

/-- `Connector::Initialize` connects a new socket; `connects` is whether this works.
When it does, the socket goes through `PostRecvAndFirst`. -/
def Connector.initializeWith (c : Connector) (recvMng : Option ReceiveManager) (socket : Socket)
    (connects : Bool) : Option Connector :=
  (c.base.initializeWith recvMng).map fun b =>
    if connects then ⟨b, some socket⟩ else ⟨b.releaseResource, none⟩

end Xiaoxin
