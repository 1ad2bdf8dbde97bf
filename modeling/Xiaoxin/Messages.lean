import Xiaoxin.Layout
import Xiaoxin.ServerAddress

/-!
# The messages between the servers

The messages are C structs that are sent as they lie in memory. Those of
`msg/svr_msg_child_and_middle` and `msg/svr_msg_login_and_middle` are packed to single
bytes, and each begins with the members of `sMessageRoot`. The two structs of
`ChildServerData.h` are not packed: they have gaps, also inside a message. An
enumeration is an `int`, and a `wchar_t` has two bytes.

`sChildServerData` begins with a member that depends on the server it is compiled for:
a pointer on the middle server, an `int` on the login server, and nothing elsewhere.
-/
namespace Xiaoxin
open Layout ServerConfig

/-- The bytes that the compiler aligns members to if it is not told otherwise. -/
def defaultPack : ℕ := 8

def char : Layout (BitVec 8) := scalar 1
def uint8 : Layout (BitVec 8) := scalar 1
def uint16 : Layout (BitVec 16) := scalar 2
def wcharT : Layout (BitVec 16) := scalar 2
def uint32 : Layout (BitVec 32) := scalar 4
def int : Layout (BitVec 32) := scalar 4
def uint64 : Layout (BitVec 64) := scalar 8
def int64 : Layout (BitVec 64) := scalar 8

/-- A `bool` holds 0 or 1, and any other byte counts as true. -/
def bool : Layout Bool :=
  uint8.via (fun b => if b then 1 else 0) (fun v => v ≠ 0) (by decide)

/-! ## The header -/

/-- `sPacket`, with its members as they are stored. -/
structure SPacket where
  packetType : BitVec 8
  deviceType : BitVec 8
  thePacketHeaderSize : BitVec 16
  theWholePacketSize : BitVec 32
  deriving DecidableEq, Repr

namespace SPacket

def layout : Layout SPacket :=
  (((uint8.next 1 uint8).next 1 uint16).next 1 uint32).via
    (fun p => (((p.packetType, p.deviceType), p.thePacketHeaderSize), p.theWholePacketSize))
    (fun p => ⟨p.1.1.1, p.1.1.2, p.1.2, p.2⟩) (fun _ => rfl)

/-- The numbers in the members. -/
def toPacket (p : SPacket) : Packet :=
  ⟨p.packetType.toNat, p.deviceType.toNat, p.thePacketHeaderSize.toNat,
    p.theWholePacketSize.toNat⟩

end SPacket

/-- `sMessageRoot`. -/
structure SMessageRoot extends SPacket where
  messageTypeCategory : BitVec 16
  messageTypeProtocol : BitVec 16
  deriving DecidableEq, Repr

def SMessageRoot.layout : Layout SMessageRoot :=
  ((SPacket.layout.next 1 uint16).next 1 uint16).via
    (fun r => ((r.toSPacket, r.messageTypeCategory), r.messageTypeProtocol))
    (fun r => ⟨r.1.1, r.1.2, r.2⟩) (fun _ => rfl)

/-- A struct that adds the members of `body` to `sMessageRoot`. -/
def derived {α : Type} (body : Layout α) : Layout (SMessageRoot × α) :=
  SMessageRoot.layout.next 1 body

theorem derived_load {α : Type} (body : Layout α) (m : ℕ → UInt8) :
    (derived body).load m =
      (SMessageRoot.layout.load m, body.load (view m SMessageRoot.layout.size)) := by
  rw [derived, next_load, offsetBehind_one]

/-! ## The data of a child server -/

/-- `sChildServerDatabaseData`. -/
structure SChildServerDatabaseData where
  dbId : BitVec 32
  dbIp : Vector (BitVec 8) ipV4LenEndSymbol
  dbPort : BitVec 16
  dbName : Vector (BitVec 16) ConfigData.databaseNameLen
  dbAccountName : Vector (BitVec 16) ConfigData.databaseAccountNameLen
  dbAccountPwd : Vector (BitVec 16) ConfigData.databaseAccountPwd
  dbPerfectUserCount : BitVec 32
  deriving DecidableEq, Repr

def SChildServerDatabaseData.layout : Layout SChildServerDatabaseData :=
  ((((((uint32.next defaultPack (char.array _)).next defaultPack uint16).next defaultPack
    (wcharT.array _)).next defaultPack (wcharT.array _)).next defaultPack
    (wcharT.array _)).next defaultPack uint32).padded.via
    (fun d => ((((((d.dbId, d.dbIp), d.dbPort), d.dbName), d.dbAccountName), d.dbAccountPwd),
      d.dbPerfectUserCount))
    (fun d => ⟨d.1.1.1.1.1.1, d.1.1.1.1.1.2, d.1.1.1.1.2, d.1.1.1.2, d.1.1.2, d.1.2, d.2⟩)
    (fun _ => rfl)

/-- `sChildServerData` behind its first member. -/
structure SChildServerData where
  databaseData : SChildServerDatabaseData
  ip : Vector (BitVec 8) ipV4LenEndSymbol
  port : BitVec 32
  status : BitVec 32
  peopleCount : BitVec 32
  userCount : BitVec 64
  deriving DecidableEq, Repr

/-- What `sChildServerData` is compiled for; a pointer has four or eight bytes. -/
inductive Server
  | middle (pointerSize : ℕ)
  | login
  | child
  deriving DecidableEq, Repr

/-- The first member of `sChildServerData`: `_socket`, `_svr_index` or nothing. -/
def Server.First : Server → Type
  | .middle pointerSize => BitVec (8 * pointerSize)
  | .login => BitVec 32
  | .child => Unit

def Server.first : (server : Server) → Layout server.First
  | .middle pointerSize => scalar pointerSize
  | .login => int
  | .child => unit

def SChildServerData.layout (server : Server) : Layout (server.First × SChildServerData) :=
  ((((((server.first.next defaultPack SChildServerDatabaseData.layout).next defaultPack
    (char.array _)).next defaultPack uint32).next defaultPack int).next defaultPack
    int).next defaultPack int64).padded.via
    (fun d => ((((((d.1, d.2.databaseData), d.2.ip), d.2.port), d.2.status), d.2.peopleCount),
      d.2.userCount))
    (fun d => (d.1.1.1.1.1.1, ⟨d.1.1.1.1.1.2, d.1.1.1.1.2, d.1.1.1.2, d.1.1.2, d.1.2, d.2⟩))
    (fun _ => rfl)

/-- The constructor clears the whole object with `memset`. -/
def SChildServerData.init (server : Server) : server.First × SChildServerData :=
  (SChildServerData.layout server).load fun _ => 0

/-! ## The messages -/

/-- The structs that derive from `sMessageRoot`. Where the last member is an array of one
element that stands for more, their number comes with the kind. -/
inductive Kind
  | messageError
  | childOnlineReq | childOnlineRes | updateStatusReq | updateStatusRes
  | heartpacketReq | heartpacketRes | loadingReportReq | loadingReportRee
  | cMAddUserReq | cMARemoveUserReq
  | cMSendMsgToUserReq (message : ℕ)
  | cMSendMsgToUserRes (message : ℕ)
  | chatMessage (content : ℕ)
  | childServerListRes (server : Server) (list : ℕ)
  | loginMiddleHeartReq | loginMiddleHeartRes
  | childServerStatusNotifyReq (server : Server)
  deriving DecidableEq, Repr

namespace Kind

/-- `TIME_STRING_LEN`. -/
def timeStringLen : ℕ := 32

/-- The members that a struct adds to `sMessageRoot`, in their order. -/
def Body : Kind → Type
  -- `_error_code`
  | messageError => BitVec 32
  -- `_ip`, `_port`
  | childOnlineReq => Vector (BitVec 8) ipV4LenEndSymbol × BitVec 32
  -- `_index`, `_sql_data`
  | childOnlineRes => BitVec 32 × SChildServerDatabaseData
  -- `_status`
  | updateStatusReq => BitVec 32
  -- `_is_ok`
  | updateStatusRes => Bool
  -- `_people_count`, `_user_count`
  | heartpacketReq => BitVec 32 × BitVec 32
  | heartpacketRes => Unit
  -- `_people_count`
  | loadingReportReq => BitVec 32
  -- `_error`
  | loadingReportRee => BitVec 32
  -- `_user_id`, `_svr_id`
  | cMAddUserReq => BitVec 64 × BitVec 16
  -- `_user_id`
  | cMARemoveUserReq => BitVec 64
  -- `_target_user_id`, `_socket_id`, `_message`
  | cMSendMsgToUserReq message => (BitVec 64 × BitVec 32) × Vector (BitVec 8) message
  | cMSendMsgToUserRes message => (BitVec 64 × BitVec 32) × Vector (BitVec 8) message
  -- `_target_idx`, `_user_idx`, `_content_len`, `_time`, `_content`
  | chatMessage content =>
    (((BitVec 64 × BitVec 64) × BitVec 16) × Vector (BitVec 8) timeStringLen) ×
      Vector (BitVec 16) content
  -- `_count`, `_list`
  | childServerListRes server list =>
    BitVec 32 × Vector (server.First × SChildServerData) list
  -- `_max_user_idx`
  | loginMiddleHeartReq => BitVec 64
  | loginMiddleHeartRes => Unit
  -- `_child_server_data`
  | childServerStatusNotifyReq server => server.First × SChildServerData

def body : (kind : Kind) → Layout kind.Body
  | messageError => int
  | childOnlineReq => (char.array _).next 1 uint32
  | childOnlineRes => int.next 1 SChildServerDatabaseData.layout
  | updateStatusReq => int
  | updateStatusRes => bool
  | heartpacketReq => int.next 1 uint32
  | heartpacketRes => unit
  | loadingReportReq => int
  | loadingReportRee => int
  | cMAddUserReq => uint64.next 1 uint16
  | cMARemoveUserReq => uint64
  | cMSendMsgToUserReq message => (uint64.next 1 int).next 1 (char.array message)
  | cMSendMsgToUserRes message => (uint64.next 1 int).next 1 (char.array message)
  | chatMessage content =>
    (((uint64.next 1 uint64).next 1 uint16).next 1 (char.array _)).next 1 (wcharT.array content)
  | childServerListRes server list =>
    uint32.next 1 ((SChildServerData.layout server).array list)
  | loginMiddleHeartReq => int64
  | loginMiddleHeartRes => unit
  | childServerStatusNotifyReq server => SChildServerData.layout server

/-- The struct itself. -/
def layout (kind : Kind) : Layout (SMessageRoot × kind.Body) := derived kind.body

end Kind

example : SChildServerDatabaseData.layout.size = 268 ∧
    (SChildServerData.layout (.middle 4)).size = 312 ∧
    (Kind.childServerStatusNotifyReq .login).layout.size = 324 := by decide

end Xiaoxin
