import Xiaoxin.Getline
import Xiaoxin.Memory
import Xiaoxin.Numerals
import Xiaoxin.SendManager

/-!
# The configuration script

`ReadConfigScript` reads the file line by line into `tmpBuffer`, copies what may stand
in a key or a value into `tmpTransferStation`, and stores the text behind the first
colon in the field whose key it finds first. Both buffers keep their contents from one
line to the next; `memset` clears them at the end of the loop's body only.

The text is what a stream opened in text mode delivers: a carriage return in front of a
line feed is gone, and the first control-Z ends it. Each byte of it is the character with
its code. The three database strings are arrays of wide characters inside the object, and
what is stored through a pointer to one of them reaches the cells behind it as well. So
the object is kept as memory from `_database_name` on, in cells of one wide character: 50
and 50 and 20 cells of the arrays, one cell of padding, and two cells for each of the two
unsigned integers at its end. Cells from 125 on belong to no field.
-/
namespace Xiaoxin
open Getline Memory Numerals

/-- `strlen` and the conversion to `std::string` stop at the first NUL. -/
def cstr (buffer : List Char) : List Char := buffer.takeWhile (· ≠ '\x00')

namespace ServerConfig

/-- The keys that the macros of the source name. -/
inductive Key
  | port1 | port2 | severIp1 | severIp2 | socketCount | workCount1 | workCount2
  | receiveBuffer1 | reveiveBuffer2 | sendBuffer1 | sendBuffer2
  | dbTransferWorkThread | dbReceiveBuffer | dbWorkThread | dbName | dbAccount | dbPwd
  deriving DecidableEq, Repr

def Key.text : Key → List Char
  | .port1 => "_port1".toList
  | .port2 => "_port2".toList
  | .severIp1 => "_server_ip1".toList
  | .severIp2 => "_server_ip2".toList
  | .socketCount => "_prepare_accept_socket_count1".toList
  | .workCount1 => "_acceptor_work_count1".toList
  | .workCount2 => "_acceptor_work_count2".toList
  | .receiveBuffer1 => "_receive_buffer_size1".toList
  | .reveiveBuffer2 => "_receive_buffer_size2".toList
  | .sendBuffer1 => "_send_buffer_size1".toList
  | .sendBuffer2 => "_send_buffer_size2".toList
  | .dbTransferWorkThread => "_info_transfer_station_work_thread_count".toList
  | .dbReceiveBuffer => "_database_receive_buffer_size".toList
  | .dbWorkThread => "_database_work_thread_count".toList
  | .dbName => "_database_name".toList
  | .dbAccount => "_database_account_name".toList
  | .dbPwd => "_database_account_pwd".toList

/-- The order in which the chain of `else if` tries the keys. -/
def Key.chain : List Key :=
  [.port1, .port2, .severIp1, .severIp2, .socketCount, .workCount1, .workCount2,
    .receiveBuffer1, .reveiveBuffer2, .sendBuffer1, .sendBuffer2, .dbTransferWorkThread,
    .dbReceiveBuffer, .dbWorkThread, .dbName, .dbAccount, .dbPwd]

theorem Key.mem_chain (k : Key) : k ∈ Key.chain := by
  cases k <;> decide

instance : Fintype Key := ⟨Key.chain.toFinset, fun k => List.mem_toFinset.mpr k.mem_chain⟩

/-- `_config_data`, from `_database_name` on as memory. -/
structure ConfigData where
  port1 : BitVec 32
  port2 : BitVec 32
  serverIp1 : List Char
  serverIp2 : List Char
  prepareAcceptSocketCount1 : BitVec 32
  acceptorWorkCount1 : BitVec 16
  acceptorWorkCount2 : BitVec 16
  receiveBufferSize1 : BitVec 32
  receiveBufferSize2 : BitVec 32
  sendBufferSize1 : BitVec 32
  sendBufferSize2 : BitVec 32
  infoTransferStationWorkThreadCount : BitVec 16
  memory : ℕ → BitVec 16
  deriving Inhabited

namespace ConfigData

def databaseNameLen : ℕ := 50
def databaseAccountNameLen : ℕ := 50
def databaseAccountPwd : ℕ := 20

/-- The address of each array and the number of its elements. -/
def array : Key → Option (ℕ × ℕ)
  | .dbName => some (0, databaseNameLen)
  | .dbAccount => some (50, databaseAccountNameLen)
  | .dbPwd => some (100, databaseAccountPwd)
  | _ => none

/-- An unsigned integer in two cells, the lower half first. -/
def word (m : ℕ → BitVec 16) (p : ℕ) : BitVec 32 := m (p + 1) ++ m p

def storeWord (m : ℕ → BitVec 16) (p : ℕ) (w : BitVec 32) : ℕ → BitVec 16 :=
  write m p [w.extractLsb' 0 16, w.extractLsb' 16 16]

def databaseReceiveBufferSize (c : ConfigData) : BitVec 32 := word c.memory 121
def databaseWorkThreadCount (c : ConfigData) : BitVec 32 := word c.memory 123

end ConfigData

open ConfigData

/-- The wide character of an ASCII character. -/
def toWide (a : Char) : BitVec 16 := BitVec.ofNat 16 a.toNat

/-- What `CharConvertToWchar` stores: zeros over `wstrLen` bytes, and then as many wide
characters as `MultiByteToWideChar` has counted in the source string, its terminator
included. The size of the destination is not passed on to the second call. -/
def charConvertToWchar (str : List Char) (wstr wstrLen : ℕ) : List (ℕ × List (BitVec 16)) :=
  [(wstr, List.replicate (wstrLen / 2) 0), (wstr, str.map toWide ++ [0])]

def store (m : ℕ → BitVec 16) (stores : List (ℕ × List (BitVec 16))) : ℕ → BitVec 16 :=
  stores.foldl (fun m s => write m s.1 s.2) m

/-- The wide characters that an assignment of `value` to the key stores. -/
def wideStores (k : Key) (value : List Char) : List (ℕ × List (BitVec 16)) :=
  match array k with
  | none => []
  | some (address, elements) => charConvertToWchar value address (2 * elements)

/-- The branch of the chain that belongs to a key. -/
def assign (value : List Char) (c : ConfigData) : Key → ConfigData
  | .port1 => { c with port1 := BitVec.ofInt 32 (atoi value) }
  | .port2 => { c with port2 := BitVec.ofInt 32 (atoi value) }
  | .severIp1 => { c with serverIp1 := value }
  | .severIp2 => { c with serverIp2 := value }
  | .socketCount => { c with prepareAcceptSocketCount1 := BitVec.ofInt 32 (atoi value) }
  | .workCount1 => { c with acceptorWorkCount1 := BitVec.ofInt 16 (atoi value) }
  | .workCount2 => { c with acceptorWorkCount2 := BitVec.ofInt 16 (atoi value) }
  | .receiveBuffer1 => { c with receiveBufferSize1 := BitVec.ofInt 32 (strtol value) }
  | .reveiveBuffer2 => { c with receiveBufferSize2 := BitVec.ofInt 32 (strtol value) }
  | .sendBuffer1 => { c with sendBufferSize1 := BitVec.ofInt 32 (strtol value) }
  | .sendBuffer2 => { c with sendBufferSize2 := BitVec.ofInt 32 (strtol value) }
  | .dbTransferWorkThread =>
    { c with infoTransferStationWorkThreadCount := BitVec.ofInt 16 (atoi value) }
  | .dbReceiveBuffer =>
    { c with memory := storeWord c.memory 121 (BitVec.ofInt 32 (strtol value)) }
  | .dbWorkThread => { c with memory := storeWord c.memory 123 (BitVec.ofInt 32 (atoi value)) }
  | .dbName => { c with memory := store c.memory (wideStores .dbName value) }
  | .dbAccount => { c with memory := store c.memory (wideStores .dbAccount value) }
  | .dbPwd => { c with memory := store c.memory (wideStores .dbPwd value) }

/-- The characters that are copied into `tmpTransferStation`. -/
def kept (a : Char) : Bool :=
  ('a' ≤ a && a ≤ 'z') || ('A' ≤ a && a ≤ 'Z') || ('0' ≤ a && a ≤ '9') ||
    a = ':' || a = '_' || a = '.'

/-- The loop that copies `tmpBuffer[i], …` to `tmpTransferStation[j], …`. -/
def transfer : List Char → ℕ → List Char → List Char
  | [], _, station => station
  | a :: as, j, station =>
    if a = '-' then station
    else if kept a then transfer as (j + 1) (station.set j a)
    else transfer as j station

/-- The first key of the chain that `tmp_string.find` finds. -/
def select (text : List Char) : Option Key := Key.chain.find? (fun k => k.text <:+: text)

/-- `tmpTransferStation + tmpPos + 1`, where `npos + 1` is zero. -/
def valuePointer (text station : List Char) : List Char :=
  match text.findIdx? (· = ':') with
  | some pos => station.drop (pos + 1)
  | none => station

/-- What the loop keeps between two lines. -/
structure Locals where
  tmpBuffer : List Char
  tmpTransferStation : List Char
  config : ConfigData

def bufferSize : ℕ := 4096

/-- `memset` of a whole buffer. -/
def zeros : List Char := List.replicate bufferSize '\x00'

/-- What `getline` leaves in the buffer: the line, a NUL, and the old contents. -/
def fillBuffer (line buffer : List Char) : List Char :=
  line ++ '\x00' :: buffer.drop (line.length + 1)

/-- The body of the loop. -/
def body (l : Locals) (line : List Char) : Locals :=
  let tmpBuffer := fillBuffer line l.tmpBuffer
  let station := transfer (cstr tmpBuffer) 0 l.tmpTransferStation
  let text := cstr station
  if text = [] then ⟨tmpBuffer, station, l.config⟩
  else
    match select text with
    | some k => ⟨zeros, zeros, assign (cstr (valuePointer text station)) l.config k⟩
    | none => ⟨zeros, zeros, l.config⟩

/-- `ReadConfigScript`; `none` stands for a file that cannot be opened. -/
def readConfigScript (file : Option (List Char)) (c : ConfigData) : Err × ConfigData :=
  match file with
  | none => (.failed, c)
  | some text =>
    (.success, (readWhile '\n' bufferSize body (.open text) ⟨zeros, zeros, c⟩).config)

/-- `Initialize`. -/
def initializeWith (file : Option (List Char)) (c : ConfigData) : Err × ConfigData :=
  match readConfigScript file c with
  | (.success, c') => (.success, c')
  | (.failed, c') => (.failed, c')

end ServerConfig

end Xiaoxin
