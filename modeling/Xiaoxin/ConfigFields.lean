import Xiaoxin.ConfigKeys

/-!
# The fields of the configuration

`get` reads the field that belongs to a key. An assignment to a key leaves the other
fields as they are (`assign_get_of_ne`), with one exception: a database string is
stored with as many wide characters as it has, whatever the array holds, so it must
not reach the cells of the next field (`Key.room`).
-/
namespace Xiaoxin
open Getline Memory Numerals

namespace ServerConfig

/-- What a field holds. -/
inductive Value
  | number (n : ℕ) | address (s : List Char) | wide (ws : List (BitVec 16))
  deriving DecidableEq, Repr

namespace ConfigData

/-- The field that belongs to a key. -/
def get (c : ConfigData) : Key → Value
  | .port1 => .number c.port1.toNat
  | .port2 => .number c.port2.toNat
  | .severIp1 => .address c.serverIp1
  | .severIp2 => .address c.serverIp2
  | .socketCount => .number c.prepareAcceptSocketCount1.toNat
  | .workCount1 => .number c.acceptorWorkCount1.toNat
  | .workCount2 => .number c.acceptorWorkCount2.toNat
  | .receiveBuffer1 => .number c.receiveBufferSize1.toNat
  | .reveiveBuffer2 => .number c.receiveBufferSize2.toNat
  | .sendBuffer1 => .number c.sendBufferSize1.toNat
  | .sendBuffer2 => .number c.sendBufferSize2.toNat
  | .dbTransferWorkThread => .number c.infoTransferStationWorkThreadCount.toNat
  | .dbReceiveBuffer => .number c.databaseReceiveBufferSize.toNat
  | .dbWorkThread => .number c.databaseWorkThreadCount.toNat
  | .dbName => .wide (read c.memory 0 databaseNameLen)
  | .dbAccount => .wide (read c.memory 50 databaseAccountNameLen)
  | .dbPwd => .wide (read c.memory 100 databaseAccountPwd)

end ConfigData

open ConfigData

/-- The cells of a field that is kept in memory: its first one and their number. -/
def Key.cells : Key → ℕ × ℕ
  | .dbName => (0, 50)
  | .dbAccount => (50, 50)
  | .dbPwd => (100, 20)
  | .dbReceiveBuffer => (121, 2)
  | .dbWorkThread => (123, 2)
  | _ => (0, 0)

/-- The number of cells from the beginning of an array to the field behind it. -/
def Key.room : Key → ℕ
  | .dbName => 50
  | .dbAccount => 50
  | _ => 21

/-- The value does not reach the field behind the array it is stored in. -/
def Key.fits (k : Key) (value : List Char) : Prop := (array k).isSome → value.length < k.room

instance (k : Key) (value : List Char) : Decidable (k.fits value) :=
  inferInstanceAs (Decidable (_ → _))

theorem array_cells {k : Key} {address elements : ℕ} (h : array k = some (address, elements)) :
    k.cells = (address, elements) ∧ elements ≤ k.room ∧
      ∀ k' ≠ k, k'.cells.1 + k'.cells.2 ≤ address ∨ address + k.room ≤ k'.cells.1 := by
  cases k
  case dbName | dbAccount | dbPwd =>
    obtain ⟨rfl, rfl⟩ : _ = address ∧ _ = elements := Prod.mk.injEq .. ▸ Option.some.inj h
    exact ⟨rfl, by decide, by decide⟩
  all_goals exact absurd h nofun

/-! ## What is stored in memory -/

theorem word_congr {m m' : ℕ → BitVec 16} {p : ℕ} (h₀ : m p = m' p)
    (h₁ : m (p + 1) = m' (p + 1)) : word m p = word m' p := by
  rw [word, word, h₀, h₁]

theorem word_storeWord (m : ℕ → BitVec 16) (p : ℕ) (w : BitVec 32) :
    word (storeWord m p w) p = w := by
  have h₀ := @write_add _ m p [w.extractLsb' 0 16, w.extractLsb' 16 16] 0 (by simp)
  have h₁ := @write_add _ m p [w.extractLsb' 0 16, w.extractLsb' 16 16] 1 (by simp)
  rw [Nat.add_zero] at h₀
  rw [word, storeWord, h₀, h₁]
  exact @BitVec.extractLsb'_append_extractLsb' 16 16 w

theorem storeWord_frame (m : ℕ → BitVec 16) {p a : ℕ} (w : BitVec 32)
    (h : a < p ∨ p + 2 ≤ a) : storeWord m p w a = m a := by
  rcases h with h | h
  · exact write_of_lt m _ h
  · exact write_of_le m (by simpa using h)

/-- A field is the same if the cells it is kept in are. -/
theorem get_congr (c : ConfigData) {m : ℕ → BitVec 16} {k : Key}
    (h : ∀ a, k.cells.1 ≤ a → a < k.cells.1 + k.cells.2 → m a = c.memory a) :
    ({ c with memory := m } : ConfigData).get k = c.get k := by
  cases k
  case dbName | dbAccount | dbPwd => exact congrArg Value.wide (read_congr h)
  case dbReceiveBuffer | dbWorkThread =>
    exact congrArg (fun w : BitVec 32 => Value.number w.toNat)
      (word_congr (h _ (by decide) (by decide)) (h _ (by decide) (by decide)))
  all_goals rfl

theorem length_wideCells (value : List Char) (elements : ℕ) :
    (value.map toWide ++ [0] ++ List.replicate (elements - (value.length + 1)) 0).length =
      max elements (value.length + 1) := by
  simp only [List.length_append, List.length_map, List.length_singleton, List.length_replicate]
  omega

section
variable {k : Key} {address elements : ℕ} (harray : array k = some (address, elements))
include harray

/-- The zeros and the wide characters that a database string leaves in memory. -/
theorem store_wideStores (m : ℕ → BitVec 16) (value : List Char) :
    store m (wideStores k value) =
      write m address (value.map toWide ++ [0] ++
        List.replicate (elements - (value.length + 1)) 0) := by
  have hbytes : 2 * elements / 2 = elements := by omega
  simp [wideStores, harray, charConvertToWchar, store, write_write, hbytes, List.drop_replicate]

theorem assign_array (value : List Char) (c : ConfigData) :
    assign value c k = { c with memory := store c.memory (wideStores k value) } := by
  cases k
  case dbName | dbAccount | dbPwd => rfl
  all_goals exact absurd harray nofun

/-- A database string stores nothing behind its array and its terminator. -/
theorem store_frame (m : ℕ → BitVec 16) (value : List Char) {a : ℕ}
    (h : a < address ∨ address + max elements (value.length + 1) ≤ a) :
    store m (wideStores k value) a = m a := by
  rw [store_wideStores harray]
  rcases h with h | h
  · exact write_of_lt m _ h
  · exact write_of_le m (by rwa [length_wideCells])

end

/-- An assignment leaves the fields of the other keys as they are. -/
theorem assign_get_of_ne {k k' : Key} {value : List Char} (hfits : k.fits value)
    (hne : k' ≠ k) (c : ConfigData) : (assign value c k).get k' = c.get k' := by
  cases harray : array k with
  | some p =>
    obtain ⟨address, elements⟩ := p
    have hlen : value.length < k.room := hfits (by simp [harray])
    obtain ⟨hcells, hroom, hother⟩ := array_cells harray
    rw [assign_array harray]
    refine get_congr c fun a hle hlt => store_frame harray _ _ ?_
    rcases hother k' hne with h | h
    · left
      omega
    · right
      omega
  | none =>
    cases k
    case dbName | dbAccount | dbPwd => exact absurd harray nofun
    case dbReceiveBuffer | dbWorkThread =>
      refine get_congr c fun a hle hlt => storeWord_frame _ _ ?_
      cases k' <;> simp only [Key.cells, ne_eq, not_true_eq_false] at hle hlt hne <;> omega
    all_goals
      cases k' <;> first | rfl | exact absurd rfl hne

/-! ## What an assignment means -/

/-- How the value of a key is written. -/
inductive Kind
  | decimal (bits : ℕ) | hexadecimal | address | wide (elements : ℕ)

def Key.kind : Key → Kind
  | .port1 | .port2 | .socketCount | .dbWorkThread => .decimal 32
  | .workCount1 | .workCount2 | .dbTransferWorkThread => .decimal 16
  | .receiveBuffer1 | .reveiveBuffer2 | .sendBuffer1 | .sendBuffer2 | .dbReceiveBuffer =>
    .hexadecimal
  | .severIp1 | .severIp2 => .address
  | .dbName => .wide databaseNameLen
  | .dbAccount => .wide databaseAccountNameLen
  | .dbPwd => .wide databaseAccountPwd

/-- What the value says the field is to hold. -/
def Key.meaning (k : Key) (value : List Char) : Value :=
  match k.kind with
  | .decimal _ => .number (number 10 value)
  | .hexadecimal => .number (number 16 (dropPrefix value))
  | .address => .address value
  | .wide elements => .wide (value.map toWide ++ List.replicate (elements - value.length) 0)

/-- Letters, digits and points. -/
def plain (a : Char) : Bool := kept a && a ≠ ':' && a ≠ '_'

/-- A value of this kind, with decimal numbers below a limit. -/
def Kind.Admits (limit : ℕ) (value : List Char) : Kind → Prop
  | .decimal bits =>
    value ≠ [] ∧ (∀ a ∈ value, isDecimal a = true) ∧ number 10 value < 2 ^ bits ∧
      number 10 value < limit
  | .hexadecimal =>
    dropPrefix value ≠ [] ∧ (∀ a ∈ dropPrefix value, isHexadecimal a = true) ∧
      number 16 (dropPrefix value) < 2 ^ 31
  | .address => True
  | .wide elements => value.length < elements

-- the instances for lists are named here: there is one for all characters as well
instance (limit : ℕ) (value : List Char) : DecidablePred (Kind.Admits limit value)
  | .decimal _ => @instDecidableAnd _ _ _ (@instDecidableAnd _ _ (List.decidableBAll ..) _)
  | .hexadecimal => @instDecidableAnd _ _ _ (@instDecidableAnd _ _ (List.decidableBAll ..) _)
  | .address => inferInstanceAs (Decidable True)
  | .wide elements => inferInstanceAs (Decidable (value.length < elements))

/-- A value that may be written for the key. -/
def Key.Valid (limit : ℕ) (k : Key) (value : List Char) : Prop :=
  (∀ a ∈ value, plain a = true) ∧ k.kind.Admits limit value

instance (limit : ℕ) (k : Key) (value : List Char) : Decidable (k.Valid limit value) :=
  @instDecidableAnd _ _ (List.decidableBAll ..) _

/-- Every key has two valid values that do not mean the same. -/
theorem Key.valid_one_two (k : Key) : k.Valid (2 ^ 31) ['1'] ∧ k.Valid (2 ^ 31) ['2'] ∧
    k.meaning ['1'] ≠ k.meaning ['2'] := by
  cases k <;> decide

theorem toNat_ofInt {bits n : ℕ} (h : n < 2 ^ bits) : (BitVec.ofInt bits (n : ℤ)).toNat = n := by
  rw [BitVec.ofInt_natCast, BitVec.toNat_ofNat, Nat.mod_eq_of_lt h]

theorem atoi_field {bits : ℕ} {value : List Char} (hdec : ∀ a ∈ value, isDecimal a = true)
    (hbits : number 10 value < 2 ^ bits) (hlt : number 10 value < 2 ^ 31) :
    (BitVec.ofInt bits (atoi value)).toNat = number 10 value := by
  rw [atoi_of_decimal hdec hlt, toNat_ofInt hbits]

theorem strtol_field {value : List Char}
    (hhex : ∀ a ∈ dropPrefix value, isHexadecimal a = true)
    (hlt : number 16 (dropPrefix value) < 2 ^ 31) :
    (BitVec.ofInt 32 (strtol value)).toNat = number 16 (dropPrefix value) := by
  rw [strtol_of_hexadecimal hhex hlt, toNat_ofInt (by omega)]

/-- After an assignment the array holds the string and zeros behind it. -/
theorem read_store {k : Key} {address elements : ℕ} (harray : array k = some (address, elements))
    (m : ℕ → BitVec 16) {value : List Char} (hlen : value.length < elements) :
    read (store m (wideStores k value)) address elements =
      value.map toWide ++ List.replicate (elements - value.length) 0 := by
  have hcells : (value.map toWide ++ [0] ++
      List.replicate (elements - (value.length + 1)) 0).length = elements := by
    rw [length_wideCells, max_eq_left hlen]
  have hread := read_write_self m address (value.map toWide ++ [0] ++
    List.replicate (elements - (value.length + 1)) 0)
  rw [hcells, ← store_wideStores harray] at hread
  rw [hread, List.append_assoc, List.singleton_append, ← List.replicate_succ]
  congr 2
  omega

/-- A valid value is what the field of its key holds after the assignment. -/
theorem assign_get_self {k : Key} {value : List Char} (hvalid : k.Valid (2 ^ 31) value)
    (c : ConfigData) : (assign value c k).get k = k.meaning value := by
  have hkind := hvalid.2
  cases k
  case severIp1 | severIp2 => rfl
  case port1 | port2 | socketCount | workCount1 | workCount2 | dbTransferWorkThread =>
    obtain ⟨-, hdec, hbits, hlt⟩ := hkind
    exact congrArg Value.number (atoi_field hdec hbits hlt)
  case receiveBuffer1 | reveiveBuffer2 | sendBuffer1 | sendBuffer2 =>
    obtain ⟨-, hhex, hlt⟩ := hkind
    exact congrArg Value.number (strtol_field hhex hlt)
  case dbReceiveBuffer =>
    obtain ⟨-, hhex, hlt⟩ := hkind
    have hword := word_storeWord c.memory 121 (BitVec.ofInt 32 (strtol value))
    exact congrArg Value.number ((congrArg BitVec.toNat hword).trans (strtol_field hhex hlt))
  case dbWorkThread =>
    obtain ⟨-, hdec, hbits, hlt⟩ := hkind
    have hword := word_storeWord c.memory 123 (BitVec.ofInt 32 (atoi value))
    exact congrArg Value.number ((congrArg BitVec.toNat hword).trans (atoi_field hdec hbits hlt))
  case dbName | dbAccount | dbPwd => exact congrArg Value.wide (read_store rfl c.memory hkind)

theorem Key.Valid.fits {limit : ℕ} {k : Key} {value : List Char} (h : k.Valid limit value) :
    k.fits value := by
  intro harray
  have hkind := h.2
  cases k
  case dbName | dbAccount => exact hkind
  case dbPwd => exact Nat.lt_succ_of_lt hkind
  all_goals exact absurd harray Bool.false_ne_true

end ServerConfig

end Xiaoxin
