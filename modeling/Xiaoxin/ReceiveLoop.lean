import Xiaoxin.ReceiveManager

/-!
# `Receive`, pass by pass

`ReceiveManager.receive` is `Receive` as one function. Here its loop runs one pass
after another on the 32-bit `_offset` that it counts down, and each pass notes which
stretches of the receive buffer it reads or hands on. Nothing is assumed about when
the loop ends or where it looks; that is what the results below are about.

The two descriptions agree: a call that has returned did what `receive` says
(`passes_eq_receive`).
-/
namespace Xiaoxin
open Framing SendOrRecvMngBase

/-- What a stretch of the receive buffer is used for. -/
inductive Use
  /-- A field of the header is read. -/
  | field
  /-- It is handed to `DoData`. -/
  | doData
  /-- The `memcpy` behind `FALG_4`. -/
  | flag4
  /-- The `memcpy` of `operator=`, in `MessageQueue::Add`. -/
  | assign
  deriving DecidableEq, Repr

/-- `len` bytes of the block from `pos` on. -/
structure Access where
  use : Use
  pos : ℕ
  len : ℕ
  deriving DecidableEq, Repr

/-- A call of `Receive`. -/
structure Reception where
  handledata : PerHandleData
  accesses : List Access
  effects : List Effect
  /-- Whether more was ever taken off `_offset` than was left of it. -/
  underflowed : Bool
  /-- What the call returned. -/
  result : Option Bool

namespace Reception

def returns (r : Reception) (accesses : List Access) (effects : List Effect) (result : Bool) :
    Reception :=
  { r with
    accesses := r.accesses ++ accesses
    effects := r.effects ++ effects
    result := some result }

/-- Step over a packet that has been handed on. The subtraction is one of 32 bits. -/
def moves (r : Reception) (size : ℕ) (accesses : List Access) (effects : List Effect) :
    Reception :=
  { r with
    handledata := { r.handledata with
      buffer := r.handledata.buffer + size
      offset := u32 (r.handledata.offset + 4294967296 - size) }
    accesses := r.accesses ++ accesses
    effects := r.effects ++ effects
    underflowed := r.underflowed || decide (r.handledata.offset < size) }

end Reception

namespace ReceiveManager

variable (m : ReceiveManager) (env : Env)

/-- `_the_packet_header_size`. -/
def headerSizeField (h : PerHandleData) : Access := ⟨.field, h.buffer + 2, 2⟩

/-- `_the_whole_packet_size`. -/
def wholeSizeField (h : PerHandleData) : Access := ⟨.field, h.buffer + 4, 4⟩

/-- `Add` copies the message, or hands it to `DoData` when there is no handle for it. -/
def addAccesses (h : PerHandleData) : List Access :=
  match env.queueAlloc with
  | none => [⟨.doData, h.buffer, h.offset⟩]
  | some _ => [⟨.assign, h.buffer, h.bufferSize⟩]

def flag4Accesses (h : PerHandleData) : List Access :=
  match env.recvAlloc with
  | none => []
  | some _ => [⟨.flag4, h.buffer, h.offset⟩]

/-- One pass through the loop of `Receive`. -/
def pass (r : Reception) : Reception :=
  let h := r.handledata
  let tmpPacket := Packet.read (h.byteAt env.past)
  let size := tmpPacket.theWholePacketSize
  let fields := [headerSizeField h, wholeSizeField h]
  if r.result.isSome then r
  else if h.offset < packetSize then
    r.returns (flag4Accesses env h) (m.flag4 env h) false
  else if tmpPacket.thePacketHeaderSize ≠ packetSize then
    r.returns [headerSizeField h] [] false
  else if size = h.offset then
    r.returns (fields ++ addAccesses env h) (m.add env h) true
  else if h.offset < size then
    r.returns (fields ++ flag4Accesses env h) (m.flag4 env h) false
  else if h.offset > size ∧ size ≠ 0 then
    r.moves size (fields ++ [⟨.doData, h.buffer, size⟩]) [.doData h size]
  else
    r.returns (fields ++ flag4Accesses env h) (m.flag4 env h) false

/-- `Receive` up to its loop. -/
def enter (h : PerHandleData) (bytesTransferred : ℕ) : Reception :=
  let r : Reception := ⟨h, [], [], false, none⟩
  if bytesTransferred = 0 then r.returns (addAccesses env h) (m.add env h) false else r

/-- `Receive` after `n` passes through its loop. -/
def passes (h : PerHandleData) (bytesTransferred n : ℕ) : Reception :=
  (m.pass env)^[n] (m.enter env h bytesTransferred)

/-- A call that was entered with `size` received bytes at the start of the buffer has
stayed within them. A copy for the message queue is another matter. -/
structure WithinReceived (size : ℕ) (r : Reception) : Prop where
  place : r.handledata.buffer + r.handledata.offset = size
  someLeft : 0 < r.handledata.offset
  noUnderflow : r.underflowed = false
  accesses : ∀ a ∈ r.accesses, a.use ≠ .assign → a.pos + a.len ≤ size

variable {m env} {r : Reception} {h : PerHandleData} {size : ℕ}

theorem WithinReceived.returns (hr : WithinReceived size r) {as : List Access}
    (has : ∀ a ∈ as, a.use ≠ .assign → a.pos + a.len ≤ size) (es : List Effect) (b : Bool) :
    WithinReceived size (r.returns as es b) where
  place := hr.place
  someLeft := hr.someLeft
  noUnderflow := hr.noUnderflow
  accesses a ha := (List.mem_append.mp ha).elim (hr.accesses a) (has a)

/-- Less than what is left is taken off, so the machine subtraction is a subtraction. -/
theorem WithinReceived.moves (hr : WithinReceived size r) (hsize : size < 4294967296) {k : ℕ}
    (hk : k < r.handledata.offset) {as : List Access}
    (has : ∀ a ∈ as, a.use ≠ .assign → a.pos + a.len ≤ size) (es : List Effect) :
    WithinReceived size (r.moves k as es) := by
  have hplace := hr.place
  have hsub : u32 (r.handledata.offset + 4294967296 - k) = r.handledata.offset - k := by
    unfold u32
    omega
  refine ⟨?_, ?_, ?_, fun a ha => (List.mem_append.mp ha).elim (hr.accesses a) (has a)⟩
  · show r.handledata.buffer + k + u32 _ = size
    omega
  · show 0 < u32 _
    omega
  · show (r.underflowed || _) = false
    rw [hr.noUnderflow, Bool.false_or, decide_eq_false_iff_not]
    omega

/-- The fields that a pass reads, once eight bytes are there. -/
theorem fields_within (hp : h.buffer + h.offset = size) (h8 : packetSize ≤ h.offset) :
    ∀ a ∈ [headerSizeField h, wholeSizeField h], a.pos + a.len ≤ size := by
  have h0 : packetSize = 8 := rfl
  intro a ha
  simp only [List.mem_cons, List.not_mem_nil, or_false] at ha
  rcases ha with rfl | rfl
  · simp only [headerSizeField]
    omega
  · simp only [wholeSizeField]
    omega

theorem flag4Accesses_within (env : Env) (hp : h.buffer + h.offset = size) :
    ∀ a ∈ flag4Accesses env h, a.pos + a.len ≤ size := by
  intro a ha
  unfold flag4Accesses at ha
  cases hal : env.recvAlloc with
  | none => simp [hal] at ha
  | some b =>
    simp only [hal, List.mem_singleton] at ha
    rw [ha]
    exact hp.le

theorem addAccesses_within (env : Env) (hp : h.buffer + h.offset = size) :
    ∀ a ∈ addAccesses env h, a.use ≠ .assign → a.pos + a.len ≤ size := by
  intro a ha hne
  unfold addAccesses at ha
  cases hal : env.queueAlloc with
  | none =>
    simp only [hal, List.mem_singleton] at ha
    rw [ha]
    exact hp.le
  | some b =>
    simp only [hal, List.mem_singleton] at ha
    exact absurd (by rw [ha]) hne

/-- What a pass does to a call that is in the loop. -/
inductive Pass (m : ReceiveManager) (env : Env) (r : Reception) : Reception → Prop
  | short (h8 : r.handledata.offset < packetSize) :
    Pass m env r (r.returns (flag4Accesses env r.handledata) (m.flag4 env r.handledata) false)
  | badHeader (h8 : packetSize ≤ r.handledata.offset)
      (hs : (Packet.read (r.handledata.byteAt env.past)).thePacketHeaderSize ≠ packetSize) :
    Pass m env r (r.returns [headerSizeField r.handledata] [] false)
  | exact (h8 : packetSize ≤ r.handledata.offset)
      (hs : (Packet.read (r.handledata.byteAt env.past)).thePacketHeaderSize = packetSize)
      (hk : (Packet.read (r.handledata.byteAt env.past)).theWholePacketSize = r.handledata.offset) :
    Pass m env r (r.returns ([headerSizeField r.handledata, wholeSizeField r.handledata] ++
      addAccesses env r.handledata) (m.add env r.handledata) true)
  | more (h8 : packetSize ≤ r.handledata.offset)
      (hs : (Packet.read (r.handledata.byteAt env.past)).thePacketHeaderSize = packetSize)
      (hk : (Packet.read (r.handledata.byteAt env.past)).theWholePacketSize = 0 ∨
        r.handledata.offset < (Packet.read (r.handledata.byteAt env.past)).theWholePacketSize) :
    Pass m env r (r.returns ([headerSizeField r.handledata, wholeSizeField r.handledata] ++
      flag4Accesses env r.handledata) (m.flag4 env r.handledata) false)
  | cut (k : ℕ) (h8 : packetSize ≤ r.handledata.offset)
      (hs : (Packet.read (r.handledata.byteAt env.past)).thePacketHeaderSize = packetSize)
      (hk : (Packet.read (r.handledata.byteAt env.past)).theWholePacketSize = k) (hpos : 0 < k)
      (hlt : k < r.handledata.offset) :
    Pass m env r (r.moves k ([headerSizeField r.handledata, wholeSizeField r.handledata] ++
      [⟨.doData, r.handledata.buffer, k⟩]) [.doData r.handledata k])

/-- The order of the tests: a header is read when it is there, and a size that is too
large, or zero, never reaches the third branch. -/
theorem pass_cases (m : ReceiveManager) (env : Env) (hr : r.result = none) :
    Pass m env r (m.pass env r) := by
  have h0 : packetSize = 8 := rfl
  simp only [pass, hr, Option.isSome_none, Bool.false_eq_true, if_false]
  split_ifs with h8 hs hk hlt hgt
  · exact .short h8
  · exact .badHeader (not_lt.mp h8) hs
  · exact .exact (not_lt.mp h8) (not_not.mp hs) hk
  · exact .more (not_lt.mp h8) (not_not.mp hs) (.inr hlt)
  · exact .cut _ (not_lt.mp h8) (not_not.mp hs) rfl (Nat.pos_of_ne_zero hgt.2) hgt.1
  · refine .more (not_lt.mp h8) (not_not.mp hs) (.inl ?_)
    omega

theorem pass_of_returned {b : Bool} (hr : r.result = some b) : m.pass env r = r := by
  simp [pass, hr]

/-- One pass stays within what was received. -/
theorem WithinReceived.pass (hr : WithinReceived size r) (hsize : size < 4294967296) :
    WithinReceived size (m.pass env r) := by
  cases hres : r.result with
  | some b => rwa [pass_of_returned hres]
  | none =>
    have hflag := flag4Accesses_within env hr.place
    have hadd := addAccesses_within env hr.place
    have hcases := pass_cases m env hres
    generalize m.pass env r = q at hcases ⊢
    cases hcases with
    | short h8 => exact hr.returns (fun a ha _ => hflag a ha) _ _
    | badHeader h8 hs =>
      refine hr.returns (fun a ha _ => fields_within hr.place h8 a ?_) _ _
      exact List.mem_cons.mpr (.inl (List.mem_singleton.mp ha))
    | exact h8 hs hk =>
      refine hr.returns (fun a ha hne => ?_) _ _
      rcases List.mem_append.mp ha with ha | ha
      · exact fields_within hr.place h8 a ha
      · exact hadd a ha hne
    | more h8 hs hk =>
      refine hr.returns (fun a ha _ => ?_) _ _
      rcases List.mem_append.mp ha with ha | ha
      · exact fields_within hr.place h8 a ha
      · exact hflag a ha
    | cut k h8 hs hk hpos hlt =>
      refine hr.moves hsize hlt (fun a ha _ => ?_) _
      have hplace := hr.place
      rcases List.mem_append.mp ha with ha | ha
      · exact fields_within hr.place h8 a ha
      · rw [List.mem_singleton.mp ha]
        show r.handledata.buffer + k ≤ size
        omega

/-- A pass that does not return leaves less to go through. -/
theorem pass_decreases (hr : WithinReceived size r) (hsize : size < 4294967296)
    (hres : (m.pass env r).result = none) :
    r.result = none ∧ (m.pass env r).handledata.offset < r.handledata.offset := by
  cases hr' : r.result with
  | some b =>
    rw [pass_of_returned hr', hr'] at hres
    cases hres
  | none =>
    refine ⟨rfl, ?_⟩
    have hplace := hr.place
    have hcases := pass_cases m env hr'
    generalize m.pass env r = q at hres hcases ⊢
    cases hcases with
    | short => cases hres
    | badHeader => cases hres
    | exact => cases hres
    | more => cases hres
    | cut k h8 hs hk hpos hlt =>
      show u32 (r.handledata.offset + 4294967296 - k) < r.handledata.offset
      unfold u32
      omega

/-! ## Whole calls -/

@[simp] theorem passes_zero (h : PerHandleData) (n : ℕ) :
    m.passes env h n 0 = m.enter env h n := rfl

theorem passes_succ (h : PerHandleData) (n k : ℕ) :
    m.passes env h n (k + 1) = m.pass env (m.passes env h n k) :=
  Function.iterate_succ_apply' ..

theorem enter_within (m : ReceiveManager) (env : Env) (h0 : h.buffer = 0) (hpos : 0 < h.offset)
    (n : ℕ) :
    WithinReceived h.offset (m.enter env h n) := by
  have hplace : h.buffer + h.offset = h.offset := by omega
  have hr : WithinReceived h.offset ⟨h, [], [], false, none⟩ :=
    ⟨hplace, hpos, rfl, fun a ha => absurd ha List.not_mem_nil⟩
  unfold enter
  split_ifs with hn
  · exact hr.returns (addAccesses_within env hplace) _ _
  · exact hr

theorem passes_within (env : Env) (h0 : h.buffer = 0) (hpos : 0 < h.offset)
    (hle : h.offset ≤ m.bufferSize) (n k : ℕ) : WithinReceived h.offset (m.passes env h n k) := by
  induction k with
  | zero => exact enter_within m env h0 hpos n
  | succ k ih =>
    rw [passes_succ]
    exact ih.pass (lt_of_le_of_lt hle m.unsigned)

/-- While a call does not return, each pass takes at least one byte. -/
theorem offset_add_le (h0 : h.buffer = 0) (hpos : 0 < h.offset) (hle : h.offset ≤ m.bufferSize)
    {n k : ℕ} (hres : (m.passes env h n k).result = none) :
    (m.passes env h n k).handledata.offset + k ≤ h.offset := by
  induction k with
  | zero =>
    have := (enter_within m env h0 hpos n).place
    rw [passes_zero]
    omega
  | succ k ih =>
    rw [passes_succ] at hres ⊢
    have hdec :=
      pass_decreases (passes_within env h0 hpos hle n k) (lt_of_le_of_lt hle m.unsigned) hres
    have := ih hdec.1
    omega

/-- A call returns, after no more passes than it has bytes. -/
theorem passes_return (m : ReceiveManager) (env : Env) (h0 : h.buffer = 0) (hpos : 0 < h.offset)
    (hle : h.offset ≤ m.bufferSize) (n : ℕ) : (m.passes env h n h.offset).result.isSome := by
  by_contra hres
  have hnone := Option.not_isSome_iff_eq_none.mp hres
  have hsum := offset_add_le h0 hpos hle hnone
  have hleft := (passes_within env h0 hpos hle n h.offset).someLeft
  omega

/-- A call returns, and stays within the bytes that were received until then and ever
after. -/
theorem receive_ends_within (m : ReceiveManager) (env : Env) (h : PerHandleData)
    (bytesTransferred : ℕ) (h0 : h.buffer = 0) (hpos : 0 < h.offset)
    (hle : h.offset ≤ m.bufferSize) :
    (∃ k ≤ h.offset, (m.passes env h bytesTransferred k).result.isSome) ∧
    ∀ k, WithinReceived h.offset (m.passes env h bytesTransferred k) :=
  ⟨⟨h.offset, le_refl _, passes_return m env h0 hpos hle bytesTransferred⟩,
    passes_within env h0 hpos hle bytesTransferred⟩

theorem receive_ends_within_two : ∃ (m : ReceiveManager) (env : Env) (h : PerHandleData),
    m.bufferSize = 24 ∧ h.offset = 18 ∧
    (∃ k ≤ h.offset, (m.passes env h 18 k).result.isSome) ∧
    ∀ k, WithinReceived h.offset (m.passes env h 18 k) := by
  refine ⟨⟨24, false, by decide⟩, ⟨some 1, some 2, true, fun _ => 0⟩,
    ⟨0, some 0, [1, 0, 8, 0, 8, 0, 0, 0, 2, 0, 8, 0, 255, 255, 255, 255, 5, 6, 0, 0, 0, 0, 0, 0],
      0, 24, 18⟩, rfl, rfl, ?_⟩
  exact receive_ends_within _ _ _ 18 rfl (by decide) (by decide)

/-! ## The same as `receive` -/

/-- What a call does in all, when the rest of it is what `receiveLoop` says. -/
def outcome (m : ReceiveManager) (env : Env) (r : Reception) : Received :=
  match r.result with
  | some b => ⟨r.effects, r.handledata, b⟩
  | none =>
    let q := m.receiveLoop env r.handledata
    { q with effects := r.effects ++ q.effects }

theorem outcome_returns (as : List Access) (es : List Effect) (b : Bool) :
    m.outcome env (r.returns as es b) = ⟨r.effects ++ es, r.handledata, b⟩ := rfl

theorem outcome_moves (hres : r.result = none) {k : ℕ} (hk : k < r.handledata.offset)
    (hlt : r.handledata.offset < 4294967296) (as : List Access) (es : List Effect) :
    m.outcome env (r.moves k as es) =
      { m.receiveLoop env (r.handledata.advance k) with
        effects := r.effects ++ es ++ (m.receiveLoop env (r.handledata.advance k)).effects } := by
  have hsub : u32 (r.handledata.offset + 4294967296 - k) = r.handledata.offset - k := by
    unfold u32
    omega
  unfold outcome Reception.moves
  simp only [hres, hsub]
  rfl

/-- A pass is one unfolding of `receiveLoop`. -/
theorem outcome_pass (hr : WithinReceived size r) (hsize : size < 4294967296) :
    m.outcome env (m.pass env r) = m.outcome env r := by
  cases hres : r.result with
  | some b => rw [pass_of_returned hres]
  | none =>
    have hrest : m.outcome env r = { m.receiveLoop env r.handledata with
        effects := r.effects ++ (m.receiveLoop env r.handledata).effects } := by
      simp only [outcome, hres]
    have hcases := pass_cases m env hres
    generalize m.pass env r = q at hcases ⊢
    rw [hrest, receiveLoop]
    cases hcases with
    | short h8 => rw [outcome_returns, if_pos h8]
    | badHeader h8 hs => rw [outcome_returns, if_neg (not_lt.mpr h8), if_pos hs]
    | exact h8 hs hk =>
      rw [outcome_returns, if_neg (not_lt.mpr h8), if_neg (not_not.mpr hs), if_pos hk]
    | more h8 hs hk =>
      have h0 : packetSize = 8 := rfl
      rw [outcome_returns, if_neg (not_lt.mpr h8), if_neg (not_not.mpr hs), if_neg (by omega)]
      split_ifs with hlt hgt
      · rfl
      · omega
      · rfl
    | cut k h8 hs hk hpos hlt =>
      have hplace := hr.place
      rw [outcome_moves hres hlt (by omega), if_neg (not_lt.mpr h8), if_neg (not_not.mpr hs), hk,
        if_neg (by omega), if_neg (by omega), dif_pos (by omega)]
      simp only [List.append_assoc, List.singleton_append]

theorem outcome_enter (h : PerHandleData) (n : ℕ) :
    m.outcome env (m.enter env h n) = m.receive env h n := by
  unfold enter receive
  split_ifs with hn
  · rfl
  · rfl

/-- What a call has done when it has returned is what `receive` says. -/
theorem passes_eq_receive (h0 : h.buffer = 0) (hpos : 0 < h.offset) (hle : h.offset ≤ m.bufferSize)
    {n k : ℕ} {b : Bool} (hres : (m.passes env h n k).result = some b) :
    m.receive env h n =
      ⟨(m.passes env h n k).effects, (m.passes env h n k).handledata, b⟩ := by
  have hout : m.outcome env (m.passes env h n k) = m.receive env h n := by
    clear hres
    induction k with
    | zero => exact outcome_enter h n
    | succ k ih =>
      rw [passes_succ,
        outcome_pass (passes_within env h0 hpos hle n k) (lt_of_le_of_lt hle m.unsigned)]
      exact ih
  rw [← hout, outcome, hres]

end ReceiveManager

end Xiaoxin
