import Xiaoxin.Connection

/-!
# The room of a posted receive

`PostReceive` asks for `_buffer_size - _offset` bytes behind the first `_offset` of the
buffer. `FALG_4` posts a handle with everything that is left over, also when that fills
the buffer: a header may declare more than the buffer takes, or nothing at all. The
receive then has no room, and completes with no bytes although nobody has closed.
-/
namespace Xiaoxin
open Framing Transition
namespace Connection

variable {m : ReceiveManager} {s : Socket} {stream : List UInt8}

/-- Each posted receive has a window in its block, and only a closing peer completes it
without bytes. -/
structure HasRoom (m : ReceiveManager) (c : Connection) : Prop where
  known : ∀ h ∈ c.posted, h.bufferSize = m.bufferSize
  notFull : ∀ h ∈ c.posted, h.offset < h.bufferSize
  inBlock : ∀ h ∈ c.posted, h.buffer + h.bufferSize ≤ h.memory.length
  zeroIsClose : ∀ x d, c.step m x = some d → x.bytesTransferred = 0 →
    c.unread = [] ∧ c.shut = true

/-- The bytes fill the buffer, and the packet that their header announces is larger than
the buffer or has no size. -/
def FillsBuffer (m : ReceiveManager) (w : List UInt8) : Prop :=
  w.length = m.bufferSize ∧ (headerOf w).thePacketHeaderSize = packetSize ∧
    ((headerOf w).theWholePacketSize = 0 ∨ m.bufferSize < (headerOf w).theWholePacketSize)

instance (m : ReceiveManager) (w : List UInt8) : Decidable (FillsBuffer m w) := by
  unfold FillsBuffer
  infer_instance

/-- The completion does not fill the buffer with an unfinished packet, or no receive can
be posted after it. -/
def LeavesRoom (m : ReceiveManager) (c : Connection) (x : Completion) : Prop :=
  ∀ h ∈ c.posted, x.env.Sound → ¬ FillsBuffer m (h.window ++ c.unread.take x.bytesTransferred)

instance (m : ReceiveManager) (c : Connection) (x : Completion) : Decidable (LeavesRoom m c x) := by
  unfold LeavesRoom
  infer_instance

/-- In a buffer that takes a header, a full buffer is unfinished when the loop of `Receive`
would wait for more. -/
theorem fillsBuffer_iff (h8 : packetSize ≤ m.bufferSize) (w : List UInt8) :
    FillsBuffer m w ↔ w.length = m.bufferSize ∧ packetVerdict w = .more := by
  unfold FillsBuffer packetVerdict
  refine and_congr_right fun hw => ?_
  rw [if_neg (by omega)]
  by_cases hs : (headerOf w).thePacketHeaderSize = packetSize
  · rw [if_neg (not_not.mpr hs)]
    split_ifs with hz
    · exact iff_of_false (fun hfull => by omega) (by simp)
    · exact iff_of_true ⟨hs, by omega⟩ rfl
  · rw [if_pos hs]
    simp [hs]

/-- What framing waits on is all there was when it is as long, and cut off nothing. -/
theorem eq_of_waiting_length {w r : List UInt8} (h : (packetFramer.drain w).outcome = .waiting r)
    (hlen : w.length ≤ r.length) : r = w := by
  have hflat := packetFramer.flatten_frames_append h
  have hnil : (packetFramer.drain w).frames.flatten = [] := by
    have hsum := congrArg List.length hflat
    rw [List.length_append] at hsum
    exact List.length_eq_zero_iff.mp (by omega)
  rw [hnil, List.nil_append] at hflat
  exact hflat

theorem hasRoom_of_nil {c : Connection} (h : c.posted = []) : HasRoom m c where
  known g hg := by rw [h] at hg; cases hg
  notFull g hg := by rw [h] at hg; cases hg
  inBlock g hg := by rw [h] at hg; cases hg
  zeroIsClose x d hs := absurd h (posted_ne_nil hs)

theorem hasRoom_iff {c : Connection} {a : ℕ} {r : List UInt8}
    (h : c.posted = [m.holding a (some s) r]) (hfit : r.length ≤ m.bufferSize) :
    HasRoom m c ↔ r.length < m.bufferSize := by
  have hb := ReceiveManager.holding_inBuffer hfit a (some s)
  constructor
  · intro hc
    exact hc.notFull _ (by rw [h]; exact List.mem_singleton_self _)
  · intro hlt
    refine ⟨fun g hg => ?_, fun g hg => ?_, fun g hg => ?_, fun x d hs h0 => ?_⟩
    · rw [h] at hg
      rw [List.mem_singleton.mp hg]
      rfl
    · rw [h] at hg
      rw [List.mem_singleton.mp hg]
      exact hlt
    · rw [h] at hg
      rw [List.mem_singleton.mp hg, hb.block, hb.known]
      show 0 + m.bufferSize ≤ m.bufferSize
      omega
    · simp only [step, h] at hs
      split_ifs at hs with hc
      refine (hc.2.2 h0).resolve_left ?_
      show m.bufferSize - r.length ≠ 0
      omega

/-- The receive that a handler posts has room exactly when the bytes are no unfinished
packet that fills the buffer. -/
theorem hasRoom_handle_iff {env : Env} {b : ℕ} {r data : List UInt8} {d : Connection}
    (hd : d.posted = posts (m.handle env b s r data))
    (hfit : r.length + data.length ≤ m.bufferSize) (hne : data ≠ []) :
    HasRoom m d ↔ (env.Sound →
      ¬ ((r ++ data).length = m.bufferSize ∧ packetVerdict (r ++ data) = .more)) := by
  have hp := hd.trans (ReceiveManager.handle_posts env b s hfit hne)
  by_cases hsound : env.Sound
  · cases ho : (packetFramer.drain (r ++ data)).outcome with
    | ended =>
      simp only [ho] at hp
      refine iff_of_true (hasRoom_of_nil hp) (fun _ hfull => ?_)
      rw [packetFramer.drain_more hfull.2] at ho
      cases ho
    | waiting r' =>
      simp only [ho] at hp
      obtain ⟨b', hb⟩ := ReceiveManager.nextReceive_of_sound (m := m) hsound (some s) r'
      have hle := packetFramer.length_le_of_waiting ho
      have hmore := packetFramer.verdict_of_waiting ho
      have hw : (r ++ data).length ≤ m.bufferSize := by
        rw [List.length_append]
        exact hfit
      rw [hasRoom_iff (hp.trans hb) (by omega)]
      constructor
      · intro hlt' _ hfull
        rw [packetFramer.drain_more hfull.2] at ho
        obtain rfl : r ++ data = r' := Outcome.waiting.inj ho
        omega
      · intro hnot
        by_contra hge
        have hall := eq_of_waiting_length ho (by omega)
        exact hnot hsound ⟨by rw [← hall]; omega, hall ▸ hmore⟩
  · have hnone : d.posted = [] := by
      rw [hp]
      cases (packetFramer.drain (r ++ data)).outcome with
      | ended => rfl
      | waiting r' => exact ReceiveManager.nextReceive_of_not_sound hsound (some s) r'
    exact iff_of_true (hasRoom_of_nil hnone) (fun hs' => absurd hs' hsound)

/-- A completion leaves the next receive room exactly when it does not fill the buffer
with an unfinished packet. -/
theorem Live.hasRoom_iff {c d : Connection} {ds : List (List UInt8)} {r : List UInt8}
    (h8 : packetSize ≤ m.bufferSize) (h : Live m s stream c ds r) (hroom : HasRoom m c)
    {x : Completion} (hs : c.step m x = some d) : HasRoom m d ↔ LeavesRoom m c x := by
  obtain ⟨a, ha⟩ := h.posted
  have hlt := (Connection.hasRoom_iff ha h.fits).mp hroom
  have hleaves : LeavesRoom m c x ↔
      (x.env.Sound → ¬ ((r ++ c.unread.take x.bytesTransferred).length = m.bufferSize ∧
        packetVerdict (r ++ c.unread.take x.bytesTransferred) = .more)) := by
    unfold LeavesRoom
    simp only [ha, List.mem_singleton, forall_eq, ReceiveManager.holding_window, fillsBuffer_iff h8]
  rw [hleaves]
  by_cases h0 : x.bytesTransferred = 0
  · refine iff_of_true (hasRoom_of_nil (h.step_zero h0 hs).2) (fun _ hfull => ?_)
    rw [h0, List.take_zero, List.append_nil] at hfull
    omega
  · obtain ⟨hfree, hun, -, b, rfl⟩ := h.step_eq hs
    have hlen : (c.unread.take x.bytesTransferred).length = x.bytesTransferred := by
      rw [List.length_take, Nat.min_eq_left hun]
    have hne : c.unread.take x.bytesTransferred ≠ [] := by
      rw [← List.length_pos_iff]
      omega
    have hfits := h.fits
    exact hasRoom_handle_iff rfl (by omega) hne

theorem start_hasRoom (h8 : packetSize ≤ m.bufferSize) (a : ℕ) (shut : Bool) :
    HasRoom m (start m a s stream shut) := by
  have h0 : packetSize = 8 := rfl
  refine (hasRoom_iff (r := []) rfl (Nat.zero_le _)).mpr ?_
  rw [List.length_nil]
  omega

/-- `_buffer_size - _offset` never underflows, whatever the peer sends. -/
theorem offset_le_bufferSize {a : ℕ} {shut : Bool} {xs : List Completion} {c : Connection}
    (h : exec (step m) (start m a s stream shut) xs = some c) :
    ∀ p ∈ c.posted, p.offset ≤ p.bufferSize := by
  intro p hp
  obtain ⟨ds, r, hl⟩ := (run_reached h).live (List.ne_nil_of_mem hp)
  obtain ⟨b, hb⟩ := hl.posted
  rw [hb] at hp
  rw [List.mem_singleton.mp hp]
  exact hl.fits

/-- The posted receives have room throughout exactly as long as no completion fills the
buffer with an unfinished packet and posts the next receive. -/
theorem always_hasRoom_iff (m : ReceiveManager) (h8 : 8 ≤ m.bufferSize) (a : ℕ) (s : Socket)
    (stream : List UInt8) (shut : Bool) (xs : List Completion) (c : Connection)
    (h : exec (step m) (start m a s stream shut) xs = some c) :
    Always (step m) (HasRoom m) (start m a s stream shut) xs ↔
      Along (step m) (LeavesRoom m) (start m a s stream shut) xs := by
  refine always_iff_along (I := Reached m s stream) (fun c x d => Reached.step) ?_
    (start_reached a stream shut) (start_hasRoom h8 a shut) h
  intro c x d hi hroom hs
  obtain ⟨ds, r, hl⟩ := hi.live (posted_ne_nil hs)
  exact hl.hasRoom_iff h8 hroom hs

/-- A packet of ten bytes in two reads, then the close. -/
theorem always_hasRoom_two : ∃ c : Connection,
    exec (step ⟨16, false, by decide⟩) (start ⟨16, false, by decide⟩ 0 0
      [1, 0, 8, 0, 10, 0, 0, 0, 5, 6] true)
      [⟨7, ⟨some 1, some 2, true, fun _ => 0⟩⟩, ⟨3, ⟨some 3, some 4, true, fun _ => 0⟩⟩,
        ⟨0, ⟨some 5, some 6, true, fun _ => 0⟩⟩] = some c ∧
    (Always (step ⟨16, false, by decide⟩) (HasRoom ⟨16, false, by decide⟩)
      (start ⟨16, false, by decide⟩ 0 0 [1, 0, 8, 0, 10, 0, 0, 0, 5, 6] true)
      [⟨7, ⟨some 1, some 2, true, fun _ => 0⟩⟩, ⟨3, ⟨some 3, some 4, true, fun _ => 0⟩⟩,
        ⟨0, ⟨some 5, some 6, true, fun _ => 0⟩⟩] ↔
    Along (step ⟨16, false, by decide⟩) (LeavesRoom ⟨16, false, by decide⟩)
      (start ⟨16, false, by decide⟩ 0 0 [1, 0, 8, 0, 10, 0, 0, 0, 5, 6] true)
      [⟨7, ⟨some 1, some 2, true, fun _ => 0⟩⟩, ⟨3, ⟨some 3, some 4, true, fun _ => 0⟩⟩,
        ⟨0, ⟨some 5, some 6, true, fun _ => 0⟩⟩]) := by
  apply exists_exec (by decide +kernel)
  intro c hc
  exact always_hasRoom_iff _ (by decide) 0 0 _ true _ c hc

/-- A packet of 255 bytes in a buffer of sixteen: the receive that is posted when the
buffer is full completes with no bytes while the peer has one more to send. -/
theorem full_buffer_posted : ∃ c : Connection,
    exec (step ⟨16, false, by decide⟩) (start ⟨16, false, by decide⟩ 0 0
      [1, 0, 8, 0, 255, 0, 0, 0, 1, 2, 3, 4, 5, 6, 7, 8, 9] false)
      [⟨16, ⟨some 1, some 2, true, fun _ => 0⟩⟩] = some c ∧
    ¬ HasRoom ⟨16, false, by decide⟩ c ∧ c.unread = [9] ∧
    (c.step ⟨16, false, by decide⟩ ⟨0, ⟨some 3, some 4, true, fun _ => 0⟩⟩).isSome := by
  apply exists_exec (by decide +kernel)
  intro c hc
  have hrun : (exec (step ⟨16, false, by decide⟩) (start ⟨16, false, by decide⟩ 0 0
      [1, 0, 8, 0, 255, 0, 0, 0, 1, 2, 3, 4, 5, 6, 7, 8, 9] false)
      [⟨16, ⟨some 1, some 2, true, fun _ => 0⟩⟩]).map (fun c => (c.unread, c.shut,
        (c.step ⟨16, false, by decide⟩ ⟨0, ⟨some 3, some 4, true, fun _ => 0⟩⟩).isSome)) =
      some ([9], false, true) := by decide +kernel
  rw [hc, Option.map_some, Option.some.injEq, Prod.mk.injEq, Prod.mk.injEq] at hrun
  obtain ⟨hunread, -, hzero⟩ := hrun
  refine ⟨fun hroom => ?_, hunread, hzero⟩
  obtain ⟨d, hd⟩ := Option.isSome_iff_exists.mp hzero
  have hclose := hroom.zeroIsClose _ d hd rfl
  rw [hunread] at hclose
  exact absurd hclose.1 (by decide)

end Connection
end Xiaoxin
