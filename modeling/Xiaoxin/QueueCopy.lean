import Xiaoxin.Connection
import Xiaoxin.ReceiveLoop

/-!
# The copy for the message queue

`operator=` copies `_buffer_size` bytes from `_buffer` on, however many of them were
received. When `MessageQueue::Add` is called the loop of `Receive` has moved `_buffer`
behind each packet that it cut off before, and the copy then reads as far behind the
end of the receive buffer.
-/
namespace Xiaoxin
open Framing Transition

namespace ReceiveManager

variable {m : ReceiveManager} {env : Env}

/-- Where the loop stands when it has used up the received bytes: at the start of them
exactly when they were one packet. -/
theorem receiveLoop_buffer {h : PerHandleData} (hb : h.InBuffer m.bufferSize)
    (h0 : 0 < h.offset) (hres : (m.receiveLoop env h).result = true) :
    (m.receiveLoop env h).handledata.buffer = h.buffer ↔
      (packetFramer.drain h.window).frames.length ≤ 1 := by
  induction h, hb using loop_induction with
  | more h hb hv =>
    rw [receiveLoop_more env hb hv] at hres
    cases hres
  | stop h hb hv =>
    rw [receiveLoop_stop env hb hv] at hres
    cases hres
  | exact h hb hv =>
    rw [receiveLoop_exact env hb hv, packetFramer.drain_frame hv, ← hb.window_length,
      List.drop_length, packetFramer.drain_more (w := []) (by rfl)]
    simp
  | frame h hb k hv hpos hlt ih =>
    have hb' := hb.advance hlt.le
    have h0' : 0 < (h.advance k).offset := by
      rw [PerHandleData.advance_offset]
      omega
    rw [receiveLoop_frame env hb hv hlt.ne] at hres ⊢
    rw [packetFramer.drain_frame hv, ← h.window_advance]
    obtain ⟨j, -, hj⟩ := receiveLoop_handledata env hb' h0'
    have hout := (receiveLoop_result env hb' h0').mp hres
    refine iff_of_false (fun hbuf => ?_) (fun hlen => ?_)
    · -- the loop goes on behind the packet and never comes back
      have hmoved : h.buffer + k + j = h.buffer := by
        rw [hj] at hbuf
        exact hbuf
      omega
    · -- what lies behind the packet is at least one packet more
      have hnil : (packetFramer.drain (h.advance k).window).frames = [] := by
        rw [Emission.after_frames, List.length_append, List.length_singleton] at hlen
        exact List.length_eq_zero_iff.mp (by omega)
      have hflat := packetFramer.flatten_frames_append hout
      rw [hnil, List.flatten_nil, List.append_nil] at hflat
      have hlen' := hb'.window_length
      rw [← hflat, List.length_nil] at hlen'
      omega

/-- The copies among the accesses of a call. -/
def copies (r : Reception) : List Access := r.accesses.filter fun a => a.use = .assign

theorem copies_returns (r : Reception) (as : List Access) (es : List Effect) (b : Bool) :
    copies (r.returns as es b) = copies r ++ as.filter fun a => a.use = .assign :=
  List.filter_append ..

theorem copies_moves (r : Reception) (k : ℕ) (as : List Access) (es : List Effect) :
    copies (r.moves k as es) = copies r ++ as.filter fun a => a.use = .assign :=
  List.filter_append ..

theorem flag4Accesses_copies (h : PerHandleData) :
    ((flag4Accesses env h).filter fun a => a.use = .assign) = [] := by
  unfold flag4Accesses
  cases env.recvAlloc <;> rfl

/-- The copy that `Add` makes of a handle. -/
theorem addAccesses_copies (h : PerHandleData) :
    ((addAccesses env h).filter fun a => a.use = .assign) =
      if env.queueAlloc.isSome then [⟨.assign, h.buffer, h.bufferSize⟩] else [] := by
  unfold addAccesses
  cases env.queueAlloc <;> rfl

/-- Within the loop nothing is copied for the queue, and a call that has returned true has
copied the handle as it left it. -/
theorem passes_copies {h : PerHandleData} {n : ℕ} (hn : n ≠ 0) (k : ℕ) :
    copies (m.passes env h n k) =
      if (m.passes env h n k).result = some true ∧ env.queueAlloc.isSome then
        [⟨.assign, (m.passes env h n k).handledata.buffer,
          (m.passes env h n k).handledata.bufferSize⟩]
      else [] := by
  induction k with
  | zero => simp [enter, hn, copies]
  | succ k ih =>
    rw [passes_succ]
    generalize m.passes env h n k = r at ih ⊢
    cases hres : r.result with
    | some b => rwa [pass_of_returned hres]
    | none =>
      have hcases := pass_cases m env hres
      rw [hres, if_neg (by simp)] at ih
      generalize m.pass env r = q at hcases ⊢
      cases hcases with
      | short h8 =>
        rw [copies_returns, ih, flag4Accesses_copies, if_neg (by simp [Reception.returns])]
        rfl
      | badHeader h8 hs =>
        rw [copies_returns, ih, if_neg (by simp [Reception.returns])]
        rfl
      | more h8 hs hk =>
        rw [copies_returns, ih, List.filter_append, flag4Accesses_copies,
          if_neg (by simp [Reception.returns])]
        rfl
      | exact h8 hs hk =>
        rw [copies_returns, ih, List.filter_append, addAccesses_copies]
        simp [Reception.returns, headerSizeField, wholeSizeField]
      | cut j h8 hs hk hpos hlt =>
        rw [copies_moves, ih, if_neg (by simp [Reception.moves, hres])]
        rfl

theorem mem_copies {r : Reception} {a : Access} :
    a ∈ copies r ↔ a ∈ r.accesses ∧ a.use = .assign := by
  simp [copies, List.mem_filter]

/-- A call that has returned is where `receiveLoop` says. -/
theorem passes_returned {h : PerHandleData} (h0 : h.buffer = 0) (hpos : 0 < h.offset)
    (hle : h.offset ≤ m.bufferSize) {n k : ℕ} (hn : n ≠ 0) {b : Bool}
    (hres : (m.passes env h n k).result = some b) :
    (m.receiveLoop env h).result = b ∧
      (m.receiveLoop env h).handledata = (m.passes env h n k).handledata := by
  have heq := passes_eq_receive h0 hpos hle hres
  have hloop : m.receive env h n = m.receiveLoop env h := if_neg hn
  rw [← hloop, heq]
  exact ⟨rfl, rfl⟩

/-- The copies of a call that runs the loop stay in the buffer, unless it ends with the
last of several packets. -/
theorem copies_inside_iff (env : Env) {h : PerHandleData} (hb : h.InBuffer m.bufferSize)
    (h0 : h.buffer = 0) (hpos : 0 < h.offset) {n : ℕ} (hn : n ≠ 0) :
    (∀ k, ∀ a ∈ copies (m.passes env h n k), a.pos + a.len ≤ m.bufferSize) ↔
      (env.queueAlloc.isSome → (packetFramer.drain h.window).outcome = .waiting [] →
        (packetFramer.drain h.window).frames.length ≤ 1) := by
  have hle : h.offset ≤ m.bufferSize := by
    have := hb.bound
    omega
  obtain ⟨j, -, hj⟩ := receiveLoop_handledata env hb hpos
  have hknown : (m.receiveLoop env h).handledata.bufferSize = m.bufferSize := by
    rw [hj]
    exact hb.known
  constructor
  · intro hall hq hout
    have htrue := (receiveLoop_result env hb hpos).mpr hout
    obtain ⟨b, hb'⟩ := Option.isSome_iff_exists.mp (passes_return m env h0 hpos hle n)
    obtain ⟨hres, hhandle⟩ := passes_returned h0 hpos hle hn hb'
    have hsome : (m.passes env h n h.offset).result = some true := by
      rw [hb', ← hres, htrue]
    have hmem : ⟨.assign, (m.receiveLoop env h).handledata.buffer,
        (m.receiveLoop env h).handledata.bufferSize⟩ ∈ copies (m.passes env h n h.offset) := by
      rw [passes_copies hn, if_pos ⟨hsome, hq⟩, hhandle]
      exact List.mem_singleton_self _
    have hcopy : (m.receiveLoop env h).handledata.buffer +
        (m.receiveLoop env h).handledata.bufferSize ≤ m.bufferSize := hall h.offset _ hmem
    rw [← receiveLoop_buffer hb hpos htrue]
    omega
  · intro hone k a ha
    rw [passes_copies hn] at ha
    split_ifs at ha with hsome
    · obtain ⟨hres, hhandle⟩ := passes_returned h0 hpos hle hn hsome.1
      have hframes := hone hsome.2 ((receiveLoop_result env hb hpos).mp hres)
      have hbuf := (receiveLoop_buffer hb hpos hres).mpr hframes
      have hend : (m.receiveLoop env h).handledata.buffer +
          (m.receiveLoop env h).handledata.bufferSize ≤ m.bufferSize := by omega
      rw [List.mem_singleton.mp ha, ← hhandle]
      exact hend
    · cases ha

/-- A read without bytes makes its copy from the start of the buffer. -/
theorem passes_copies_nil {h : PerHandleData} (k : ℕ) :
    ∀ a ∈ copies (m.passes env h 0 k), a = ⟨.assign, h.buffer, h.bufferSize⟩ := by
  have hpass : m.passes env h 0 k = m.enter env h 0 := by
    induction k with
    | zero => rfl
    | succ k ih =>
      rw [passes_succ, ih]
      exact pass_of_returned (b := false) rfl
  intro a ha
  rw [hpass] at ha
  simp only [enter, if_true, copies_returns, addAccesses_copies] at ha
  split_ifs at ha with hq
  · simpa [copies] using ha
  · simp [copies] at ha

end ReceiveManager

namespace Connection

variable {m : ReceiveManager} {s : Socket} {stream : List UInt8}

/-- The handle of a completed receive as `AsynReceive` passes it to `Receive`. -/
def received (c : Connection) (h : PerHandleData) (n : ℕ) : PerHandleData :=
  { h.fill (c.unread.take n) with offset := u32 ((h.fill (c.unread.take n)).offset + n) }

/-- Each copy for the message queue reads bytes of the receive buffer alone. -/
def CopiesInside (m : ReceiveManager) (c : Connection) (x : Completion) : Prop :=
  ∀ h ∈ c.posted.head?, ∀ k, ∀ a ∈ (m.passes x.env (c.received h x.bytesTransferred)
    x.bytesTransferred k).accesses, a.use = .assign →
      a.pos + a.len ≤ (c.received h x.bytesTransferred).memory.length

/-- A read that the queue is to have a copy of is not used up by two or more packets. -/
def QueuesAlone (c : Connection) (x : Completion) : Prop :=
  ∀ h ∈ c.posted.head?, x.bytesTransferred ≠ 0 → x.env.queueAlloc.isSome →
    (packetFramer.drain (h.window ++ c.unread.take x.bytesTransferred)).outcome = .waiting [] →
    (packetFramer.drain (h.window ++ c.unread.take x.bytesTransferred)).frames.length ≤ 1

theorem Live.copiesInside_iff {c d : Connection} {ds : List (List UInt8)} {r : List UInt8}
    (h : Live m s stream c ds r) {x : Completion} (hs : c.step m x = some d) :
    CopiesInside m c x ↔ c.QueuesAlone x := by
  obtain ⟨hroom, hun, -, -⟩ := h.step_eq hs
  obtain ⟨a, ha⟩ := h.posted
  have hfits := h.fits
  have hlen : (c.unread.take x.bytesTransferred).length = x.bytesTransferred := by
    rw [List.length_take, Nat.min_eq_left hun]
  have hfit : r.length + (c.unread.take x.bytesTransferred).length ≤ m.bufferSize := by omega
  have hrec : c.received (m.holding a (some s) r) x.bytesTransferred =
      m.holding a (some s) (r ++ c.unread.take x.bytesTransferred) := by
    have hfill := ReceiveManager.holding_fill a (some s) hfit
    rw [hlen] at hfill
    exact hfill
  unfold CopiesInside QueuesAlone
  simp only [ha, List.head?_cons, Option.mem_def, Option.some.injEq, forall_eq', hrec,
    ReceiveManager.holding_window]
  generalize c.unread.take x.bytesTransferred = data at hlen hfit
  have hb : (m.holding a (some s) (r ++ data)).InBuffer m.bufferSize :=
    ReceiveManager.holding_inBuffer (by simpa using hfit) a (some s)
  rw [hb.block]
  by_cases hn : x.bytesTransferred = 0
  · refine iff_of_true (fun k b hmem huse => ?_) (fun h0 => absurd hn h0)
    rw [hn] at hmem
    have hcopy := ReceiveManager.passes_copies_nil k b
      (ReceiveManager.mem_copies.mpr ⟨hmem, huse⟩)
    rw [hcopy]
    show 0 + m.bufferSize ≤ m.bufferSize
    omega
  · have hpos : 0 < (m.holding a (some s) (r ++ data)).offset := by
      rw [ReceiveManager.holding_offset, List.length_append]
      omega
    have hiff := ReceiveManager.copies_inside_iff x.env hb rfl hpos hn
    rw [ReceiveManager.holding_window] at hiff
    simp only [ReceiveManager.mem_copies, and_imp] at hiff
    rw [hiff]
    exact ⟨fun hall _ => hall, fun hall => hall hn⟩

/-- Whatever the peer sends and however it is cut into reads, the copies for the message
queue stay in their receive buffers exactly as long as no read that is copied was used up
by two or more packets. -/
theorem along_copiesInside_iff (m : ReceiveManager) (a : ℕ) (s : Socket) (stream : List UInt8)
    (shut : Bool) (xs : List Completion) (c : Connection)
    (h : exec (step m) (start m a s stream shut) xs = some c) :
    Along (step m) (CopiesInside m) (start m a s stream shut) xs ↔
      Along (step m) QueuesAlone (start m a s stream shut) xs := by
  refine along_congr (I := Reached m s stream) (fun c x d => Reached.step) ?_
    (start_reached a stream shut) h
  intro c x d hi hs
  obtain ⟨ds, r, hl⟩ := hi.live (posted_ne_nil hs)
  exact hl.copiesInside_iff hs

/-- A packet that arrives in two reads, then one alone and the close. -/
theorem along_copiesInside_two : ∃ c : Connection,
    exec (step ⟨64, false, by decide⟩) (start ⟨64, false, by decide⟩ 0 0
      [1, 0, 8, 0, 9, 0, 0, 0, 5, 2, 0, 8, 0, 8, 0, 0, 0] true)
      [⟨5, ⟨some 1, some 2, true, fun _ => 0⟩⟩, ⟨4, ⟨some 3, some 4, true, fun _ => 0⟩⟩,
        ⟨8, ⟨some 5, some 6, true, fun _ => 0⟩⟩, ⟨0, ⟨some 7, some 8, true, fun _ => 0⟩⟩] = some c ∧
    (Along (step ⟨64, false, by decide⟩) (CopiesInside ⟨64, false, by decide⟩)
      (start ⟨64, false, by decide⟩ 0 0 [1, 0, 8, 0, 9, 0, 0, 0, 5, 2, 0, 8, 0, 8, 0, 0, 0] true)
      [⟨5, ⟨some 1, some 2, true, fun _ => 0⟩⟩, ⟨4, ⟨some 3, some 4, true, fun _ => 0⟩⟩,
        ⟨8, ⟨some 5, some 6, true, fun _ => 0⟩⟩, ⟨0, ⟨some 7, some 8, true, fun _ => 0⟩⟩] ↔
    Along (step ⟨64, false, by decide⟩) QueuesAlone
      (start ⟨64, false, by decide⟩ 0 0 [1, 0, 8, 0, 9, 0, 0, 0, 5, 2, 0, 8, 0, 8, 0, 0, 0] true)
      [⟨5, ⟨some 1, some 2, true, fun _ => 0⟩⟩, ⟨4, ⟨some 3, some 4, true, fun _ => 0⟩⟩,
        ⟨8, ⟨some 5, some 6, true, fun _ => 0⟩⟩, ⟨0, ⟨some 7, some 8, true, fun _ => 0⟩⟩]) := by
  apply exists_exec (by decide +kernel)
  intro c hc
  exact along_copiesInside_iff _ 0 0 _ true _ c hc

/-- Two packets in one read: the copy of the second begins eight bytes into a buffer of
sixty-four and is sixty-four bytes long. -/
theorem second_packet_copied_beyond : ∃ c : Connection,
    exec (step ⟨64, false, by decide⟩) (start ⟨64, false, by decide⟩ 0 0
      [1, 0, 8, 0, 8, 0, 0, 0, 2, 0, 8, 0, 10, 0, 0, 0, 6, 7] false)
      [⟨18, ⟨some 1, some 2, true, fun _ => 0⟩⟩] = some c ∧
    ¬ Along (step ⟨64, false, by decide⟩) (CopiesInside ⟨64, false, by decide⟩)
      (start ⟨64, false, by decide⟩ 0 0
        [1, 0, 8, 0, 8, 0, 0, 0, 2, 0, 8, 0, 10, 0, 0, 0, 6, 7] false)
      [⟨18, ⟨some 1, some 2, true, fun _ => 0⟩⟩] := by
  apply exists_exec (by decide +kernel)
  intro c hc hall
  have hcopy := hall.1 _ rfl 2 ⟨.assign, 8, 64⟩ (by decide +kernel) rfl
  exact absurd hcopy (by decide +kernel)

end Connection

end Xiaoxin
