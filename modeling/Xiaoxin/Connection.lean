import Xiaoxin.ReceiveManager

/-!
# One connection over a byte stream

The peer sends a byte stream and may close behind it. The transport completes the
posted receive with some of the bytes that are still unread, as many as it likes
and as fit; with none, when the window is empty or the peer has closed. Each
completion runs `AsynReceive` to its end.

The stream alone decides what is delivered. With `packetFramer` bounded by the
buffer size, the bytes delivered so far, the bytes held by the posted receive and
the bytes unread always add up to the framing of the whole stream (`Stage`).
-/
namespace Xiaoxin
open Framing Transition

structure Connection where
  /-- The receives that are posted and have not completed. -/
  posted : List PerHandleData
  delivered : List Delivery
  /-- Whether `CloseSocket` has been called. -/
  closed : Bool
  /-- What the peer sends and no receive has taken yet. -/
  unread : List UInt8
  /-- Whether the peer closes behind its stream. -/
  shut : Bool
  deriving DecidableEq, Repr

/-- A completion of the posted receive. -/
structure Completion where
  bytesTransferred : ℕ
  env : Env

/-- Allocations succeed and the socket is open. -/
def Env.Sound (env : Env) : Prop := env.recvAlloc.isSome ∧ env.isOpen = true

instance (env : Env) : Decidable env.Sound := by
  unfold Env.Sound
  infer_instance

namespace ReceiveManager

variable {m : ReceiveManager} {env : Env}

theorem nextReceive_of_sound (h : env.Sound) (s : Option Socket) (rest : List UInt8) :
    ∃ a, m.nextReceive env s rest = [m.holding a s rest] := by
  obtain ⟨a, ha⟩ := Option.isSome_iff_exists.mp h.1
  exact ⟨a, by rw [nextReceive, if_pos h.2, ha, Option.map_some, Option.toList_some]⟩

theorem nextReceive_of_not_sound (h : ¬ env.Sound) (s : Option Socket) (rest : List UInt8) :
    m.nextReceive env s rest = [] := by
  unfold nextReceive
  split_ifs with hopen
  · have hnone : env.recvAlloc = none := Option.not_isSome_iff_eq_none.mp fun ha => h ⟨ha, hopen⟩
    rw [hnone, Option.map_none, Option.toList_none]
  · rfl

end ReceiveManager

/-- The free room of a receive. -/
def ReceiveManager.room (m : ReceiveManager) (h : PerHandleData) : ℕ := m.bufferSize - h.offset

namespace Connection

def apply (c : Connection) (es : List Effect) : Connection :=
  { c with
    posted := c.posted ++ posts es
    delivered := c.delivered ++ deliveries es
    closed := c.closed || closes es }

/-- The transport may complete the receive `h` with `n` bytes. -/
def Completes (m : ReceiveManager) (c : Connection) (h : PerHandleData) (n : ℕ) : Prop :=
  n ≤ m.room h ∧ n ≤ c.unread.length ∧
    (n = 0 → m.room h = 0 ∨ (c.unread = [] ∧ c.shut = true))

instance (m : ReceiveManager) (c : Connection) (h : PerHandleData) (n : ℕ) :
    Decidable (c.Completes m h n) := by
  unfold Completes
  infer_instance

def step (m : ReceiveManager) (c : Connection) (x : Completion) : Option Connection :=
  match c.posted with
  | [] => none
  | h :: hs =>
    if c.Completes m h x.bytesTransferred then
      let data := c.unread.take x.bytesTransferred
      some (apply { c with posted := hs, unread := c.unread.drop x.bytesTransferred }
        (m.asynReceive x.env (h.fill data) x.bytesTransferred))
    else none

/-- The first receive on the socket is posted, and nothing has happened yet. -/
def start (m : ReceiveManager) (a : ℕ) (s : Socket) (stream : List UInt8) (shut : Bool) :
    Connection :=
  ⟨[m.holding a (some s) []], [], false, stream, shut⟩

/-- No completion can happen any more. -/
def Finished (m : ReceiveManager) (c : Connection) : Prop := ∀ x, c.step m x = none

inductive Status
  | closed
  | noReceive
  | waiting (rest : List UInt8)
  deriving DecidableEq, Repr

def status (c : Connection) : Status :=
  if c.closed then .closed
  else
    match c.posted with
    | [] => .noReceive
    | h :: _ => .waiting h.window

variable {m : ReceiveManager} {s : Socket} {stream : List UInt8}

/-- What the buffer of the manager makes of a stream. -/
def framing (m : ReceiveManager) (stream : List UInt8) : Emission UInt8 :=
  (packetFramer.capped m.bufferSize).drain stream

theorem framing_more {r : List UInt8} (hr : packetVerdict r = .more)
    (h : r.length < m.bufferSize) : framing m r = ⟨[], .waiting r⟩ :=
  Framer.drain_more _ (packetFramer.capped_verdict_more.mpr ⟨hr, h⟩)

/-- A full buffer that framing would have to wait on is handed on as it is. -/
theorem framing_full {r : List UInt8} (hr : packetVerdict r = .more)
    (h : r.length = m.bufferSize) (x : List UInt8) : framing m (r ++ x) = ⟨[r], .ended⟩ := by
  have hv := packetFramer.capped_verdict_full h hr
  rw [framing, Framer.drain_append, Framer.drain_last _ hv, ← h, List.take_length]
  rfl

/-- The connection is waiting on a receive that holds `r`; `ds` has been delivered. -/
structure Live (m : ReceiveManager) (s : Socket) (stream : List UInt8) (c : Connection)
    (ds : List (List UInt8)) (r : List UInt8) : Prop where
  carries : Carries c.delivered ds
  posted : ∃ a, c.posted = [m.holding a (some s) r]
  fits : r.length ≤ m.bufferSize
  more : packetVerdict r = .more
  notClosed : c.closed = false
  rest : framing m stream = (framing m (r ++ c.unread)).after ds

/-- Where a connection can stand. -/
inductive Stage (m : ReceiveManager) (s : Socket) (stream : List UInt8) (c : Connection) : Prop
  | live (ds : List (List UInt8)) (r : List UInt8) (h : Live m s stream c ds r)
  /-- Framing has ended: a bad header, or a full buffer without a packet. -/
  | ended (ds : List (List UInt8)) (hc : Carries c.delivered ds) (hp : c.posted = [])
      (hcl : c.closed = decide (m.bufferSize = 0)) (hf : framing m stream = ⟨ds, .ended⟩)
  /-- The peer has closed; what was held was delivered last. -/
  | eof (ds : List (List UInt8)) (r : List UInt8) (hc : Carries c.delivered (ds ++ [r]))
      (hp : c.posted = []) (hcl : c.closed = decide (r = [])) (hsh : c.shut = true)
      (hf : framing m stream = ⟨ds, .waiting r⟩)

/-- The next receive could not be posted, and the rest of the stream is lost. -/
structure Abandoned (m : ReceiveManager) (stream : List UInt8) (c : Connection) : Prop where
  posted : c.posted = []
  carries : ∃ ds e, Carries c.delivered ds ∧ framing m stream = Emission.after e ds

theorem start_live (a : ℕ) (stream : List UInt8) (shut : Bool) :
    Live m s stream (start m a s stream shut) [] [] where
  carries := Carries.nil
  posted := ⟨a, rfl⟩
  fits := Nat.zero_le _
  more := rfl
  notClosed := rfl
  rest := by simp [start]

/-- What a completion of the posted receive does. -/
theorem Live.step_eq {c d : Connection} {ds : List (List UInt8)} {r : List UInt8}
    (h : Live m s stream c ds r) {x : Completion} (hs : c.step m x = some d) :
    x.bytesTransferred ≤ m.bufferSize - r.length ∧ x.bytesTransferred ≤ c.unread.length ∧
    (x.bytesTransferred = 0 →
      r.length = m.bufferSize ∨ (c.unread = [] ∧ c.shut = true)) ∧
    ∃ a, d = apply { c with posted := [], unread := c.unread.drop x.bytesTransferred }
      (m.handle x.env a s r (c.unread.take x.bytesTransferred)) := by
  obtain ⟨a, ha⟩ := h.posted
  have hfits := h.fits
  simp only [step, ha] at hs
  split_ifs at hs with hc
  obtain ⟨hroom, hun, hz⟩ := hc
  simp only [ReceiveManager.room, ReceiveManager.holding_offset] at hroom hz
  refine ⟨hroom, hun, fun h0 => (hz h0).imp (fun hf => by omega) id, a, ?_⟩
  rw [← Option.some.inj hs, ReceiveManager.handle, List.length_take, Nat.min_eq_left hun]

/-- The completions that can happen to the posted receive. -/
theorem Live.step_some {c : Connection} {ds : List (List UInt8)} {r : List UInt8}
    (h : Live m s stream c ds r) {x : Completion}
    (hroom : x.bytesTransferred ≤ m.bufferSize - r.length)
    (hun : x.bytesTransferred ≤ c.unread.length)
    (hz : x.bytesTransferred = 0 → r.length = m.bufferSize ∨ (c.unread = [] ∧ c.shut = true)) :
    ∃ d, c.step m x = some d := by
  obtain ⟨a, ha⟩ := h.posted
  have hcompl : c.Completes m (m.holding a (some s) r) x.bytesTransferred := by
    refine ⟨by simpa [ReceiveManager.room] using hroom, hun,
      fun h0 => (hz h0).imp (fun hf => ?_) id⟩
    simp [ReceiveManager.room, hf]
  simp only [step, ha, if_pos hcompl]
  exact ⟨_, rfl⟩

/-- A completion without bytes ends the connection. -/
theorem Live.step_zero {c d : Connection} {ds : List (List UInt8)} {r : List UInt8}
    (h : Live m s stream c ds r) {x : Completion} (h0 : x.bytesTransferred = 0)
    (hs : c.step m x = some d) : Stage m s stream d ∧ d.posted = [] := by
  obtain ⟨-, -, hz, a, rfl⟩ := h.step_eq hs
  have hb := ReceiveManager.holding_inBuffer h.fits a (some s)
  have hcar := ReceiveManager.add_carries x.env hb
  rw [ReceiveManager.holding_window] at hcar
  have hd := ReceiveManager.handle_nil_deliveries x.env a s h.fits
  have hp := ReceiveManager.handle_nil_posts x.env a s h.fits
  have hcl := ReceiveManager.handle_nil_closes x.env a s h.fits
  simp only [h0, List.take_zero, List.drop_zero, apply, hp, hcl, hd, h.notClosed, Bool.false_or,
    List.append_nil]
  refine ⟨?_, trivial⟩
  have hcarries := h.carries.append hcar
  by_cases hfull : r.length = m.bufferSize
  · have hf := framing_full h.more hfull c.unread
    refine .ended (ds ++ [r]) hcarries rfl ?_ (by rw [h.rest, hf]; rfl)
    simp only [← hfull, List.length_eq_zero_iff]
  · obtain ⟨hu, hsh⟩ := (hz h0).resolve_left hfull
    have hlt : r.length < m.bufferSize := lt_of_le_of_ne h.fits hfull
    refine .eof ds r hcarries rfl rfl hsh ?_
    rw [h.rest, hu, List.append_nil, framing_more h.more hlt]
    simp [Emission.after]

/-- A completion with bytes takes a live connection on, unless framing ends or the
next receive cannot be posted. -/
theorem Live.step_bytes {c d : Connection} {ds : List (List UInt8)} {r : List UInt8}
    (h : Live m s stream c ds r) {x : Completion} (h0 : x.bytesTransferred ≠ 0)
    (hs : c.step m x = some d) :
    (∃ ds' r', Live m s stream d ds' r' ∧ d.unread = c.unread.drop x.bytesTransferred) ∨
    ((framing m stream).outcome = .ended ∧ Stage m s stream d ∧ d.posted = []) ∨
    (¬ x.env.Sound ∧ Abandoned m stream d) := by
  obtain ⟨hroom, hun, -, a, rfl⟩ := h.step_eq hs
  have hfits := h.fits
  generalize hdata : c.unread.take x.bytesTransferred = data
  generalize hrest : c.unread.drop x.bytesTransferred = rest
  have hlen : data.length = x.bytesTransferred := by
    rw [← hdata, List.length_take, Nat.min_eq_left hun]
  have hsplit : c.unread = data ++ rest := by rw [← hdata, ← hrest, List.take_append_drop]
  have hne : data ≠ [] := by rw [← List.length_pos_iff]; omega
  have hfit : r.length + data.length ≤ m.bufferSize := by omega
  have hcar := ReceiveManager.handle_carries x.env a s hfit hne
  have hp := ReceiveManager.handle_posts x.env a s hfit hne
  have hcl := ReceiveManager.handle_closes x.env a s hfit hne
  have hframing : framing m stream = ((packetFramer.capped m.bufferSize).resume
      (packetFramer.drain (r ++ data)) rest).after ds := by
    rw [h.rest, hsplit, ← List.append_assoc, framing, Framer.capped_drain_append]
    simpa using hfit
  generalize hes : m.handle x.env a s r data = es at *
  have hcarries := h.carries.append hcar
  cases ho : (packetFramer.drain (r ++ data)).outcome with
  | ended =>
    simp only [ho] at hp hcl
    have hend : framing m stream = ⟨ds ++ (packetFramer.drain (r ++ data)).frames, .ended⟩ := by
      rw [hframing, Framer.resume, ho]
      simp [Emission.after, ho]
    have hB : m.bufferSize ≠ 0 := by omega
    have hposted : posts es = [] := hp
    refine .inr (.inl ⟨by rw [hend], .ended _ hcarries ?_ ?_ hend, ?_⟩)
    · simp [apply, hposted]
    · simp [apply, hcl, h.notClosed, hB]
    · simp [apply, hposted]
  | waiting r' =>
    simp only [ho] at hp hcl
    have hle := packetFramer.length_le_of_waiting ho
    rw [List.length_append] at hle
    have hnext : framing m stream =
        (framing m (r' ++ rest)).after (ds ++ (packetFramer.drain (r ++ data)).frames) := by
      rw [hframing, Framer.resume, ho]
      simp [framing]
    by_cases hsound : x.env.Sound
    · obtain ⟨a', ha'⟩ := ReceiveManager.nextReceive_of_sound (m := m) hsound (some s) r'
      refine .inl ⟨_, r', ⟨hcarries, ⟨a', ?_⟩, by omega, packetFramer.verdict_of_waiting ho, ?_,
        hnext⟩, rfl⟩
      · simp [apply, hp, ha']
      · simp [apply, hcl, h.notClosed, hsound.2]
    · rw [ReceiveManager.nextReceive_of_not_sound hsound] at hp
      exact .inr (.inr ⟨hsound, by simp [apply, hp], _, _, hcarries, hnext⟩)

/-- A connection that has no receive posted takes no step. -/
theorem posted_ne_nil {c d : Connection} {x : Completion} (h : c.step m x = some d) :
    c.posted ≠ [] := by
  intro hp
  simp [step, hp] at h

/-- A stage leads to a stage, unless the next receive cannot be posted. -/
theorem Stage.step {c d : Connection} (hi : Stage m s stream c) {x : Completion}
    (hs : c.step m x = some d) :
    Stage m s stream d ∨ (¬ x.env.Sound ∧ Abandoned m stream d) := by
  cases hi with
  | live ds r hl =>
    by_cases h0 : x.bytesTransferred = 0
    · exact .inl (hl.step_zero h0 hs).1
    · rcases hl.step_bytes h0 hs with ⟨ds', r', hl', -⟩ | ⟨-, hst, -⟩ | hab
      · exact .inl (.live ds' r' hl')
      · exact .inl hst
      · exact .inr hab
  | ended _ _ hp => exact absurd hp (posted_ne_nil hs)
  | eof _ _ _ hp => exact absurd hp (posted_ne_nil hs)

/-- Where a connection can stand, whatever the answers are. -/
def Reached (m : ReceiveManager) (s : Socket) (stream : List UInt8) (c : Connection) : Prop :=
  Stage m s stream c ∨ Abandoned m stream c

theorem start_reached (a : ℕ) (stream : List UInt8) (shut : Bool) :
    Reached m s stream (start m a s stream shut) := .inl (.live [] [] (start_live a stream shut))

theorem Reached.step {c d : Connection} {x : Completion} (hi : Reached m s stream c)
    (hs : c.step m x = some d) : Reached m s stream d := by
  rcases hi with hi | hi
  · exact (hi.step hs).imp id And.right
  · exact absurd hi.posted (posted_ne_nil hs)

/-- A connection with a receive posted is live. -/
theorem Reached.live {c : Connection} (hi : Reached m s stream c) (hp : c.posted ≠ []) :
    ∃ ds r, Live m s stream c ds r := by
  rcases hi with (⟨ds, r, hl⟩ | ⟨_, _, h⟩ | ⟨_, _, _, h⟩) | h
  · exact ⟨ds, r, hl⟩
  · exact absurd h hp
  · exact absurd h hp
  · exact absurd h.posted hp

section Runs

variable {a : ℕ} {shut : Bool} {xs : List Completion} {c : Connection}

/-- Every run ends in one of the stages or abandoned. -/
theorem run_reached (h : exec (step m) (start m a s stream shut) xs = some c) :
    Reached m s stream c :=
  invariant (fun _ _ _ => Reached.step) (start_reached a stream shut) h

/-- With sound answers no run is abandoned. -/
theorem run_stage_of_sound (h : exec (step m) (start m a s stream shut) xs = some c)
    (hx : ∀ x ∈ xs, x.env.Sound) : Stage m s stream c := by
  refine invariant_of_along (I := fun c => Stage m s stream c) (C := fun _ x => x.env.Sound)
    (fun c x d hi hx hs => ?_) (.live [] [] (start_live a stream shut))
    (along_of_forall_mem hx _) h
  exact (hi.step hs).resolve_right (fun hab => hab.1 hx)

/-- Whether the peer closes is fixed at the start. -/
theorem run_shut (h : exec (step m) (start m a s stream shut) xs = some c) : c.shut = shut := by
  refine invariant (I := fun c => c.shut = shut) (fun c x d hi hs => ?_) rfl h
  simp only [step] at hs
  split at hs
  · cases hs
  · split_ifs at hs
    rw [← Option.some.inj hs]
    exact hi

/-! ## Reassembly -/

/-- What a peer that keeps to the protocol sends. -/
def WellFormed (m : ReceiveManager) (packets : List (List UInt8)) : Prop :=
  ∀ p ∈ packets, Complete p ∧ p.length ≤ m.bufferSize

theorem framing_packets {packets : List (List UInt8)} (hp : WellFormed m packets) :
    framing m packets.flatten = (framing m []).after packets := by
  have hv : ∀ p ∈ packets, (packetFramer.capped m.bufferSize).verdict p = .frame p.length := by
    intro p hm
    obtain ⟨hc, hl⟩ := hp p hm
    rw [packetFramer.capped_verdict_of_ne_more hl] <;> simp [hc.verdict]
  simpa [framing] using (packetFramer.capped m.bufferSize).drain_flatten hv []

/-- Without a buffer the first completion hands on an empty message and is the last. -/
theorem framing_no_buffer (hB : m.bufferSize = 0) : framing m stream = ⟨[[]], .ended⟩ := by
  have hv : (packetFramer.capped m.bufferSize).verdict stream = .last m.bufferSize :=
    packetFramer.capped_verdict_last.mpr (.inr ⟨by rw [hB]; rfl, by omega, rfl⟩)
  rw [framing, Framer.drain_last _ hv, hB, List.take_zero]

theorem framing_nil (h : 0 < m.bufferSize) : framing m [] = ⟨[], .waiting []⟩ :=
  framing_more rfl h

/-- All that may be delivered of a stream: its frames, and what is left over when the
peer closes. -/
def deliverable (m : ReceiveManager) (stream : List UInt8) : List (List UInt8) :=
  match framing m stream with
  | ⟨fs, .waiting r⟩ => fs ++ [r]
  | ⟨fs, .ended⟩ => fs

theorem deliverable_packets {packets : List (List UInt8)} (hp : WellFormed m packets) :
    deliverable m packets.flatten = packets ++ [[]] := by
  rcases Nat.eq_zero_or_pos m.bufferSize with hB | hB
  · have hnone : packets = [] := by
      rw [List.eq_nil_iff_forall_not_mem]
      intro p hm
      have h8 : packetSize = 8 := rfl
      have := (hp p hm).1.hasHeader
      have := (hp p hm).2
      omega
    simp only [deliverable, framing_no_buffer hB, hnone, List.nil_append]
  · have hf : framing m packets.flatten = ⟨packets, .waiting []⟩ := by
      rw [framing_packets hp, framing_nil hB]
      simp [Emission.after]
    simp only [deliverable, hf]

theorem prefix_deliverable {ds : List (List UInt8)} {e : Emission UInt8}
    (h : framing m stream = e.after ds) : ds <+: deliverable m stream := by
  obtain ⟨fs, o⟩ := e
  rw [deliverable, h]
  cases o with
  | ended => exact List.prefix_append ds fs
  | waiting r => exact ⟨fs ++ [r], by simp [Emission.after]⟩

/-- What has been delivered is a beginning of what may be delivered. -/
theorem Reached.delivered_prefix (hi : Reached m s stream c) :
    ∃ fs, Carries c.delivered fs ∧ fs <+: deliverable m stream := by
  rcases hi with (⟨ds, r, hl⟩ | ⟨ds, hc, -, -, hf⟩ | ⟨ds, r, hc, -, -, -, hf⟩) | h
  · exact ⟨ds, hl.carries, prefix_deliverable hl.rest⟩
  · exact ⟨ds, hc, by simp [deliverable, hf]⟩
  · exact ⟨ds ++ [r], hc, by simp [deliverable, hf]⟩
  · obtain ⟨ds, e, hc, hf⟩ := h.carries
    exact ⟨ds, hc, prefix_deliverable hf⟩

/-- A read is no longer than the room of the receive that is posted. -/
def FitsRoom (m : ReceiveManager) (c : Connection) (x : Completion) : Prop :=
  ∀ h ∈ c.posted, x.bytesTransferred ≤ m.room h

instance (m : ReceiveManager) (c : Connection) (x : Completion) : Decidable (FitsRoom m c x) := by
  unfold FitsRoom
  infer_instance

/-- While the stream is framed to its end a live connection can take every read that
fits, and stays live. -/
theorem Live.run {ds : List (List UInt8)} {r : List UInt8} (hl : Live m s stream c ds r)
    (hw : (framing m stream).outcome = .waiting []) (hpos : ∀ x ∈ xs, 0 < x.bytesTransferred)
    (hsum : (xs.map Completion.bytesTransferred).sum = c.unread.length)
    (hx : ∀ x ∈ xs, x.env.Sound) (hfit : Along (step m) (FitsRoom m) c xs) :
    ∃ d ds' r', exec (step m) c xs = some d ∧ Live m s stream d ds' r' ∧ d.unread = [] := by
  induction xs generalizing c ds r with
  | nil => exact ⟨c, ds, r, rfl, hl, by simpa using hsum.symm⟩
  | cons x xs ih =>
    obtain ⟨b, hb⟩ := hl.posted
    have hx0 := hpos x (List.mem_cons_self ..)
    have hroom : x.bytesTransferred ≤ m.bufferSize - r.length := by
      simpa [FitsRoom, hb, ReceiveManager.room] using hfit.1
    simp only [List.map_cons, List.sum_cons] at hsum
    obtain ⟨d, hd⟩ := hl.step_some hroom (by omega) (fun h => by omega)
    rcases hl.step_bytes (by omega) hd with ⟨ds', r', hl', hu⟩ | ⟨he, -⟩ | ⟨hns, -⟩
    · have hlen : d.unread.length = c.unread.length - x.bytesTransferred := by
        rw [hu, List.length_drop]
      obtain ⟨e, es, re, he, hle⟩ := ih hl' (fun y hy => hpos y (List.mem_cons_of_mem x hy))
        (by omega) (fun y hy => hx y (List.mem_cons_of_mem x hy)) (hfit.2 d hd)
      exact ⟨e, es, re, exec_cons_eq_some.mpr ⟨d, hd, he⟩, hle⟩
    · rw [hw] at he
      cases he
    · exact absurd (hx x (List.mem_cons_self ..)) hns

/-- However a stream of packets is cut into reads, it is delivered packet by packet,
and a fresh receive is posted at the end. -/
theorem packets_reassembled (m : ReceiveManager) (hB : packetSize ≤ m.bufferSize) (a : ℕ)
    (s : Socket) (shut : Bool) (packets : List (List UInt8)) (hp : WellFormed m packets)
    (reads : List Completion) (hpos : ∀ x ∈ reads, 0 < x.bytesTransferred)
    (hsum : (reads.map Completion.bytesTransferred).sum = packets.flatten.length)
    (hx : ∀ x ∈ reads, x.env.Sound)
    (hfit : Along (step m) (FitsRoom m) (start m a s packets.flatten shut) reads) :
    ∃ c, exec (step m) (start m a s packets.flatten shut) reads = some c ∧
      c.delivered.map Delivery.bytes = packets ∧
      (∀ d ∈ c.delivered, d.len = d.bytes.length) ∧
      ∃ b, c.posted = [m.holding b (some s) []] := by
  have h8 : packetSize = 8 := rfl
  have hf : framing m packets.flatten = ⟨packets, .waiting []⟩ := by
    rw [framing_packets hp, framing_nil (by omega)]
    simp [Emission.after]
  obtain ⟨c, ds, r, he, hl, hu⟩ := (start_live (m := m) (s := s) a packets.flatten shut).run
    (by rw [hf]) hpos hsum hx hfit
  have hrest := hl.rest
  rw [hu, List.append_nil, hf] at hrest
  rcases lt_or_eq_of_le hl.fits with hlt | hfull
  · rw [framing_more hl.more hlt] at hrest
    simp only [Emission.after, List.append_nil, Emission.mk.injEq, Outcome.waiting.injEq] at hrest
    obtain ⟨rfl, rfl⟩ := hrest
    exact ⟨c, he, hl.carries.bytes, hl.carries.len, hl.posted⟩
  · have := framing_full hl.more hfull []
    rw [List.append_nil] at this
    rw [this] at hrest
    simp [Emission.after] at hrest

/-- Two packets in three reads: the first ends inside a header, the second inside a
body. -/
theorem packets_reassembled_three_reads :
    ∃ c, exec (step ⟨16, false, by decide⟩)
      (start ⟨16, false, by decide⟩ 0 0
        [[1, 0, 8, 0, 8, 0, 0, 0], [2, 0, 8, 0, 10, 0, 0, 0, 6, 7]].flatten true)
      [⟨3, ⟨some 1, some 2, true, fun _ => 0⟩⟩, ⟨12, ⟨some 3, some 4, true, fun _ => 0⟩⟩,
        ⟨3, ⟨some 5, some 6, true, fun _ => 0⟩⟩] = some c ∧
      c.delivered.map Delivery.bytes =
        [[1, 0, 8, 0, 8, 0, 0, 0], [2, 0, 8, 0, 10, 0, 0, 0, 6, 7]] ∧
      (∀ d ∈ c.delivered, d.len = d.bytes.length) ∧
      ∃ b, c.posted = [(⟨16, false, by decide⟩ : ReceiveManager).holding b (some 0) []] :=
  packets_reassembled ⟨16, false, by decide⟩ (by decide) 0 0 true
    [[1, 0, 8, 0, 8, 0, 0, 0], [2, 0, 8, 0, 10, 0, 0, 0, 6, 7]] (by unfold WellFormed; decide)
    [⟨3, ⟨some 1, some 2, true, fun _ => 0⟩⟩, ⟨12, ⟨some 3, some 4, true, fun _ => 0⟩⟩,
      ⟨3, ⟨some 5, some 6, true, fun _ => 0⟩⟩]
    (by decide) (by decide) (by decide) (by decide +kernel)

/-! ## Segmentation -/

/-- A connection that waits can take no further completion when the whole stream has
been read, the peer keeps the connection up and there is room for more. -/
theorem Live.finished {ds : List (List UInt8)} {r : List UInt8} (hl : Live m s stream c ds r)
    (hf : c.Finished m) : c.unread = [] ∧ c.shut = false ∧ r.length < m.bufferSize := by
  have hfits := hl.fits
  have hno : ∀ n, n ≤ m.bufferSize - r.length → n ≤ c.unread.length →
      ¬ (n = 0 → r.length = m.bufferSize ∨ (c.unread = [] ∧ c.shut = true)) := by
    intro n hn hu hz
    obtain ⟨d, hd⟩ := hl.step_some (x := ⟨n, none, none, true, fun _ => 0⟩) hn hu hz
    cases (hf _).symm.trans hd
  have hlt : r.length < m.bufferSize := by
    by_contra hge
    exact hno 0 (Nat.zero_le _) (Nat.zero_le _) (fun _ => .inl (by omega))
  have hun : c.unread = [] := by
    rw [← List.length_eq_zero_iff]
    by_contra hne
    exact hno 1 (by omega) (by omega) (fun h => by omega)
  refine ⟨hun, ?_, hlt⟩
  by_contra hsh
  exact hno 0 (Nat.zero_le _) (Nat.zero_le _) (fun _ => .inr ⟨hun, by simpa using hsh⟩)

theorem finished_of_posted (hp : c.posted = []) : c.Finished m := by
  intro x
  simp only [step, hp]

/-- Every live connection can be run to its end. -/
theorem Live.exists_finished {ds : List (List UInt8)} {r : List UInt8}
    (hl : Live m s stream c ds r) :
    ∃ xs d, (∀ x ∈ xs, x.env.Sound) ∧ exec (step m) c xs = some d ∧ d.Finished m := by
  induction hn : c.unread.length using Nat.strong_induction_on generalizing c ds r with
  | _ n ih =>
    subst hn
    by_cases hf : c.Finished m
    · exact ⟨[], c, by simp, rfl, hf⟩
    · obtain ⟨⟨k, env⟩, hx⟩ := not_forall.mp hf
      obtain ⟨d₀, hd₀⟩ := Option.ne_none_iff_exists'.mp hx
      obtain ⟨hroom, hun, hz, -⟩ := hl.step_eq hd₀
      have hsound : Env.Sound ⟨none, some 0, true, fun _ => 0⟩ := ⟨rfl, rfl⟩
      obtain ⟨d, hd⟩ := hl.step_some (x := ⟨k, none, some 0, true, fun _ => 0⟩) hroom hun hz
      have hone : ∀ xs e, (∀ x ∈ xs, x.env.Sound) → exec (step m) d xs = some e → e.Finished m →
          ∃ xs d, (∀ x ∈ xs, x.env.Sound) ∧ exec (step m) c xs = some d ∧ d.Finished m :=
        fun xs e hx he hfin => ⟨_ :: xs, e, List.forall_mem_cons.mpr ⟨hsound, hx⟩,
          exec_cons_eq_some.mpr ⟨d, hd, he⟩, hfin⟩
      by_cases hk : k = 0
      · exact hone [] d (by simp) rfl (finished_of_posted (hl.step_zero hk hd).2)
      · rcases hl.step_bytes hk hd with ⟨ds', r', hl', hu⟩ | ⟨-, -, hp⟩ | ⟨hns, -⟩
        · have hlen : d.unread.length < c.unread.length := by
            have hle : k ≤ c.unread.length := hun
            rw [hu, List.length_drop]
            change c.unread.length - k < c.unread.length
            omega
          obtain ⟨xs, e, hx, he, hfin⟩ := ih _ hlen hl' rfl
          exact hone xs e hx he hfin
        · exact hone [] d (by simp) rfl (finished_of_posted hp)
        · exact absurd hsound hns

/-- What a finished connection has delivered, and how it stands, by the stream alone. -/
def summary (m : ReceiveManager) (stream : List UInt8) (shut : Bool) :
    List (List UInt8) × Status :=
  match framing m stream with
  | ⟨fs, .ended⟩ => (fs, .noReceive)
  | ⟨fs, .waiting r⟩ =>
    if shut then (fs ++ [r], if r = [] then .closed else .noReceive) else (fs, .waiting r)

theorem Stage.summary_eq (hB : 0 < m.bufferSize) (hi : Stage m s stream c) (hf : c.Finished m) :
    (c.delivered.map Delivery.bytes, c.status) = summary m stream c.shut := by
  cases hi with
  | live ds r hl =>
    obtain ⟨hu, hsh, hlt⟩ := hl.finished hf
    obtain ⟨a, ha⟩ := hl.posted
    have hrest := hl.rest
    rw [hu, List.append_nil, framing_more hl.more hlt] at hrest
    simp only [summary, hrest, Emission.after, List.append_nil, hsh, hl.carries.bytes, status,
      hl.notClosed, ha, ReceiveManager.holding_window, Bool.false_eq_true, if_false]
  | ended ds hc hp hcl hfr =>
    have hne : m.bufferSize ≠ 0 := by omega
    simp only [summary, hfr, hc.bytes, status, hcl, hp, hne, decide_false, Bool.false_eq_true,
      if_false]
  | eof ds r hc hp hcl hsh hfr =>
    simp only [summary, hfr, hsh, if_true, hc.bytes, status, hcl, hp, decide_eq_true_eq]

/-- However the same stream is cut into reads, the same byte strings are delivered in
the same order and the connection ends in the same status. -/
theorem segmentation_independent (m : ReceiveManager) (hB : packetSize ≤ m.bufferSize)
    (s : Socket) (stream : List UInt8) (shut : Bool) (a b : ℕ) (xs ys : List Completion)
    (hxs : ∀ x ∈ xs, x.env.Sound) (hys : ∀ y ∈ ys, y.env.Sound) (c d : Connection)
    (hc : exec (step m) (start m a s stream shut) xs = some c) (hcf : c.Finished m)
    (hd : exec (step m) (start m b s stream shut) ys = some d) (hdf : d.Finished m) :
    c.delivered.map Delivery.bytes = d.delivered.map Delivery.bytes ∧ c.status = d.status := by
  have h8 : packetSize = 8 := rfl
  have hsc := (run_stage_of_sound hc hxs).summary_eq (by omega) hcf
  have hsd := (run_stage_of_sound hd hys).summary_eq (by omega) hdf
  rw [run_shut hc] at hsc
  rw [run_shut hd] at hsd
  exact Prod.mk.inj (hsc.trans hsd.symm)

/-- A packet and a header that announces more than the buffer holds, cut in two ways. -/
theorem segmentation_independent_two_cuts :
    ∃ c d, exec (step ⟨16, false, by decide⟩) (start ⟨16, false, by decide⟩ 0 0
        [1, 0, 8, 0, 8, 0, 0, 0, 1, 0, 8, 0, 255, 0, 0, 0] true)
        [⟨16, ⟨some 1, some 2, true, fun _ => 0⟩⟩, ⟨0, ⟨some 1, some 2, true, fun _ => 0⟩⟩] =
          some c ∧
      exec (step ⟨16, false, by decide⟩) (start ⟨16, false, by decide⟩ 5 0
        [1, 0, 8, 0, 8, 0, 0, 0, 1, 0, 8, 0, 255, 0, 0, 0] true)
        [⟨5, ⟨none, some 1, true, fun _ => 7⟩⟩, ⟨11, ⟨none, some 2, true, fun _ => 7⟩⟩,
          ⟨0, ⟨some 3, some 4, true, fun _ => 7⟩⟩] = some d ∧
      c.delivered.map Delivery.bytes = d.delivered.map Delivery.bytes ∧ c.status = d.status := by
  have hends :
      ∀ {o : Option Connection}, o.map posted = some [] → ∃ c, o = some c ∧ c.posted = [] :=
    fun ho => Option.map_eq_some_iff.mp ho
  obtain ⟨c, hc, hcp⟩ := hends (o := exec (step ⟨16, false, by decide⟩)
    (start ⟨16, false, by decide⟩ 0 0 [1, 0, 8, 0, 8, 0, 0, 0, 1, 0, 8, 0, 255, 0, 0, 0] true)
    [⟨16, ⟨some 1, some 2, true, fun _ => 0⟩⟩, ⟨0, ⟨some 1, some 2, true, fun _ => 0⟩⟩])
    (by decide +kernel)
  obtain ⟨d, hd, hdp⟩ := hends (o := exec (step ⟨16, false, by decide⟩)
    (start ⟨16, false, by decide⟩ 5 0 [1, 0, 8, 0, 8, 0, 0, 0, 1, 0, 8, 0, 255, 0, 0, 0] true)
    [⟨5, ⟨none, some 1, true, fun _ => 7⟩⟩, ⟨11, ⟨none, some 2, true, fun _ => 7⟩⟩,
      ⟨0, ⟨some 3, some 4, true, fun _ => 7⟩⟩]) (by decide +kernel)
  exact ⟨c, d, hc, hd, segmentation_independent ⟨16, false, by decide⟩ (by decide) 0 _ true 0 5 _ _
    (by decide) (by decide) c d hc (finished_of_posted hcp) hd (finished_of_posted hdp)⟩

end Runs

end Connection

end Xiaoxin
