import Xiaoxin.CompletePackets
import Xiaoxin.Sending

/-!
# From a sender to a receiver

A sender accepts a packet by the size of its own buffers, and a receiver cuts packets
by the size of its own. Neither asks the other. A receiver that stands between two
packets hands on exactly the packet that was sent when the packet has room for its
header and fits the receiver's buffer.
-/
namespace Xiaoxin
open Framing Transition

namespace Connection

variable {m : ReceiveManager} {c d : Connection} {stream : List UInt8}

/-- The receive that is posted holds nothing, and the peer stays connected. -/
structure BetweenPackets (m : ReceiveManager) (c : Connection) : Prop where
  posted : ∃ a s, c.posted = [m.holding a (some s) []]
  notClosed : c.closed = false
  notShut : c.shut = false

/-- A connection that has delivered something before. -/
def after (earlier : List Delivery) (c : Connection) : Connection :=
  { c with delivered := earlier ++ c.delivered }

/-- What was delivered earlier has no influence. -/
theorem step_after (earlier : List Delivery) (c : Connection) (x : Completion) :
    (c.after earlier).step m x = (c.step m x).map (after earlier) := by
  obtain ⟨posted, delivered, closed, unread, shut⟩ := c
  cases posted with
  | nil => rfl
  | cons h hs =>
    show ite _ _ _ = Option.map _ (ite _ _ _)
    by_cases hc : Completes m ⟨h :: hs, delivered, closed, unread, shut⟩ h x.bytesTransferred
    · have hc' : Completes m ⟨h :: hs, earlier ++ delivered, closed, unread, shut⟩ h
          x.bytesTransferred := hc
      rw [if_pos hc]
      simp only [after, if_pos hc', apply, Option.map_some, List.append_assoc]
    · have hc' : ¬ Completes m ⟨h :: hs, earlier ++ delivered, closed, unread, shut⟩ h
          x.bytesTransferred := hc
      rw [if_neg hc]
      exact if_neg hc'

theorem finished_after {earlier : List Delivery} :
    (c.after earlier).Finished m ↔ c.Finished m :=
  forall_congr' fun x => by rw [step_after, Option.map_eq_none_iff]

theorem start_between (m : ReceiveManager) (a : ℕ) (s : Socket) (stream : List UInt8) :
    (start m a s stream false).BetweenPackets m := ⟨⟨a, s, rfl⟩, rfl, rfl⟩

/-- A connection waits when all has been read, the peer stays and there is room. -/
theorem finished_of_waiting (hu : c.unread = []) (hsh : c.shut = false)
    (hp : ∀ h ∈ c.posted, m.room h ≠ 0) : c.Finished m := by
  intro x
  unfold step
  split
  · rfl
  · rename_i h hs hposted
    refine if_neg fun hc => ?_
    obtain ⟨-, hle, hz⟩ := hc
    rw [hu, List.length_nil] at hle
    rcases hz (by omega) with hroom | ⟨-, hshut⟩
    · exact hp h (by rw [hposted]; exact List.mem_cons_self ..) hroom
    · rw [hsh] at hshut
      cases hshut

theorem BetweenPackets.eq_after (h : c.BetweenPackets m) :
    ∃ a s, c = (start m a s c.unread false).after c.delivered := by
  obtain ⟨a, s, hp⟩ := h.posted
  obtain ⟨posted, delivered, closed, unread, shut⟩ := c
  refine ⟨a, s, ?_⟩
  have hcl : closed = false := h.notClosed
  have hsh : shut = false := h.notShut
  simp only at hp
  rw [hp, hcl, hsh]
  simp [after, start]

/-- A connection that has read its stream to the end, and whose peer has not closed,
has delivered the frames. -/
theorem Stage.carries_frames {s : Socket} (hi : Stage m s stream c) (hf : c.Finished m)
    (hsh : c.shut = false) : Carries c.delivered (framing m stream).frames := by
  cases hi with
  | live ds r hl =>
    obtain ⟨hu, -, hlt⟩ := hl.finished hf
    rw [hl.rest, hu, List.append_nil, framing_more hl.more hlt, Emission.after_frames,
      List.append_nil]
    exact hl.carries
  | ended ds hc hp hcl hfr =>
    rw [hfr]
    exact hc
  | eof ds r hc hp hcl hsh' hfr =>
    rw [hsh] at hsh'
    cases hsh'

/-- Between packets the frames of what is still unread are all that will be delivered. -/
theorem BetweenPackets.delivered (h : c.BetweenPackets m) {xs : List Completion}
    (hx : ∀ x ∈ xs, x.env.Sound) (hrun : exec (step m) c xs = some d) (hf : d.Finished m) :
    ∃ ds, d.delivered = c.delivered ++ ds ∧ Carries ds (framing m c.unread).frames := by
  obtain ⟨a, s, hc⟩ := h.eq_after
  rw [hc, exec_map (step_after c.delivered), Option.map_eq_some_iff] at hrun
  obtain ⟨e, he, rfl⟩ := hrun
  rw [finished_after] at hf
  exact ⟨e.delivered, rfl, (run_stage_of_sound he hx).carries_frames hf (run_shut he)⟩

end Connection

namespace SendManager
open Connection

variable {sender : SendManager} {receiver : ReceiveManager} {h : PerHandleData}
  {wholePacketSize : ℤ} {packet : EPacketType} {device : EDeviceType}

section Frames

variable (hs : sender.Sized wholePacketSize packet device h) (hle : h.offset ≤ sender.bufferSize)
include hs hle

/-- A packet that fits is cut off as it was sent. -/
theorem Sized.frames_of_fits (h8 : packetSize ≤ h.offset) (hr : h.offset ≤ receiver.bufferSize) :
    (framing receiver (h.slice h.offset)).frames = [h.slice h.offset] := by
  have hw : WellFormed receiver [h.slice h.offset] := by
    intro p hp
    rw [List.mem_singleton.mp hp]
    exact ⟨hs.complete hle h8, by rwa [hs.slice_length hle]⟩
  have h8' : packetSize = 8 := rfl
  have hf := framing_packets hw
  rw [List.flatten_singleton, framing_nil (by omega)] at hf
  rw [hf]
  rfl

/-- A packet shorter than its header is waited for. -/
theorem Sized.frames_of_short (h8 : h.offset < packetSize)
    (hr : packetSize ≤ receiver.bufferSize) :
    (framing receiver (h.slice h.offset)).frames = [] := by
  have hlen := hs.slice_length hle
  have hv : packetVerdict (h.slice h.offset) = .more := by
    rw [packetVerdict, if_pos (by omega)]
  rw [framing_more hv (by omega)]

/-- A packet larger than the receiver's buffer is cut off where the buffer ends. -/
theorem Sized.frames_of_large (hB : packetSize ≤ receiver.bufferSize)
    (hr : receiver.bufferSize < h.offset) :
    (framing receiver (h.slice h.offset)).frames =
      [(h.slice h.offset).take receiver.bufferSize] := by
  have hlen := hs.slice_length hle
  have hhead := hs.headerOf_slice hle (by omega)
  generalize h.slice h.offset = p at hlen hhead ⊢
  have htake : (p.take receiver.bufferSize).length = receiver.bufferSize := by
    rw [List.length_take]
    omega
  have hv : packetVerdict (p.take receiver.bufferSize) = .more := by
    have hoff := hs.offset
    rw [packetVerdict, headerOf_take hB (by omega), hhead, if_neg (by omega), if_neg (by simp),
      if_neg (by simp only; omega)]
  have hfull := framing_full hv htake (p.drop receiver.bufferSize)
  rw [List.take_append_drop] at hfull
  rw [hfull]

/-- The packet comes out whole exactly when it has room for its header and fits. -/
theorem Sized.frames_iff (hB : packetSize ≤ receiver.bufferSize) :
    (framing receiver (h.slice h.offset)).frames = [h.slice h.offset] ↔
      packetSize ≤ h.offset ∧ h.offset ≤ receiver.bufferSize := by
  have hlen := hs.slice_length hle
  constructor
  · intro hf
    by_contra hnot
    rcases Nat.lt_or_ge h.offset packetSize with h8 | h8
    · rw [hs.frames_of_short hle h8 hB] at hf
      cases hf
    · rw [hs.frames_of_large hle hB (by omega)] at hf
      have := congrArg List.length (List.singleton_inj.mp hf)
      rw [List.length_take] at this
      omega
  · rintro ⟨h8, hr⟩
    exact hs.frames_of_fits hle h8 hr

end Frames

/-- What `PostSend` accepts of a packet that `GetData` made, with any payload behind the
header, is decoded by a receiver exactly when the size of the packet is between the
size of its header and the size of the receiver's buffer. -/
theorem decoded_iff (sender : SendManager) (receiver : ReceiveManager)
    (hB : 16 ≤ sender.bufferSize) (hR : 16 ≤ receiver.bufferSize) (past : ℕ → UInt8)
    (address : Option ℕ) (socket : Option Socket) (category protocol wholePacketSize : ℤ)
    (packet : EPacketType) (device : EDeviceType) (data : PerHandleData)
    (hg : sender.getDataSized address socket category protocol wholePacketSize packet device =
      some data)
    (payload : List UInt8) (hp : packetSize + payload.length ≤ sender.bufferSize)
    (hpost : (sender.postSend (some (data.poke packetSize payload))).1 = .success)
    (c : Connection) (hc : c.BetweenPackets receiver)
    (hun : c.unread = (data.poke packetSize payload).bytes past (toUnsigned 32 wholePacketSize))
    (xs : List Completion) (hx : ∀ x ∈ xs, x.env.Sound) (d : Connection)
    (hrun : exec (Connection.step receiver) c xs = some d) (hf : d.Finished receiver) :
    (∃ x, d.delivered = c.delivered ++ [x] ∧ x.bytes = c.unread ∧
        x.len = toUnsigned 32 wholePacketSize) ↔
      packetSize ≤ toUnsigned 32 wholePacketSize ∧
        toUnsigned 32 wholePacketSize ≤ receiver.bufferSize := by
  have h8 : packetSize = 8 := rfl
  have h12 : messageRootSize = 12 := rfl
  have hs := (getDataSized_sized (by omega) hg).poke le_rfl hp
  obtain ⟨h, s, hh, -, hle, -⟩ := postSend_success hpost
  obtain rfl := Option.some.inj hh
  rw [← hs.offset] at hun ⊢
  rw [hs.owns.bytes_eq_slice hle past] at hun
  rw [← hs.frames_iff hle (by omega), ← hun]
  obtain ⟨ds, hds, hcar⟩ := hc.delivered hx hrun hf
  have hlen : c.unread.length = (data.poke packetSize payload).offset := by
    rw [hun, hs.slice_length hle]
  rw [hds, ← hlen]
  constructor
  · rintro ⟨x, hxs, hb, -⟩
    rw [← hcar.bytes, List.append_cancel_left hxs, List.map_singleton, hb]
  · intro hfr
    rw [hfr] at hcar
    obtain ⟨x, rfl, hb⟩ := List.map_eq_singleton_iff.mp hcar.bytes
    exact ⟨x, rfl, hb, by rw [hcar.len x (List.mem_singleton_self x), hb]⟩

/-- A handle for a packet of `size` bytes, as `GetData` makes it. -/
def blank (size : ℕ) : PerHandleData where
  address := 0
  socket := some 0
  memory := [2, 1, 8, 0, UInt8.ofNat size, 0, 0, 0] ++ List.replicate 24 0
  buffer := 0
  bufferSize := 32
  offset := size

/-- A packet of twelve bytes for a receiver with sixteen, in two reads. -/
theorem decoded_iff_two_reads :
    ∃ d, exec (Connection.step ⟨16, false, by decide⟩) (start ⟨16, false, by decide⟩ 0 5
          (((blank 12).poke packetSize [3, 0, 4, 0]).bytes (fun _ => 0) (toUnsigned 32 12)) false)
        [⟨5, some 1, some 2, true, fun _ => 0⟩, ⟨7, some 3, some 4, true, fun _ => 0⟩] = some d ∧
      ((∃ x, d.delivered = [] ++ [x] ∧
          x.bytes = ((blank 12).poke packetSize [3, 0, 4, 0]).bytes (fun _ => 0)
            (toUnsigned 32 12) ∧
          x.len = toUnsigned 32 12) ↔
        packetSize ≤ toUnsigned 32 12 ∧ toUnsigned 32 12 ≤ 16) := by
  have hrun : (exec (Connection.step ⟨16, false, by decide⟩) (start ⟨16, false, by decide⟩ 0 5
      (((blank 12).poke packetSize [3, 0, 4, 0]).bytes (fun _ => 0) (toUnsigned 32 12)) false)
      [⟨5, some 1, some 2, true, fun _ => 0⟩, ⟨7, some 3, some 4, true, fun _ => 0⟩]).map
      (fun d => ((d.unread, d.shut), d.posted.map PerHandleData.offset)) =
      some (([], false), [0]) := by decide +kernel
  obtain ⟨d, hd, hv⟩ := Option.map_eq_some_iff.mp hrun
  obtain ⟨hus, hp⟩ := Prod.mk.inj hv
  obtain ⟨hu, hsh⟩ := Prod.mk.inj hus
  have hf : d.Finished ⟨16, false, by decide⟩ := by
    apply finished_of_waiting hu hsh
    intro h hm
    have h0 : h.offset = 0 := by
      have := List.mem_map_of_mem (f := PerHandleData.offset) hm
      rw [hp] at this
      exact List.mem_singleton.mp this
    simp [ReceiveManager.room, h0]
  exact ⟨d, hd, decoded_iff ⟨32, by decide⟩ ⟨16, false, by decide⟩ (by decide) (by decide)
    (fun _ => 0) (some 0) (some 0) 0 0 12 .child .pc (blank 12) (by decide +kernel) [3, 0, 4, 0]
    (by decide) (by decide +kernel) _ (start_between _ 0 5 _) rfl _ (by decide) d hd hf⟩

/-- A packet of twenty bytes, which the sender accepts, for a receiver with sixteen. -/
theorem larger_packet_cut_off :
    ¬ ∀ (sender : SendManager) (receiver : ReceiveManager), 16 ≤ sender.bufferSize →
      16 ≤ receiver.bufferSize → ∀ (past : ℕ → UInt8) (address : Option ℕ)
      (socket : Option Socket) (category protocol wholePacketSize : ℤ) (packet : EPacketType)
      (device : EDeviceType) (data : PerHandleData),
      sender.getDataSized address socket category protocol wholePacketSize packet device =
        some data →
      ∀ payload : List UInt8, packetSize + payload.length ≤ sender.bufferSize →
      (sender.postSend (some (data.poke packetSize payload))).1 = .success →
      ∀ c : Connection, c.BetweenPackets receiver →
      c.unread = (data.poke packetSize payload).bytes past (toUnsigned 32 wholePacketSize) →
      ∀ xs : List Completion, (∀ x ∈ xs, x.env.Sound) → ∀ d : Connection,
      exec (Connection.step receiver) c xs = some d → d.Finished receiver →
      ∃ x, d.delivered = c.delivered ++ [x] ∧ x.bytes = c.unread ∧
        x.len = toUnsigned 32 wholePacketSize := by
  intro h
  have hrun : (exec (Connection.step ⟨16, false, by decide⟩) (start ⟨16, false, by decide⟩ 0 5
      (((blank 20).poke packetSize []).bytes (fun _ => 0) (toUnsigned 32 20)) false)
      [⟨16, some 1, some 2, true, fun _ => 0⟩, ⟨0, some 3, some 4, true, fun _ => 0⟩]).map
      (fun d => (d.posted, d.delivered.map Delivery.len)) = some ([], [16]) := by decide +kernel
  obtain ⟨d, hd, hv⟩ := Option.map_eq_some_iff.mp hrun
  obtain ⟨hp, hl⟩ := Prod.mk.inj hv
  obtain ⟨x, hdx, -, hx⟩ := h ⟨32, by decide⟩ ⟨16, false, by decide⟩ (by decide) (by decide)
    (fun _ => 0) (some 0) (some 0) 0 0 20 .child .pc (blank 20) (by decide +kernel) []
    (by decide) (by decide +kernel) _ (start_between _ 0 5 _) rfl _ (by decide) d hd
    (finished_of_posted hp)
  rw [hdx] at hl
  have hlen : x.len = 16 := by simpa [start] using hl
  rw [hlen] at hx
  exact absurd hx (by decide)

end SendManager

namespace Sending
open Connection

variable {m : SendManager} {receiver : ReceiveManager} {past : PerHandleData → ℕ → UInt8}

/-- Across the wire: when a run of the sender has come to rest and every write was a full
one, a receiver between packets that reads what was written to a socket hands on the
packets posted on it, one by one and in posting order. -/
theorem packets_delivered {ls : List Label} {sent : Sending}
    (hrun : exec (step m past) start ls = some sent) (hq : sent.Quiet)
    (hfull : Along (step m past) FullWrite start ls) {s : Socket}
    (hfit : WellFormed receiver ((sent.outboxes s).accepted.map (toSend past)))
    (hB : 0 < receiver.bufferSize) {c d : Connection} (hc : c.BetweenPackets receiver)
    (hun : c.unread = (sent.outboxes s).written) {xs : List Completion}
    (hx : ∀ x ∈ xs, x.env.Sound) (hread : exec (Connection.step receiver) c xs = some d)
    (hf : d.Finished receiver) :
    ∃ ds, d.delivered = c.delivered ++ ds ∧
      Carries ds ((sent.outboxes s).accepted.map (toSend past)) := by
  have hcat : sent.Concatenated past :=
    hq.concatenated_iff.mpr (((always_balanced_iff hrun).mpr hfull).last hrun)
  obtain ⟨ds, hds, hcar⟩ := hc.delivered hx hread hf
  have hframes := framing_packets hfit
  rw [framing_nil hB, ← List.flatMap_def, ← hcat s, ← hun] at hframes
  rw [hframes, Emission.after_frames, List.append_nil] at hcar
  exact ⟨ds, hds, hcar⟩

end Sending

end Xiaoxin
