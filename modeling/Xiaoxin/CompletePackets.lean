import Xiaoxin.Connection

/-!
# Which streams are delivered packet by packet

Every message that reaches the application is meant to be one whole packet. The
handler checks the header only on the way through its loop: a completion without
bytes hands on whatever is buffered, and a packet announced shorter than its own
header is cut all the same. The streams on which this does not show are those that
end between packets, or at a header of the wrong size (`Clean`).
-/
namespace Xiaoxin
open Framing Transition

/-- A message with a whole packet in it, counted to its end. -/
structure Delivery.IsPacket (d : Delivery) : Prop where
  headerSize : (headerOf d.bytes).thePacketHeaderSize = packetSize
  wholeSize : (headerOf d.bytes).theWholePacketSize = d.len
  hasHeader : packetSize ≤ d.len

theorem Delivery.isPacket_iff {d : Delivery} (h : d.len = d.bytes.length) :
    d.IsPacket ↔ Complete d.bytes := by
  refine ⟨fun hp => ⟨h ▸ hp.hasHeader, hp.headerSize, h ▸ hp.wholeSize⟩, fun hc => ?_⟩
  exact ⟨hc.headerSize, h ▸ hc.wholeSize, h ▸ hc.hasHeader⟩

namespace Connection

/-- Packets that fit the buffer, and behind them nothing, or a header of the wrong
size, or on a connection that stays up the beginning of a packet that fits. -/
inductive Clean (size : ℕ) (shut : Bool) : List UInt8 → Prop
  | nil : Clean size shut []
  | badHeader {w : List UInt8} (hsize : packetSize ≤ size) (hw : packetSize ≤ w.length)
      (hs : (headerOf w).thePacketHeaderSize ≠ packetSize) : Clean size shut w
  | partly {w : List UInt8} (hsh : shut = false) (hw : w.length < size)
      (hv : packetVerdict w = .more) : Clean size shut w
  | packet {p rest : List UInt8} (hp : Complete p) (hsize : p.length ≤ size)
      (hr : Clean size shut rest) : Clean size shut (p ++ rest)

/-- Framing yields packets only, and leaves nothing over that a close would hand on. -/
structure Whole (shut : Bool) (e : Emission UInt8) : Prop where
  frames : ∀ f ∈ e.frames, f ≠ [] → Complete f
  rest : shut = true → ∀ r, e.outcome = .waiting r → r = []

variable {m : ReceiveManager} {s : Socket} {stream : List UInt8} {shut : Bool}

theorem Whole.after {e : Emission UInt8} {fs : List (List UInt8)} :
    Whole shut (e.after fs) ↔ (∀ f ∈ fs, f ≠ [] → Complete f) ∧ Whole shut e := by
  constructor
  · intro h
    exact ⟨fun f hf => h.frames f (List.mem_append_left _ hf),
      fun f hf => h.frames f (List.mem_append_right _ hf), h.rest⟩
  · rintro ⟨hfs, he⟩
    exact ⟨fun f hf => (List.mem_append.mp hf).elim (hfs f) (he.frames f), he.rest⟩

theorem Clean.whole (hB : 0 < m.bufferSize) (h : Clean m.bufferSize shut stream) :
    Whole shut (framing m stream) := by
  induction h with
  | nil => rw [framing_nil hB]; exact ⟨by simp, by simp⟩
  | @badHeader w hsize hw hs =>
    have hv : (packetFramer.capped m.bufferSize).verdict w = .stop := by
      rw [packetFramer.capped_verdict_stop, packetFramer_verdict, packetVerdict_stop,
        headerOf_take hsize hw, List.length_take]
      exact ⟨by omega, hs⟩
    rw [framing, Framer.drain_stop _ hv]
    exact ⟨by simp, by simp⟩
  | partly hsh hw hv =>
    rw [framing_more hv hw]
    exact ⟨by simp, by simp [hsh]⟩
  | @packet p rest hp hsize hr ih =>
    have hv : (packetFramer.capped m.bufferSize).verdict p = .frame p.length := by
      rw [packetFramer.capped_verdict_frame, List.take_of_length_le hsize]
      exact hp.verdict
    have hone : ∀ f ∈ [p], (packetFramer.capped m.bufferSize).verdict f = .frame f.length := by
      simpa using hv
    have hd := (packetFramer.capped m.bufferSize).drain_flatten hone rest
    rw [List.flatten_singleton] at hd
    rw [framing, hd, Whole.after]
    exact ⟨by simpa using fun _ => hp, ih⟩

theorem clean_of_whole (hB : 0 < m.bufferSize) (h : Whole shut (framing m stream)) :
    Clean m.bufferSize shut stream := by
  have h8 : packetSize = 8 := rfl
  induction stream using Framer.drain.induct (packetFramer.capped m.bufferSize) with
  | case1 w hv =>
    rw [framing, Framer.drain_more _ hv] at h
    cases hsh : shut with
    | true =>
      rw [h.rest hsh w rfl]
      exact .nil
    | false =>
      obtain ⟨hm, hlt⟩ := packetFramer.capped_verdict_more.mp hv
      exact .partly rfl hlt hm
  | case2 w hv =>
    obtain ⟨hw, hs⟩ := packetVerdict_stop.mp (packetFramer.capped_verdict_stop.mp hv)
    rw [List.length_take] at hw
    rw [headerOf_take (by omega) (by omega)] at hs
    exact .badHeader (by omega) (by omega) hs
  | case3 w k hv =>
    rw [framing, Framer.drain_last _ hv] at h
    rcases packetFramer.capped_verdict_last.mp hv with hl | ⟨hm, hle, rfl⟩
    · exact absurd hl packetVerdict_ne_last
    · have hne : w.take m.bufferSize ≠ [] := by
        rw [← List.length_pos_iff, List.length_take]
        omega
      have hc := h.frames _ (List.mem_singleton_self _) hne
      rw [packetFramer_verdict, hc.verdict] at hm
      cases hm
  | case4 w k hv ih =>
    rw [framing, Framer.drain_frame _ hv, Whole.after] at h
    have hb := (packetFramer.capped m.bufferSize).frame_bounds hv
    have hk := (packetFramer.frame_bounds (packetFramer.capped_verdict_frame.mp hv)).2
    rw [List.length_take] at hk
    have hne : w.take k ≠ [] := by
      rw [← List.length_pos_iff, List.length_take]
      omega
    rw [← List.take_append_drop k w]
    exact .packet (h.1 _ (List.mem_singleton_self _) hne) (by rw [List.length_take]; omega) (ih h.2)

/-- Without a buffer nothing but an empty message is handed on. -/
theorem whole_of_no_buffer (hB : m.bufferSize = 0) : Whole shut (framing m stream) := by
  rw [framing_no_buffer hB]
  exact ⟨by simp, by simp⟩

theorem whole_iff : Whole shut (framing m stream) ↔
    m.bufferSize = 0 ∨ Clean m.bufferSize shut stream := by
  constructor
  · intro h
    rcases Nat.eq_zero_or_pos m.bufferSize with hB | hB
    · exact .inl hB
    · exact .inr (clean_of_whole hB h)
  · rintro (hB | h)
    · exact whole_of_no_buffer hB
    · rcases Nat.eq_zero_or_pos m.bufferSize with hB | hB
      · exact whole_of_no_buffer hB
      · exact h.whole hB

/-- Every message handed on that is not empty is a whole packet. -/
def OnlyPackets (c : Connection) : Prop := ∀ d ∈ c.delivered, d.len ≠ 0 → d.IsPacket

theorem onlyPackets_iff {c : Connection} {fs : List (List UInt8)} (h : Carries c.delivered fs) :
    c.OnlyPackets ↔ ∀ f ∈ fs, f ≠ [] → Complete f := by
  rw [← h.bytes]
  simp only [OnlyPackets, List.forall_mem_map]
  refine forall₂_congr fun d hd => ?_
  rw [Delivery.isPacket_iff (h.len d hd), h.len d hd, ne_eq, List.length_eq_zero_iff]

variable {c : Connection}

/-- Whole framing shows in every state of a connection. -/
theorem Stage.onlyPackets (hi : Stage m s stream c) (hw : Whole c.shut (framing m stream)) :
    c.OnlyPackets := by
  cases hi with
  | live ds r hl =>
    rw [hl.rest, Whole.after] at hw
    exact (onlyPackets_iff hl.carries).mpr hw.1
  | ended ds hc hp hcl hf =>
    rw [hf] at hw
    exact (onlyPackets_iff hc).mpr hw.frames
  | eof ds r hc hp hcl hsh hf =>
    rw [hf] at hw
    rw [onlyPackets_iff hc, hw.rest hsh r rfl]
    intro d hd hne
    exact hw.frames d (by simpa [hne] using hd) hne

theorem Abandoned.onlyPackets (hi : Abandoned m stream c) (hw : Whole c.shut (framing m stream)) :
    c.OnlyPackets := by
  obtain ⟨ds, e, hc, hf⟩ := hi.carries
  rw [hf, Whole.after] at hw
  exact (onlyPackets_iff hc).mpr hw.1

/-- A connection that has been run to its end shows whether framing is whole. -/
theorem Stage.whole (hi : Stage m s stream c) (hf : c.Finished m) (ho : c.OnlyPackets) :
    Whole c.shut (framing m stream) := by
  cases hi with
  | live ds r hl =>
    obtain ⟨hu, hsh, hlt⟩ := hl.finished hf
    rw [hl.rest, Whole.after, hu, List.append_nil, framing_more hl.more hlt]
    exact ⟨(onlyPackets_iff hl.carries).mp ho, by simp, by simp [hsh]⟩
  | ended ds hc hp hcl hfr =>
    rw [hfr]
    exact ⟨(onlyPackets_iff hc).mp ho, by simp⟩
  | eof ds r hc hp hcl hsh hfr =>
    have hfs := (onlyPackets_iff hc).mp ho
    have hr : packetVerdict r = .more :=
      (packetFramer.capped_verdict_more.mp (Framer.verdict_of_waiting _ (congrArg _ hfr))).1
    rw [hfr]
    refine ⟨fun f hf => hfs f (List.mem_append_left _ hf), fun _ r' hr' => ?_⟩
    obtain rfl : r = r' := by simpa using hr'
    by_contra hne
    rw [(hfs r (by simp) hne).verdict] at hr
    cases hr

/-- Exactly on the clean streams do only whole packets reach the application, whatever
the segmentation and whatever the allocations and the socket answer. -/
theorem onlyPackets_iff_clean (m : ReceiveManager) (a : ℕ) (s : Socket) (stream : List UInt8)
    (shut : Bool) :
    (∀ xs c, exec (step m) (start m a s stream shut) xs = some c → c.OnlyPackets) ↔
      m.bufferSize = 0 ∨ Clean m.bufferSize shut stream := by
  rw [← whole_iff]
  constructor
  · intro h
    obtain ⟨xs, c, hx, hc, hf⟩ :=
      (start_live (m := m) (s := s) a stream shut).exists_finished
    rw [← run_shut hc]
    exact (run_stage_of_sound hc hx).whole hf (h xs c hc)
  · intro hw xs c hc
    rw [← run_shut hc] at hw
    exact (run_reached hc).elim (fun hi => hi.onlyPackets hw) (fun hi => hi.onlyPackets hw)

/-- One byte, and the peer closes: the byte is handed on as a message. -/
theorem partial_packet_handed_on :
    ¬ ∀ (m : ReceiveManager) (a : ℕ) (s : Socket) (stream : List UInt8) (shut : Bool)
      (xs : List Completion) (c : Connection),
      exec (step m) (start m a s stream shut) xs = some c → c.OnlyPackets := by
  intro h
  have hrun : (exec (step ⟨16, false, by decide⟩) (start ⟨16, false, by decide⟩ 0 0 [1] true)
      [⟨1, some 1, some 2, true, fun _ => 0⟩, ⟨0, some 3, some 4, true, fun _ => 0⟩]).map
      (fun c => c.delivered.map Delivery.len) = some [1] := by decide +kernel
  obtain ⟨c, hc, hl⟩ := Option.map_eq_some_iff.mp hrun
  obtain ⟨d, hd⟩ := List.map_eq_singleton_iff.mp hl
  have := (h _ _ _ _ _ _ c hc d (by simp [hd.1]) (by simp [hd.2])).hasHeader
  rw [hd.2] at this
  exact absurd this (by decide)

end Connection

end Xiaoxin
