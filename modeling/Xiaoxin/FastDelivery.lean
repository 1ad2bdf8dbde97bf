import Xiaoxin.Connection

/-!
# What `DoData` finds in its arguments

A packet comes to `DoData` on one of two ways. One that has others behind it in the
same read is handed on inside the loop, on the receive handle itself and with its size
as `bytes_transferred`; the last of a read goes through the message queue, on a copy
and with `_offset` as `bytes_transferred`. The bytes and their number are the same on
both ways. `_offset` is not: the loop steps over a packet only after `DoData` has
seen it, so there `_offset` counts what lies behind the packet as well.
-/
namespace Xiaoxin
open Framing Transition

/-- What `DoData` is to find when it is called for the packet `p`. -/
structure Delivery.Observes (d : Delivery) (p : List UInt8) : Prop where
  bytesTransferred : d.len = (headerOf p).theWholePacketSize
  offset : d.handledata.offset = (headerOf p).theWholePacketSize
  buffer : d.bytes = p

/-- `Offset()` is `bytes_transferred`, or the message is empty. -/
def Delivery.Counted (d : Delivery) : Prop := d.len ≠ 0 → d.handledata.offset = d.len

namespace ReceiveManager

variable {m : ReceiveManager} {env : Env}

/-- On the way through the queue `_offset` is the number of bytes. -/
theorem add_counted (h : PerHandleData) : ∀ d ∈ deliveries (m.add env h), d.Counted := by
  intro d hd
  cases ha : env.queueAlloc with
  | none =>
    simp only [add, ha, getData_none, dispatch, deliveries_cons, Effect.delivery?,
      Option.toList_some, deliveries_nil, List.append_nil, List.mem_singleton] at hd
    rw [hd]
    exact fun _ => rfl
  | some a =>
    simp only [add, ha, getData_eq, deliveries_cons, Effect.delivery?, Option.toList_none,
      Option.toList_some, deliveries_nil, List.nil_append, List.append_nil,
      List.mem_singleton] at hd
    rw [hd]
    exact fun _ => rfl

/-- The loop hands on a packet with another `_offset` exactly when it cuts off one that
does not use up the received bytes. -/
theorem receiveLoop_counted_iff (env : Env) {h : PerHandleData} (hb : h.InBuffer m.bufferSize) :
    (∀ d ∈ deliveries (m.receiveLoop env h).effects, d.Counted) ↔
      ∀ k, packetVerdict h.window = .frame k → k = h.offset := by
  induction h, hb using loop_induction with
  | more h hb hv =>
    rw [receiveLoop_more env hb hv]
    simp [hv]
  | stop h hb hv =>
    rw [receiveLoop_stop env hb hv]
    simp [hv]
  | exact h hb hv =>
    rw [receiveLoop_exact env hb hv]
    simp only [hv, Verdict.frame.injEq]
    exact ⟨fun _ k hk => hk.symm, fun _ => add_counted h⟩
  | frame h hb k hv hpos hlt ih =>
    rw [receiveLoop_frame env hb hv hlt.ne]
    simp only [deliveries_cons, Effect.delivery?, Option.toList_some, hv, Verdict.frame.injEq]
    constructor
    · intro hall
      have hhead : h.offset = k := hall ⟨h, k⟩ (by simp) hpos.ne'
      omega
    · intro hall
      exact absurd (hall k rfl) hlt.ne

end ReceiveManager

namespace Connection

variable {m : ReceiveManager} {s : Socket} {stream : List UInt8}

/-- No read brings bytes beyond the end of a packet that it completes. -/
def EndsPacket (c : Connection) (x : Completion) : Prop :=
  ∀ h ∈ c.posted, ∀ p rest, h.window ++ c.unread.take x.bytesTransferred = p ++ rest →
    Complete p → rest = []

def AllCounted (c : Connection) : Prop := ∀ d ∈ c.delivered, d.Counted

/-- What has been delivered stays delivered. -/
theorem step_delivered {c d : Connection} {x : Completion} (hs : c.step m x = some d) :
    c.delivered <+: d.delivered := by
  simp only [step] at hs
  split at hs
  · cases hs
  · split_ifs at hs
    rw [← Option.some.inj hs]
    exact List.prefix_append _ _

/-- A frame of the bytes a live connection has received is a frame of its stream. -/
theorem Live.frame_deliverable {c : Connection} {ds : List (List UInt8)} {r : List UInt8}
    (hl : Live m s stream c ds r) {n k : ℕ} (hn : n ≤ m.bufferSize - r.length)
    (hv : packetVerdict (r ++ c.unread.take n) = .frame k) :
    (r ++ c.unread.take n).take k ∈ deliverable m stream := by
  have hfits := hl.fits
  have hlen : (r ++ c.unread.take n).length ≤ m.bufferSize := by
    simp only [List.length_append, List.length_take]
    omega
  have hcap : (packetFramer.capped m.bufferSize).verdict (r ++ c.unread.take n) = .frame k := by
    rw [packetFramer.capped_verdict_of_ne_more hlen (by simp [hv])]
    exact hv
  have hk := ((packetFramer.capped m.bufferSize).frame_bounds hcap).2
  have hstable := (packetFramer.capped m.bufferSize).stable (w := r ++ c.unread.take n)
    (c.unread.drop n) (by simp [hcap])
  rw [hcap] at hstable
  have hcut := Framer.drain_frame _ hstable
  rw [List.take_append_of_le_length hk] at hcut
  have hrest := hl.rest
  rw [← List.take_append_drop n c.unread, ← List.append_assoc, framing, framing, hcut,
    Emission.after_after] at hrest
  exact (prefix_deliverable hrest).subset (by simp)

/-- On a stream of packets the first verdict says whether the bytes received go beyond
the end of a packet. -/
theorem Live.frame_iff {c : Connection} {ds packets : List (List UInt8)} {r : List UInt8}
    (hp : WellFormed m packets) (hl : Live m s packets.flatten c ds r) {n : ℕ}
    (hn : n ≤ m.bufferSize - r.length) :
    (∀ k, packetVerdict (r ++ c.unread.take n) = .frame k → k = (r ++ c.unread.take n).length) ↔
      ∀ p rest, r ++ c.unread.take n = p ++ rest → Complete p → rest = [] := by
  constructor
  · intro h p rest hw hc
    have hv : packetVerdict (p ++ rest) = .frame p.length := by
      have hstable := packetFramer.stable rest (w := p) (by simp [hc.verdict])
      simpa [hc.verdict] using hstable
    have hlen := h p.length (by rw [hw, hv])
    rw [hw, List.length_append] at hlen
    exact List.eq_nil_of_length_eq_zero (by omega)
  · intro h k hv
    obtain ⟨-, -, -, hpos, hle⟩ := packetVerdict_frame.mp hv
    have hmem := hl.frame_deliverable hn hv
    rw [deliverable_packets hp, List.mem_append] at hmem
    have hc : Complete ((r ++ c.unread.take n).take k) := by
      rcases hmem with hmem | hmem
      · exact (hp _ hmem).1
      · have hnil := congrArg List.length (List.mem_singleton.mp hmem)
        rw [List.length_take, List.length_nil] at hnil
        omega
    have hdrop := h _ _ (List.take_append_drop k _).symm hc
    have hlen := congrArg List.length hdrop
    rw [List.length_drop, List.length_nil] at hlen
    omega

/-- A step hands on a packet with another `_offset` exactly when the read goes beyond
the end of a packet. -/
theorem Live.counted_iff {c d : Connection} {ds packets : List (List UInt8)} {r : List UInt8}
    (hp : WellFormed m packets) (hl : Live m s packets.flatten c ds r) (hc : c.AllCounted)
    {x : Completion} (hs : c.step m x = some d) : d.AllCounted ↔ EndsPacket c x := by
  obtain ⟨hroom, hun, -, a, rfl⟩ := hl.step_eq hs
  obtain ⟨b, hb⟩ := hl.posted
  have hfits := hl.fits
  have hends : EndsPacket c x ↔
      ∀ p rest, r ++ c.unread.take x.bytesTransferred = p ++ rest → Complete p → rest = [] := by
    simp only [EndsPacket, hb, List.mem_singleton, forall_eq, ReceiveManager.holding_window]
  have hall : (apply { c with posted := [], unread := c.unread.drop x.bytesTransferred }
      (m.handle x.env a s r (c.unread.take x.bytesTransferred))).AllCounted ↔
      ∀ d ∈ deliveries (m.handle x.env a s r (c.unread.take x.bytesTransferred)), d.Counted := by
    simp only [AllCounted, apply, List.forall_mem_append]
    exact ⟨And.right, fun h => ⟨hc, h⟩⟩
  rw [hall, hends, ← hl.frame_iff hp hroom]
  by_cases h0 : c.unread.take x.bytesTransferred = []
  · rw [h0, ReceiveManager.handle_nil_deliveries x.env a s hfits, List.append_nil, hl.more]
    simp only [reduceCtorEq, false_implies, implies_true, iff_true]
    exact ReceiveManager.add_counted _
  · have hfit : r.length + (c.unread.take x.bytesTransferred).length ≤ m.bufferSize := by
      rw [List.length_take]
      omega
    have hin : (m.holding a (some s) (r ++ c.unread.take x.bytesTransferred)).InBuffer
        m.bufferSize := ReceiveManager.holding_inBuffer (by simpa using hfit) a (some s)
    have hloop := ReceiveManager.receiveLoop_counted_iff x.env hin
    rw [ReceiveManager.holding_window, ReceiveManager.holding_offset] at hloop
    obtain ⟨h, -, he⟩ := ReceiveManager.handle_of_bytes x.env a s hfit h0
    rw [← hloop, he]
    split_ifs <;> simp

/-- What has been delivered of a stream of packets are its packets, and at the end an
empty message. -/
theorem Reached.packet {c : Connection} {packets : List (List UInt8)} (hp : WellFormed m packets)
    (hi : Reached m s packets.flatten c) {i : ℕ} {d : Delivery} (hd : c.delivered[i]? = some d) :
    d.len = d.bytes.length ∧ (packets ++ [[]])[i]? = some d.bytes := by
  obtain ⟨fs, hc, hfs⟩ := hi.delivered_prefix
  rw [deliverable_packets hp] at hfs
  refine ⟨hc.len d (List.mem_of_getElem? hd), ?_⟩
  have hf : fs[i]? = some d.bytes := by
    rw [← hc.bytes, List.getElem?_map, hd]
    rfl
  obtain ⟨gs, hgs⟩ := hfs
  rw [← hgs, List.getElem?_append_left (List.getElem?_eq_some_iff.mp hf).1, hf]

/-- The `i`-th delivery is the `i`-th packet, and `bytes_transferred` its size. -/
theorem Reached.observed {c : Connection} {packets : List (List UInt8)} (hp : WellFormed m packets)
    (hi : Reached m s packets.flatten c) {i : ℕ} {d : Delivery} {p : List UInt8}
    (hd : c.delivered[i]? = some d) (hpk : packets[i]? = some p) :
    d.len = (headerOf p).theWholePacketSize ∧ d.bytes = p := by
  obtain ⟨hlen, hb⟩ := hi.packet hp hd
  rw [List.getElem?_append_left (List.getElem?_eq_some_iff.mp hpk).1, hpk] at hb
  obtain rfl := Option.some.inj hb
  exact ⟨hlen.trans (hp _ (List.mem_of_getElem? hpk)).1.wholeSize.symm, rfl⟩

/-- Every packet is found as it should be exactly when `_offset` is `bytes_transferred`
in every message that is not empty. -/
theorem Reached.observes_iff {c : Connection} {packets : List (List UInt8)}
    (hp : WellFormed m packets) (hi : Reached m s packets.flatten c) :
    (∀ (i : ℕ) d p, c.delivered[i]? = some d → packets[i]? = some p → d.Observes p) ↔
      c.AllCounted := by
  constructor
  · intro h d hd hne
    obtain ⟨i, hi'⟩ := List.mem_iff_getElem?.mp hd
    obtain ⟨hlen, hb⟩ := hi.packet hp hi'
    have hpk : packets[i]? = some d.bytes := by
      rw [List.getElem?_append] at hb
      split_ifs at hb with hlt
      · exact hb
      · have hnil := List.mem_singleton.mp (List.mem_of_getElem? hb)
        rw [hlen, hnil] at hne
        exact absurd rfl hne
    have hobs := h i d d.bytes hi' hpk
    exact hobs.offset.trans hobs.bytesTransferred.symm
  · intro h i d p hd hpk
    obtain ⟨hlen, hb⟩ := hi.observed hp hd hpk
    have hc := (hp p (List.mem_of_getElem? hpk)).1
    have h8 : 0 < packetSize := by decide
    have hne : d.len ≠ 0 := by
      rw [hlen, hc.wholeSize]
      exact (lt_of_lt_of_le h8 hc.hasHeader).ne'
    exact ⟨hlen, (h d (List.mem_of_getElem? hd) hne).trans hlen, hb⟩

/-- On a stream of packets `DoData` is given every packet and its size on either way,
and it finds the size in `Offset()` too exactly when no read goes beyond the end of a
packet that it completes. -/
theorem fast_and_queued_agree_iff (m : ReceiveManager) (a : ℕ) (s : Socket) (shut : Bool)
    (packets : List (List UInt8)) (hp : WellFormed m packets) (xs : List Completion)
    (c : Connection) (hc : exec (step m) (start m a s packets.flatten shut) xs = some c) :
    (∀ (i : ℕ) d p, c.delivered[i]? = some d → packets[i]? = some p →
      d.len = (headerOf p).theWholePacketSize ∧ d.bytes = p) ∧
    ((∀ (i : ℕ) d p, c.delivered[i]? = some d → packets[i]? = some p → d.Observes p) ↔
      Along (step m) EndsPacket (start m a s packets.flatten shut) xs) := by
  have hi := run_reached hc
  refine ⟨fun i d p => hi.observed hp, ?_⟩
  have hback : ∀ (c : Connection) x d, c.step m x = some d → d.AllCounted → c.AllCounted :=
    fun c x d hs hd e he => hd e ((step_delivered hs).subset he)
  rw [hi.observes_iff hp, ← always_iff_last hback hc]
  refine always_iff_along (I := Reached m s packets.flatten) (fun c x d h hs => h.step hs) ?_
    (start_reached a packets.flatten shut) (by simp [AllCounted, start]) hc
  intro c x d hreach hall hs
  obtain ⟨ds, r, hl⟩ := hreach.live (posted_ne_nil hs)
  exact hl.counted_iff hp hall hs

/-- Two packets that come in a read each. -/
theorem fast_and_queued_agree_two_reads :
    ∃ c, exec (step ⟨64, false, by decide⟩)
      (start ⟨64, false, by decide⟩ 0 0
        [[1, 0, 8, 0, 8, 0, 0, 0], [2, 0, 8, 0, 10, 0, 0, 0, 6, 7]].flatten true)
      [⟨8, some 1, some 2, true, fun _ => 0⟩, ⟨10, some 3, some 4, true, fun _ => 0⟩] = some c ∧
      (∀ (i : ℕ) d p, c.delivered[i]? = some d →
        [[1, 0, 8, 0, 8, 0, 0, 0], [2, 0, 8, 0, 10, 0, 0, 0, 6, 7]][i]? = some p →
        d.len = (headerOf p).theWholePacketSize ∧ d.bytes = p) ∧
      ((∀ (i : ℕ) d p, c.delivered[i]? = some d →
        [[1, 0, 8, 0, 8, 0, 0, 0], [2, 0, 8, 0, 10, 0, 0, 0, 6, 7]][i]? = some p →
        d.Observes p) ↔
      Along (step ⟨64, false, by decide⟩) EndsPacket
        (start ⟨64, false, by decide⟩ 0 0
          [[1, 0, 8, 0, 8, 0, 0, 0], [2, 0, 8, 0, 10, 0, 0, 0, 6, 7]].flatten true)
        [⟨8, some 1, some 2, true, fun _ => 0⟩, ⟨10, some 3, some 4, true, fun _ => 0⟩]) := by
  apply exists_exec (by decide +kernel)
  intro c hc
  exact fast_and_queued_agree_iff ⟨64, false, by decide⟩ 0 0 true _ (by unfold WellFormed; decide)
    _ c hc

/-- The same two packets in one read: `DoData` finds the first with the bytes of both in
`_offset`. -/
theorem offset_of_both_packets :
    ¬ ∀ (m : ReceiveManager) (a : ℕ) (s : Socket) (shut : Bool) (packets : List (List UInt8)),
      WellFormed m packets → ∀ (xs : List Completion) (c : Connection),
      exec (step m) (start m a s packets.flatten shut) xs = some c →
      ∀ (i : ℕ) d p, c.delivered[i]? = some d → packets[i]? = some p → d.Observes p := by
  intro h
  have hrun : (exec (step ⟨64, false, by decide⟩)
      (start ⟨64, false, by decide⟩ 0 0
        [[1, 0, 8, 0, 8, 0, 0, 0], [2, 0, 8, 0, 10, 0, 0, 0, 6, 7]].flatten true)
      [⟨18, some 1, some 2, true, fun _ => 0⟩]).map
      (fun c => (c.delivered[0]?).map (fun d => d.handledata.offset)) = some (some 18) := by
    decide +kernel
  obtain ⟨c, hc, hv⟩ := Option.map_eq_some_iff.mp hrun
  obtain ⟨d, hd, ho⟩ := Option.map_eq_some_iff.mp hv
  have hobs := h _ 0 0 true _ (by unfold WellFormed; decide) _ c hc 0 d
    [1, 0, 8, 0, 8, 0, 0, 0] hd rfl
  have hsize := ho.symm.trans hobs.offset
  exact absurd hsize (by decide)

end Connection

end Xiaoxin
