import Xiaoxin.Network

/-!
# Connections that are neither read nor closed

A connection goes on as long as every handler posts the next receive or has the socket
taken out of `_set`. Three ways out of `Receive` do neither: a completion without
bytes when some are buffered, a header of the wrong size, and a receive that cannot be
posted for want of a handle. A socket left like this stays in `_set` for good.
-/
namespace Xiaoxin
open Framing Connection Transition

/-! ## How a read ends -/

/-- Cutting by the announced sizes runs into a header of the wrong size. -/
inductive BadHeader : List UInt8 → Prop
  | here {w : List UInt8} (hw : packetSize ≤ w.length)
      (hs : (headerOf w).thePacketHeaderSize ≠ packetSize) : BadHeader w
  | behind {w : List UInt8} (hw : packetSize ≤ w.length)
      (hs : (headerOf w).thePacketHeaderSize = packetSize)
      (h0 : 0 < (headerOf w).theWholePacketSize)
      (hle : (headerOf w).theWholePacketSize ≤ w.length)
      (h : BadHeader (w.drop (headerOf w).theWholePacketSize)) : BadHeader w

/-- Cutting by the announced sizes leaves nothing over. -/
inductive UsedUp : List UInt8 → Prop
  | nil : UsedUp []
  | packet {w : List UInt8} (hw : packetSize ≤ w.length)
      (hs : (headerOf w).thePacketHeaderSize = packetSize)
      (h0 : 0 < (headerOf w).theWholePacketSize)
      (hle : (headerOf w).theWholePacketSize ≤ w.length)
      (h : UsedUp (w.drop (headerOf w).theWholePacketSize)) : UsedUp w

theorem badHeader_iff {w : List UInt8} :
    BadHeader w ↔ (packetFramer.drain w).outcome = .ended := by
  constructor
  · intro h
    induction h with
    | here hw hs => rw [packetFramer.drain_stop (packetVerdict_stop.mpr ⟨hw, hs⟩)]
    | behind hw hs h0 hle _ ih =>
      rw [packetFramer.drain_frame (packetVerdict_frame.mpr ⟨hw, hs, rfl, h0, hle⟩)]
      exact ih
  · intro h
    induction w using Framer.drain.induct packetFramer with
    | case1 w hv => rw [packetFramer.drain_more hv] at h; cases h
    | case2 w hv =>
      obtain ⟨hw, hs⟩ := packetVerdict_stop.mp hv
      exact .here hw hs
    | case3 w k hv => exact absurd hv packetVerdict_ne_last
    | case4 w k hv ih =>
      obtain ⟨hw, hs, rfl, h0, hle⟩ := packetVerdict_frame.mp hv
      rw [packetFramer.drain_frame hv] at h
      exact .behind hw hs h0 hle (ih h)

theorem usedUp_iff {w : List UInt8} :
    UsedUp w ↔ (packetFramer.drain w).outcome = .waiting [] := by
  constructor
  · intro h
    induction h with
    | nil => rw [packetFramer.drain_more (w := []) (by rfl)]
    | packet hw hs h0 hle _ ih =>
      rw [packetFramer.drain_frame (packetVerdict_frame.mpr ⟨hw, hs, rfl, h0, hle⟩)]
      exact ih
  · intro h
    induction w using Framer.drain.induct packetFramer with
    | case1 w hv =>
      rw [packetFramer.drain_more hv] at h
      rw [Outcome.waiting.inj h]
      exact .nil
    | case2 w hv => rw [packetFramer.drain_stop hv] at h; cases h
    | case3 w k hv => exact absurd hv packetVerdict_ne_last
    | case4 w k hv ih =>
      obtain ⟨hw, hs, rfl, h0, hle⟩ := packetVerdict_frame.mp hv
      rw [packetFramer.drain_frame hv] at h
      exact .packet hw hs h0 hle (ih h)

instance (w : List UInt8) : Decidable (BadHeader w) := decidable_of_iff _ badHeader_iff.symm

instance (w : List UInt8) : Decidable (UsedUp w) := decidable_of_iff _ usedUp_iff.symm

/-- The answers and the bytes with which a handler goes on or gives the socket up, when
`rest` was buffered and `data` has come. -/
def Continues (env : Env) (rest data : List UInt8) : Prop :=
  if data = [] then rest = []
  else ¬ BadHeader (rest ++ data) ∧
    (env.recvAlloc.isSome ∨ (UsedUp (rest ++ data) ∧ env.isOpen = false))

instance (env : Env) (rest data : List UInt8) : Decidable (Continues env rest data) := by
  unfold Continues
  infer_instance

/-- With a socket manager attached, a handler posts the next receive or has the socket
erased in exactly these cases. -/
theorem handle_continues {m : ReceiveManager} (hm : m.hasSocketManager = true) (env : Env)
    (a : ℕ) (s : Socket) {rest data : List UInt8}
    (hfit : rest.length + data.length ≤ m.bufferSize) :
    (posts (m.handle env a s rest data) ≠ [] ∨ erases (m.handle env a s rest data) = true) ↔
      Continues env rest data := by
  rw [ReceiveManager.handle_erases env a s hfit, hm, Bool.true_and]
  unfold Continues
  split_ifs with hd
  · subst hd
    have hfit' : rest.length ≤ m.bufferSize := by simpa using hfit
    rw [ReceiveManager.handle_nil_posts env a s hfit',
      ReceiveManager.handle_nil_closes env a s hfit']
    simp
  · rw [ReceiveManager.handle_posts env a s hfit hd, ReceiveManager.handle_closes env a s hfit hd,
      badHeader_iff, usedUp_iff]
    cases (packetFramer.drain (rest ++ data)).outcome with
    | ended => simp
    | waiting r =>
      cases ho : env.isOpen <;> cases ha : env.recvAlloc <;>
        simp [ReceiveManager.nextReceive, ho, ha]

/-! ## One socket -/

namespace Endpoint

/-- A receive is posted or about to be, or the socket is about to be erased. -/
def Pending (c : Endpoint) : Prop := c.view.posted ≠ [] ∨ erases c.calls.flatten = true

variable {m : ReceiveManager} {s : Socket} {stream : List UInt8} {c d : Endpoint}

theorem act_pending {i : ℕ} {e : Effect} (hi : c.Inv m s stream) (h : c.act i = some (e, d))
    (he : e.erase? = false) : d.Pending ↔ c.Pending := by
  unfold Pending
  rw [act_view hi.tokens h]
  obtain ⟨l, es, r, hc, rfl⟩ := act_cases h
  simp [hc, he]

/-- A call that erases the socket is still to come before it does so. -/
theorem pending_of_erase {i : ℕ} {e : Effect} (h : c.act i = some (e, d))
    (he : e.erase? = true) : c.Pending := by
  obtain ⟨l, es, r, hc, -⟩ := act_cases h
  exact .inr (by simp [hc, he])

/-- A handler leaves something pending when it posts or erases. -/
theorem complete_pending (hm : m.hasSocketManager = true) {x : Completion}
    (hi : c.Inv m s stream) (h : c.complete m x = some d) : c.Pending ∧
    (d.Pending ↔ ∀ g ∈ c.posted, Continues x.env g.window (c.unread.take x.bytesTransferred)) := by
  obtain ⟨ds, r, a, hl, hp, hq, hfit, hun, rfl⟩ := complete_cases hi h
  have hf := quiet_flatten hq
  obtain ⟨b, hb⟩ := hl.posted
  refine ⟨.inl (by simp [hb]), ?_⟩
  rw [hp]
  simp only [List.forall_mem_singleton, ReceiveManager.holding_window]
  rw [← handle_continues hm x.env a s (by rwa [List.length_take, Nat.min_eq_left hun])]
  simp [Pending, view, call, posts_of_quiet hf, erases_of_quiet hf]

theorem register_pending (hm : m.hasSocketManager = true) (env : Env) (s : Socket)
    (stream : List UInt8) (shut : Bool) :
    ((fresh stream shut).call (AcceptorConnectorBase.postRecvAndFirst m env s)).Pending ↔
      (env.recvAlloc.isSome ∨ env.isOpen = false) := by
  have hp : posts (m.postReceive env (some s)) = m.nextReceive env (some s) [] :=
    ReceiveManager.postReceive_posts (some s)
  have he := ReceiveManager.postReceive_erases (m := m) env s
  rw [hm, ReceiveManager.postReceive_closes, Bool.true_and] at he
  simp only [Pending, view, call, fresh, AcceptorConnectorBase.postRecvAndFirst, List.nil_append,
    List.flatten_singleton, posts_append, erases_append, hp, he]
  cases ho : env.isOpen <;> cases ha : env.recvAlloc <;>
    simp [ReceiveManager.nextReceive, ho, ha, Effect.erase?]

/-- When no call is running, something pending is a posted receive, and the only one. -/
theorem Inv.posted_of_idle (hi : c.Inv m s stream) (hidle : c.Idle) :
    c.Pending ↔ c.posted.length = 1 := by
  have hf : c.calls.flatten = [] := List.flatten_eq_nil_iff.mpr hidle
  have ht := hi.tokens
  simp only [Endpoint.tokens] at ht
  simp only [Pending, view, hf, posts_nil, List.append_nil, erases_nil, Bool.false_eq_true,
    or_false, ← List.length_pos_iff]
  omega

end Endpoint

/-! ## All sockets -/

namespace Network

/-- A socket in `_set` for which no call is running has exactly one receive posted. -/
def NoZombie (n : Network) : Prop :=
  ∀ s ∈ n.manager.set, (n.endpoints s).Idle → (n.endpoints s).posted.length = 1

instance (n : Network) : Decidable n.NoZombie := by
  unfold NoZombie
  infer_instance

/-- A call that is made posts a receive or gives its socket up. -/
def ContinuesOrCloses (n : Network) : Label → Prop
  | .register _ env => env.recvAlloc.isSome ∨ env.isOpen = false
  | .complete s x => ∀ h ∈ (n.endpoints s).posted,
      Continues x.env h.window ((n.endpoints s).unread.take x.bytesTransferred)
  | _ => True

instance (n : Network) (l : Label) : Decidable (n.ContinuesOrCloses l) := by
  unfold ContinuesOrCloses
  split <;> infer_instance

/-- On every socket in `_set` something is pending. -/
def Alive (n : Network) : Prop := ∀ s ∈ n.manager.set, (n.endpoints s).Pending

variable {m : ReceiveManager} {address : Socket → ℕ} {streams : Socket → List UInt8}
  {shut : Socket → Bool} {n n' : Network}

theorem register_alive (hm : m.hasSocketManager = true) {s : Socket} {env : Env}
    (hi : n.Inv m address streams shut) (hs : s ∉ n.registered) :
    Alive { n.setEndpoint s
        ((n.endpoints s).call (AcceptorConnectorBase.postRecvAndFirst m env s)) with
      registered := s :: n.registered
      manager := n.manager.add s } ↔
    n.Alive ∧ (env.recvAlloc.isSome ∨ env.isOpen = false) := by
  have hset : s ∉ n.manager.set := fun h => hs (hi.registered s h)
  rw [← Endpoint.register_pending hm env s (streams s) (shut s), ← hi.untouched s hs]
  simp only [Alive, SocketManager.add, List.mem_insert_iff, setEndpoint]
  constructor
  · intro h
    refine ⟨fun t ht => ?_, by simpa using h s (.inl rfl)⟩
    have hne : t ≠ s := fun he => hset (he ▸ ht)
    simpa [Function.update_of_ne hne] using h t (.inr ht)
  · rintro ⟨hold, hnew⟩ t (rfl | ht)
    · simpa using hnew
    · have hne : t ≠ s := fun he => hset (he ▸ ht)
      simpa [Function.update_of_ne hne] using hold t ht

theorem complete_alive (hm : m.hasSocketManager = true) {s : Socket} {x : Completion}
    {c : Endpoint} (hi : n.Inv m address streams shut)
    (hc : (n.endpoints s).complete m x = some c) :
    (n.setEndpoint s c).Alive ↔ n.Alive ∧ n.ContinuesOrCloses (.complete s x) := by
  obtain ⟨hp, hd⟩ := Endpoint.complete_pending hm (hi.endpoint s) hc
  have hset : s ∈ n.manager.set := by
    obtain ⟨ds, r, a, hl, -⟩ := Endpoint.complete_cases (hi.endpoint s) hc
    obtain ⟨b, hb⟩ := hl.posted
    exact hi.inSet s (by simp [hb])
  simp only [ContinuesOrCloses, ← hd]
  constructor
  · intro h
    refine ⟨fun t ht => ?_, by simpa using h s hset⟩
    by_cases hts : t = s
    · exact hts ▸ hp
    · simpa [setEndpoint_ne hts] using h t ht
  · rintro ⟨hold, hnew⟩ t ht
    by_cases hts : t = s
    · subst hts
      rwa [setEndpoint_self]
    · rw [setEndpoint_ne hts]
      exact hold t ht

theorem act_alive {s : Socket} {i : ℕ} {e : Effect} {c : Endpoint}
    (hi : n.Inv m address streams shut) (hc : (n.endpoints s).act i = some (e, c)) :
    ((n.perform s e).setEndpoint s c).Alive ↔ n.Alive := by
  have hs := Endpoint.act_socket (hi.endpoint s) hc
  have hother : ∀ t, t ≠ s → ((n.perform s e).setEndpoint s c).endpoints t = n.endpoints t := by
    intro t ht
    rw [setEndpoint_ne ht, perform_endpoints]
  have hmem : ∀ t, t ≠ s →
      (t ∈ ((n.perform s e).setEndpoint s c).manager.set ↔ t ∈ n.manager.set) :=
    fun t ht => ⟨perform_set, fun h => mem_perform_set hs h fun he => absurd he ht⟩
  cases he : e.erase? with
  | true =>
    -- the socket leaves the set, and was pending because of this
    have hgone : s ∉ ((n.perform s e).setEndpoint s c).manager.set := by
      cases e with
      | lockedErase u =>
        obtain rfl : u = s := Option.some.inj hs
        exact hi.nodup.not_mem_erase
      | _ => cases he
    constructor
    · intro h t ht
      by_cases hts : t = s
      · exact hts ▸ Endpoint.pending_of_erase hc he
      · exact hother t hts ▸ h t ((hmem t hts).mpr ht)
    · intro h t ht
      have hts : t ≠ s := fun hts => hgone (hts ▸ ht)
      exact hother t hts ▸ h t ((hmem t hts).mp ht)
  | false =>
    have hpend := Endpoint.act_pending (hi.endpoint s) hc he
    constructor
    · intro h t ht
      by_cases hts : t = s
      · subst hts
        have := h t (mem_perform_set hs ht fun _ => he)
        rw [setEndpoint_self] at this
        exact hpend.mp this
      · exact hother t hts ▸ h t ((hmem t hts).mpr ht)
    · intro h t ht
      by_cases hts : t = s
      · subst hts
        rw [setEndpoint_self]
        exact hpend.mpr (h t (perform_set ht))
      · exact hother t hts ▸ h t ((hmem t hts).mp ht)

/-- A step keeps every socket alive that was, exactly when the call it makes goes on; and
it brings no socket back. -/
theorem step_alive (hm : m.hasSocketManager = true) {l : Label}
    (hi : n.Inv m address streams shut) (h : n.step m address l = some n') :
    n'.Alive ↔ n.Alive ∧ n.ContinuesOrCloses l := by
  rcases step_cases h with ⟨s, env, rfl, hs, -, rfl⟩ | ⟨s, x, c, rfl, hc, rfl⟩ |
    ⟨s, i, e, c, rfl, hc, rfl⟩ | ⟨w, x, rfl, -, -, rfl⟩ | ⟨w, x, rfl, -, rfl⟩ | ⟨w, x, rfl, -, rfl⟩
  · exact register_alive hm hi hs
  · exact complete_alive hm hi hc
  · exact (act_alive hi hc).trans (and_iff_left trivial).symm
  · exact (and_iff_left trivial).symm
  · exact (and_iff_left trivial).symm
  · exact (and_iff_left trivial).symm

theorem Alive.noZombie (ha : n.Alive) (hi : n.Inv m address streams shut) : n.NoZombie :=
  fun s hs hidle => ((hi.endpoint s).posted_of_idle hidle).mp (ha s hs)

theorem NoZombie.alive (hz : n.NoZombie) (hi : n.Inv m address streams shut)
    (hidle : ∀ s, (n.endpoints s).Idle) : n.Alive :=
  fun s hs => ((hi.endpoint s).posted_of_idle (hidle s)).mpr (hz s hs (hidle s))

/-- There is no zombie in any run whose calls all go on or give their socket up; and a
run that leaves no call running and no zombie behind is such a run. -/
theorem noZombie_iff (m : ReceiveManager) (hm : m.hasSocketManager = true)
    (address : Socket → ℕ) (func : Bool) (streams : Socket → List UInt8)
    (shut : Socket → Bool) (threadCount : ℕ) (ls : List Label) (n : Network)
    (h : exec (step m address) (start func streams shut threadCount) ls = some n) :
    (Along (step m address) ContinuesOrCloses (start func streams shut threadCount) ls →
      Always (step m address) NoZombie (start func streams shut threadCount) ls) ∧
    ((∀ s, (n.endpoints s).Idle) → n.NoZombie →
      Along (step m address) ContinuesOrCloses (start func streams shut threadCount) ls) := by
  have hinv : ∀ n l n', n.Inv m address streams shut → step m address n l = some n' →
      n'.Inv m address streams shut := fun _ _ _ => step_inv
  have hstart := start_inv m address func streams shut threadCount
  have halive : (start func streams shut threadCount).Alive := by
    simp [Alive, start, SocketManager.new, SocketManager.init]
  have hiff := always_iff_along hinv
    (fun n l n' hi (ha : n.Alive) hs => (step_alive hm hi hs).trans (and_iff_right ha))
    hstart halive h
  constructor
  · intro hc
    exact (hiff.mpr hc).imp hinv (fun n hi ha => ha.noZombie hi) hstart
  · intro hidle hz
    refine hiff.mp (always_of_last hinv
      (fun n l n' hi _ hs ha => ((step_alive hm hi hs).mp ha).1) hstart
      (along_of_forall (fun _ _ => trivial) _ ls) h ?_)
    exact hz.alive (run_inv h) hidle

/-- A packet, and then the peer closes between packets. -/
theorem noZombie_iff_closed_between :
    ∃ n, exec (step ⟨16, true, by decide⟩ id)
        (start true (fun _ => [1, 0, 8, 0, 8, 0, 0, 0]) (fun _ => true) 8)
        [.register 0 ⟨some 1, some 2, true, fun _ => 0⟩, .act 0 0, .act 0 0, .act 0 0,
          .complete 0 ⟨8, some 3, some 4, true, fun _ => 0⟩, .act 0 1, .act 0 1, .act 0 1, .act 0 1,
          .complete 0 ⟨0, some 5, some 6, true, fun _ => 0⟩, .act 0 2, .act 0 2, .act 0 2, .act 0 2,
          .act 0 2] = some n ∧
      Always (step ⟨16, true, by decide⟩ id) NoZombie
        (start true (fun _ => [1, 0, 8, 0, 8, 0, 0, 0]) (fun _ => true) 8)
        [.register 0 ⟨some 1, some 2, true, fun _ => 0⟩, .act 0 0, .act 0 0, .act 0 0,
          .complete 0 ⟨8, some 3, some 4, true, fun _ => 0⟩, .act 0 1, .act 0 1, .act 0 1, .act 0 1,
          .complete 0 ⟨0, some 5, some 6, true, fun _ => 0⟩, .act 0 2, .act 0 2, .act 0 2, .act 0 2,
          .act 0 2] := by
  apply exists_exec (by decide +kernel)
  intro n hn
  exact (noZombie_iff _ rfl _ _ _ _ _ _ n hn).1 (by decide +kernel)

/-- One byte, and then the peer closes: the handler queues the byte and does nothing
more, and the socket stays in `_set` with no receive posted. -/
theorem zombie_after_partial_packet :
    ¬ ∀ (m : ReceiveManager) (address : Socket → ℕ) (func : Bool)
      (streams : Socket → List UInt8) (shut : Socket → Bool) (threadCount : ℕ) (ls : List Label)
      (n : Network), m.hasSocketManager = true →
      exec (step m address) (start func streams shut threadCount) ls = some n →
      Always (step m address) NoZombie (start func streams shut threadCount) ls := by
  intro h
  have hrun : (exec (step ⟨16, true, by decide⟩ id) (start true (fun _ => [1]) (fun _ => true) 8)
      [.register 0 ⟨some 1, some 2, true, fun _ => 0⟩, .act 0 0, .act 0 0, .act 0 0,
        .complete 0 ⟨1, some 3, some 4, true, fun _ => 0⟩, .act 0 1, .act 0 1, .act 0 1,
        .complete 0 ⟨0, some 5, some 6, true, fun _ => 0⟩, .act 0 2, .act 0 2, .act 0 2]).map
      (fun n => decide n.NoZombie) = some false := by decide +kernel
  obtain ⟨n, hn, hz⟩ := Option.map_eq_some_iff.mp hrun
  exact of_decide_eq_false hz ((h _ _ _ _ _ _ _ n rfl hn).last hn)

end Network

end Xiaoxin
