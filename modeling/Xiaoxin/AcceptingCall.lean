import Xiaoxin.Network

/-!
# Accepting calls

`PostRecvAndFirst` posts the first receive of a socket and only then calls `First`, the
hook of whoever derives from the receive manager. This module says what such a call and
the handlers beside it do in the way of `First`: which handlers hand nothing on and leave
the socket alone (`handle_overtakes`), and from when to when `First` is due
(`next_toCall`). What is said of a socket here is also true when it has been closed and
deleted from outside, unlike the invariant of `Network`.
-/
namespace Xiaoxin
open Framing Transition

/-- The socket that `First` is called for. -/
def Effect.first? : Effect → Option Socket
  | .first s => some s
  | _ => none

/-- A call that hands a message on or deletes the socket has overtaken the accepting call
if that one has still to call `First`. -/
def Effect.overtakes : Effect → Bool
  | .doData _ _ => true
  | .pushFront _ => true
  | .closeAndDelete _ _ => true
  | _ => false

theorem Effect.overtakes_of_delivery? {e : Effect} {d : Delivery} (h : e.delivery? = some d) :
    e.overtakes = true := by
  cases e <;> first | rfl | cases h

theorem Effect.first?_eq_some {e : Effect} {s : Socket} (h : e.first? = some s) : e = .first s := by
  cases e <;> first | (cases h; rfl) | cases h

def firsts (es : List Effect) : List Socket := es.filterMap Effect.first?

@[simp] theorem firsts_nil : firsts [] = [] := rfl
@[simp] theorem firsts_append (es fs : List Effect) : firsts (es ++ fs) = firsts es ++ firsts fs :=
  List.filterMap_append
@[simp] theorem firsts_cons (e : Effect) (es : List Effect) :
    firsts (e :: es) = e.first?.toList ++ firsts es := by
  cases e <;> rfl

/-! ## What a call does before `First` -/

namespace ReceiveManager

variable (m : ReceiveManager) (env : Env)

/-- With `data` behind `rest` in its buffer, a handler hands nothing on and leaves the
socket alone: there is no whole packet in front, and where the handler posts the next
receive the socket is open, unless nobody would delete it. -/
def HoldsBack (rest data : List UInt8) : Prop :=
  data ≠ [] ∧ (packetVerdict (rest ++ data) = .stop ∨ packetVerdict (rest ++ data) = .more ∧
    (env.recvAlloc = none ∨ env.isOpen = true ∨ m.hasSocketManager = false))

instance (rest data : List UInt8) : Decidable (m.HoldsBack env rest data) := by
  unfold HoldsBack
  infer_instance

@[simp] theorem closeSocket_firsts (s : Option Socket) : firsts (m.closeSocket s) = [] := by
  cases s with
  | none => rfl
  | some s =>
    simp only [closeSocket]
    split <;> rfl

@[simp] theorem add_firsts (h : PerHandleData) : firsts (m.add env h) = [] := by
  cases ha : env.queueAlloc <;> simp [add, ha, getData_none, getData_eq, dispatch, Effect.first?]

@[simp] theorem postReceive_firsts (s : Option Socket) : firsts (m.postReceive env s) = [] := by
  simp only [postReceive]
  split_ifs
  · simp
  · cases env.recvAlloc <;> rfl

@[simp] theorem flag4_firsts (h : PerHandleData) : firsts (m.flag4 env h) = [] := by
  cases ha : env.recvAlloc <;> cases ho : env.isOpen <;>
    simp [flag4, postReceiveHandle, ha, ho, getData_none, getData_eq, Effect.first?]

@[simp] theorem receiveLoop_firsts (h : PerHandleData) :
    firsts (m.receiveLoop env h).effects = [] := by
  fun_induction receiveLoop m env h with
  | case5 h tmpPacket _ _ _ _ _ r ih =>
    rw [firsts_cons, ih]
    rfl
  | _ => simp

/-- A handler does not call `First`. -/
@[simp] theorem asynReceive_firsts (h : PerHandleData) (bytesTransferred : ℕ) :
    firsts (m.asynReceive env h bytesTransferred) = [] := by
  simp only [asynReceive, SendOrRecvMngBase.releaseMemory, receive, firsts_append]
  split_ifs <;> simp [Effect.first?]

variable {m env}

theorem add_overtakes (h : PerHandleData) : ∃ e ∈ m.add env h, e.overtakes = true := by
  cases ha : env.queueAlloc <;>
    simp [add, ha, getData_none, getData_eq, dispatch, Effect.overtakes]

theorem closeSocket_overtakes (s : Socket) :
    (∀ e ∈ m.closeSocket (some s), e.overtakes = false) ↔ m.hasSocketManager = false := by
  cases hm : m.hasSocketManager <;>
    simp [closeSocket, hm, SocketManager.socketClosed, SocketManager.socketErrorNotify,
      Effect.overtakes]

/-- `PostReceive` has a socket deleted only where it finds it closed. -/
theorem postReceive_overtakes (s : Socket) :
    (∀ e ∈ m.postReceive env (some s), e.overtakes = false) ↔
      env.isOpen = true ∨ m.hasSocketManager = false := by
  cases ho : env.isOpen with
  | false => simpa [postReceive, ho] using closeSocket_overtakes s
  | true =>
    cases ha : env.recvAlloc <;>
      simp [postReceive, ho, ha, getData_none, getData_eq, Effect.overtakes]

theorem flag4_overtakes {h : PerHandleData} {s : Socket} (hs : h.socket = some s) :
    (∀ e ∈ m.flag4 env h, e.overtakes = false) ↔
      env.recvAlloc = none ∨ env.isOpen = true ∨ m.hasSocketManager = false := by
  cases ha : env.recvAlloc with
  | none => simp [flag4, ha, getData_none]
  | some a =>
    cases ho : env.isOpen with
    | false =>
      have hclose := closeSocket_overtakes (m := m) s
      simpa [flag4, postReceiveHandle, ha, ho, getData_eq, hs, holding, Effect.overtakes] using
        hclose
    | true => simp [flag4, postReceiveHandle, ha, ho, getData_eq, Effect.overtakes]

/-- A handler overtakes nobody exactly where it holds back. -/
theorem handle_overtakes (a : ℕ) (s : Socket) {rest data : List UInt8}
    (hfit : rest.length + data.length ≤ m.bufferSize) :
    (∀ e ∈ m.handle env a s rest data, e.overtakes = false) ↔ m.HoldsBack env rest data := by
  by_cases hd : data = []
  · subst hd
    obtain ⟨e, he, hover⟩ : ∃ e ∈ m.add env (m.holding a (some s) rest), e.overtakes = true :=
      add_overtakes _
    rw [handle_nil env a s (by simpa using hfit)]
    refine iff_of_false (fun hall => ?_) fun hback => hback.1 rfl
    have hnot := hall e (List.mem_append_left _ (List.mem_append_left _ he))
    exact absurd (hover.symm.trans hnot) (by decide)
  · have hb : (m.holding a (some s) (rest ++ data)).InBuffer m.bufferSize :=
      holding_inBuffer (by simpa using hfit) a (some s)
    have hw : (m.holding a (some s) (rest ++ data)).window = rest ++ data := holding_window ..
    obtain ⟨h, -, he⟩ := handle_of_bytes env a s hfit hd
    rw [he]
    cases hv : packetVerdict (rest ++ data) with
    | more =>
      rw [receiveLoop_more env hb (hw.symm ▸ hv), packetFramer.drain_more hv,
        if_neg (by simp [hd]), List.append_nil]
      simp only [List.mem_append, or_imp, forall_and, List.mem_singleton, forall_eq, HoldsBack, hv,
        reduceCtorEq, false_or, true_and, ne_eq, hd, not_false_eq_true]
      rw [flag4_overtakes (holding_socket ..)]
      simp [Effect.overtakes]
    | stop =>
      rw [receiveLoop_stop env hb (hw.symm ▸ hv), packetFramer.drain_stop hv]
      simp [HoldsBack, hv, hd, Effect.overtakes]
    | last k => exact absurd hv packetVerdict_ne_last
    | frame k =>
      refine iff_of_false (fun hall => ?_) fun hback => by simp [HoldsBack, hv] at hback
      suffices hover : ∃ e ∈ (m.receiveLoop env (m.holding a (some s) (rest ++ data))).effects,
          e.overtakes = true by
        obtain ⟨e, he, hover⟩ := hover
        have hnot := hall e (List.mem_append_left _ (List.mem_append_left _ he))
        exact absurd (hover.symm.trans hnot) (by decide)
      by_cases hk : k = (m.holding a (some s) (rest ++ data)).offset
      · rw [receiveLoop_exact env hb (by rw [hw, hv, hk])]
        exact add_overtakes _
      · rw [receiveLoop_frame env hb (hw.symm ▸ hv) hk]
        exact ⟨_, List.mem_cons_self .., rfl⟩

/-- A receive handle of the socket that holds what fits into its buffer. -/
def Holds (m : ReceiveManager) (s : Socket) (h : PerHandleData) : Prop :=
  ∃ a r, r.length ≤ m.bufferSize ∧ h = m.holding a (some s) r

theorem postReceive_holds (s : Socket) : ∀ p ∈ posts (m.postReceive env (some s)), m.Holds s p := by
  intro p hp
  rw [postReceive_posts] at hp
  obtain ⟨a, rfl⟩ := mem_nextReceive hp
  exact ⟨a, [], Nat.zero_le _, rfl⟩

theorem handle_holds (a : ℕ) (s : Socket) {rest data : List UInt8}
    (hfit : rest.length + data.length ≤ m.bufferSize) :
    ∀ p ∈ posts (m.handle env a s rest data), m.Holds s p := by
  intro p hp
  by_cases hd : data = []
  · subst hd
    rw [handle_nil_posts env a s (by simpa using hfit)] at hp
    cases hp
  · rw [handle_posts env a s hfit hd] at hp
    cases ho : (packetFramer.drain (rest ++ data)).outcome with
    | ended => simp [ho] at hp
    | waiting r =>
      simp only [ho] at hp
      obtain ⟨b, rfl⟩ := mem_nextReceive hp
      have hle := packetFramer.length_le_of_waiting ho
      rw [List.length_append] at hle
      exact ⟨b, r, by omega, rfl⟩

end ReceiveManager

/-- `PostRecvAndFirst` calls it once, for its socket, and last. -/
theorem AcceptorConnectorBase.postRecvAndFirst_firsts (m : ReceiveManager) (env : Env)
    (s : Socket) : firsts (postRecvAndFirst m env s) = [s] := by
  simp [postRecvAndFirst, Effect.first?]

theorem AcceptorConnectorBase.postRecvAndFirst_overtakes {m : ReceiveManager} {env : Env}
    (s : Socket) : (∀ e ∈ postRecvAndFirst m env s, e.overtakes = false) ↔
      env.isOpen = true ∨ m.hasSocketManager = false := by
  rw [← ReceiveManager.postReceive_overtakes s, postRecvAndFirst]
  simp [Effect.overtakes, or_imp, forall_and]

namespace Endpoint

variable {m : ReceiveManager} {s : Socket} {c d : Endpoint}

/-- What the calls made for the socket have still to do in the way of `First`. -/
def firstsLeft (c : Endpoint) : List Socket := firsts c.calls.flatten

theorem call_firstsLeft (es : List Effect) :
    (c.call es).firstsLeft = c.firstsLeft ++ firsts es := by
  simp [firstsLeft, call]

theorem complete_firstsLeft {x : Completion} (h : c.complete m x = some d) :
    d.firstsLeft = c.firstsLeft := by
  unfold complete at h
  split at h
  · cases h
  · split_ifs at h
    rw [← Option.some.inj h, call_firstsLeft, ReceiveManager.asynReceive_firsts, List.append_nil]
    rfl

theorem act_firstsLeft {i : ℕ} {e : Effect} (h : c.act i = some (e, d)) (s : Socket) :
    c.firstsLeft.count s = e.first?.toList.count s + d.firstsLeft.count s := by
  obtain ⟨l, es, r, hc, rfl⟩ := act_cases h
  simp only [firstsLeft, hc, perform_calls, List.flatten_append, List.flatten_cons, firsts_append,
    firsts_cons, List.count_append]
  omega

/-- The calls made for a socket are about this socket, also when it has been closed from
outside, and a call of `First` is the last thing that its call does. -/
structure Own (m : ReceiveManager) (s : Socket) (c : Endpoint) : Prop where
  posted : ∀ h ∈ c.posted, m.Holds s h
  posts : ∀ h ∈ posts c.calls.flatten, m.Holds s h
  socket : ∀ e ∈ c.calls.flatten, e.socket = some s
  last : ∀ es ∈ c.calls, ∀ l r, es = l ++ .first s :: r → r = []

theorem Own.call (ho : c.Own m s) {es : List Effect} (hp : ∀ h ∈ Xiaoxin.posts es, m.Holds s h)
    (hs : ∀ e ∈ es, e.socket = some s) (hl : ∀ l r, es = l ++ .first s :: r → r = []) :
    (c.call es).Own m s where
  posted := ho.posted
  posts h hh := by
    simp only [Endpoint.call, List.flatten_append, List.flatten_singleton, posts_append,
      List.mem_append] at hh
    exact hh.elim (ho.posts h) (hp h)
  socket e he := by
    simp only [Endpoint.call, List.flatten_append, List.flatten_singleton, List.mem_append] at he
    exact he.elim (ho.socket e) (hs e)
  last es' hes := by
    simp only [Endpoint.call, List.mem_append, List.mem_singleton] at hes
    rcases hes with hes | rfl
    · exact ho.last es' hes
    · exact hl

/-- A completion runs the handler on what the receive holds. -/
theorem Own.complete_eq (ho : c.Own m s) {x : Completion} (h : c.complete m x = some d) :
    ∃ a r hs, c.posted = m.holding a (some s) r :: hs ∧
      r.length + (c.unread.take x.bytesTransferred).length ≤ m.bufferSize ∧
      d = ({ c with posted := hs, unread := c.unread.drop x.bytesTransferred } : Endpoint).call
        (m.handle x.env a s r (c.unread.take x.bytesTransferred)) := by
  unfold complete at h
  split at h
  · cases h
  · rename_i g hs hp
    obtain ⟨a, r, hr, rfl⟩ := ho.posted g (hp ▸ List.mem_cons_self ..)
    split_ifs at h with hc
    have hroom : x.bytesTransferred ≤ m.bufferSize - r.length := hc.1
    have hlen : (c.unread.take x.bytesTransferred).length = x.bytesTransferred := by
      rw [List.length_take]
      exact Nat.min_eq_left hc.2.1
    refine ⟨a, r, hs, hp, by omega, ?_⟩
    rw [← Option.some.inj h, ReceiveManager.handle, hlen]

theorem Own.complete (ho : c.Own m s) {x : Completion} (h : c.complete m x = some d) :
    d.Own m s := by
  obtain ⟨a, r, hs, hp, hfit, rfl⟩ := ho.complete_eq h
  have hrest : ({ c with posted := hs, unread := c.unread.drop x.bytesTransferred } :
      Endpoint).Own m s :=
    ⟨fun h hh => ho.posted h (hp ▸ List.mem_cons_of_mem _ hh), ho.posts, ho.socket, ho.last⟩
  refine hrest.call (ReceiveManager.handle_holds a s hfit)
    (ReceiveManager.handle_shape x.env a s hfit).socket fun l r' he => ?_
  have hnone : firsts (m.handle x.env a s r (c.unread.take x.bytesTransferred)) = [] :=
    ReceiveManager.asynReceive_firsts m x.env _ _
  rw [he] at hnone
  simp [Effect.first?] at hnone

theorem mem_of_act {i : ℕ} {e : Effect} (h : c.act i = some (e, d)) :
    e ∈ c.calls.flatten ∧ ∀ e' ∈ d.calls.flatten, e' ∈ c.calls.flatten := by
  obtain ⟨l, es, r, hc, rfl⟩ := act_cases h
  rw [hc, perform_calls]
  refine ⟨by simp, fun e' he' => ?_⟩
  simp only [List.flatten_append, List.flatten_cons, List.mem_append, List.mem_cons] at he' ⊢
  tauto

theorem Own.act (ho : c.Own m s) {i : ℕ} {e : Effect} (h : c.act i = some (e, d)) :
    d.Own m s := by
  obtain ⟨hmem, hrest⟩ := mem_of_act h
  obtain ⟨l, es, r, hc, rfl⟩ := act_cases h
  refine ⟨fun p hp => ?_, fun p hp => ?_, fun e' he' => ?_, fun es' hes => ?_⟩
  · rw [perform_posted, List.mem_append] at hp
    rcases hp with hp | hp
    · exact ho.posted p hp
    · exact ho.posts p (List.mem_filterMap.mpr ⟨e, hmem, Option.mem_toList.mp hp⟩)
  · obtain ⟨e', he', hp⟩ := List.mem_filterMap.mp hp
    exact ho.posts p (List.mem_filterMap.mpr ⟨e', hrest e' he', hp⟩)
  · exact ho.socket e' (hrest e' he')
  · simp only [perform_calls, List.mem_append, List.mem_cons] at hes
    rcases hes with hl | rfl | hr
    · exact ho.last es' (by simp [hc, hl])
    · intro l' r' he
      exact ho.last (e :: es') (by simp [hc]) (e :: l') r' (by rw [he]; rfl)
    · exact ho.last es' (by simp [hc, hr])

theorem Own.cut (ho : c.Own m s) (k : ℕ) : (c.cut k).Own m s :=
  ⟨ho.posted, ho.posts, ho.socket, ho.last⟩

theorem fresh_own (m : ReceiveManager) (s : Socket) (stream : List UInt8) (shut : Bool) :
    (fresh stream shut).Own m s :=
  ⟨by simp [fresh], by simp [fresh], by simp [fresh], by simp [fresh]⟩

/-- What `PostRecvAndFirst` begins on a socket. -/
theorem Own.register (ho : c.Own m s) (env : Env) :
    (c.call (AcceptorConnectorBase.postRecvAndFirst m env s)).Own m s := by
  refine ho.call (fun h hh => ?_) (AcceptorConnectorBase.postRecvAndFirst_shape m env s).socket ?_
  · simp only [AcceptorConnectorBase.postRecvAndFirst, posts_append, posts_cons, Effect.post?,
      Option.toList_none, posts_nil, List.append_nil] at hh
    exact ReceiveManager.postReceive_holds s h hh
  · intro l r he
    have hone := AcceptorConnectorBase.postRecvAndFirst_firsts m env s
    have hnil := ReceiveManager.postReceive_firsts m env (some s)
    rw [AcceptorConnectorBase.postRecvAndFirst] at he
    -- whatever stands behind a `First` in front of the last one would be a second
    rcases List.eq_nil_or_concat r with rfl | ⟨r', e, rfl⟩
    · rfl
    · rw [List.concat_eq_append, ← List.cons_append, ← List.append_assoc] at he
      have hpost : m.postReceive env (some s) = l ++ .first s :: r' :=
        List.append_inj_left' he rfl
      rw [hpost] at hnil
      simp [Effect.first?] at hnil

end Endpoint

/-! ## Sockets whose `First` is still to come -/

namespace Network

/-- How often the calls made for a socket have still to call `First` for it. -/
def toCall (n : Network) (s : Socket) : ℕ := (n.endpoints s).firstsLeft.count s

/-- The accepting call of the socket has not come to `First` yet. -/
def FirstPending (n : Network) (s : Socket) : Prop := 0 < n.toCall s

instance (n : Network) (s : Socket) : Decidable (n.FirstPending s) := by
  unfold FirstPending
  infer_instance

/-- The socket that a step calls `First` for. -/
def first? (n : Network) : Event → Option Socket
  | .thread (.act s i) => ((n.endpoints s).act i).bind fun p => p.1.first?
  | _ => none

/-- What holds in every run, also of sockets that were closed from outside. -/
structure Tidy (m : ReceiveManager) (n : Network) : Prop where
  own : ∀ s, (n.endpoints s).Own m s
  untouched : ∀ s, s ∉ n.registered → (n.endpoints s).posted = [] ∧ (n.endpoints s).calls = []
  set : ∀ s ∈ n.manager.set, s ∈ n.registered
  deleted : ∀ s ∈ n.manager.deleted, s ∈ n.registered
  sourced : n.Sourced

variable {m : ReceiveManager} {address : Socket → ℕ} {n n' : Network} {l : Label} {e : Event}

theorem next_cases (h : n.next m address e = some n') :
    (∃ l, e = .thread l ∧ n.step m address l = some n') ∨
    (∃ kept, e = .clearAll kept ∧ n' = n.clearAll kept) := by
  cases e with
  | thread l => exact .inl ⟨l, rfl, h⟩
  | clearAll kept => exact .inr ⟨kept, rfl, (Option.some.inj h).symm⟩

@[simp] theorem clearAll_calls (kept : Socket → ℕ) (s : Socket) :
    ((n.clearAll kept).endpoints s).calls = (n.endpoints s).calls := by
  simp only [clearAll]
  split_ifs <;> rfl

@[simp] theorem clearAll_posted (kept : Socket → ℕ) (s : Socket) :
    ((n.clearAll kept).endpoints s).posted = (n.endpoints s).posted := by
  simp only [clearAll]
  split_ifs <;> rfl

theorem Tidy.act (ht : n.Tidy m) {s : Socket} {i : ℕ} {e : Effect} {c : Endpoint}
    (h : (n.endpoints s).act i = some (e, c)) : e.socket = some s ∧ s ∈ n.registered := by
  refine ⟨(ht.own s).socket e (Endpoint.mem_of_act h).1, ?_⟩
  by_contra hs
  have hmem := (Endpoint.mem_of_act h).1
  rw [(ht.untouched s hs).2] at hmem
  cases hmem

theorem Tidy.posted (ht : n.Tidy m) {s : Socket} {x : Completion} {c : Endpoint}
    (h : (n.endpoints s).complete m x = some c) : s ∈ n.registered := by
  by_contra hs
  obtain ⟨a, r, hs', hp, -⟩ := (ht.own s).complete_eq h
  rw [(ht.untouched s hs).1] at hp
  cases hp

theorem start_tidy (m : ReceiveManager) (func : Bool) (streams : Socket → List UInt8)
    (shut : Socket → Bool) (threadCount : ℕ) : (start func streams shut threadCount).Tidy m where
  own s := Endpoint.fresh_own m s (streams s) (shut s)
  untouched _ _ := ⟨rfl, rfl⟩
  set := by simp [start, SocketManager.new, SocketManager.init]
  deleted := by simp [start, SocketManager.new, SocketManager.init]
  sourced := start_sourced func streams shut threadCount

theorem step_tidy (ht : n.Tidy m) (h : n.step m address l = some n') : n'.Tidy m := by
  have hsourced := step_sourced_of (fun s i e c hc => ht.act hc) ht.sourced h
  rcases step_cases h with ⟨s, env, rfl, hs, -, rfl⟩ | ⟨s, x, c, rfl, hc, rfl⟩ |
    ⟨s, i, e, c, rfl, hc, rfl⟩ | ⟨w, x, rfl, -, -, rfl⟩ | ⟨w, x, rfl, -, rfl⟩ | ⟨w, x, rfl, -, rfl⟩
  · refine ⟨?_, fun t hnot => ?_, fun t hmem => ?_, fun t hmem => ?_, hsourced⟩
    · exact forall_setEndpoint (P := fun t c => c.Own m t) ((ht.own s).register env)
        fun t _ => ht.own t
    · obtain ⟨hne, hnot⟩ := not_or.mp (List.mem_cons.not.mp hnot)
      simpa only [setEndpoint, Function.update_of_ne hne] using ht.untouched t hnot
    · rcases List.mem_insert_iff.mp hmem with rfl | hmem
      · exact List.mem_cons_self ..
      · exact List.mem_cons_of_mem _ (ht.set t hmem)
    · exact List.mem_cons_of_mem _ (ht.deleted t hmem)
  · have hs := ht.posted hc
    refine ⟨?_, fun t hnot => ?_, ht.set, ht.deleted, hsourced⟩
    · exact forall_setEndpoint ((ht.own s).complete hc) fun t _ => ht.own t
    · have hne : t ≠ s := fun h => hnot (h ▸ hs)
      rw [setEndpoint_ne hne]
      exact ht.untouched t hnot
  · obtain ⟨hsock, hs⟩ := ht.act hc
    have hreg : ((n.perform s e).setEndpoint s c).registered = n.registered := by
      simp [setEndpoint]
    refine ⟨?_, fun t hnot => ?_, fun t hmem => ?_, fun t hmem => ?_, hsourced⟩
    · refine forall_setEndpoint ((ht.own s).act hc) fun t _ => ?_
      rw [perform_endpoints]
      exact ht.own t
    · rw [hreg] at hnot
      have hne : t ≠ s := fun h => hnot (h ▸ hs)
      rw [setEndpoint_ne hne, perform_endpoints]
      exact ht.untouched t hnot
    · rw [hreg]
      exact ht.set t (perform_set hmem)
    · rw [hreg]
      rcases mem_perform_deleted.mp hmem with hold | ⟨ev, rfl⟩
      · exact ht.deleted t hold
      · obtain rfl : t = s := Option.some.inj hsock
        exact hs
  · exact ⟨ht.own, ht.untouched, ht.set, ht.deleted, hsourced⟩
  · exact ⟨ht.own, ht.untouched, ht.set, ht.deleted, hsourced⟩
  · exact ⟨ht.own, ht.untouched, ht.set, ht.deleted, hsourced⟩

theorem clearAll_tidy (ht : n.Tidy m) (kept : Socket → ℕ) : (n.clearAll kept).Tidy m where
  own s := by
    simp only [clearAll]
    split_ifs
    · exact (ht.own s).cut (kept s)
    · exact ht.own s
  untouched s hs := by
    rw [clearAll_posted, clearAll_calls]
    exact ht.untouched s hs
  set s hs := by cases hs
  deleted s hs := (List.mem_append.mp hs).elim (ht.deleted s) (ht.set s)
  sourced := ht.sourced

theorem next_tidy (ht : n.Tidy m) (h : n.next m address e = some n') : n'.Tidy m := by
  rcases next_cases h with ⟨l, -, h⟩ | ⟨kept, -, rfl⟩
  · exact step_tidy ht h
  · exact clearAll_tidy ht kept

/-! ### When `First` is due -/

theorem toCall_setEndpoint_ne {s t : Socket} (h : t ≠ s) (c : Endpoint) :
    (n.setEndpoint s c).toCall t = n.toCall t := by
  rw [toCall, setEndpoint_ne h]
  rfl

theorem clearAll_toCall (kept : Socket → ℕ) (s : Socket) :
    (n.clearAll kept).toCall s = n.toCall s := by
  rw [toCall, Endpoint.firstsLeft, clearAll_calls]
  rfl

theorem Tidy.registered_of_pending (ht : n.Tidy m) {s : Socket} (h : n.FirstPending s) :
    s ∈ n.registered := by
  by_contra hs
  simp [FirstPending, toCall, Endpoint.firstsLeft, (ht.untouched s hs).2] at h

/-- Registering a socket is what makes a call of `First` due, and only that call makes
it no longer due. -/
theorem step_toCall (ht : n.Tidy m) (h : n.step m address l = some n') (t : Socket) :
    n'.toCall t + (n.first? (.thread l)).toList.count t + (if t ∈ n.registered then 1 else 0) =
      n.toCall t + (if t ∈ n'.registered then 1 else 0) := by
  rcases step_cases h with ⟨s, env, rfl, hs, -, rfl⟩ | ⟨s, x, c, rfl, hc, rfl⟩ |
    ⟨s, i, e, c, rfl, hc, rfl⟩ | ⟨w, x, rfl, -, -, rfl⟩ | ⟨w, x, rfl, -, rfl⟩ | ⟨w, x, rfl, -, rfl⟩
  · by_cases hts : t = s
    · subst hts
      have hnone : (n.endpoints t).firstsLeft = [] := by
        simp [Endpoint.firstsLeft, (ht.untouched t hs).2]
      simp [toCall, first?, setEndpoint, Endpoint.call_firstsLeft, hnone, hs,
        AcceptorConnectorBase.postRecvAndFirst_firsts]
    · simp [toCall, first?, setEndpoint, hts]
  · by_cases hts : t = s
    · subst hts
      rw [toCall, setEndpoint_self, Endpoint.complete_firstsLeft hc]
      rfl
    · rw [toCall_setEndpoint_ne hts]
      rfl
  · have hreg : ((n.perform s e).setEndpoint s c).registered = n.registered := by
      simp [setEndpoint]
    rw [hreg]
    simp only [first?, hc, Option.bind_some]
    by_cases hts : t = s
    · subst hts
      have hcount := Endpoint.act_firstsLeft hc t
      rw [toCall, setEndpoint_self, toCall]
      omega
    · have hs := (ht.act hc).1
      have hnone : e.first?.toList.count t = 0 := by
        cases e <;> simp_all [Effect.first?, Effect.socket, eq_comm]
      rw [toCall_setEndpoint_ne hts, hnone, toCall, perform_endpoints]
      rfl
  · rfl
  · rfl
  · rfl

theorem next_toCall (ht : n.Tidy m) (h : n.next m address e = some n') (t : Socket) :
    n'.toCall t + (n.first? e).toList.count t + (if t ∈ n.registered then 1 else 0) =
      n.toCall t + (if t ∈ n'.registered then 1 else 0) := by
  rcases next_cases h with ⟨l, rfl, h⟩ | ⟨kept, rfl, rfl⟩
  · exact step_toCall ht h t
  · rw [clearAll_toCall]
    rfl

/-- What is due after a step was due before, unless the socket is new. -/
theorem firstPending_of_step (ht : n.Tidy m) (h : n.step m address l = some n') {t : Socket}
    (hpend : n'.FirstPending t) : n.FirstPending t ∨ t ∉ n.registered := by
  by_cases hr : t ∈ n.registered
  · have hcount := step_toCall ht h t
    simp only [hr, step_registered h hr, if_true] at hcount
    simp only [FirstPending] at hpend ⊢
    left
    omega
  · exact .inr hr

/-- What is due stays due until it is done. -/
theorem step_firstPending (ht : n.Tidy m) (h : n.step m address l = some n') {t : Socket}
    (hpend : n.FirstPending t) (hf : n.first? (.thread l) ≠ some t) : n'.FirstPending t := by
  have hcount := step_toCall ht h t
  have hr := ht.registered_of_pending hpend
  have hnone : (n.first? (.thread l)).toList.count t = 0 :=
    List.count_eq_zero.mpr fun hm => hf (Option.mem_toList.mp hm)
  simp only [hr, step_registered h hr, if_true] at hcount
  simp only [FirstPending] at hpend ⊢
  omega

theorem Tidy.firstPending_of_first? (ht : n.Tidy m) {t : Socket} (h : n.first? e = some t) :
    n.FirstPending t := by
  match e with
  | .thread (.act s i) =>
    obtain ⟨⟨e, c⟩, hc, he⟩ := Option.bind_eq_some_iff.mp h
    obtain rfl : e = .first t := Effect.first?_eq_some he
    obtain rfl : t = s := Option.some.inj (ht.act hc).1
    have hcount := Endpoint.act_firstsLeft hc t
    simp only [Effect.first?, Option.toList_some, List.count_singleton_self] at hcount
    rw [FirstPending, toCall]
    omega

end Network

end Xiaoxin
