import Xiaoxin.AcceptorConnectorBase
import Xiaoxin.Endpoint
import Xiaoxin.Transition

/-!
# The receiving side as a whole

All sockets of one acceptor or connector share a socket manager and a message queue.
Handlers run on the threads of the io service, the calls for one socket as an
`Endpoint` has them; the messages they queue are taken by worker threads. A label names
the thread that takes the next step, so a list of labels is an interleaving. `Stop` may
clear the socket manager beside the threads; that is one more kind of step (`next`).

A socket is an object. The objects that live at the same time have different addresses;
an address may be used again when its socket has been deleted.
-/
namespace Xiaoxin
open Framing Connection Transition

/-- A message that was handed on: the socket it is from, and how many were handed on
for this socket before it. -/
structure Message where
  socket : Socket
  index : ℕ
  delivery : Delivery
  deriving DecidableEq, Repr

/-- A thread of `MessageQueue::Dispatch`. -/
inductive Worker
  | idle
  /-- It has taken a message from the queue and not yet called the dispatch function. -/
  | holding (x : Message)
  /-- It is inside the dispatch function. -/
  | running (x : Message)
  deriving DecidableEq, Repr

def Worker.held? : Worker → Option Message
  | .holding x => some x
  | _ => none

structure Network where
  endpoints : Socket → Endpoint
  manager : SocketManager
  /-- The sockets that have been through `PostRecvAndFirst`. -/
  registered : List Socket
  /-- `_handle_data_list`, the front first. -/
  queue : List Message
  workers : List Worker
  /-- The calls of `DoData`, in the order in which they started. -/
  started : List Message

inductive Label
  | register (s : Socket) (env : Env)
  /-- A posted receive completes and `AsynReceive` is called. -/
  | complete (s : Socket) (x : Completion)
  /-- The `i`-th call made for the socket does the next thing. -/
  | act (s : Socket) (i : ℕ)
  /-- A worker takes a message from the back of the queue. -/
  | take (w : ℕ)
  /-- A worker calls the dispatch function. -/
  | start (w : ℕ)
  /-- The dispatch function returns. -/
  | finish (w : ℕ)

namespace Network

/-- The messages that workers have taken and not started on. -/
def held (n : Network) : List Message := n.workers.filterMap Worker.held?

/-- Another socket object that still lives has the address. -/
def Occupied (address : Socket → ℕ) (n : Network) (s : Socket) : Prop :=
  ∃ t ∈ n.registered, t ∉ n.manager.deleted ∧ address t = address s

instance (address : Socket → ℕ) (n : Network) (s : Socket) : Decidable (n.Occupied address s) := by
  unfold Occupied
  infer_instance

def setEndpoint (n : Network) (s : Socket) (c : Endpoint) : Network :=
  { n with endpoints := Function.update n.endpoints s c }

/-- The next message that is handed on for a socket. -/
def nextMessage (n : Network) (s : Socket) (d : Delivery) : Message :=
  ⟨s, (n.endpoints s).issued.length, d⟩

/-- What an effect of a call for `s` does outside the endpoint. -/
def perform (n : Network) (s : Socket) : Effect → Network
  | .doData h k => { n with started := n.started ++ [n.nextMessage s ⟨h, k⟩] }
  | .pushFront h => { n with queue := n.nextMessage s ⟨h, h.offset⟩ :: n.queue }
  | .lockedErase t => { n with manager := n.manager.lockedErase t }
  | .closeAndDelete t e => { n with manager := n.manager.closeAndDelete t e }
  | _ => n

def step (m : ReceiveManager) (address : Socket → ℕ) (n : Network) : Label → Option Network
  | .register s env =>
    if s ∈ n.registered ∨ n.Occupied address s then none
    else some { n.setEndpoint s
        ((n.endpoints s).call (AcceptorConnectorBase.postRecvAndFirst m env s)) with
      registered := s :: n.registered
      manager := n.manager.add s }
  | .complete s x => ((n.endpoints s).complete m x).map (n.setEndpoint s)
  | .act s i => ((n.endpoints s).act i).map fun p => (n.perform s p.1).setEndpoint s p.2
  | .take w =>
    match n.workers[w]?, n.queue.getLast? with
    | some .idle, some x =>
      some { n with workers := n.workers.set w (.holding x), queue := n.queue.dropLast }
    | _, _ => none
  | .start w =>
    match n.workers[w]? with
    | some (.holding x) =>
      some { n with workers := n.workers.set w (.running x), started := n.started ++ [x] }
    | _ => none
  | .finish w =>
    match n.workers[w]? with
    | some (.running _) => some { n with workers := n.workers.set w .idle }
    | _ => none

/-- Nothing has happened yet; there are `threadCount` workers. -/
def start (func : Bool) (streams : Socket → List UInt8) (shut : Socket → Bool)
    (threadCount : ℕ) : Network where
  endpoints s := .fresh (streams s) (shut s)
  manager := SocketManager.new.init func
  registered := []
  queue := []
  workers := List.replicate threadCount .idle
  started := []

variable {m : ReceiveManager} {address : Socket → ℕ} {n n' : Network}

/-- What a step can do. -/
theorem step_cases {l : Label} (h : n.step m address l = some n') :
    (∃ s env, l = .register s env ∧ s ∉ n.registered ∧ ¬ n.Occupied address s ∧
      n' = { n.setEndpoint s
          ((n.endpoints s).call (AcceptorConnectorBase.postRecvAndFirst m env s)) with
        registered := s :: n.registered
        manager := n.manager.add s }) ∨
    (∃ s x c, l = .complete s x ∧ (n.endpoints s).complete m x = some c ∧
      n' = n.setEndpoint s c) ∨
    (∃ s i e c, l = .act s i ∧ (n.endpoints s).act i = some (e, c) ∧
      n' = (n.perform s e).setEndpoint s c) ∨
    (∃ w x, l = .take w ∧ n.workers[w]? = some .idle ∧ n.queue.getLast? = some x ∧
      n' = { n with workers := n.workers.set w (.holding x), queue := n.queue.dropLast }) ∨
    (∃ w x, l = .start w ∧ n.workers[w]? = some (.holding x) ∧
      n' = { n with workers := n.workers.set w (.running x), started := n.started ++ [x] }) ∨
    (∃ w x, l = .finish w ∧ n.workers[w]? = some (.running x) ∧
      n' = { n with workers := n.workers.set w .idle }) := by
  cases l with
  | register s env =>
    simp only [step] at h
    split_ifs at h with hc
    obtain ⟨hr, ho⟩ := not_or.mp hc
    exact .inl ⟨s, env, rfl, hr, ho, (Option.some.inj h).symm⟩
  | complete s x =>
    obtain ⟨c, hc, rfl⟩ := Option.map_eq_some_iff.mp h
    exact .inr (.inl ⟨s, x, c, rfl, hc, rfl⟩)
  | act s i =>
    obtain ⟨⟨e, c⟩, hc, rfl⟩ := Option.map_eq_some_iff.mp h
    exact .inr (.inr (.inl ⟨s, i, e, c, rfl, hc, rfl⟩))
  | take w =>
    simp only [step] at h
    split at h
    · rename_i x hw hq
      exact .inr (.inr (.inr (.inl ⟨w, x, rfl, hw, hq, (Option.some.inj h).symm⟩)))
    · cases h
  | start w =>
    simp only [step] at h
    split at h
    · rename_i x hw
      exact .inr (.inr (.inr (.inr (.inl ⟨w, x, rfl, hw, (Option.some.inj h).symm⟩))))
    · cases h
  | finish w =>
    simp only [step] at h
    split at h
    · rename_i x hw
      exact .inr (.inr (.inr (.inr (.inr ⟨w, x, rfl, hw, (Option.some.inj h).symm⟩))))
    · cases h

/-! ## What the threads leave alone -/

@[simp] theorem setEndpoint_self (s : Socket) (c : Endpoint) :
    (n.setEndpoint s c).endpoints s = c := Function.update_self ..

theorem setEndpoint_ne {s t : Socket} (h : t ≠ s) (c : Endpoint) :
    (n.setEndpoint s c).endpoints t = n.endpoints t := Function.update_of_ne h ..

@[simp] theorem perform_endpoints (s : Socket) (e : Effect) :
    (n.perform s e).endpoints = n.endpoints := by
  cases e <;> rfl

@[simp] theorem perform_registered (s : Socket) (e : Effect) :
    (n.perform s e).registered = n.registered := by
  cases e <;> rfl

@[simp] theorem perform_workers (s : Socket) (e : Effect) :
    (n.perform s e).workers = n.workers := by
  cases e <;> rfl

/-- Only a deletion changes which sockets are deleted. -/
theorem mem_perform_deleted {s t : Socket} {e : Effect} : t ∈ (n.perform s e).manager.deleted ↔
    t ∈ n.manager.deleted ∨ ∃ ev, e = .closeAndDelete t ev := by
  cases e with
  | closeAndDelete u ev => simp [perform, SocketManager.closeAndDelete, @eq_comm _ u]
  | _ => simp [perform, SocketManager.lockedErase]

/-- What holds of the changed endpoint and of all others holds of all. -/
theorem forall_setEndpoint {P : Socket → Endpoint → Prop} {s : Socket} {c : Endpoint}
    (hs : P s c) (hother : ∀ t, t ≠ s → P t (n.endpoints t)) (t : Socket) :
    P t ((n.setEndpoint s c).endpoints t) := by
  by_cases ht : t = s
  · subst ht
    rw [setEndpoint_self]
    exact hs
  · rw [setEndpoint_ne ht]
    exact hother t ht

/-! ## Invariants -/

/-- What `PostRecvAndFirst` begins on a socket. -/
theorem register_inv (env : Env) (s : Socket) (stream : List UInt8) (shut : Bool) :
    ((Endpoint.fresh stream shut).call (AcceptorConnectorBase.postRecvAndFirst m env s)).Inv
      m s stream where
  tokens := by
    simp only [Endpoint.tokens, Endpoint.call, Endpoint.fresh, List.nil_append, List.length_nil,
      List.countP_singleton]
    split_ifs <;> simp
  shape := by
    simpa [Endpoint.call, Endpoint.fresh] using
      AcceptorConnectorBase.postRecvAndFirst_shape m env s
  reached := by
    have hv : ((Endpoint.fresh stream shut).call
        (AcceptorConnectorBase.postRecvAndFirst m env s)).view =
          ⟨m.nextReceive env (some s) [], [], !env.isOpen, stream, shut⟩ := by
      simp [Endpoint.view, Endpoint.call, Endpoint.fresh, AcceptorConnectorBase.postRecvAndFirst,
        ReceiveManager.postReceive_posts, ReceiveManager.postReceive_closes]
    rw [hv]
    by_cases hsound : env.Sound
    · obtain ⟨a, ha⟩ := ReceiveManager.nextReceive_of_sound (m := m) hsound (some s) []
      have hstart := start_reached (m := m) (s := s) a stream shut
      simpa [Connection.start, ha, hsound.2] using hstart
    · rw [ReceiveManager.nextReceive_of_not_sound hsound]
      exact .inr ⟨rfl, [], _, Carries.nil, rfl⟩

structure Inv (m : ReceiveManager) (address : Socket → ℕ) (streams : Socket → List UInt8)
    (shut : Socket → Bool) (n : Network) : Prop where
  endpoint : ∀ s, (n.endpoints s).Inv m s (streams s)
  untouched : ∀ s, s ∉ n.registered → n.endpoints s = .fresh (streams s) (shut s)
  nodup : n.manager.set.Nodup
  registered : ∀ s ∈ n.manager.set, s ∈ n.registered
  /-- Where a receive is posted, or about to be, the socket is in `_set`. -/
  inSet : ∀ s, (n.endpoints s).view.posted ≠ [] → s ∈ n.manager.set
  /-- On a deleted socket nothing happens any more. -/
  deleted : ∀ s ∈ n.manager.deleted, s ∈ n.registered ∧ (n.endpoints s).tokens = 0
  addresses : ∀ s ∈ n.registered, ∀ t ∈ n.registered, s ∉ n.manager.deleted →
    t ∉ n.manager.deleted → address s = address t → s = t

variable {streams : Socket → List UInt8} {shut : Socket → Bool}

theorem start_inv (m : ReceiveManager) (address : Socket → ℕ) (func : Bool)
    (streams : Socket → List UInt8) (shut : Socket → Bool) (threadCount : ℕ) :
    (start func streams shut threadCount).Inv m address streams shut where
  endpoint s := Endpoint.fresh_inv m s (streams s) (shut s)
  untouched _ _ := rfl
  nodup := List.nodup_nil
  registered := by simp [start, SocketManager.new, SocketManager.init]
  inSet s h := absurd rfl h
  deleted := by simp [start, SocketManager.new, SocketManager.init]
  addresses := by simp [start]

/-- The sockets on which something runs or is posted have been registered. -/
theorem Inv.mem_of_act {s : Socket} {i : ℕ} {p : Effect × Endpoint}
    (hi : n.Inv m address streams shut) (h : (n.endpoints s).act i = some p) :
    s ∈ n.registered := by
  by_contra hs
  rw [hi.untouched s hs] at h
  simp [Endpoint.act, Endpoint.fresh] at h

theorem Inv.mem_of_complete {s : Socket} {x : Completion} {c : Endpoint}
    (hi : n.Inv m address streams shut) (h : (n.endpoints s).complete m x = some c) :
    s ∈ n.registered := by
  by_contra hs
  rw [hi.untouched s hs] at h
  simp [Endpoint.complete, Endpoint.fresh] at h

theorem register_step_inv {s : Socket} {env : Env} (hi : n.Inv m address streams shut)
    (hs : s ∉ n.registered) (ho : ¬ n.Occupied address s) :
    Inv m address streams shut { n.setEndpoint s
        ((n.endpoints s).call (AcceptorConnectorBase.postRecvAndFirst m env s)) with
      registered := s :: n.registered
      manager := n.manager.add s } where
  endpoint t := by
    by_cases ht : t = s
    · subst ht
      simp only [setEndpoint, Function.update_self, hi.untouched t hs]
      exact register_inv env t (streams t) (shut t)
    · simpa only [setEndpoint, Function.update_of_ne ht] using hi.endpoint t
  untouched t ht := by
    obtain ⟨hne, ht⟩ := not_or.mp (List.mem_cons.not.mp ht)
    simpa only [setEndpoint, Function.update_of_ne hne] using hi.untouched t ht
  nodup := hi.nodup.insert
  registered t ht := by
    rcases List.mem_insert_iff.mp ht with rfl | ht
    · exact List.mem_cons_self ..
    · exact List.mem_cons_of_mem _ (hi.registered t ht)
  inSet t ht := by
    by_cases h : t = s
    · exact List.mem_insert_iff.mpr (.inl h)
    · simp only [setEndpoint, Function.update_of_ne h] at ht
      exact List.mem_insert_iff.mpr (.inr (hi.inSet t ht))
  deleted t ht := by
    obtain ⟨hr, hq⟩ := hi.deleted t ht
    have hne : t ≠ s := fun h => hs (h ▸ hr)
    exact ⟨List.mem_cons_of_mem _ hr,
      by simpa only [setEndpoint, Function.update_of_ne hne] using hq⟩
  addresses t ht u hu htd hud ha := by
    rcases List.mem_cons.mp ht with hts | htr <;> rcases List.mem_cons.mp hu with hus | hur
    · rw [hts, hus]
    · exact absurd ⟨u, hur, hud, by rw [← ha, hts]⟩ ho
    · exact absurd ⟨t, htr, htd, by rw [ha, hus]⟩ ho
    · exact hi.addresses t htr u hur htd hud ha

theorem complete_step_inv {s : Socket} {x : Completion} {c : Endpoint}
    (hi : n.Inv m address streams shut) (hc : (n.endpoints s).complete m x = some c) :
    (n.setEndpoint s c).Inv m address streams shut where
  endpoint := forall_setEndpoint (Endpoint.complete_inv (hi.endpoint s) hc) fun t _ => hi.endpoint t
  untouched t ht := by
    have hs := hi.mem_of_complete hc
    have hne : t ≠ s := fun h => ht (h ▸ hs)
    rw [setEndpoint_ne hne]
    exact hi.untouched t ht
  nodup := hi.nodup
  registered := hi.registered
  inSet t ht := by
    by_cases h : t = s
    · subst h
      obtain ⟨ds, r, a, hl, -⟩ := Endpoint.complete_cases (hi.endpoint t) hc
      obtain ⟨b, hb⟩ := hl.posted
      exact hi.inSet t (by simp [hb])
    · rw [setEndpoint_ne h] at ht
      exact hi.inSet t ht
  deleted t ht := by
    obtain ⟨hr, hq⟩ := hi.deleted t ht
    refine ⟨hr, ?_⟩
    by_cases h : t = s
    · subst h
      obtain ⟨ds, r, a, hl, hp, -⟩ := Endpoint.complete_cases (hi.endpoint t) hc
      simp [Endpoint.tokens, hp] at hq
    · rw [setEndpoint_ne h]
      exact hq
  addresses := hi.addresses

theorem perform_set {s : Socket} {e : Effect} {t : Socket} :
    t ∈ (n.perform s e).manager.set → t ∈ n.manager.set := by
  intro h
  cases e with
  | lockedErase u => exact List.mem_of_mem_erase h
  | _ => exact h

/-- A socket leaves `_set` only by the call that gives it up. -/
theorem mem_perform_set {s : Socket} {e : Effect} (he : e.socket = some s) {t : Socket}
    (ht : t ∈ n.manager.set) (h : t = s → e.erase? = false) :
    t ∈ (n.perform s e).manager.set := by
  cases e with
  | lockedErase u =>
    obtain rfl : u = s := Option.some.inj he
    have hne : t ≠ u := fun hu => absurd (h hu) (by simp [Effect.erase?])
    exact (List.mem_erase_of_ne hne).mpr ht
  | _ => exact ht

theorem act_step_inv {s : Socket} {i : ℕ} {e : Effect} {c : Endpoint}
    (hi : n.Inv m address streams shut) (hc : (n.endpoints s).act i = some (e, c)) :
    ((n.perform s e).setEndpoint s c).Inv m address streams shut where
  endpoint := forall_setEndpoint (Endpoint.act_inv (hi.endpoint s) hc) fun t _ => by
    rw [perform_endpoints]
    exact hi.endpoint t
  untouched t ht := by
    replace ht : t ∉ n.registered := by simpa [setEndpoint] using ht
    have hs := hi.mem_of_act hc
    have hne : t ≠ s := fun h => ht (h ▸ hs)
    rw [setEndpoint_ne hne, perform_endpoints]
    exact hi.untouched t ht
  nodup := by
    cases e with
    | lockedErase u => exact hi.nodup.erase u
    | _ => exact hi.nodup
  registered t ht := by simpa [setEndpoint] using hi.registered t (perform_set ht)
  inSet t ht := by
    have hs := Endpoint.act_socket (hi.endpoint s) hc
    by_cases h : t = s
    · subst h
      rw [setEndpoint_self, Endpoint.act_view (hi.endpoint t).tokens hc] at ht
      refine mem_perform_set hs (hi.inSet t ht) fun _ => ?_
      by_contra he
      exact ht (Endpoint.act_erase (hi.endpoint t) hc (by simpa using he))
    · rw [setEndpoint_ne h, perform_endpoints] at ht
      exact mem_perform_set hs (hi.inSet t ht) fun ht => absurd ht h
  deleted t ht := by
    have hs := Endpoint.act_socket (hi.endpoint s) hc
    rcases mem_perform_deleted.mp ht with htd | ⟨ev, rfl⟩
    · obtain ⟨hr, hq⟩ := hi.deleted t htd
      refine ⟨by simpa [setEndpoint] using hr, ?_⟩
      by_cases h : t = s
      · subst h
        rw [setEndpoint_self]
        have := Endpoint.act_tokens (hi.endpoint t) hc
        omega
      · rw [setEndpoint_ne h, perform_endpoints]
        exact hq
    · obtain rfl : t = s := Option.some.inj hs
      rw [setEndpoint_self]
      exact ⟨by simpa [setEndpoint] using hi.mem_of_act hc,
        Endpoint.act_final (hi.endpoint t) hc rfl rfl⟩
  addresses t ht u hu htd hud := by
    have hsub : ∀ v, v ∉ (n.perform s e).manager.deleted → v ∉ n.manager.deleted :=
      fun v hv hm => hv (mem_perform_deleted.mpr (.inl hm))
    exact hi.addresses t (by simpa [setEndpoint] using ht) u (by simpa [setEndpoint] using hu)
      (hsub t htd) (hsub u hud)

/-- Workers touch neither the endpoints nor the socket manager. -/
theorem Inv.congr (hi : n.Inv m address streams shut) (he : n'.endpoints = n.endpoints)
    (hm : n'.manager = n.manager) (hr : n'.registered = n.registered) :
    n'.Inv m address streams shut := by
  cases n
  cases n'
  simp only at he hm hr
  subst he hm hr
  exact ⟨hi.endpoint, hi.untouched, hi.nodup, hi.registered, hi.inSet, hi.deleted, hi.addresses⟩

theorem step_inv {l : Label} (hi : n.Inv m address streams shut)
    (h : n.step m address l = some n') : n'.Inv m address streams shut := by
  rcases step_cases h with ⟨s, env, -, hs, ho, rfl⟩ | ⟨s, x, c, -, hc, rfl⟩ |
    ⟨s, i, e, c, -, hc, rfl⟩ | ⟨w, x, -, -, -, rfl⟩ | ⟨w, x, -, -, rfl⟩ | ⟨w, x, -, -, rfl⟩
  · exact register_step_inv hi hs ho
  · exact complete_step_inv hi hc
  · exact act_step_inv hi hc
  · exact hi.congr rfl rfl rfl
  · exact hi.congr rfl rfl rfl
  · exact hi.congr rfl rfl rfl

theorem run_inv {func : Bool} {threadCount : ℕ} {ls : List Label}
    (h : exec (step m address) (start func streams shut threadCount) ls = some n) :
    n.Inv m address streams shut :=
  invariant (fun _ _ _ => step_inv) (start_inv m address func streams shut threadCount) h

/-! ## Messages -/

/-- The messages that no thread has called `DoData` for yet. -/
def waiting (n : Network) : List Message := n.held ++ n.queue

/-- All messages so far. -/
def messages (n : Network) : List Message := n.started ++ n.waiting

/-- A worker's change of state, in the list of all workers. -/
theorem workers_set {w : ℕ} {a b : Worker} (h : n.workers[w]? = some a) :
    ∃ l r, n.workers = l ++ a :: r ∧ n.workers.set w b = l ++ b :: r := by
  have hlt : w < n.workers.length := (List.getElem?_eq_some_iff.mp h).1
  have hget : n.workers[w] = a := (List.getElem?_eq_some_iff.mp h).2
  obtain ⟨l, r, hl, -, hset⟩ := @List.exists_of_set _ w b _ hlt
  exact ⟨l, r, by rw [hl, hget], hset⟩

theorem act_issued {c d : Endpoint} {i : ℕ} {e : Effect} (h : c.act i = some (e, d)) :
    d.issued = c.issued ++ e.delivery?.toList := by
  obtain ⟨l, es, r, -, rfl⟩ := Endpoint.act_cases h
  rw [Endpoint.perform_issued]

theorem complete_issued {c d : Endpoint} {x : Completion} (h : c.complete m x = some d) :
    d.issued = c.issued := by
  unfold Endpoint.complete at h
  split at h
  · cases h
  · split_ifs at h
    rw [← Option.some.inj h]
    rfl

theorem held_of_workers {w : ℕ} {a b : Worker} (h : n.workers[w]? = some a) :
    ∃ l r : List Message, n.held = l ++ a.held?.toList ++ r ∧
      (n.workers.set w b).filterMap Worker.held? = l ++ b.held?.toList ++ r := by
  obtain ⟨l, r, hl, hset⟩ := workers_set (b := b) h
  refine ⟨l.filterMap Worker.held?, r.filterMap Worker.held?, ?_, ?_⟩
  · rw [held, hl]
    cases ha : a.held? <;> simp [ha]
  · rw [hset]
    cases hb : b.held? <;> simp [hb]

theorem mem_waiting_of_worker {w : ℕ} {a : Worker} {x : Message} (h : n.workers[w]? = some a)
    (hx : a.held? = some x) : x ∈ n.waiting :=
  List.mem_append_left _ (List.mem_filterMap.mpr ⟨a, List.mem_of_getElem? h, hx⟩)

/-- What becomes of the messages in a step: nothing, or one is started by a handler,
queued by a handler, or started by a worker. -/
theorem step_moves {l : Label} (h : n.step m address l = some n') :
    (n'.started = n.started ∧ ∀ x, x ∈ n'.waiting ↔ x ∈ n.waiting) ∨
    (∃ s i g k c, l = .act s i ∧ (n.endpoints s).act i = some (.doData g k, c) ∧
      n'.endpoints s = c ∧ n'.started = n.started ++ [n.nextMessage s ⟨g, k⟩] ∧
      ∀ x, x ∈ n'.waiting ↔ x ∈ n.waiting) ∨
    (∃ s i g c, l = .act s i ∧ (n.endpoints s).act i = some (.pushFront g, c) ∧
      n'.endpoints s = c ∧ n'.started = n.started ∧
      ∀ x, x ∈ n'.waiting ↔ x = n.nextMessage s ⟨g, g.offset⟩ ∨ x ∈ n.waiting) ∨
    (∃ w x, l = .start w ∧ n.workers[w]? = some (.holding x) ∧
      n'.started = n.started ++ [x] ∧ ∀ y, y ∈ n.waiting ↔ y = x ∨ y ∈ n'.waiting) := by
  have other : ∀ n₁ : Network, n₁.started = n.started → n₁.workers = n.workers →
      n₁.queue = n.queue → n₁.started = n.started ∧ ∀ x, x ∈ n₁.waiting ↔ x ∈ n.waiting := by
    intro n₁ h1 h2 h3
    simp only [waiting, held, h1, h2, h3, true_and, implies_true]
  rcases step_cases h with ⟨u, env, -, -, -, rfl⟩ | ⟨u, y, c, -, hc, rfl⟩ |
    ⟨u, i, e, c, hl, hc, rfl⟩ | ⟨w, y, -, hw, hq, rfl⟩ | ⟨w, y, hl, hw, rfl⟩ | ⟨w, y, -, hw, rfl⟩
  · exact .inl (other _ rfl rfl rfl)
  · exact .inl (other _ rfl rfl rfl)
  · cases e with
    | doData g k =>
      refine .inr (.inl ⟨u, i, g, k, c, hl, hc, setEndpoint_self u c, rfl, ?_⟩)
      exact (other _ rfl rfl rfl).2
    | pushFront g =>
      refine .inr (.inr (.inl ⟨u, i, g, c, hl, hc, setEndpoint_self u c, rfl, fun x => ?_⟩))
      simp only [waiting, held, perform, setEndpoint, List.mem_append, List.mem_cons]
      tauto
    | _ => exact .inl (other _ rfl rfl rfl)
  · obtain ⟨l, r, hl, hset⟩ := held_of_workers (b := .holding y) hw
    obtain ⟨q, hqy⟩ := List.getLast?_eq_some_iff.mp hq
    refine .inl ⟨rfl, fun x => ?_⟩
    simp only [waiting, held, hset, hqy, List.dropLast_concat] at hl ⊢
    rw [hl]
    simp only [Worker.held?, Option.toList_none, Option.toList_some, List.mem_append,
      List.mem_singleton, List.not_mem_nil]
    tauto
  · obtain ⟨l', r, hl', hset⟩ := held_of_workers (b := .running y) hw
    refine .inr (.inr (.inr ⟨w, y, hl, hw, rfl, fun x => ?_⟩))
    simp only [waiting, held, hset] at hl' ⊢
    rw [hl']
    simp only [Worker.held?, Option.toList_none, Option.toList_some, List.mem_append,
      List.mem_singleton, List.not_mem_nil]
    tauto
  · obtain ⟨l', r, hl', hset⟩ := held_of_workers (b := .idle) hw
    refine .inl ⟨rfl, fun x => ?_⟩
    simp only [waiting, held, hset] at hl' ⊢
    rw [hl']
    rfl

/-- A message after a step was there before, or was handed on by the step. -/
theorem step_messages {l : Label} (h : n.step m address l = some n') {x : Message}
    (hx : x ∈ n'.messages) :
    x ∈ n.messages ∨ ∃ i e c d, (n.endpoints x.socket).act i = some (e, c) ∧
      e.delivery? = some d ∧ x = n.nextMessage x.socket d ∧ n'.endpoints x.socket = c := by
  simp only [messages, List.mem_append] at hx ⊢
  rcases step_moves h with ⟨hs, hw⟩ | ⟨s, i, g, k, c, -, hc, he, hs, hw⟩ |
    ⟨s, i, g, c, -, hc, he, hs, hw⟩ | ⟨w, y, -, -, hs, hw⟩
  · rw [hs, hw] at hx
    exact .inl hx
  · rw [hs, hw, List.mem_append, List.mem_singleton] at hx
    rcases hx with (hx | rfl) | hx
    · exact .inl (.inl hx)
    · exact .inr ⟨i, _, c, _, hc, rfl, rfl, he⟩
    · exact .inl (.inr hx)
  · rw [hs, hw] at hx
    rcases hx with hx | rfl | hx
    · exact .inl (.inl hx)
    · exact .inr ⟨i, _, c, _, hc, rfl, rfl, he⟩
    · exact .inl (.inr hx)
  · rw [hs, List.mem_append, List.mem_singleton] at hx
    rw [hw]
    tauto

/-- What was issued for a socket stays issued. -/
theorem step_issued {l : Label} (h : n.step m address l = some n') (t : Socket) :
    (n.endpoints t).issued <+: (n'.endpoints t).issued := by
  have set : ∀ (n₁ : Network) (u : Socket) (c : Endpoint), n₁.endpoints = n.endpoints →
      (n.endpoints u).issued <+: c.issued →
      (n.endpoints t).issued <+: ((n₁.setEndpoint u c).endpoints t).issued := by
    intro n₁ u c hn hu
    by_cases ht : t = u
    · subst ht
      rwa [setEndpoint_self]
    · rw [setEndpoint_ne ht, hn]
  rcases step_cases h with ⟨u, env, -, -, -, rfl⟩ | ⟨u, x, c, -, hc, rfl⟩ |
    ⟨u, i, e, c, -, hc, rfl⟩ | ⟨w, x, -, -, -, rfl⟩ | ⟨w, x, -, -, rfl⟩ | ⟨w, x, -, -, rfl⟩
  · exact set n u _ rfl (List.prefix_refl _)
  · exact set n u c rfl (by rw [complete_issued hc])
  · exact set _ u c (perform_endpoints ..) (by rw [act_issued hc]; exact List.prefix_append ..)
  · exact List.prefix_refl _
  · exact List.prefix_refl _
  · exact List.prefix_refl _

/-- Every message names the socket it is from, and the socket is registered. -/
def Sourced (n : Network) : Prop :=
  ∀ x ∈ n.messages, x.delivery.handledata.socket = some x.socket ∧ x.socket ∈ n.registered

theorem start_messages (func : Bool) (streams : Socket → List UInt8) (shut : Socket → Bool)
    (threadCount : ℕ) : (start func streams shut threadCount).messages = [] := by
  simp [messages, waiting, held, start, Worker.held?]

theorem start_sourced (func : Bool) (streams : Socket → List UInt8) (shut : Socket → Bool)
    (threadCount : ℕ) : (start func streams shut threadCount).Sourced := by
  intro x hx
  simp [start_messages] at hx

theorem step_registered {l : Label} (h : n.step m address l = some n') {s : Socket}
    (hs : s ∈ n.registered) : s ∈ n'.registered := by
  rcases step_cases h with ⟨u, env, -, -, -, rfl⟩ | ⟨u, x, c, -, hc, rfl⟩ |
    ⟨u, i, e, c, -, hc, rfl⟩ | ⟨w, x, -, -, -, rfl⟩ | ⟨w, x, -, -, rfl⟩ | ⟨w, x, -, -, rfl⟩
  · exact List.mem_cons_of_mem _ hs
  · exact hs
  · simpa [setEndpoint] using hs
  · exact hs
  · exact hs
  · exact hs

theorem step_sourced_of (hact : ∀ s i e c, (n.endpoints s).act i = some (e, c) →
      e.socket = some s ∧ s ∈ n.registered) (hsrc : n.Sourced) {l : Label}
    (h : n.step m address l = some n') : n'.Sourced := by
  intro x hx
  rcases step_messages h hx with hold | ⟨i, e, c, d, hc, hd, he, -⟩
  · obtain ⟨hsock, hreg⟩ := hsrc x hold
    exact ⟨hsock, step_registered h hreg⟩
  · obtain ⟨hs, hreg⟩ := hact x.socket i e c hc
    refine ⟨?_, step_registered h hreg⟩
    have hdel : x.delivery = d := congrArg Message.delivery he
    rw [hdel]
    cases e <;> cases hd <;> exact hs

theorem step_sourced {l : Label} (hi : n.Inv m address streams shut) (hsrc : n.Sourced)
    (h : n.step m address l = some n') : n'.Sourced :=
  step_sourced_of (fun s _ _ _ hc => ⟨Endpoint.act_socket (hi.endpoint s) hc, hi.mem_of_act hc⟩)
    hsrc h

end Network

/-! ## Stopping beside the threads -/

/-- A socket closed from outside. Its receive completes all the same: with bytes that had
come by then, and at last without any. -/
def Endpoint.cut (c : Endpoint) (k : ℕ) : Endpoint :=
  { c with unread := c.unread.take k, shut := true }

namespace Network

/-- `ClearAll` closes and deletes the sockets in `_set`, whatever the threads are at.
`kept` is how many bytes of a socket still come. -/
def clearAll (n : Network) (kept : Socket → ℕ) : Network :=
  { n with
    endpoints := fun s =>
      if s ∈ n.manager.set then (n.endpoints s).cut (kept s) else n.endpoints s
    manager := n.manager.clearAll }

/-- A step of a thread, or `Stop` clears the socket manager. -/
inductive Event
  | thread (l : Label)
  | clearAll (kept : Socket → ℕ)

/-- The network with `ClearAll` beside the threads of `step`. -/
def next (m : ReceiveManager) (address : Socket → ℕ) (n : Network) : Event → Option Network
  | .thread l => n.step m address l
  | .clearAll kept => some (n.clearAll kept)

end Network

end Xiaoxin
