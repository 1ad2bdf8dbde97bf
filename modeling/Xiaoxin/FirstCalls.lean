import Xiaoxin.AcceptingCall
import Xiaoxin.Threads

/-!
# The call of `First`

While an accepting call posts the first receive and has still to call `First`, the
receive may complete: another thread of the io service runs its handler, a worker
dispatches its message, the socket may even be deleted, by the handler or because the
acceptor is stopped. And `PostReceive` itself has a socket deleted that it finds closed;
what it returns is not looked at, and the hook is called all the same.

The network is run here with a record of the calls of `First`. A run is orderly when
what a socket receives before its `First` is a part of a packet on a socket that stays
open, when no socket is found closed while its first receive is posted, and when the
acceptor is not stopped in between. In orderly runs `First` comes first; out of any
other run the threads by themselves can come to where it does not (`firstFirst_iff`).
-/
namespace Xiaoxin
open Transition

/-! ## Who overtakes whom -/

namespace Network

/-- No message of the socket has been handed on, nobody has deleted it, and no call for it
is about to do either. -/
structure Unovertaken (n : Network) (s : Socket) : Prop where
  alive : s ∉ n.manager.deleted
  messages : ∀ x ∈ n.messages, x.socket ≠ s
  calls : ∀ e ∈ (n.endpoints s).calls.flatten, e.overtakes = false

/-- Nobody has overtaken an accepting call. -/
def Undisturbed (n : Network) : Prop := ∀ s, n.FirstPending s → n.Unovertaken s

/-- The first receive of a socket is posted on an open socket, unless nobody would delete
it; while `First` is due the socket receives a part of a packet at most and stays open;
and `ClearAll` finds no socket whose `First` is due. -/
def Orderly (m : ReceiveManager) (n : Network) : Event → Prop
  | .thread (.register _ env) => env.isOpen = true ∨ m.hasSocketManager = false
  | .thread (.complete s x) => n.FirstPending s → ∀ h ∈ (n.endpoints s).posted.head?,
      m.HoldsBack x.env h.window ((n.endpoints s).unread.take x.bytesTransferred)
  | .clearAll _ => ∀ s ∈ n.manager.set, ¬ n.FirstPending s
  | _ => True

instance (m : ReceiveManager) (n : Network) : ∀ e, Decidable (n.Orderly m e)
  | .thread (.register _ env) =>
    inferInstanceAs (Decidable (env.isOpen = true ∨ m.hasSocketManager = false))
  | .thread (.complete s x) =>
    inferInstanceAs (Decidable (n.FirstPending s → ∀ h ∈ (n.endpoints s).posted.head?,
      m.HoldsBack x.env h.window ((n.endpoints s).unread.take x.bytesTransferred)))
  | .thread (.act _ _) => isTrue trivial
  | .thread (.take _) => isTrue trivial
  | .thread (.start _) => isTrue trivial
  | .thread (.finish _) => isTrue trivial
  | .clearAll _ => inferInstanceAs (Decidable (∀ s ∈ n.manager.set, ¬ n.FirstPending s))

variable {m : ReceiveManager} {address : Socket → ℕ} {n n' : Network} {l : Label} {e : Event}

/-- A socket that is deleted after a step was deleted before, or by the step. -/
theorem deleted_of_step (ht : n.Tidy m) (h : n.step m address l = some n') {t : Socket}
    (hd : t ∈ n'.manager.deleted) : t ∈ n.manager.deleted ∨
      ∃ i e c, (n.endpoints t).act i = some (e, c) ∧ e.overtakes = true := by
  rcases step_cases h with ⟨s, env, -, -, -, rfl⟩ | ⟨s, x, c, -, hc, rfl⟩ |
    ⟨s, i, e, c, -, hc, rfl⟩ | ⟨w, x, -, -, -, rfl⟩ | ⟨w, x, -, -, rfl⟩ | ⟨w, x, -, -, rfl⟩
  · exact .inl hd
  · exact .inl hd
  · rcases mem_perform_deleted.mp hd with hold | ⟨ev, rfl⟩
    · exact .inl hold
    · obtain rfl : t = s := Option.some.inj (ht.act hc).1
      exact .inr ⟨i, _, c, hc, rfl⟩
  · exact .inl hd
  · exact .inl hd
  · exact .inl hd

/-- Where the effects left for a socket come from: they were left before, or a call was
begun by the step. -/
theorem step_calls (h : n.step m address l = some n') {t : Socket} {e : Effect}
    (he : e ∈ (n'.endpoints t).calls.flatten) : e ∈ (n.endpoints t).calls.flatten ∨
      (∃ env, l = .register t env ∧ e ∈ AcceptorConnectorBase.postRecvAndFirst m env t) ∨
      (∃ x, l = .complete t x ∧ (n.endpoints t).complete m x = some (n'.endpoints t)) := by
  have other : ∀ {n₁ : Network} {s : Socket} {c : Endpoint}, n₁.endpoints = n.endpoints →
      t ≠ s → e ∈ ((n₁.setEndpoint s c).endpoints t).calls.flatten →
      e ∈ (n.endpoints t).calls.flatten := by
    intro n₁ s c hn hts he
    rwa [setEndpoint_ne hts, hn] at he
  rcases step_cases h with ⟨s, env, rfl, -, -, rfl⟩ | ⟨s, x, c, rfl, hc, rfl⟩ |
    ⟨s, i, e', c, rfl, hc, rfl⟩ | ⟨w, x, rfl, -, -, rfl⟩ | ⟨w, x, rfl, -, rfl⟩ | ⟨w, x, rfl, -, rfl⟩
  · by_cases hts : t = s
    · subst hts
      simp only [setEndpoint, Function.update_self, Endpoint.call, List.flatten_append,
        List.flatten_singleton, List.mem_append] at he
      exact he.imp_right fun he => .inl ⟨env, rfl, he⟩
    · exact .inl (other rfl hts he)
  · by_cases hts : t = s
    · subst hts
      exact .inr (.inr ⟨x, rfl, by rw [setEndpoint_self, hc]⟩)
    · exact .inl (other rfl hts he)
  · by_cases hts : t = s
    · subst hts
      rw [setEndpoint_self] at he
      exact .inl ((Endpoint.mem_of_act hc).2 e he)
    · exact .inl (other (perform_endpoints ..) hts he)
  · exact .inl he
  · exact .inl he
  · exact .inl he

/-- The completions of a socket whose `First` is due leave the socket alone exactly where
the run is orderly. -/
theorem complete_overtakes (ht : n.Tidy m) {s : Socket} {x : Completion} {c : Endpoint}
    (hc : (n.endpoints s).complete m x = some c) :
    (∀ e ∈ c.calls.flatten, e.overtakes = false) ↔
      (∀ e ∈ (n.endpoints s).calls.flatten, e.overtakes = false) ∧
      ∀ h ∈ (n.endpoints s).posted.head?,
        m.HoldsBack x.env h.window ((n.endpoints s).unread.take x.bytesTransferred) := by
  obtain ⟨a, r, hs, hp, hfit, rfl⟩ := (ht.own s).complete_eq hc
  rw [hp]
  simp only [Endpoint.call, List.flatten_append, List.flatten_singleton, List.mem_append, or_imp,
    forall_and, List.head?_cons, Option.mem_some_iff, forall_eq', ReceiveManager.holding_window]
  rw [ReceiveManager.handle_overtakes a s hfit]

/-- An orderly step leaves the accepting calls undisturbed. -/
theorem Undisturbed.step (hu : n.Undisturbed) (ht : n.Tidy m) (ho : n.Orderly m (.thread l))
    (h : n.step m address l = some n') : n'.Undisturbed := by
  intro t hpend
  -- the calls made for the socket before the step do not overtake
  have hcalls : ∀ e ∈ (n.endpoints t).calls.flatten, e.overtakes = false := by
    rcases firstPending_of_step ht h hpend with hold | hnew
    · exact (hu t hold).calls
    · simp [(ht.untouched t hnew).2]
  have hact : ∀ {i e c}, (n.endpoints t).act i = some (e, c) → e.overtakes = false :=
    fun hc => hcalls _ (Endpoint.mem_of_act hc).1
  refine ⟨fun hd => ?_, fun x hx hxt => ?_, fun e he => ?_⟩
  · rcases deleted_of_step ht h hd with hd | ⟨i, e, c, hc, hover⟩
    · rcases firstPending_of_step ht h hpend with hold | hnew
      · exact (hu t hold).alive hd
      · exact hnew (ht.deleted t hd)
    · exact absurd (hover.symm.trans (hact hc)) (by decide)
  · subst hxt
    rcases step_messages h hx with hx | ⟨i, e, c, d, hc, hd, -, -⟩
    · rcases firstPending_of_step ht h hpend with hold | hnew
      · exact (hu _ hold).messages x hx rfl
      · exact hnew (ht.sourced x hx).2
    · exact absurd ((Effect.overtakes_of_delivery? hd).symm.trans (hact hc)) (by decide)
  · rcases step_calls h he with he | ⟨env, rfl, he⟩ | ⟨x, rfl, hc⟩
    · exact hcalls e he
    · exact (AcceptorConnectorBase.postRecvAndFirst_overtakes t).mpr ho e he
    · have hold : n.FirstPending t := by
        rw [FirstPending, toCall, Endpoint.complete_firstsLeft hc] at hpend
        exact hpend
      exact (complete_overtakes ht hc).mpr ⟨hcalls, ho hold⟩ e he

theorem register_firstPending (ht : n.Tidy m) {s : Socket} {env : Env}
    (h : n.step m address (.register s env) = some n') : n'.FirstPending s := by
  have hcount := step_toCall ht h s
  have hnew : s ∉ n.registered ∧ s ∈ n'.registered := by
    simp only [Network.step] at h
    split_ifs at h with hc
    rw [← Option.some.inj h]
    exact ⟨(not_or.mp hc).1, List.mem_cons_self ..⟩
  rw [if_neg hnew.1, if_pos hnew.2] at hcount
  simp only [first?, Option.toList_none, List.count_nil] at hcount
  rw [FirstPending]
  omega

/-- Only an orderly step does. -/
theorem Undisturbed.orderly (hu : n'.Undisturbed) (ht : n.Tidy m)
    (h : n.step m address l = some n') : n.Orderly m (.thread l) := by
  rcases step_cases h with ⟨s, env, rfl, hs, -, rfl⟩ | ⟨s, x, c, rfl, hc, rfl⟩ |
    ⟨s, i, e, c, rfl, hc, rfl⟩ | ⟨w, x, rfl, -, -, rfl⟩ | ⟨w, x, rfl, -, rfl⟩ | ⟨w, x, rfl, -, rfl⟩
  · have hcalls := (hu s (register_firstPending ht h)).calls
    simp only [setEndpoint, Function.update_self, Endpoint.call, List.flatten_append,
      List.flatten_singleton, List.mem_append, or_imp, forall_and] at hcalls
    exact (AcceptorConnectorBase.postRecvAndFirst_overtakes s).mp hcalls.2
  · intro hpend
    have hcalls := (hu s (step_firstPending ht h hpend (by simp [first?]))).calls
    rw [setEndpoint_self] at hcalls
    exact ((complete_overtakes ht hc).mp hcalls).2
  all_goals trivial

theorem clearAll_undisturbed (hu : n.Undisturbed) (kept : Socket → ℕ) :
    (n.clearAll kept).Undisturbed ↔ ∀ s ∈ n.manager.set, ¬ n.FirstPending s := by
  have hpend (s : Socket) : (n.clearAll kept).FirstPending s ↔ n.FirstPending s := by
    rw [FirstPending, clearAll_toCall]
    rfl
  constructor
  · intro hall s hs hp
    exact (hall s ((hpend s).mpr hp)).alive (List.mem_append_right _ hs)
  · intro hset s hp
    replace hp := (hpend s).mp hp
    refine ⟨fun hd => ?_, (hu s hp).messages, ?_⟩
    · exact (List.mem_append.mp hd).elim (hu s hp).alive fun hs => hset s hs hp
    · rw [clearAll_calls]
      exact (hu s hp).calls

/-- The step lemma: where no accepting call is overtaken, none is overtaken by the step
exactly if the step is orderly. -/
theorem next_undisturbed_iff (ht : n.Tidy m) (hu : n.Undisturbed)
    (h : n.next m address e = some n') : n'.Undisturbed ↔ n.Orderly m e := by
  rcases next_cases h with ⟨l, rfl, h⟩ | ⟨kept, rfl, rfl⟩
  · exact ⟨fun hu' => hu'.orderly ht h, fun ho => hu.step ht ho h⟩
  · exact clearAll_undisturbed hu kept

/-! ### What the threads do by themselves -/

/-- A thread goes on with what it has begun. No receive completes, no socket is accepted,
and nobody stops. -/
def Event.Proceeds : Event → Prop
  | .thread (.act _ _) => True
  | .thread (.take _) => True
  | .thread (.start _) => True
  | .thread (.finish _) => True
  | _ => False

theorem Event.Proceeds.orderly (h : e.Proceeds) : n.Orderly m e := by
  match e with
  | .thread (.act _ _) => trivial
  | .thread (.take _) => trivial
  | .thread (.start _) => trivial
  | .thread (.finish _) => trivial

/-- What a worker has left to do with its message. -/
def rank : Worker → ℕ
  | .idle => 0
  | .running _ => 1
  | .holding _ => 2

/-- What the threads have left to do. An effect may become a message of the queue, and
that a message of a worker. -/
def work (n : Network) : ℕ :=
  4 * (n.registered.map fun s => (n.endpoints s).calls.flatten.length).sum +
    3 * n.queue.length + (n.workers.map rank).sum

theorem perform_queue (s : Socket) (e : Effect) :
    (n.perform s e).queue.length ≤ n.queue.length + 1 := by
  cases e <;> simp [perform]

theorem act_work {s : Socket} {i : ℕ} {e : Effect} {c : Endpoint} (hs : s ∈ n.registered)
    (hc : (n.endpoints s).act i = some (e, c)) :
    ((n.perform s e).setEndpoint s c).work < n.work := by
  have hless : c.calls.flatten.length < (n.endpoints s).calls.flatten.length := by
    obtain ⟨l, es, r, hl, rfl⟩ := Endpoint.act_cases hc
    simp [hl]
  have hsum : (n.registered.map fun t =>
        (((n.perform s e).setEndpoint s c).endpoints t).calls.flatten.length).sum <
      (n.registered.map fun t => (n.endpoints t).calls.flatten.length).sum := by
    refine List.sum_lt_sum _ _ (fun t _ => ?_) ⟨s, hs, by rwa [setEndpoint_self]⟩
    by_cases ht : t = s
    · subst ht
      rw [setEndpoint_self]
      exact hless.le
    · rw [setEndpoint_ne ht, perform_endpoints]
  have hqueue := n.perform_queue s e
  have hreg : ((n.perform s e).setEndpoint s c).registered = n.registered := by
    simp [setEndpoint]
  have hworkers : ((n.perform s e).setEndpoint s c).workers = n.workers := by
    simp [setEndpoint]
  have hq : ((n.perform s e).setEndpoint s c).queue = (n.perform s e).queue := rfl
  rw [work, work, hreg, hworkers, hq]
  omega

/-- Each of these steps leaves less to do. -/
theorem step_work (ht : n.Tidy m) (hp : (Event.thread l).Proceeds)
    (h : n.step m address l = some n') : n'.work < n.work := by
  rcases step_cases h with ⟨s, env, rfl, -, -, rfl⟩ | ⟨s, x, c, rfl, hc, rfl⟩ |
    ⟨s, i, e, c, rfl, hc, rfl⟩ | ⟨w, x, rfl, hw, hx, rfl⟩ | ⟨w, x, rfl, hw, rfl⟩ |
    ⟨w, x, rfl, hw, rfl⟩
  · exact hp.elim
  · exact hp.elim
  · exact act_work (ht.act hc).2 hc
  · obtain ⟨q, hq⟩ := List.getLast?_eq_some_iff.mp hx
    have hsum := Threads.sum_set hw rank (.holding x)
    simp only [work, rank, hq, List.dropLast_concat, List.length_append,
      List.length_singleton] at hsum ⊢
    omega
  · have hsum := Threads.sum_set hw rank (.running x)
    simp only [work, rank] at hsum ⊢
    omega
  · have hsum := Threads.sum_set hw rank .idle
    simp only [work, rank] at hsum ⊢
    omega

/-- As long as messages wait, a worker can go on. -/
theorem exists_worker_step (m : ReceiveManager) (address : Socket → ℕ) (hw : n.workers ≠ [])
    {x : Message} (hx : x ∈ n.waiting) :
    ∃ l, (Event.thread l).Proceeds ∧ n.first? (.thread l) = none ∧
      (n.step m address l).isSome := by
  obtain ⟨a, ws, hws⟩ := List.exists_cons_of_ne_nil hw
  have h0 : n.workers[0]? = some a := by simp [hws]
  cases a with
  | holding y => exact ⟨.start 0, trivial, rfl, by simp [step, h0]⟩
  | running y => exact ⟨.finish 0, trivial, rfl, by simp [step, h0]⟩
  | idle =>
    rcases List.mem_append.mp hx with hx | hx
    · obtain ⟨b, hb, hbx⟩ := List.mem_filterMap.mp hx
      obtain ⟨w, hw⟩ := List.getElem?_of_mem hb
      cases b with
      | holding y => exact ⟨.start w, trivial, rfl, by simp [step, hw]⟩
      | _ => cases hbx
    · have hq := List.getLast?_eq_some_getLast (List.ne_nil_of_mem hx)
      exact ⟨.take 0, trivial, rfl, by simp [step, h0, hq]⟩

/-- A call that has something left to do can go on. -/
theorem exists_act {c : Endpoint} {e : Effect} (he : e ∈ c.calls.flatten) :
    ∃ i e' es d, c.act i = some (e', d) ∧ e' :: es ∈ c.calls ∧ e ∈ e' :: es ∧
      ∀ e ∈ es, e ∈ d.calls.flatten := by
  obtain ⟨es, hes, he⟩ := List.mem_flatten.mp he
  obtain ⟨i, hi⟩ := List.getElem?_of_mem hes
  cases es with
  | nil => cases he
  | cons e' es =>
    refine ⟨i, e', es, { c with calls := c.calls.set i es }.perform e', ?_, hes, he,
      fun e he => ?_⟩
    · simp only [Endpoint.act, hi]
    rw [Endpoint.perform_calls]
    have hlt := (List.getElem?_eq_some_iff.mp hi).1
    exact List.mem_flatten.mpr ⟨es, List.mem_iff_getElem?.mpr ⟨i, List.getElem?_set_self hlt⟩, he⟩

/-- What has been handed on stays so. -/
theorem messages_of_step (h : n.step m address l = some n') {x : Message} (hx : x ∈ n.messages) :
    x ∈ n'.messages := by
  simp only [messages, List.mem_append] at hx ⊢
  rcases step_moves h with ⟨hs, hw⟩ | ⟨s, i, g, k, c, -, hc, he, hs, hw⟩ |
    ⟨s, i, g, c, -, hc, he, hs, hw⟩ | ⟨w, y, -, -, hs, hw⟩
  · rwa [hs, hw]
  · rw [hs, hw, List.mem_append]
    exact hx.imp_left .inl
  · rw [hs, hw]
    exact hx.imp_right .inr
  · rw [hs, List.mem_append, List.mem_singleton]
    rw [hw] at hx
    tauto

end Network

/-! ## The record -/

/-- The network with a record of the calls of `First`. -/
structure FirstCalls where
  network : Network
  /-- The sockets that `First` was called for. -/
  called : List Socket
  /-- Those that had been deleted by then. -/
  late : List Socket

namespace FirstCalls

def step (m : ReceiveManager) (address : Socket → ℕ) (f : FirstCalls) (e : Network.Event) :
    Option FirstCalls :=
  (f.network.next m address e).map fun n =>
    let s := (f.network.first? e).toList
    { network := n
      called := f.called ++ s
      late := f.late ++ s.filter (· ∈ f.network.manager.deleted) }

def start (func : Bool) (streams : Socket → List UInt8) (shut : Socket → Bool)
    (threadCount : ℕ) : FirstCalls where
  network := .start func streams shut threadCount
  called := []
  late := []

/-- `First` has been called for every socket that `DoData` was started for, and it was
called with no deleted socket. -/
structure FirstFirst (f : FirstCalls) : Prop where
  before : ∀ x ∈ f.network.started, x.socket ∈ f.called
  alive : f.late = []

/-- `Network.Orderly`, of the network that is recorded. -/
def Orderly (m : ReceiveManager) (f : FirstCalls) (e : Network.Event) : Prop :=
  f.network.Orderly m e

instance (m : ReceiveManager) (f : FirstCalls) (e : Network.Event) : Decidable (f.Orderly m e) :=
  inferInstanceAs (Decidable (f.network.Orderly m e))

/-- The threads by themselves can come to where `First` was not first. -/
def Endangered (m : ReceiveManager) (address : Socket → ℕ) (f : FirstCalls) : Prop :=
  ∃ es g, (∀ e ∈ es, e.Proceeds) ∧ exec (step m address) f es = some g ∧ ¬ g.FirstFirst

structure Inv (m : ReceiveManager) (f : FirstCalls) : Prop where
  tidy : f.network.Tidy m
  /-- `First` is called once for each socket. -/
  once : ∀ s, f.called.count s + f.network.toCall s = if s ∈ f.network.registered then 1 else 0

/-- Nobody has overtaken an accepting call, and so far nobody had. -/
def Safe (f : FirstCalls) : Prop := f.network.Undisturbed ∧ f.late = []

variable {m : ReceiveManager} {address : Socket → ℕ} {f g : FirstCalls} {e : Network.Event}
  {n : Network}

theorem step_cases (h : f.step m address e = some g) :
    f.network.next m address e = some g.network ∧
      g.called = f.called ++ (f.network.first? e).toList ∧
      g.late = f.late ++ (f.network.first? e).toList.filter (· ∈ f.network.manager.deleted) := by
  obtain ⟨n, hn, rfl⟩ := Option.map_eq_some_iff.mp h
  exact ⟨hn, rfl, rfl⟩

theorem start_inv (m : ReceiveManager) (func : Bool) (streams : Socket → List UInt8)
    (shut : Socket → Bool) (threadCount : ℕ) : (start func streams shut threadCount).Inv m where
  tidy := Network.start_tidy m func streams shut threadCount
  once s := by simp [start, Network.start, Network.toCall, Endpoint.firstsLeft, Endpoint.fresh]

theorem start_safe (func : Bool) (streams : Socket → List UInt8) (shut : Socket → Bool)
    (threadCount : ℕ) : (start func streams shut threadCount).Safe := by
  refine ⟨fun s hpend => ?_, rfl⟩
  simp [start, Network.start, Network.FirstPending, Network.toCall, Endpoint.firstsLeft,
    Endpoint.fresh] at hpend

theorem step_inv (hi : f.Inv m) (h : f.step m address e = some g) : g.Inv m := by
  obtain ⟨hn, hcalled, -⟩ := step_cases h
  refine ⟨Network.next_tidy hi.tidy hn, fun s => ?_⟩
  have hcount := Network.next_toCall hi.tidy hn s
  have honce := hi.once s
  rw [hcalled, List.count_append]
  omega

/-- For a registered socket `First` has been called or has still to be called. -/
theorem Inv.called_iff (hi : f.Inv m) {s : Socket} (hs : s ∈ f.network.registered) :
    s ∈ f.called ↔ ¬ f.network.FirstPending s := by
  have honce := hi.once s
  rw [if_pos hs] at honce
  rw [← List.count_pos_iff, Network.FirstPending]
  omega

theorem Safe.firstFirst (hs : f.Safe) (hi : f.Inv m) : f.FirstFirst := by
  refine ⟨fun x hx => ?_, hs.2⟩
  have hx' : x ∈ f.network.messages := List.mem_append_left _ hx
  refine (hi.called_iff (hi.tidy.sourced x hx').2).mpr fun hpend => ?_
  exact (hs.1 x.socket hpend).messages x hx' rfl

/-- Where nobody overtakes, the hook is not called with a deleted socket. -/
theorem step_late (hi : f.Inv m) (hs : f.Safe) (h : f.step m address e = some g) :
    g.late = [] := by
  obtain ⟨-, -, hlate⟩ := step_cases h
  have hnone : (f.network.first? e).toList.filter (· ∈ f.network.manager.deleted) = [] := by
    rw [List.filter_eq_nil_iff]
    intro s hmem
    have hpend := hi.tidy.firstPending_of_first? (Option.mem_toList.mp hmem)
    simpa using (hs.1 s hpend).alive
  rw [hlate, hnone, hs.2]
  rfl

theorem step_safe_iff (hi : f.Inv m) (hs : f.Safe) (h : f.step m address e = some g) :
    g.Safe ↔ f.Orderly m e := by
  have hiff := Network.next_undisturbed_iff hi.tidy hs.1 (step_cases h).1
  exact ⟨fun hg => hiff.mp hg.1, fun ho => ⟨hiff.mpr ho, step_late hi hs h⟩⟩

/-! ### Where an accepting call has been overtaken -/

theorem exists_step (h : f.network.next m address e = some n) :
    ∃ g, step m address f e = some g ∧ g.network = n := by
  simp [step, h]

/-- With a deleted socket the accepting call goes on to `First`. -/
theorem exists_step_of_deleted (hi : f.Inv m) {s : Socket} (hpend : f.network.FirstPending s)
    (hd : s ∈ f.network.manager.deleted) :
    ∃ e g, e.Proceeds ∧ step m address f e = some g ∧ ¬ g.Safe := by
  have hmem : s ∈ (f.network.endpoints s).firstsLeft := List.count_pos_iff.mp hpend
  obtain ⟨e, he, -⟩ := List.mem_filterMap.mp hmem
  obtain ⟨i, e', es, c, hact, -⟩ := Network.exists_act he
  have hnext : f.network.step m address (.act s i) =
      some ((f.network.perform s e').setEndpoint s c) := by
    simp only [Network.step, hact, Option.map_some]
  obtain ⟨g, hg, hn⟩ := exists_step (f := f) (e := .thread (.act s i)) hnext
  refine ⟨.thread (.act s i), g, trivial, hg, fun hsafe => ?_⟩
  by_cases hfirst : f.network.first? (.thread (.act s i)) = some s
  · have hlate := (step_cases hg).2.2
    rw [hsafe.2, hfirst] at hlate
    simp [hd] at hlate
  · have hpend' := Network.step_firstPending hi.tidy hnext hpend hfirst
    exact (hsafe.1 s (hn ▸ hpend')).alive (hn ▸ Network.mem_perform_deleted.mpr (.inl hd))

/-- With a message that waits a worker goes on. -/
theorem exists_step_of_waiting (hi : f.Inv m) (hw : f.network.workers ≠ []) {x : Message}
    (hpend : f.network.FirstPending x.socket) (hx : x ∈ f.network.waiting) :
    ∃ e g, e.Proceeds ∧ step m address f e = some g ∧ ¬ g.Safe := by
  obtain ⟨l, hproceeds, hfirst, hsome⟩ :=
    Network.exists_worker_step m address hw hx
  obtain ⟨n, hnext⟩ := Option.isSome_iff_exists.mp hsome
  obtain ⟨g, hg, rfl⟩ := exists_step (f := f) (e := .thread l) hnext
  refine ⟨.thread l, g, hproceeds, hg, fun hsafe => ?_⟩
  have hpend' := Network.step_firstPending hi.tidy hnext hpend (by simp [hfirst])
  have hmem : x ∈ f.network.messages := List.mem_append_right _ hx
  exact (hsafe.1 _ hpend').messages x (Network.messages_of_step hnext hmem) rfl

/-- A call that is about to overtake goes on. -/
theorem exists_step_of_overtakes (hi : f.Inv m) {s : Socket} (hpend : f.network.FirstPending s)
    {e : Effect} (he : e ∈ (f.network.endpoints s).calls.flatten) (hover : e.overtakes = true) :
    ∃ e g, e.Proceeds ∧ step m address f e = some g ∧ ¬ g.Safe := by
  obtain ⟨i, e', es, c, hact, hcall, hmem, hrest⟩ := Network.exists_act he
  have hsock := (hi.tidy.act hact).1
  have hnext : f.network.step m address (.act s i) =
      some ((f.network.perform s e').setEndpoint s c) := by
    simp only [Network.step, hact, Option.map_some]
  -- a call does nothing behind its `First`
  have hfirst : f.network.first? (.thread (.act s i)) ≠ some s := by
    simp only [Network.first?, hact, Option.bind_some]
    intro hf
    obtain rfl : e' = .first s := Effect.first?_eq_some hf
    obtain rfl : es = [] := (hi.tidy.own s).last _ hcall [] es rfl
    obtain rfl : e = .first s := by simpa using hmem
    cases hover
  obtain ⟨g, hg, hn⟩ := exists_step (f := f) (e := .thread (.act s i)) hnext
  refine ⟨.thread (.act s i), g, trivial, hg, fun hsafe => ?_⟩
  have hpend' := Network.step_firstPending hi.tidy hnext hpend hfirst
  obtain ⟨halive, hmessages, hcalls⟩ := hsafe.1 s (hn ▸ hpend')
  rw [hn] at halive hmessages hcalls
  rcases List.mem_cons.mp hmem with rfl | hmem
  · cases e with
    | doData h k =>
      refine hmessages (f.network.nextMessage s ⟨h, k⟩) (List.mem_append_left _ ?_) rfl
      exact List.mem_append_right _ (List.mem_singleton_self _)
    | pushFront h =>
      refine hmessages (f.network.nextMessage s ⟨h, h.offset⟩) (List.mem_append_right _ ?_) rfl
      exact List.mem_append_right _ (List.mem_cons_self ..)
    | closeAndDelete t ev =>
      obtain rfl : t = s := Option.some.inj hsock
      exact halive (Network.mem_perform_deleted.mpr (.inr ⟨ev, rfl⟩))
    | _ => cases hover
  · rw [Network.setEndpoint_self] at hcalls
    exact absurd (hover.symm.trans (hcalls e (hrest e hmem))) (by decide)

/-- Once a call has been overtaken, the threads come nearer to where `First` was not first. -/
theorem exists_step_nearer (hi : f.Inv m) (hw : f.network.workers ≠ []) (hs : ¬ f.Safe)
    (hf : f.FirstFirst) : ∃ e g, e.Proceeds ∧ step m address f e = some g ∧ ¬ g.Safe ∧
      g.network.work < f.network.work := by
  have hdisturbed : ¬ f.network.Undisturbed := fun hu => hs ⟨hu, hf.alive⟩
  simp only [Network.Undisturbed, not_forall] at hdisturbed
  obtain ⟨s, hpend, hover⟩ := hdisturbed
  have hstep : ∃ e g, e.Proceeds ∧ step m address f e = some g ∧ ¬ g.Safe := by
    by_contra hnone
    refine hover ⟨fun hd => ?_, fun x hx hxs => ?_, fun e he => ?_⟩
    · exact hnone (exists_step_of_deleted hi hpend hd)
    · subst hxs
      rcases List.mem_append.mp hx with hx' | hx'
      · exact (hi.called_iff (hi.tidy.sourced x hx).2).mp (hf.before x hx') hpend
      · exact hnone (exists_step_of_waiting hi hw hpend hx')
    · by_contra hne
      exact hnone (exists_step_of_overtakes hi hpend he (by simpa using hne))
  obtain ⟨e, g, hp, hg, hsafe⟩ := hstep
  refine ⟨e, g, hp, hg, hsafe, ?_⟩
  rcases Network.next_cases (step_cases hg).1 with ⟨l, rfl, hn⟩ | ⟨kept, rfl, -⟩
  · exact Network.step_work hi.tidy hp hn
  · exact hp.elim

theorem step_workers (hw : f.network.workers ≠ []) (h : step m address f e = some g) :
    g.network.workers ≠ [] := by
  suffices hlength : g.network.workers.length = f.network.workers.length by
    intro hnil
    rw [hnil, List.length_nil, eq_comm, List.length_eq_zero_iff] at hlength
    exact hw hlength
  rcases Network.next_cases (step_cases h).1 with ⟨l, -, hn⟩ | ⟨kept, -, hn⟩
  · rcases Network.step_cases hn with ⟨s, env, -, -, -, hn⟩ | ⟨s, x, c, -, -, hn⟩ |
      ⟨s, i, e, c, -, -, hn⟩ | ⟨w, x, -, -, -, hn⟩ | ⟨w, x, -, -, hn⟩ | ⟨w, x, -, -, hn⟩
    all_goals
      rw [hn]
      simp [Network.setEndpoint]
  · rw [hn]
    rfl

theorem endangered_iff (hi : f.Inv m) (hw : f.network.workers ≠ []) :
    f.Endangered m address ↔ ¬ f.Safe := by
  refine exists_exec_iff_not_of (I := fun f => f.Inv m ∧ f.network.workers ≠ [])
    (fun f => f.network.work) ?_ ?_ ?_ ?_ ⟨hi, hw⟩
  · exact fun f e g hi h => ⟨step_inv hi.1 h, step_workers hi.2 h⟩
  · exact fun f e g hi hs he h => (step_safe_iff hi.1 hs h).mpr he.orderly
  · exact fun f hi hs hf => hf (hs.firstFirst hi.1)
  · exact fun f hi hs hf => exists_step_nearer hi.1 hi.2 hs (not_not.mp hf)

/-- `First` comes first in every run whose steps are all orderly; and the runs that the
threads by themselves can in no state bring to where it does not are the orderly ones. -/
theorem firstFirst_iff (m : ReceiveManager) (address : Socket → ℕ) (func : Bool)
    (streams : Socket → List UInt8) (shut : Socket → Bool) (threadCount : ℕ)
    (es : List Network.Event) (f : FirstCalls)
    (h : exec (step m address) (start func streams shut threadCount) es = some f) :
    (Along (step m address) (Orderly m) (start func streams shut threadCount) es →
      Always (step m address) FirstFirst (start func streams shut threadCount) es) ∧
    (0 < threadCount →
      (Always (step m address) (fun g => ¬ g.Endangered m address)
          (start func streams shut threadCount) es ↔
        Along (step m address) (Orderly m) (start func streams shut threadCount) es)) := by
  have hstart := start_inv m func streams shut threadCount
  have hsafe := start_safe func streams shut threadCount
  constructor
  · intro hc
    have hall := always_of_along (I := fun f => f.Inv m ∧ f.Safe)
      (fun f e g hi ho hst => ⟨step_inv hi.1 hst, (step_safe_iff hi.1 hi.2 hst).mpr ho⟩)
      ⟨hstart, hsafe⟩ hc
    exact hall.imp (I := fun _ => True) (fun _ _ _ _ _ => trivial)
      (fun f _ hf => hf.2.firstFirst hf.1) trivial
  · intro hpos
    have hw : (start func streams shut threadCount).network.workers ≠ [] := by
      simpa [start, Network.start] using hpos.ne'
    exact always_not_iff_along_of (I := fun f => f.Inv m ∧ f.network.workers ≠ [])
      (fun f e g hi hst => ⟨step_inv hi.1 hst, step_workers hi.2 hst⟩)
      (fun f hi => endangered_iff hi.1 hi.2) (fun f e g hi hs hst => step_safe_iff hi.1 hs hst)
      ⟨hstart, hw⟩ hsafe h

/-- Two sockets. A part of a packet comes to socket 0 before its `First`, the rest behind it;
socket 1 receives two packets. Worker 5 dispatches what was queued for socket 0, then the
acceptor is stopped, and the receive that is posted for socket 0 completes without bytes. -/
def stopped : List Network.Event :=
  let env : Env := ⟨some 1, some 2, true, fun _ => 0⟩
  [.register 0 env, .act 0 0, .act 0 0, .complete 0 ⟨3, env⟩, .register 1 env, .act 0 1, .act 0 1,
    .act 0 1, .act 1 0, .act 0 0, .complete 0 ⟨5, env⟩, .act 0 2, .act 0 2, .act 1 0, .act 1 0,
    .complete 1 ⟨16, env⟩, .take 5, .act 1 1, .act 1 1, .act 1 1, .act 1 1, .start 5, .act 0 2,
    .act 0 2].map .thread ++ [.clearAll fun _ => 0, .thread (.complete 0 ⟨0, env⟩)]

theorem firstFirst_iff_stopped :
    ∃ f, exec (step ⟨16, true, by decide⟩ id)
        (start true (fun s => (List.replicate (s + 1) [1, 0, 8, 0, 8, 0, 0, 0]).flatten)
          (fun _ => true) 8) stopped = some f ∧
      Always (step ⟨16, true, by decide⟩ id) FirstFirst
        (start true (fun s => (List.replicate (s + 1) [1, 0, 8, 0, 8, 0, 0, 0]).flatten)
          (fun _ => true) 8) stopped ∧
      Always (step ⟨16, true, by decide⟩ id)
        (fun g => ¬ g.Endangered ⟨16, true, by decide⟩ id)
        (start true (fun s => (List.replicate (s + 1) [1, 0, 8, 0, 8, 0, 0, 0]).flatten)
          (fun _ => true) 8) stopped := by
  apply exists_exec (by decide +kernel)
  intro f hf
  obtain ⟨hfirst, hnot⟩ := firstFirst_iff _ _ _ _ _ _ _ f hf
  exact ⟨hfirst (by decide +kernel), (hnot (by decide)).mpr (by decide +kernel)⟩

/-- The peer has sent two packets by the time the receive is posted. Another thread runs
the handler, and it gives the first packet to `DoData`, before the accepting call comes
to `First`. -/
theorem doData_before_first :
    ¬ ∀ (m : ReceiveManager) (address : Socket → ℕ) (func : Bool)
      (streams : Socket → List UInt8) (shut : Socket → Bool) (threadCount : ℕ)
      (es : List Network.Event) (f : FirstCalls),
      exec (step m address) (start func streams shut threadCount) es = some f →
      Always (step m address) FirstFirst (start func streams shut threadCount) es := by
  intro h
  have hrun : (exec (step ⟨16, false, by decide⟩ id)
      (start true (fun _ => (List.replicate 2 [1, 0, 8, 0, 8, 0, 0, 0]).flatten) (fun _ => true) 8)
      ([.register 0 ⟨some 1, some 2, true, fun _ => 0⟩, .act 0 0, .act 0 0,
        .complete 0 ⟨16, some 3, some 4, true, fun _ => 0⟩, .act 0 1].map .thread)).map
      (fun f => decide (∀ x ∈ f.network.started, x.socket ∈ f.called)) = some false := by
    decide +kernel
  obtain ⟨f, hf, hb⟩ := Option.map_eq_some_iff.mp hrun
  exact of_decide_eq_false hb ((h _ _ _ _ _ _ _ f hf).last hf).before

/-- With a socket manager attached, `PostReceive` finds the socket closed and has it
deleted; `First` is called with it. -/
example : (exec (step ⟨16, true, by decide⟩ id) (start true (fun _ => []) (fun _ => true) 8)
    ([.register 0 ⟨some 1, some 2, false, fun _ => 0⟩, .act 0 0, .act 0 0, .act 0 0,
      .act 0 0].map .thread)).map late = some [0] := by decide +kernel

/-- `Stop` in another thread deletes the socket between `Add` and `First`. -/
example : (exec (step ⟨16, false, by decide⟩ id) (start true (fun _ => []) (fun _ => true) 8)
    [.thread (.register 0 ⟨some 1, some 2, true, fun _ => 0⟩), .thread (.act 0 0),
      .clearAll fun _ => 0, .thread (.act 0 0), .thread (.act 0 0)]).map late = some [0] := by
  decide +kernel

end FirstCalls

end Xiaoxin
