import Xiaoxin.Network

/-!
# What becomes of a closed connection

When nothing was received by the time the peer closes, `AsynReceive` calls
`CloseSocket`, and `CloseSocket` reports the socket to the socket manager that is
attached to the receive manager. `Initialize` attaches none, so the report ends there:
the socket stays in `_set`, is neither closed nor deleted, and nobody is notified.
-/
namespace Xiaoxin
open Connection Transition

/-- An acceptor, or a connector that has connected, after its `Initialize`. What the
connector does with its socket then is the first step of a run. -/
inductive SetUp (recvMng : ReceiveManager) : AcceptorConnectorBase → Prop
  | acceptor {a a' : Acceptor} (h : a.initializeWith (some recvMng) = some a') :
      SetUp recvMng a'.base
  | connector {c c' : Connector} {s : Socket}
      (h : c.initializeWith (some recvMng) s true = some c') : SetUp recvMng c'.base

/-- The managers that are to run, and the network before anything has happened. -/
def AcceptorConnectorBase.network (b : AcceptorConnectorBase) (streams : Socket → List UInt8)
    (shut : Socket → Bool) (threadCount : ℕ) : Option (ReceiveManager × Network) :=
  match b.receiveManager, b.socketManager with
  | some m, some manager =>
    some (m, { Network.start false streams shut threadCount with manager := manager })
  | _, _ => none

variable {streams : Socket → List UInt8} {shut : Socket → Bool} {threadCount : ℕ}

/-- `Initialize` leaves the receive manager as it was handed over. -/
theorem SetUp.network {recvMng m : ReceiveManager} {b : AcceptorConnectorBase} {n : Network}
    (hb : SetUp recvMng b) (hn : b.network streams shut threadCount = some (m, n)) :
    m = recvMng ∧ n = Network.start true streams shut threadCount := by
  have hbase : b.receiveManager = some recvMng ∧
      b.socketManager = some (SocketManager.new.init true) := by
    cases hb with
    | acceptor h =>
      cases h
      exact ⟨rfl, rfl⟩
    | connector h =>
      cases h
      exact ⟨rfl, rfl⟩
  simp only [AcceptorConnectorBase.network, hbase, Option.some.injEq, Prod.mk.injEq] at hn
  exact ⟨hn.1.symm, hn.2.symm⟩

namespace Network

/-- The socket has left `_set`, it has been closed, and this has been notified once. -/
structure CleanedUp (s : Socket) (n : Network) : Prop where
  left : s ∉ n.manager.set
  closed : s ∈ n.manager.closed
  notified : (n.manager.notified.map Prod.fst).count s = 1

variable {m : ReceiveManager} {address : Socket → ℕ} {n n' : Network}

/-- Every socket that was registered is in `_set`, and no end of one was reported. -/
structure Unreported (n : Network) : Prop where
  stays : ∀ s ∈ n.registered, s ∈ n.manager.set
  closed : n.manager.closed = []
  notified : n.manager.notified = []

/-- A socket manager that is not attached only has sockets added. -/
theorem Unreported.step (hm : m.hasSocketManager = false) {l : Label}
    (hi : n.Inv m address streams shut) (hu : n.Unreported)
    (h : n.step m address l = some n') : n'.Unreported := by
  rcases step_cases h with ⟨s, env, -, -, -, rfl⟩ | ⟨s, x, c, -, hc, rfl⟩ |
    ⟨s, i, e, c, -, hc, rfl⟩ | ⟨w, x, -, -, -, rfl⟩ | ⟨w, x, -, -, rfl⟩ | ⟨w, x, -, -, rfl⟩
  · refine ⟨fun t ht => List.mem_insert_iff.mpr ?_, hu.closed, hu.notified⟩
    exact (List.mem_cons.mp ht).imp id (hu.stays t)
  · exact ⟨hu.stays, hu.closed, hu.notified⟩
  · have hnot : e.ofManager ≠ true := fun he =>
      absurd (Endpoint.act_managed (hi.endpoint s) hc he) (by simp [hm])
    cases e <;> first | exact ⟨hu.stays, hu.closed, hu.notified⟩ | exact absurd rfl hnot
  · exact ⟨hu.stays, hu.closed, hu.notified⟩
  · exact ⟨hu.stays, hu.closed, hu.notified⟩
  · exact ⟨hu.stays, hu.closed, hu.notified⟩

theorem run_unreported (hm : m.hasSocketManager = false) {func : Bool} {ls : List Label}
    (h : exec (step m address) (start func streams shut threadCount) ls = some n) :
    n.Unreported := by
  refine (invariant (I := fun n => n.Inv m address streams shut ∧ n.Unreported)
    (fun n l n' hi hs => ⟨step_inv hi.1 hs, hi.2.step hm hi.1 hs⟩)
    ⟨start_inv m address func streams shut threadCount, ?_⟩ h).2
  exact ⟨by simp [start], rfl, rfl⟩

/-- Whatever runs after a completion without bytes on a socket with nothing buffered,
the end of its handler included, the socket is not cleaned up: it is still in `_set`,
no socket has been closed and nobody has been notified. -/
theorem never_cleaned_up (recvBufferSize : ℕ) (hB : recvBufferSize < 4294967296)
    (b : AcceptorConnectorBase) (m : ReceiveManager) (n₀ u n : Network)
    (address : Socket → ℕ) (streams : Socket → List UInt8) (shut : Socket → Bool)
    (threadCount : ℕ) (hb : SetUp (.new recvBufferSize hB) b)
    (hn : b.network streams shut threadCount = some (m, n₀)) (ls ls' : List Label)
    (hu : exec (step m address) n₀ ls = some u) (s : Socket) (x : Completion)
    (h : exec (step m address) u (.complete s x :: ls') = some n) :
    x.bytesTransferred = 0 → (∀ h ∈ (u.endpoints s).posted, h.offset = 0) →
      ¬ n.CleanedUp s ∧ s ∈ n.manager.set ∧ n.manager.closed = [] ∧ n.manager.notified = [] := by
  obtain ⟨rfl, rfl⟩ := hb.network hn
  intro _ _
  have hun : n.Unreported := by
    have hrun : exec (step (.new recvBufferSize hB) address) (start true streams shut threadCount)
        (ls ++ .complete s x :: ls') = some n := by
      rw [exec_append, hu]
      exact h
    exact run_unreported rfl hrun
  obtain ⟨v, hv, hrest⟩ := exec_cons_eq_some.mp h
  obtain ⟨c, hc, rfl⟩ := Option.map_eq_some_iff.mp hv
  have hreg : s ∈ n.registered := by
    refine invariant (I := fun n => s ∈ n.registered) (fun _ _ _ hs h => step_registered h hs) ?_
      hrest
    exact (run_inv hu).mem_of_complete hc
  have hset := hun.stays s hreg
  exact ⟨fun hcl => hcl.left hset, hset, hun.closed, hun.notified⟩

/-- An acceptor for two connections at a time. -/
theorem setUp_acceptor (recvMng : ReceiveManager) :
    SetUp recvMng ⟨some recvMng, some (SocketManager.new.init true), true, false⟩ := by
  have h : (⟨.new, 2, 0⟩ : Acceptor).initializeWith (some recvMng) =
    some ⟨⟨some recvMng, some (SocketManager.new.init true), true, false⟩, 2, 2⟩ := rfl
  exact .acceptor h

/-- A connection that sends nothing and closes: what is there before the completion
without bytes, and after its handler has returned. -/
theorem closing_run :
    ∃ u n, exec (step (.new 16 (by decide)) id) (start true (fun _ => []) (fun _ => true) 8)
        [.register 0 ⟨some 1, some 2, true, fun _ => 0⟩, .act 0 0, .act 0 0, .act 0 0] = some u ∧
      exec (step (.new 16 (by decide)) id) u [.complete 0 ⟨0, some 3, some 4, true, fun _ => 0⟩,
        .act 0 1, .act 0 1, .act 0 1, .act 0 1] = some n ∧
      (∀ h ∈ (u.endpoints 0).posted, h.offset = 0) ∧ (n.endpoints 0).Idle ∧
      0 ∈ n.manager.set := by
  have hu : ((exec (step (.new 16 (by decide)) id) (start true (fun _ => []) (fun _ => true) 8)
      [.register 0 ⟨some 1, some 2, true, fun _ => 0⟩, .act 0 0, .act 0 0, .act 0 0]).map
      fun u => decide (∀ h ∈ (u.endpoints 0).posted, h.offset = 0)) = some true := by
    decide +kernel
  have hn : ((exec (step (.new 16 (by decide)) id) (start true (fun _ => []) (fun _ => true) 8)
      ([.register 0 ⟨some 1, some 2, true, fun _ => 0⟩, .act 0 0, .act 0 0, .act 0 0] ++
        [.complete 0 ⟨0, some 3, some 4, true, fun _ => 0⟩, .act 0 1, .act 0 1, .act 0 1,
          .act 0 1])).map
      fun n => decide ((n.endpoints 0).Idle ∧ 0 ∈ n.manager.set)) = some true := by
    decide +kernel
  obtain ⟨u, hu, hempty⟩ := Option.map_eq_some_iff.mp hu
  obtain ⟨n, hn, hend⟩ := Option.map_eq_some_iff.mp hn
  rw [exec_append, hu] at hn
  obtain ⟨hidle, hset⟩ := of_decide_eq_true hend
  exact ⟨u, n, hu, hn, of_decide_eq_true hempty, hidle, hset⟩

/-- An acceptor whose only connection sends nothing and closes. -/
theorem never_cleaned_up_acceptor :
    ∃ b m n₀ u n, SetUp (.new 16 (by decide)) b ∧
      b.network (fun _ => []) (fun _ => true) 8 = some (m, n₀) ∧
      exec (step m id) n₀ [.register 0 ⟨some 1, some 2, true, fun _ => 0⟩, .act 0 0, .act 0 0,
        .act 0 0] = some u ∧
      exec (step m id) u [.complete 0 ⟨0, some 3, some 4, true, fun _ => 0⟩, .act 0 1, .act 0 1,
        .act 0 1, .act 0 1] = some n ∧
      ¬ n.CleanedUp 0 ∧ 0 ∈ n.manager.set ∧ n.manager.closed = [] ∧ n.manager.notified = [] := by
  obtain ⟨u, n, hu, hn, hempty, -, -⟩ := closing_run
  exact ⟨_, _, _, u, n, setUp_acceptor _, rfl, hu, hn,
    never_cleaned_up 16 (by decide) _ _ _ u n id _ _ 8 (setUp_acceptor _) rfl _ _ hu 0 _ hn rfl
      hempty⟩

/-- The handler of that connection returns, and the socket is not cleaned up. -/
theorem disconnect_not_cleaned_up :
    ¬ ∀ (recvBufferSize : ℕ) (hB : recvBufferSize < 4294967296) (b : AcceptorConnectorBase)
      (m : ReceiveManager) (n₀ u n : Network) (address : Socket → ℕ)
      (streams : Socket → List UInt8) (shut : Socket → Bool) (threadCount : ℕ)
      (ls ls' : List Label) (s : Socket) (x : Completion),
      SetUp (.new recvBufferSize hB) b → b.network streams shut threadCount = some (m, n₀) →
      exec (step m address) n₀ ls = some u →
      exec (step m address) u (.complete s x :: ls') = some n →
      x.bytesTransferred = 0 → (∀ h ∈ (u.endpoints s).posted, h.offset = 0) →
      (n.endpoints s).Idle → n.CleanedUp s := by
  intro h
  obtain ⟨u, n, hu, hn, hempty, hidle, hset⟩ := closing_run
  exact (h 16 (by decide) _ _ _ u n id _ _ 8 _ _ 0 _ (setUp_acceptor _) rfl hu hn rfl hempty
    hidle).left hset

end Network

end Xiaoxin
