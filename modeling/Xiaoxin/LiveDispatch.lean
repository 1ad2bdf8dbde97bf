import Xiaoxin.Network

/-!
# Messages of deleted sockets

A queued handle keeps the socket pointer of the handler that queued it. That handler may
go on to have the socket closed and deleted before a worker comes to the message; the
address may even belong to another connection by then.

A worker finds the socket of its message alive as long as no socket is deleted while a
message of it waits; and in a run that leaves no message waiting there is no other way.
-/
namespace Xiaoxin
open Connection Transition

namespace Network

/-- A worker that calls the dispatch function does so with a socket that has not been
deleted, and that is the only living one at its address. -/
def DispatchesLive (address : Socket → ℕ) (n : Network) : Label → Prop
  | .start w =>
    match n.workers[w]? with
    | some (.holding x) => ∀ s ∈ x.delivery.handledata.socket, s ∉ n.manager.deleted ∧
        ∀ t ∈ n.registered, t ∉ n.manager.deleted → address t = address s → t = s
    | _ => True
  | _ => True

instance (address : Socket → ℕ) (n : Network) (l : Label) :
    Decidable (n.DispatchesLive address l) := by
  unfold DispatchesLive
  split
  · split <;> infer_instance
  · infer_instance

/-- No socket is deleted while a message of it waits. -/
def DeletesDispatched (n : Network) : Label → Prop
  | .act s i =>
    match (n.endpoints s).act i with
    | some (.closeAndDelete t _, _) => ∀ x ∈ n.waiting, x.socket ≠ t
    | _ => True
  | _ => True

instance (n : Network) (l : Label) : Decidable (n.DeletesDispatched l) := by
  unfold DeletesDispatched
  split
  · split <;> infer_instance
  · infer_instance

/-- The sockets of all waiting messages are alive. -/
def WaitingLive (n : Network) : Prop := ∀ x ∈ n.waiting, x.socket ∉ n.manager.deleted

variable {m : ReceiveManager} {address : Socket → ℕ} {streams : Socket → List UInt8}
  {shut : Socket → Bool} {n n' : Network} {l : Label}

/-- What a step does to the deleted sockets. -/
theorem step_deleted (hi : n.Inv m address streams shut) (h : n.step m address l = some n') :
    (∃ s i e c, l = .act s i ∧ (n.endpoints s).act i = some (.closeAndDelete s e, c) ∧
      n'.manager.deleted = n.manager.deleted ++ [s] ∧ n'.waiting = n.waiting) ∨
    (n'.manager.deleted = n.manager.deleted ∧ n.DeletesDispatched l) := by
  rcases step_cases h with ⟨s, env, rfl, -, -, rfl⟩ | ⟨s, x, c, rfl, hc, rfl⟩ |
    ⟨s, i, e, c, rfl, hc, rfl⟩ | ⟨w, x, rfl, -, -, rfl⟩ | ⟨w, x, rfl, -, rfl⟩ | ⟨w, x, rfl, -, rfl⟩
  · exact .inr ⟨rfl, trivial⟩
  · exact .inr ⟨rfl, trivial⟩
  · have hs := Endpoint.act_socket (hi.endpoint s) hc
    cases e with
    | closeAndDelete t ev =>
      obtain rfl : t = s := Option.some.inj hs
      exact .inl ⟨t, i, ev, c, rfl, hc, rfl, rfl⟩
    | _ => exact .inr ⟨rfl, by simp [DeletesDispatched, hc]⟩
  · exact .inr ⟨rfl, trivial⟩
  · exact .inr ⟨rfl, trivial⟩
  · exact .inr ⟨rfl, trivial⟩

/-- A message that is queued is of a living socket. -/
theorem Inv.queued_live {s : Socket} {i : ℕ} {g : PerHandleData} {c : Endpoint}
    (hi : n.Inv m address streams shut) (hc : (n.endpoints s).act i = some (.pushFront g, c)) :
    s ∉ n.manager.deleted := by
  intro hs
  have h0 := (hi.deleted s hs).2
  have hpos := Endpoint.act_loud hc rfl
  omega

/-- A step leaves the waiting messages with living sockets exactly when it deletes none
of these. -/
theorem step_waitingLive (hi : n.Inv m address streams shut) (hp : n.WaitingLive)
    (h : n.step m address l = some n') : n'.WaitingLive ↔ n.DeletesDispatched l := by
  rcases step_deleted hi h with ⟨s, i, e, c, rfl, hc, hd, hw⟩ | ⟨hd, hok⟩
  · simp only [WaitingLive, DeletesDispatched, hc, hd, hw, List.mem_append, List.mem_singleton,
      not_or]
    exact ⟨fun hall x hx => (hall x hx).2, fun hall x hx => ⟨hp x hx, hall x hx⟩⟩
  · refine iff_of_true (fun x hx => ?_) hok
    rw [hd]
    rcases step_moves h with ⟨-, hw⟩ | ⟨s, i, g, k, c, -, -, -, -, hw⟩ |
      ⟨s, i, g, c, -, hc, -, -, hw⟩ | ⟨w, y, -, -, -, hw⟩
    · exact hp x ((hw x).mp hx)
    · exact hp x ((hw x).mp hx)
    · rcases (hw x).mp hx with rfl | hx
      · exact hi.queued_live hc
      · exact hp x hx
    · exact hp x ((hw x).mpr (.inr hx))

/-- A waiting message of a deleted socket waits until a worker starts it. -/
theorem step_waitingLive_back (hi : n.Inv m address streams shut) (hsrc : n.Sourced)
    (hl : n.DispatchesLive address l) (h : n.step m address l = some n')
    (hp : n'.WaitingLive) : n.WaitingLive := by
  intro x hx hdel
  have hdel' : x.socket ∈ n'.manager.deleted := by
    rcases step_deleted hi h with ⟨s, i, e, c, -, -, hd, -⟩ | ⟨hd, -⟩
    · rw [hd]
      exact List.mem_append_left _ hdel
    · rwa [hd]
  rcases step_moves h with ⟨-, hw⟩ | ⟨s, i, g, k, c, -, -, -, -, hw⟩ |
    ⟨s, i, g, c, -, -, -, -, hw⟩ | ⟨w, y, rfl, hy, -, hw⟩
  · exact hp x ((hw x).mpr hx) hdel'
  · exact hp x ((hw x).mpr hx) hdel'
  · exact hp x ((hw x).mpr (.inr hx)) hdel'
  · rcases (hw x).mp hx with rfl | hx
    · simp only [DispatchesLive, hy] at hl
      exact (hl x.socket (hsrc x (List.mem_append_right _ hx)).1).1 hdel
    · exact hp x hx hdel'

theorem WaitingLive.dispatchesLive (hp : n.WaitingLive) (hi : n.Inv m address streams shut)
    (hsrc : n.Sourced) (l : Label) : n.DispatchesLive address l := by
  unfold DispatchesLive
  split
  · split
    · rename_i w x hw
      have hx : x ∈ n.waiting := mem_waiting_of_worker hw rfl
      obtain ⟨hsock, hreg⟩ := hsrc x (List.mem_append_right _ hx)
      intro s hs
      obtain rfl : x.socket = s := Option.some.inj (hsock.symm.trans hs)
      exact ⟨hp x hx, fun t ht htd ha => hi.addresses t ht _ hreg htd (hp x hx) ha⟩
    · trivial
  · trivial

/-- Workers call the dispatch function with living sockets in every run that deletes no
socket while a message of it waits, and of the runs that leave no message waiting in
no others. -/
theorem dispatchesLive_iff (m : ReceiveManager) (address : Socket → ℕ) (func : Bool)
    (streams : Socket → List UInt8) (shut : Socket → Bool) (threadCount : ℕ) (ls : List Label)
    (n : Network) (h : exec (step m address) (start func streams shut threadCount) ls = some n) :
    (Along (step m address) DeletesDispatched (start func streams shut threadCount) ls →
      Along (step m address) (DispatchesLive address) (start func streams shut threadCount) ls) ∧
    (n.waiting = [] →
      Along (step m address) (DispatchesLive address) (start func streams shut threadCount) ls →
      Along (step m address) DeletesDispatched (start func streams shut threadCount) ls) := by
  have hinv : ∀ n l n', (n.Inv m address streams shut ∧ n.Sourced) →
      step m address n l = some n' → (n'.Inv m address streams shut ∧ n'.Sourced) :=
    fun n l n' hi hs => ⟨step_inv hi.1 hs, step_sourced hi.1 hi.2 hs⟩
  have hstart := And.intro (start_inv m address func streams shut threadCount)
    (start_sourced func streams shut threadCount)
  have hiff : Always (step m address) WaitingLive (start func streams shut threadCount) ls ↔
      Along (step m address) DeletesDispatched (start func streams shut threadCount) ls := by
    refine always_iff_along hinv (fun n l n' hi hp hs => step_waitingLive hi.1 hp hs) hstart
      (fun x hx => ?_) h
    have hx' : x ∈ (start func streams shut threadCount).messages := List.mem_append_right _ hx
    simp [start_messages] at hx'
  constructor
  · intro hc
    exact along_of_always hinv (fun n l hi hp => hp.dispatchesLive hi.1 hi.2 l) hstart
      (hiff.mpr hc)
  · intro hw hc
    refine hiff.mp (always_of_last hinv
      (fun n l n' hi hl hs => step_waitingLive_back hi.1 hi.2 hl hs) hstart hc h ?_)
    intro x hx
    simp [hw] at hx

/-- The peer closes at once, and a worker is done with the close notice before the
socket is deleted. -/
theorem dispatchesLive_iff_notice_first :
    ∃ n, exec (step ⟨16, true, by decide⟩ id) (start true (fun _ => []) (fun _ => true) 8)
        [.register 0 ⟨some 1, some 2, true, fun _ => 0⟩, .act 0 0, .act 0 0,
          .complete 0 ⟨0, some 3, some 4, true, fun _ => 0⟩, .act 0 1, .act 0 1, .take 0, .start 0,
          .act 0 1, .act 0 1, .act 0 1] = some n ∧
      Along (step ⟨16, true, by decide⟩ id) (DispatchesLive id)
        (start true (fun _ => []) (fun _ => true) 8)
        [.register 0 ⟨some 1, some 2, true, fun _ => 0⟩, .act 0 0, .act 0 0,
          .complete 0 ⟨0, some 3, some 4, true, fun _ => 0⟩, .act 0 1, .act 0 1, .take 0, .start 0,
          .act 0 1, .act 0 1, .act 0 1] := by
  apply exists_exec (by decide +kernel)
  intro n hn
  exact (dispatchesLive_iff _ _ _ _ _ _ _ n hn).1 (by decide +kernel)

/-- The peer closes at once; the handler queues the close notice and has the socket
deleted, and only then a worker takes the notice. -/
theorem notice_of_deleted_socket :
    ¬ ∀ (m : ReceiveManager) (address : Socket → ℕ) (func : Bool)
      (streams : Socket → List UInt8) (shut : Socket → Bool) (threadCount : ℕ) (ls : List Label)
      (n : Network), m.hasSocketManager = true →
      exec (step m address) (start func streams shut threadCount) ls = some n →
      Along (step m address) (DispatchesLive address) (start func streams shut threadCount) ls := by
  intro h
  obtain ⟨n, hn⟩ := Option.isSome_iff_exists.mp (show (exec (step ⟨16, true, by decide⟩ id)
      (start true (fun _ => []) (fun _ => true) 8)
      [.register 0 ⟨some 1, some 2, true, fun _ => 0⟩, .act 0 0, .act 0 0,
        .complete 0 ⟨0, some 3, some 4, true, fun _ => 0⟩, .act 0 1, .act 0 1, .act 0 1, .act 0 1,
        .act 0 1, .take 0, .start 0]).isSome by decide +kernel)
  have hlive := h _ _ _ _ _ _ _ n rfl hn
  revert hlive
  decide +kernel

end Network

end Xiaoxin
