import Xiaoxin.Database

/-!
# The lock of the SQL workers

The steps of `WorkerThread` and of `QueueRequest` with `_mutex` and its owner made
explicit. `WorkerThread` passes `_mutex` itself to `_condition.wait`, which unlocks
it, blocks until it is notified, and locks it again before it returns. So a worker
comes to its wait without `_mutex` and comes back from it with `_mutex`, and its next
call is `GetData`, which locks `_mutex`. The mutex is not recursive.

What an unlock by a thread that is not the owner does is left open: `lax` says that
it frees the mutex, otherwise it does nothing.
-/
namespace Xiaoxin
open Transition

/-- Where a thread stands in `QueueRequest`. -/
inductive Queueing
  | locking (d : Option ℕ)
  | inserting (d : Option ℕ)
  | notifying
  | unlocking
  deriving DecidableEq, Repr

/-- Where a thread stands: a client of the pool, or a worker in `WorkerThread`. -/
inductive Standing
  /-- A client between two calls. -/
  | idle
  /-- A client in `QueueRequest`. -/
  | calling (q : Queueing)
  | testing
  /-- Before the wait. -/
  | entering
  | waiting
  /-- Notified, and locking `_mutex` before the wait returns. -/
  | relocking
  /-- At the lock of `GetData`. -/
  | locking
  | taking
  /-- At the end of `GetData`, with what it returns or throws. -/
  | unlocking (d : Option (Option ℕ))
  /-- Before `GetPool`. -/
  | took (d : Option ℕ)
  /-- In `QueueRequest`, for want of a connection. -/
  | requeueing (q : Queueing)
  | exited
  | dead
  deriving DecidableEq, Repr

/-- The thread waits for `_mutex`. -/
def Standing.acquires : Standing → Bool
  | relocking => true
  | locking => true
  | calling (.locking _) => true
  | requeueing (.locking _) => true
  | _ => false

structure WorkerLocks where
  lax : Bool
  /-- The owner of `_mutex`. -/
  owner : Option ℕ
  threads : List Standing
  /-- `_data_set`. -/
  dataSet : Finset (Option ℕ)
  /-- `_is_exit`. -/
  isExit : Bool
  deriving DecidableEq

namespace WorkerLocks

/-- What a step leaves open. -/
structure Choice where
  /-- The request of a client's call, or what `begin` finds. -/
  d : Option ℕ
  /-- Whether `GetPool` returns a connection. -/
  obtained : Bool
  deriving DecidableEq, Repr

inductive Act
  | step (i : ℕ) (x : Choice)
  /-- The wait of a worker ends without a notification. -/
  | wake (i : ℕ)
  | notifyAllAndClose
  deriving DecidableEq, Repr

/-- `n` workers and `m` clients. -/
def start (lax : Bool) (n m : ℕ) : WorkerLocks :=
  ⟨lax, none, List.replicate n .testing ++ List.replicate m .idle, ∅, false⟩

def move (c : WorkerLocks) (i : ℕ) (v : Standing) : WorkerLocks :=
  { c with threads := c.threads.set i v }

/-- `_mutex.lock`, and where the thread is when it has the mutex. -/
def lock (c : WorkerLocks) (i : ℕ) (v : Standing) : Option WorkerLocks :=
  if c.owner = none then some { c.move i v with owner := some i } else none

/-- `_mutex.unlock`, and where the thread goes on. -/
def unlock (c : WorkerLocks) (i : ℕ) (v : Standing) : WorkerLocks :=
  { c.move i v with owner := if c.lax = true ∨ c.owner = some i then none else c.owner }

def notified : Standing → Standing
  | .waiting => .relocking
  | v => v

def notifyAll (c : WorkerLocks) : WorkerLocks := { c with threads := c.threads.map notified }

/-- `QueueRequest`, for a client or for a worker. -/
def queueRequest (c : WorkerLocks) (i : ℕ) (inside : Queueing → Standing) (after : Standing) :
    Queueing → Option WorkerLocks
  | .locking d => c.lock i (inside (.inserting d))
  | .inserting d =>
    some { c.move i (inside .notifying) with dataSet := ThreadPool.queueRequest c.dataSet d }
  | .notifying => some (c.move i (inside .unlocking)).notifyAll
  | .unlocking => some (c.unlock i after)

/-- The next step of a thread. -/
def go (c : WorkerLocks) (i : ℕ) (x : Choice) : Standing → Option WorkerLocks
  | .idle => some (c.move i (.calling (.locking x.d)))
  | .calling q => c.queueRequest i .calling .idle q
  | .testing => some (c.move i (if c.isExit then .exited else .entering))
  | .entering => some (c.unlock i .waiting)
  | .waiting => none
  | .relocking => c.lock i .locking
  | .locking => c.lock i .taking
  | .taking =>
    if c.dataSet.card = 0 ∨ x.d ∈ c.dataSet then
      let o := ThreadPool.getData c.dataSet x.d
      some { c.move i (.unlocking o.2) with dataSet := o.1 }
    else none
  | .unlocking d => some (c.unlock i (d.elim .dead .took))
  | .took d => some (c.move i (if x.obtained then .testing else .requeueing (.locking d)))
  | .requeueing q => c.queueRequest i .requeueing .testing q
  | .exited => none
  | .dead => none

def step (c : WorkerLocks) : Act → Option WorkerLocks
  | .step i x => (c.threads[i]?).bind (c.go i x)
  | .wake i => if c.threads[i]? = some .waiting then some (c.move i .relocking) else none
  | .notifyAllAndClose => some { c with isExit := true }.notifyAll

/-- The thread takes a step in some run from here. -/
def CanMove (c : WorkerLocks) (i : ℕ) : Prop :=
  ∃ acts d x, exec step c acts = some d ∧ (d.step (.step i x)).isSome

/-- No thread waits for the mutex that it owns, and the owner can go on. -/
structure Live (c : WorkerLocks) : Prop where
  notSelf : ∀ i v, c.threads[i]? = some v → v.acquires = true → c.owner ≠ some i
  ownerMoves : ∀ i, c.owner = some i → c.CanMove i

/-- The step is not the end of a worker's wait. -/
def NoWaitReturns (c : WorkerLocks) (a : Act) : Prop :=
  ∀ i x, a = .step i x → c.threads[i]? ≠ some .relocking

/-- In `QueueRequest` with the lock taken. -/
def Inside (v : Standing) : Prop := ∃ q, v = .calling q ∧ ∀ d, q ≠ .locking d

/-- Where threads are as long as no wait has returned. -/
def Before : Standing → Prop
  | .idle => True
  | .calling _ => True
  | .testing => True
  | .entering => True
  | .waiting => True
  | .relocking => True
  | .exited => True
  | _ => False

/-- No worker has come past its wait, and the owner is a client inside its call. -/
structure Early (c : WorkerLocks) : Prop where
  before : ∀ v ∈ c.threads, Before v
  owner : ∀ i, c.owner = some i → ∃ v, c.threads[i]? = some v ∧ Inside v

variable {c d : WorkerLocks} {i : ℕ} {v z : Standing} {a : Act} {x : Choice}

/-- The owner's next step is always possible. -/
theorem Early.live (h : c.Early) : c.Live := by
  constructor
  · intro i v hv ha ho
    obtain ⟨u, hu, q, rfl, hq⟩ := h.owner i ho
    obtain rfl := Option.some.inj (hv.symm.trans hu)
    cases q with
    | locking d => exact hq d rfl
    | _ => cases ha
  · intro i ho
    obtain ⟨u, hu, q, rfl, hq⟩ := h.owner i ho
    refine ⟨[], c, ⟨none, true⟩, rfl, ?_⟩
    cases q with
    | locking d => exact absurd rfl (hq d)
    | _ => simp [step, hu, go, queueRequest]

/-- One thread moves; the owner is as before, or it is the thread that moves. -/
theorem Early.move (h : c.Early) (hi : c.threads[i]? = some v) (ht : d.threads = c.threads.set i z)
    (hz : Before z) (ho : ∀ j, d.owner = some j → j ≠ i → c.owner = some j)
    (hself : d.owner = some i → Inside z) : d.Early := by
  refine ⟨?_, fun j hj => ?_⟩
  · rw [ht, Threads.forall_set_iff hi]
    exact ⟨hz, ((Threads.forall_iff hi).mp h.before).2⟩
  · by_cases hji : j = i
    · subst hji
      exact ⟨z, Threads.get_moved hi ht, hself hj⟩
    · rw [Threads.get_other ht hji]
      exact h.owner j (ho j hj hji)

theorem Early.notifyAll (h : c.Early) : c.notifyAll.Early := by
  refine ⟨fun v hv => ?_, fun i hi => ?_⟩
  · obtain ⟨u, hu, rfl⟩ := List.mem_map.mp hv
    have hb := h.before u hu
    cases u <;> exact hb
  · obtain ⟨v, hv, q, rfl, hq⟩ := h.owner i hi
    refine ⟨.calling q, ?_, q, rfl, hq⟩
    rw [WorkerLocks.notifyAll, List.getElem?_map, hv]
    rfl

theorem Early.owner_ne (h : c.Early) (hi : c.threads[i]? = some v) (hv : ¬ Inside v) :
    c.owner ≠ some i := by
  intro ho
  obtain ⟨u, hu, hin⟩ := h.owner i ho
  obtain rfl := Option.some.inj (hi.symm.trans hu)
  exact hv hin

theorem unlock_owner {j : ℕ} (h : (c.unlock i z).owner = some j) : c.owner = some j ∧ j ≠ i := by
  simp only [unlock] at h
  split_ifs at h with hfree
  refine ⟨h, fun hji => hfree (.inr ?_)⟩
  rw [h, hji]

/-- A move outside the call, of a thread that was outside it or leaves the owner alone. -/
theorem Early.move_outside (h : c.Early) (hi : c.threads[i]? = some v) (hv : ¬ Inside v)
    (hz : Before z) : (c.move i z).Early :=
  h.move hi rfl hz (fun _ hj _ => hj) (fun ho => absurd ho (h.owner_ne hi hv))

theorem Early.unlock (h : c.Early) (hi : c.threads[i]? = some v) (hz : Before z) :
    (c.unlock i z).Early :=
  h.move hi rfl hz (fun _ hj _ => (unlock_owner hj).1) (fun ho => absurd rfl (unlock_owner ho).2)

theorem lock_eq_some (h : c.lock i z = some d) :
    c.owner = none ∧ d = { c.move i z with owner := some i } := by
  simp only [lock] at h
  split_ifs at h with ho
  exact ⟨ho, (Option.some.inj h).symm⟩

theorem Early.queueRequest (h : c.Early) {q : Queueing} (hi : c.threads[i]? = some (.calling q))
    (hd : c.queueRequest i .calling .idle q = some d) : d.Early := by
  cases q with
  | locking r =>
    obtain ⟨-, rfl⟩ := lock_eq_some hd
    refine h.move hi rfl trivial (fun j hj hji => ?_) (fun _ => ⟨_, rfl, by simp⟩)
    exact absurd (Option.some.inj hj).symm hji
  | inserting r =>
    obtain rfl := Option.some.inj hd
    exact h.move hi rfl trivial (fun _ hj _ => hj) (fun _ => ⟨_, rfl, by simp⟩)
  | notifying =>
    obtain rfl := Option.some.inj hd
    have hm : (c.move i (.calling .unlocking)).Early :=
      h.move hi rfl trivial (fun _ hj _ => hj) (fun _ => ⟨_, rfl, by simp⟩)
    exact hm.notifyAll
  | unlocking =>
    obtain rfl := Option.some.inj hd
    exact h.unlock hi trivial

/-- Until a wait returns, every step keeps the threads before their first `GetData`. -/
theorem Early.step (h : c.Early) (hc : c.NoWaitReturns a) (hd : c.step a = some d) : d.Early := by
  cases a with
  | notifyAllAndClose =>
    obtain rfl := Option.some.inj hd
    exact Early.notifyAll ⟨h.before, h.owner⟩
  | wake i =>
    simp only [WorkerLocks.step] at hd
    split_ifs at hd with hi
    obtain rfl := Option.some.inj hd
    exact h.move_outside hi (by simp [Inside]) trivial
  | step i x =>
    obtain ⟨v, hi, hgo⟩ := Option.bind_eq_some_iff.mp hd
    have hbefore := h.before v (List.mem_of_getElem? hi)
    cases v with
    | idle =>
      obtain rfl := Option.some.inj hgo
      exact h.move_outside hi (by simp [Inside]) trivial
    | calling q => exact h.queueRequest hi hgo
    | testing =>
      obtain rfl := Option.some.inj hgo
      refine h.move_outside hi (by simp [Inside]) ?_
      split_ifs
      · trivial
      · trivial
    | entering =>
      obtain rfl := Option.some.inj hgo
      exact h.unlock hi trivial
    | relocking => exact absurd hi (hc i x rfl)
    | waiting => cases hgo
    | exited => cases hgo
    | _ => cases hbefore

theorem start_early (lax : Bool) (n m : ℕ) : (start lax n m).Early := by
  refine ⟨fun v hv => ?_, fun i hi => by cases hi⟩
  rcases List.mem_append.mp hv with hv | hv
  · obtain ⟨-, rfl⟩ := List.mem_replicate.mp hv
    trivial
  · obtain ⟨-, rfl⟩ := List.mem_replicate.mp hv
    trivial

/-- The wait that returns leaves its worker with the mutex, at the lock of `GetData`. -/
theorem not_live_of_return (hi : c.threads[i]? = some .relocking)
    (hd : c.step (.step i x) = some d) : ¬ d.Live := by
  have hgo : c.lock i .locking = some d := by simpa [step, hi, go] using hd
  obtain ⟨-, rfl⟩ := lock_eq_some hgo
  exact fun hl => hl.notSelf i .locking (Threads.get_moved hi rfl) rfl rfl

/-- No thread comes to wait for a mutex that it owns, and the owner can always go on, in
all states of a run, exactly when no worker's wait returns. -/
theorem live_iff_noWaitReturns (lax : Bool) (n m : ℕ) (acts : List Act) (c : WorkerLocks)
    (h : exec step (start lax n m) acts = some c) :
    Always step Live (start lax n m) acts ↔ Along step NoWaitReturns (start lax n m) acts := by
  have hlive {c d : WorkerLocks} {a : Act} (hd : c.step a = some d) (hl : d.Live) :
      c.NoWaitReturns a := by
    rintro i x rfl hi
    exact not_live_of_return hi hd hl
  refine always_iff_along_of (I := Early) (A := fun _ _ => True) ?_ ?_ (start_early lax n m)
    (start_early lax n m).live (along_of_forall (fun _ _ => trivial) _ _) h
  · intro c a d he _ _ hd
    exact ⟨hlive hd, fun hc => (he.step hc hd).live⟩
  · intro c a d he _ hl hd
    exact he.step (hlive hd hl) hd

/-- A client queues a request while the worker waits, and the wait has not returned yet. -/
theorem live_iff_noWaitReturns_notified : ∃ c,
    exec step (start false 1 1) [.step 0 ⟨none, true⟩, .step 0 ⟨none, true⟩, .step 1 ⟨some 7, true⟩,
      .step 1 ⟨none, true⟩, .step 1 ⟨none, true⟩, .step 1 ⟨none, true⟩] = some c ∧
    (Always step Live (start false 1 1) [.step 0 ⟨none, true⟩, .step 0 ⟨none, true⟩,
      .step 1 ⟨some 7, true⟩, .step 1 ⟨none, true⟩, .step 1 ⟨none, true⟩, .step 1 ⟨none, true⟩] ↔
    Along step NoWaitReturns (start false 1 1) [.step 0 ⟨none, true⟩, .step 0 ⟨none, true⟩,
      .step 1 ⟨some 7, true⟩, .step 1 ⟨none, true⟩, .step 1 ⟨none, true⟩,
      .step 1 ⟨none, true⟩]) := by
  apply exists_exec (by decide +kernel)
  intro c hc
  exact live_iff_noWaitReturns false 1 1 _ c hc

/-- The worker at 0 owns the mutex it waits for, and the clients are outside their calls
or wait for it too. -/
structure Stuck (c : WorkerLocks) : Prop where
  owner : c.owner = some 0
  worker : c.threads[0]? = some .locking
  clients : ∀ j v, c.threads[j + 1]? = some v → v = .idle ∨ ∃ d, v = .calling (.locking d)

theorem Stuck.step (h : c.Stuck) (hd : c.step a = some d) : d.Stuck ∧ ∀ x, a ≠ .step 0 x := by
  have hnone : c.owner ≠ none := by simp [h.owner]
  cases a with
  | notifyAllAndClose =>
    obtain rfl := Option.some.inj hd
    refine ⟨⟨h.owner, ?_, fun j v hv => ?_⟩, by simp⟩
    · simp [notifyAll, h.worker, notified]
    · obtain ⟨u, hu, rfl⟩ : ∃ u, c.threads[j + 1]? = some u ∧ notified u = v := by
        simpa [notifyAll] using hv
      rcases h.clients j u hu with rfl | ⟨d, rfl⟩
      · exact .inl rfl
      · exact .inr ⟨d, rfl⟩
  | wake i =>
    simp only [WorkerLocks.step] at hd
    split_ifs at hd with hi
    cases i with
    | zero => cases h.worker.symm.trans hi
    | succ j => rcases h.clients j _ hi with hv | ⟨d, hv⟩ <;> cases hv
  | step i x =>
    obtain ⟨v, hi, hgo⟩ := Option.bind_eq_some_iff.mp hd
    cases i with
    | zero =>
      obtain rfl := Option.some.inj (h.worker.symm.trans hi)
      exact absurd (lock_eq_some hgo).1 hnone
    | succ j =>
      rcases h.clients j v hi with rfl | ⟨d, rfl⟩
      · obtain rfl := Option.some.inj hgo
        refine ⟨⟨h.owner, ?_, fun k v hv => ?_⟩, by simp⟩
        · simpa [move] using h.worker
        · by_cases hkj : k = j
          · subst hkj
            rw [move, Threads.get_moved hi rfl] at hv
            exact .inr ⟨x.d, (Option.some.inj hv).symm⟩
          · have hne : k + 1 ≠ j + 1 := by omega
            rw [move, Threads.get_other rfl hne] at hv
            exact h.clients k v hv
      · exact absurd (lock_eq_some hgo).1 hnone

/-- Such a worker never moves again. -/
theorem Stuck.not_canMove (h : c.Stuck) : ¬ c.CanMove 0 := by
  rintro ⟨acts, d, x, he, hsome⟩
  have hd : d.Stuck := invariant (fun c a d hc hst => (Stuck.step hc hst).1) h he
  obtain ⟨e, he⟩ := Option.isSome_iff_exists.mp hsome
  exact (hd.step he).2 x rfl

/-- One worker waits, one request is queued: the worker's wait returns with the mutex,
its `GetData` waits for it, and the mutex is never free again. -/
theorem worker_blocks_on_own_mutex : ∃ c,
    exec step (start false 1 1) [.step 0 ⟨none, true⟩, .step 0 ⟨none, true⟩, .step 1 ⟨some 7, true⟩,
      .step 1 ⟨none, true⟩, .step 1 ⟨none, true⟩, .step 1 ⟨none, true⟩, .step 1 ⟨none, true⟩,
      .step 0 ⟨none, true⟩] = some c ∧
    c.owner = some 0 ∧ c.threads = [.locking, .idle] ∧ ¬ c.CanMove 0 ∧ ¬ c.Live := by
  have hrun : exec step (start false 1 1) [.step 0 ⟨none, true⟩, .step 0 ⟨none, true⟩,
      .step 1 ⟨some 7, true⟩, .step 1 ⟨none, true⟩, .step 1 ⟨none, true⟩, .step 1 ⟨none, true⟩,
      .step 1 ⟨none, true⟩, .step 0 ⟨none, true⟩] =
      some ⟨false, some 0, [.locking, .idle], {some 7}, false⟩ := by decide +kernel
  have hstuck : Stuck ⟨false, some 0, [.locking, .idle], {some 7}, false⟩ := by
    refine ⟨rfl, rfl, fun j v hv => ?_⟩
    cases j with
    | zero => exact .inl (Option.some.inj hv).symm
    | succ j => simp at hv
  exact ⟨_, hrun, rfl, rfl, hstuck.not_canMove, fun hl => hl.notSelf 0 .locking rfl rfl rfl⟩

end WorkerLocks
end Xiaoxin
