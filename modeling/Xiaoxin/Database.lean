import Xiaoxin.PoolCalls
import Xiaoxin.Threads

/-!
# The SQL workers

`cSQLPool` is a `cThreadPool`: clients put requests into `_data_set`, and each
worker goes round the loop of `WorkerThread`. It waits, takes a request, gets a
connection, and either releases the connection again or, when there is none, puts
the request back. Each call that holds a lock throughout is one step; a waiting
worker may wake at any time. `NotifyAllAndClose` and `Shutdown` come from the thread
that closes the program and do not wait for the workers.

A request is a pointer, NULL being `none`. A call that faults has no next state.
-/
namespace Xiaoxin
open Transition

namespace ThreadPool

/-- `cThreadPool::QueueRequest` on `_data_set`. -/
def queueRequest (dataSet : Finset (Option ℕ)) (d : Option ℕ) : Finset (Option ℕ) :=
  insert d dataSet

/-- `cThreadPool::GetData`, where `d` is what `begin` finds: what is left of
`_data_set`, and the request, or nothing when the assertion fails and it throws. -/
def getData (dataSet : Finset (Option ℕ)) (d : Option ℕ) :
    Finset (Option ℕ) × Option (Option ℕ) :=
  if dataSet.card = 0 then (dataSet, some none)
  else (dataSet.erase d, if d = none then none else some d)

end ThreadPool

/-- Where a worker stands in the loop of `WorkerThread`. -/
inductive SqlWorker
  /-- At the test of `_is_exit`. -/
  | testing
  | waiting
  /-- Back from the wait, before `GetData`. -/
  | woken
  /-- Before `GetPool`. -/
  | took (tmpData : Option ℕ)
  /-- With the cell from `GetPool` and the connection that was in it. -/
  | holds (tmpData : Option ℕ) (perSQLConnection connection : ℕ)
  /-- After `GetPool` returned NULL, before `QueueRequest`. -/
  | refused (tmpData : Option ℕ)
  | exited
  /-- Ended by the exception of `GetData`. -/
  | dead
  deriving DecidableEq, Repr

namespace SqlWorker

/-- The request a worker has inside an iteration. -/
def data : SqlWorker → Option ℕ
  | took d => d
  | holds d _ _ => d
  | refused d => d
  | _ => none

@[simp] theorem data_testing : testing.data = none := rfl

@[simp] theorem data_woken : woken.data = none := rfl

@[simp] theorem data_dead : dead.data = none := rfl

@[simp] theorem data_took (d : Option ℕ) : (took d).data = d := rfl

@[simp] theorem data_holds (d : Option ℕ) (a c : ℕ) : (holds d a c).data = d := rfl

@[simp] theorem data_refused (d : Option ℕ) : (refused d).data = d := rfl

/-- The cell a worker has from `GetPool` and has not released. -/
def cell : SqlWorker → Option ℕ
  | holds _ a _ => some a
  | _ => none

end SqlWorker

structure Database (w : ℕ) where
  /-- `_data_set`. -/
  dataSet : Finset (Option ℕ)
  /-- `_is_exit`. -/
  isExit : Bool
  pool : SQLPool w
  workers : List SqlWorker
  /-- The requests, other than NULL, that clients have queued. -/
  accepted : Finset ℕ
  /-- The requests given back through `PushData_db_to_me`. No code calls it. -/
  handedBack : Finset ℕ

namespace Database

variable {w : ℕ}

inductive Event
  /-- A client's call. -/
  | queueRequest (d : Option ℕ)
  | notifyAllAndClose
  | shutdown
  | test (i : ℕ)
  | wake (i : ℕ)
  | getData (i : ℕ) (d : Option ℕ)
  | getPool (i : ℕ) (r : Answers)
  | releasePool (i : ℕ)
  /-- The call in the branch without a connection. -/
  | requeue (i : ℕ)
  deriving DecidableEq, Repr

/-- `Initialize` with `n` workers. -/
def start (w n : ℕ) : Database w :=
  ⟨∅, false, SQLPool.initialized w, List.replicate n .testing, ∅, ∅⟩

/-- The `i`-th worker moves. -/
def move (s : Database w) (i : ℕ) (v : SqlWorker) : Database w :=
  { s with workers := s.workers.set i v }

def afterGetData : Option (Option ℕ) → SqlWorker
  | none => .dead
  | some d => .took d

def afterGetPool (d : Option ℕ) (p : SQLPool w) : Option ℕ → SqlWorker
  | none => .refused d
  | some a => .holds d a ((p.connectionAt a).getD 0)

def step (s : Database w) : Event → Option (Database w)
  | .queueRequest d =>
    some { s with
      dataSet := ThreadPool.queueRequest s.dataSet d
      accepted := d.toFinset ∪ s.accepted }
  | .notifyAllAndClose => some { s with isExit := true }
  | .shutdown => s.pool.shutdown.map fun p => { s with pool := p }
  | .test i =>
    match s.workers[i]? with
    | some .testing => some (s.move i (if s.isExit then .exited else .waiting))
    | _ => none
  | .wake i =>
    match s.workers[i]? with
    | some .waiting => some (s.move i .woken)
    | _ => none
  | .getData i d =>
    match s.workers[i]? with
    | some .woken =>
      if s.dataSet.card = 0 ∨ d ∈ s.dataSet then
        let o := ThreadPool.getData s.dataSet d
        some { s.move i (afterGetData o.2) with dataSet := o.1 }
      else none
    | _ => none
  | .getPool i r =>
    match s.workers[i]? with
    | some (.took d) =>
      if s.pool.CanAlloc r then
        (s.pool.getPool r).map fun o => { s.move i (afterGetPool d o.1 o.2) with pool := o.1 }
      else none
    | _ => none
  | .releasePool i =>
    match s.workers[i]? with
    | some (.holds _ a _) =>
      (s.pool.releasePool a false).map fun p => { s.move i .testing with pool := p }
    | _ => none
  | .requeue i =>
    match s.workers[i]? with
    | some (.refused d) =>
      some { s.move i .testing with dataSet := ThreadPool.queueRequest s.dataSet d }
    | _ => none

/-- What a step can do. -/
inductive Steps (s : Database w) : Event → Database w → Prop
  | queued (d : Option ℕ) :
    Steps s (.queueRequest d) { s with
      dataSet := insert d s.dataSet, accepted := d.toFinset ∪ s.accepted }
  | closed : Steps s .notifyAllAndClose { s with isExit := true }
  | shut (p : SQLPool w) (h : s.pool.shutdown = some p) : Steps s .shutdown { s with pool := p }
  | tested (i : ℕ) (v : SqlWorker) (hi : s.workers[i]? = some .testing)
      (hv : v = .exited ∨ v = .waiting) : Steps s (.test i) (s.move i v)
  | woke (i : ℕ) (hi : s.workers[i]? = some .waiting) : Steps s (.wake i) (s.move i .woken)
  | foundEmpty (i : ℕ) (d : Option ℕ) (hi : s.workers[i]? = some .woken) (hd : s.dataSet = ∅) :
    Steps s (.getData i d) (s.move i (.took none))
  | taken (i r : ℕ) (hi : s.workers[i]? = some .woken) (hr : some r ∈ s.dataSet) :
    Steps s (.getData i (some r))
      { s.move i (.took (some r)) with dataSet := s.dataSet.erase (some r) }
  | thrown (i : ℕ) (hi : s.workers[i]? = some .woken) (hr : none ∈ s.dataSet) :
    Steps s (.getData i none) { s.move i .dead with dataSet := s.dataSet.erase none }
  | refused (i : ℕ) (r : Answers) (d : Option ℕ) (p : SQLPool w)
      (hi : s.workers[i]? = some (.took d)) (hr : s.pool.CanAlloc r)
      (h : s.pool.getPool r = some (p, none)) :
    Steps s (.getPool i r) { s.move i (.refused d) with pool := p }
  | obtained (i : ℕ) (r : Answers) (d : Option ℕ) (p : SQLPool w) (a : ℕ)
      (hi : s.workers[i]? = some (.took d)) (hr : s.pool.CanAlloc r)
      (h : s.pool.getPool r = some (p, some a)) :
    Steps s (.getPool i r) { s.move i (.holds d a ((p.connectionAt a).getD 0)) with pool := p }
  | released (i : ℕ) (d : Option ℕ) (a c : ℕ) (p : SQLPool w)
      (hi : s.workers[i]? = some (.holds d a c)) (h : s.pool.releasePool a false = some p) :
    Steps s (.releasePool i) { s.move i .testing with pool := p }
  | requeued (i : ℕ) (d : Option ℕ) (hi : s.workers[i]? = some (.refused d)) :
    Steps s (.requeue i) { s.move i .testing with dataSet := insert d s.dataSet }

theorem step_cases {s t : Database w} {e : Event} (h : s.step e = some t) : Steps s e t := by
  cases e with
  | queueRequest d => exact Option.some.inj h ▸ .queued d
  | notifyAllAndClose => exact Option.some.inj h ▸ .closed
  | shutdown =>
    obtain ⟨p, hp, rfl⟩ := Option.map_eq_some_iff.mp h
    exact .shut p hp
  | test i =>
    simp only [step] at h
    split at h
    · rename_i hi
      obtain rfl := Option.some.inj h
      refine .tested i _ hi ?_
      cases s.isExit <;> simp
    · cases h
  | wake i =>
    simp only [step] at h
    split at h
    · rename_i hi
      obtain rfl := Option.some.inj h
      exact .woke i hi
    · cases h
  | getData i d =>
    simp only [step] at h
    split at h
    · rename_i hi
      split_ifs at h with hd
      obtain rfl := Option.some.inj h
      by_cases hcard : s.dataSet.card = 0
      · simp only [ThreadPool.getData, hcard, if_true, afterGetData]
        exact .foundEmpty i d hi (Finset.card_eq_zero.mp hcard)
      · simp only [ThreadPool.getData, hcard, if_false]
        cases d with
        | none => exact .thrown i hi (hd.resolve_left hcard)
        | some r => exact .taken i r hi (hd.resolve_left hcard)
    · cases h
  | getPool i r =>
    simp only [step] at h
    split at h
    · rename_i d hi
      split_ifs at h with hr
      obtain ⟨⟨p, c⟩, hp, rfl⟩ := Option.map_eq_some_iff.mp h
      cases c with
      | none => exact .refused i r d p hi hr hp
      | some a => exact .obtained i r d p a hi hr hp
    · cases h
  | releasePool i =>
    simp only [step] at h
    split at h
    · rename_i d a c hi
      obtain ⟨p, hp, rfl⟩ := Option.map_eq_some_iff.mp h
      exact .released i d a c p hi hp
    · cases h
  | requeue i =>
    simp only [step] at h
    split at h
    · rename_i d hi
      obtain rfl := Option.some.inj h
      exact .requeued i d hi
    · cases h

end Database
end Xiaoxin
