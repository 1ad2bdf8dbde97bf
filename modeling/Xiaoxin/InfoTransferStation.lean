import Xiaoxin.Transition
import Xiaoxin.Threads

/-!
# The transfer station

The database layer gets objects from `InfoTransferStation::Get` and pushes results
with `PushData_db_to_me`; workers go round the loop of `WorkThread`: wait, take one
result, `DoData`, `Release`. Each call under a lock is one step. A push notifies one
worker that is blocked in the wait, if there is one, and the label says which; a
wait may also end without a notification. `Exit` is not part of these runs.

An address is used again once its object is released. The objects themselves are
numbered in the order in which they are made, and the state keeps which of them were
pushed, given to `DoData` and released.
-/
namespace Xiaoxin
open Transition

/-- Where a worker stands in the loop of `WorkThread`. -/
inductive StationWorker
  /-- Before the wait. -/
  | testing
  /-- Blocked in the wait. -/
  | waiting
  /-- Blocked in the wait, with a notification pending. -/
  | notified
  /-- Before `GetData`. -/
  | awake
  /-- Before `DoData`. -/
  | took (tmpData : ℕ)
  /-- Before `Release`. -/
  | done (tmpData : ℕ)
  deriving DecidableEq, Repr

namespace StationWorker

/-- The object that the worker has in hand. -/
def data : StationWorker → Option ℕ
  | took a => some a
  | done a => some a
  | _ => none

/-- The worker will look at the set before it blocks again. -/
def pending : StationWorker → Bool
  | notified => true
  | awake => true
  | _ => false

/-- How many steps at most the worker is away from its wait. -/
def rank : StationWorker → ℕ
  | waiting => 0
  | testing => 1
  | done _ => 2
  | took _ => 3
  | awake => 4
  | notified => 5

end StationWorker

structure InfoTransferStation where
  /-- `_data_set`. -/
  dataSet : Finset (Option ℕ)
  workers : List StationWorker
  /-- The object at each address that the pools have given out. -/
  objects : ℕ → Option ℕ
  /-- The number of objects made so far. -/
  made : ℕ
  pushed : List ℕ
  /-- The objects given to `DoData`, and the workers. -/
  given : List (ℕ × ℕ)
  /-- The objects released, and the workers. -/
  released : List (ℕ × ℕ)

namespace InfoTransferStation

inductive Event
  /-- `Get`, which returns NULL when a pool is exhausted. -/
  | get (a : Option ℕ)
  /-- `PushData_db_to_me`, and the worker that is notified. -/
  | push (data : Option ℕ) (j : Option ℕ)
  | wait (i : ℕ)
  /-- The wait of a notified worker returns. -/
  | wake (i : ℕ)
  /-- A wait returns without a notification. -/
  | spurious (i : ℕ)
  /-- `GetData`, and what `begin` finds. -/
  | getData (i : ℕ) (d : Option ℕ)
  | doData (i : ℕ)
  | release (i : ℕ)
  deriving DecidableEq, Repr

/-- `Init` with `n` workers. -/
def start (n : ℕ) : InfoTransferStation :=
  ⟨∅, List.replicate n .testing, fun _ => none, 0, [], [], []⟩

def move (s : InfoTransferStation) (i : ℕ) (v : StationWorker) : InfoTransferStation :=
  { s with workers := s.workers.set i v }

/-- What is at an address, if the pointer is not NULL. -/
def objectAt (s : InfoTransferStation) (d : Option ℕ) : Option ℕ := d.bind s.objects

/-- The insertion. -/
def insertData (s : InfoTransferStation) (d : Option ℕ) : InfoTransferStation :=
  { s with dataSet := insert d s.dataSet, pushed := (s.objectAt d).toList ++ s.pushed }

/-- `GetData` on `_data_set`: what is left of it, and the result. -/
def takeData (dataSet : Finset (Option ℕ)) (d : Option ℕ) : Finset (Option ℕ) × Option ℕ :=
  if dataSet.card = 0 then (dataSet, none) else (dataSet.erase d, d)

/-- `DoData` on the `i`-th worker. -/
def doData (s : InfoTransferStation) (i a : ℕ) : InfoTransferStation :=
  { s.move i (.done a) with given := s.given ++ (s.objects a).toList.map (fun x => (x, i)) }

/-- `Release` on the `i`-th worker. -/
def release (s : InfoTransferStation) (i a : ℕ) : InfoTransferStation :=
  { s.move i .testing with
    objects := Function.update s.objects a none
    released := s.released ++ (s.objects a).toList.map (fun x => (x, i)) }

def step (s : InfoTransferStation) : Event → Option InfoTransferStation
  | .get none => some s
  | .get (some a) =>
    if s.objects a = none then
      some { s with objects := Function.update s.objects a (some s.made), made := s.made + 1 }
    else none
  | .push d none => if .waiting ∈ s.workers then none else some (s.insertData d)
  | .push d (some j) =>
    if s.workers[j]? = some .waiting then some ((s.insertData d).move j .notified) else none
  | .wait i => if s.workers[i]? = some .testing then some (s.move i .waiting) else none
  | .wake i => if s.workers[i]? = some .notified then some (s.move i .awake) else none
  | .spurious i => if s.workers[i]? = some .waiting then some (s.move i .awake) else none
  | .getData i d =>
    if s.workers[i]? = some .awake ∧ (s.dataSet.card = 0 ∨ d ∈ s.dataSet) then
      let o := takeData s.dataSet d
      some { s.move i (o.2.elim .testing .took) with dataSet := o.1 }
    else none
  | .doData i =>
    match s.workers[i]? with
    | some (.took a) => some (s.doData i a)
    | _ => none
  | .release i =>
    match s.workers[i]? with
    | some (.done a) => some (s.release i a)
    | _ => none

/-- What a step can do. -/
inductive Steps (s : InfoTransferStation) : Event → InfoTransferStation → Prop
  | gotNull : Steps s (.get none) s
  | got (a : ℕ) (ha : s.objects a = none) : Steps s (.get (some a))
      { s with objects := Function.update s.objects a (some s.made), made := s.made + 1 }
  | unheard (d : Option ℕ) (hw : .waiting ∉ s.workers) : Steps s (.push d none) (s.insertData d)
  | heard (d : Option ℕ) (j : ℕ) (hj : s.workers[j]? = some .waiting) :
    Steps s (.push d (some j)) ((s.insertData d).move j .notified)
  | waited (i : ℕ) (hi : s.workers[i]? = some .testing) : Steps s (.wait i) (s.move i .waiting)
  | woke (i : ℕ) (hi : s.workers[i]? = some .notified) : Steps s (.wake i) (s.move i .awake)
  | wokeAlone (i : ℕ) (hi : s.workers[i]? = some .waiting) :
    Steps s (.spurious i) (s.move i .awake)
  | foundEmpty (i : ℕ) (d : Option ℕ) (hi : s.workers[i]? = some .awake) (hd : s.dataSet = ∅) :
    Steps s (.getData i d) (s.move i .testing)
  | skipped (i : ℕ) (hi : s.workers[i]? = some .awake) (hd : none ∈ s.dataSet) :
    Steps s (.getData i none) { s.move i .testing with dataSet := s.dataSet.erase none }
  | taken (i a : ℕ) (hi : s.workers[i]? = some .awake) (hd : some a ∈ s.dataSet) :
    Steps s (.getData i (some a)) { s.move i (.took a) with dataSet := s.dataSet.erase (some a) }
  | did (i a : ℕ) (hi : s.workers[i]? = some (.took a)) : Steps s (.doData i) (s.doData i a)
  | freed (i a : ℕ) (hi : s.workers[i]? = some (.done a)) : Steps s (.release i) (s.release i a)

theorem step_cases {s t : InfoTransferStation} {e : Event} (h : s.step e = some t) :
    Steps s e t := by
  cases e with
  | get a =>
    cases a with
    | none => exact Option.some.inj h ▸ .gotNull
    | some a =>
      simp only [step] at h
      split_ifs at h with ha
      exact Option.some.inj h ▸ .got a ha
  | push d j =>
    cases j with
    | none =>
      simp only [step] at h
      split_ifs at h with hw
      exact Option.some.inj h ▸ .unheard d hw
    | some j =>
      simp only [step] at h
      split_ifs at h with hj
      exact Option.some.inj h ▸ .heard d j hj
  | wait i =>
    simp only [step] at h
    split_ifs at h with hi
    exact Option.some.inj h ▸ .waited i hi
  | wake i =>
    simp only [step] at h
    split_ifs at h with hi
    exact Option.some.inj h ▸ .woke i hi
  | spurious i =>
    simp only [step] at h
    split_ifs at h with hi
    exact Option.some.inj h ▸ .wokeAlone i hi
  | getData i d =>
    simp only [step] at h
    split_ifs at h with hd
    obtain rfl := Option.some.inj h
    by_cases hcard : s.dataSet.card = 0
    · simp only [takeData, hcard, if_true]
      exact .foundEmpty i d hd.1 (Finset.card_eq_zero.mp hcard)
    · simp only [takeData, hcard, if_false]
      cases d with
      | none => exact .skipped i hd.1 (hd.2.resolve_left hcard)
      | some a => exact .taken i a hd.1 (hd.2.resolve_left hcard)
  | doData i =>
    simp only [step] at h
    split at h
    · rename_i a hi
      exact Option.some.inj h ▸ .did i a hi
    · cases h
  | release i =>
    simp only [step] at h
    split at h
    · rename_i a hi
      exact Option.some.inj h ▸ .freed i a hi
    · cases h

end InfoTransferStation
end Xiaoxin
