import Xiaoxin.Database

/-!
# What becomes of the requests

A request that a client has queued is in `_data_set`, or a worker has it inside an
iteration, or it was given back. The branch without a connection puts it back into
the set; the branch with one only releases the connection. The set may also be
empty when a worker looks, and then the branch without a connection puts NULL into
it, on which the next `GetData` throws.
-/
namespace Xiaoxin
open Transition
namespace Database

variable {w : ℕ} {s t : Database w} {i : ℕ} {v z : SqlWorker} {e : Event}

/-! ## No request is lost -/

/-- Where a request is: in the set, with a worker, or given back. -/
def Accounted (s : Database w) (r : ℕ) : Prop :=
  some r ∈ s.dataSet ∨ (∃ v ∈ s.workers, v.data = some r) ∨ r ∈ s.handedBack

/-- Every accepted request is somewhere. -/
def AllAccounted (s : Database w) : Prop := ∀ r ∈ s.accepted, s.Accounted r

/-- The branch with a connection is not run to its end by a worker that took a request.
The exception is a request that was queued once more: it may be in the set again, with
another worker, or given back. -/
def KeepsElsewhere (s : Database w) (e : Event) : Prop :=
  ∀ i, e = .releasePool i → ∀ v, s.workers[i]? = some v → ∀ r, v.data = some r →
    some r ∈ s.dataSet ∨ (∃ u ∈ s.workers.eraseIdx i, u.data = some r) ∨ r ∈ s.handedBack

theorem accounted_iff (hi : s.workers[i]? = some v) (r : ℕ) : s.Accounted r ↔
    some r ∈ s.dataSet ∨ (v.data = some r ∨ ∃ u ∈ s.workers.eraseIdx i, u.data = some r) ∨
      r ∈ s.handedBack := by
  rw [Accounted, Threads.exists_iff hi]

theorem accounted_move_iff (hi : s.workers[i]? = some v) (ht : t.workers = s.workers.set i z)
    (hb : t.handedBack = s.handedBack) (r : ℕ) : t.Accounted r ↔
    some r ∈ t.dataSet ∨ (z.data = some r ∨ ∃ u ∈ s.workers.eraseIdx i, u.data = some r) ∨
      r ∈ s.handedBack := by
  rw [Accounted, ht, hb, Threads.exists_set_iff hi]

/-- A request stays where it is or passes between the set and the worker that moves. -/
theorem accounted_move {r : ℕ} (hi : s.workers[i]? = some v) (ht : t.workers = s.workers.set i z)
    (hb : t.handedBack = s.handedBack) (hr : some r ∈ t.dataSet ∨ z.data = some r ↔
      some r ∈ s.dataSet ∨ v.data = some r) : t.Accounted r ↔ s.Accounted r := by
  rw [accounted_iff hi, accounted_move_iff hi ht hb, ← or_assoc, ← or_assoc, ← or_assoc,
    ← or_assoc, hr]

/-- A step keeps track of the requests, unless it is the end of an iteration with a
connection; a client's call adds its request. -/
theorem step_accounted (h : s.step e = some t) (hrel : ∀ i, e ≠ .releasePool i) :
    ∃ d : Option ℕ, t.accepted = d.toFinset ∪ s.accepted ∧
      ∀ r, t.Accounted r ↔ d = some r ∨ s.Accounted r := by
  have hsame {t : Database w} (ht : t.accepted = s.accepted)
      (hr : ∀ r, t.Accounted r ↔ s.Accounted r) : ∃ d : Option ℕ,
        t.accepted = d.toFinset ∪ s.accepted ∧ ∀ r, t.Accounted r ↔ d = some r ∨ s.Accounted r :=
    ⟨none, by rw [ht]; simp, fun r => by rw [hr r]; simp⟩
  cases step_cases h with
  | queued d =>
    refine ⟨d, rfl, fun r => ?_⟩
    simp only [Accounted, Finset.mem_insert, or_assoc, eq_comm (a := some r)]
  | closed => exact hsame rfl fun r => Iff.rfl
  | shut p hp => exact hsame rfl fun r => Iff.rfl
  | tested i v hi hv =>
    have hv : v.data = none := by rcases hv with rfl | rfl <;> rfl
    exact hsame rfl fun r => accounted_move hi rfl rfl (by rw [hv]; rfl)
  | woke i hi => exact hsame rfl fun r => accounted_move hi rfl rfl Iff.rfl
  | foundEmpty i d hi hd => exact hsame rfl fun r => accounted_move hi rfl rfl Iff.rfl
  | refused i r d p hi hr hg => exact hsame rfl fun r => accounted_move hi rfl rfl Iff.rfl
  | obtained i r d p a hi hr hg => exact hsame rfl fun r => accounted_move hi rfl rfl Iff.rfl
  | released i d a c p hi hp => exact absurd rfl (hrel i)
  | taken i x hi hx =>
    refine hsame rfl fun r => accounted_move hi rfl rfl ?_
    by_cases hr : r = x
    · simp [hr, hx]
    · simp [hr, Ne.symm hr]
  | thrown i hi hx => exact hsame rfl fun r => accounted_move hi rfl rfl (by simp)
  | requeued i d hi =>
    refine hsame rfl fun r => accounted_move hi rfl rfl ?_
    simp only [Finset.mem_insert, SqlWorker.data_testing, SqlWorker.data_refused, reduceCtorEq,
      false_or, eq_comm (a := some r), or_comm]

/-- The end of an iteration with a connection. -/
theorem release_accounted (h : s.step (.releasePool i) = some t) :
    ∃ v, s.workers[i]? = some v ∧ t.accepted = s.accepted ∧ ∀ r, (s.Accounted r ↔ v.data = some r ∨
      t.Accounted r) ∧ (t.Accounted r ↔ some r ∈ s.dataSet ∨
        (∃ u ∈ s.workers.eraseIdx i, u.data = some r) ∨ r ∈ s.handedBack) := by
  cases step_cases h with
  | released i d a c p hi hp =>
    refine ⟨_, hi, rfl, fun r => ?_⟩
    have ht := accounted_move_iff (t := { s.move i .testing with pool := p }) hi rfl rfl r
    simp only [SqlWorker.data_testing, reduceCtorEq, false_or] at ht
    refine ⟨?_, ht⟩
    rw [accounted_iff hi, ht, SqlWorker.data_holds, or_assoc]
    exact or_left_comm

/-- Whatever is somewhere was accepted. -/
def Known (s : Database w) : Prop := ∀ r, s.Accounted r → r ∈ s.accepted

theorem step_known (hs : s.Known) (h : s.step e = some t) : t.Known := by
  intro r hr
  by_cases hrel : ∀ i, e ≠ .releasePool i
  · obtain ⟨d, hacc, hiff⟩ := step_accounted h hrel
    rw [hacc]
    rcases (hiff r).mp hr with rfl | hr
    · simp
    · exact Finset.mem_union_right _ (hs r hr)
  · push Not at hrel
    obtain ⟨i, rfl⟩ := hrel
    obtain ⟨v, -, hacc, hiff⟩ := release_accounted h
    rw [hacc]
    exact hs r ((hiff r).1.mpr (.inr hr))

theorem step_allAccounted (hk : s.Known) (hs : s.AllAccounted) (h : s.step e = some t) :
    t.AllAccounted ↔ s.KeepsElsewhere e := by
  by_cases hrel : ∀ i, e ≠ .releasePool i
  · obtain ⟨d, hacc, hiff⟩ := step_accounted h hrel
    refine iff_of_true (fun r hr => (hiff r).mpr ?_) (fun i he => absurd he (hrel i))
    rw [hacc, Finset.mem_union] at hr
    exact hr.imp (fun hd => by simpa using hd) (hs r)
  · push Not at hrel
    obtain ⟨i, rfl⟩ := hrel
    obtain ⟨v, hi, hacc, hiff⟩ := release_accounted h
    constructor
    · rintro ht j hj u hu r hr
      cases hj
      obtain rfl := Option.some.inj (hi.symm.trans hu)
      refine (hiff r).2.mp (ht r ?_)
      rw [hacc]
      exact hk r ((hiff r).1.mpr (.inl hr))
    · intro hc r hr
      rw [hacc] at hr
      rcases (hiff r).1.mp (hs r hr) with hd | ht
      · exact (hiff r).2.mpr (hc i rfl v hi r hd)
      · exact ht

/-- Every request that was accepted stays in the set, with a worker or given back, in
all states of a run, exactly when no worker ends an iteration with a connection while
it alone has the request it took. -/
theorem allAccounted_iff (w n : ℕ) (events : List Event) (s : Database w)
    (h : exec step (start w n) events = some s) :
    Always step AllAccounted (start w n) events ↔ Along step KeepsElsewhere (start w n) events := by
  refine always_iff_along (I := Known) (fun s e t hs => step_known hs)
    (fun s e t hk hs => step_allAccounted hk hs) ?_ ?_ h
  · rintro r (hr | ⟨v, hv, hr⟩ | hr)
    · simp [start] at hr
    · obtain ⟨-, rfl⟩ := List.mem_replicate.mp hv
      cases hr
    · simp [start] at hr
  · intro r hr
    simp [start] at hr

/-- A request is put back once for want of a connection, and queued again by the client
while a worker has it. -/
theorem allAccounted_iff_queued_twice : ∃ s : Database 32,
    exec step (start 32 1) [.test 0, .queueRequest (some 7), .wake 0, .getData 0 (some 7),
      .getPool 0 { Answers.fine 1 with connect := some false }, .requeue 0, .test 0, .wake 0,
      .getData 0 (some 7), .getPool 0 (.fine 1), .queueRequest (some 7), .releasePool 0] = some s ∧
    (Always step AllAccounted (start 32 1) [.test 0, .queueRequest (some 7), .wake 0,
      .getData 0 (some 7), .getPool 0 { Answers.fine 1 with connect := some false }, .requeue 0,
      .test 0, .wake 0, .getData 0 (some 7), .getPool 0 (.fine 1), .queueRequest (some 7),
      .releasePool 0] ↔
    Along step KeepsElsewhere (start 32 1) [.test 0, .queueRequest (some 7), .wake 0,
      .getData 0 (some 7), .getPool 0 { Answers.fine 1 with connect := some false }, .requeue 0,
      .test 0, .wake 0, .getData 0 (some 7), .getPool 0 (.fine 1), .queueRequest (some 7),
      .releasePool 0]) := by
  apply exists_exec (by decide +kernel)
  intro s hs
  exact allAccounted_iff 32 1 _ s hs

/-- One client, one worker, a connection: the request is gone after the iteration. -/
theorem request_dropped_with_connection : ∃ s : Database 32,
    exec step (start 32 1) [.test 0, .queueRequest (some 7), .wake 0, .getData 0 (some 7),
      .getPool 0 (.fine 1), .releasePool 0] = some s ∧
    s.dataSet = ∅ ∧ s.workers = [.testing] ∧ s.handedBack = ∅ ∧ 7 ∈ s.accepted ∧
    ¬ s.AllAccounted := by
  have hrun : (exec step (start 32 1) [.test 0, .queueRequest (some 7), .wake 0,
      .getData 0 (some 7), .getPool 0 (.fine 1), .releasePool 0]).map
      (fun s => (s.dataSet, s.workers, s.handedBack, s.accepted)) =
      some (∅, [.testing], ∅, {7}) := by decide +kernel
  obtain ⟨s, hs, hv⟩ := Option.map_eq_some_iff.mp hrun
  obtain ⟨hset, hworkers, hback, hacc⟩ : s.dataSet = ∅ ∧ s.workers = [.testing] ∧
      s.handedBack = ∅ ∧ s.accepted = {7} := by simpa using hv
  refine ⟨s, hs, hset, hworkers, hback, by simp [hacc], fun hall => ?_⟩
  simpa [Accounted, hset, hworkers, hback] using hall 7 (by simp [hacc])

/-! ## NULL among the requests -/

/-- NULL is not in the set, no worker is about to put it there, and none has been ended
by finding it. -/
structure NeverNull (s : Database w) : Prop where
  notInSet : none ∉ s.dataSet
  notInserted : ∀ i t, s.step (.requeue i) = some t → none ∉ t.dataSet
  notDead : .dead ∉ s.workers

/-- Clients queue requests only. -/
def QueuesRequest (e : Event) : Prop := e ≠ .queueRequest none

/-- When a worker found the set empty, `GetPool` does not return NULL to it. -/
def EmptyTakeServed (s : Database w) (e : Event) : Prop :=
  ∀ i r, e = .getPool i r → s.workers[i]? = some (.took none) → ¬ s.pool.Refused r

theorem neverNull_iff : s.NeverNull ↔
    none ∉ s.dataSet ∧ ∀ v ∈ s.workers, v ≠ .dead ∧ v ≠ .refused none := by
  constructor
  · rintro ⟨hset, hins, hdead⟩
    refine ⟨hset, fun v hv => ⟨ne_of_mem_of_not_mem hv hdead, ?_⟩⟩
    rintro rfl
    obtain ⟨i, hi⟩ := List.mem_iff_getElem?.mp hv
    exact hins i { s.move i .testing with dataSet := insert none s.dataSet }
      (by simp [step, hi, ThreadPool.queueRequest]) (Finset.mem_insert_self ..)
  · rintro ⟨hset, hworkers⟩
    refine ⟨hset, fun i t h => ?_, fun hdead => (hworkers _ hdead).1 rfl⟩
    cases step_cases h with
    | requeued i d hi =>
      have hd := (hworkers _ (List.mem_of_getElem? hi)).2
      refine fun hmem => (Finset.mem_insert.mp hmem).elim (fun hn => ?_) hset
      subst hn
      exact hd rfl

/-- A worker moves to a place where it neither is dead nor has NULL to put back. -/
theorem NeverNull.move (hs : s.NeverNull) (hi : s.workers[i]? = some v)
    (ht : t.workers = s.workers.set i z) (hset : none ∉ t.dataSet) (hz : z ≠ .dead)
    (hnull : z ≠ .refused none) : t.NeverNull := by
  have hothers := ((Threads.forall_iff hi).mp (neverNull_iff.mp hs).2).2
  rw [neverNull_iff, ht, Threads.forall_set_iff hi]
  exact ⟨hset, ⟨hz, hnull⟩, hothers⟩

theorem NeverNull.congr (hs : s.NeverNull) (ht : t.workers = s.workers) (hset : none ∉ t.dataSet) :
    t.NeverNull := by
  rw [neverNull_iff, ht]
  exact ⟨hset, (neverNull_iff.mp hs).2⟩

theorem step_neverNull (hs : s.NeverNull) (hq : QueuesRequest e) (h : s.step e = some t) :
    t.NeverNull ↔ s.EmptyTakeServed e := by
  have hserved (he : ∀ i r, e ≠ .getPool i r) : s.EmptyTakeServed e :=
    fun i r h => absurd h (he i r)
  have hset := hs.notInSet
  cases step_cases h with
  | queued d =>
    refine iff_of_true (hs.congr rfl ?_) (hserved (by simp))
    simp only [Finset.mem_insert, not_or]
    exact ⟨fun hd => hq (hd ▸ rfl), hset⟩
  | closed => exact iff_of_true (hs.congr rfl hset) (hserved (by simp))
  | shut p hp => exact iff_of_true (hs.congr rfl hset) (hserved (by simp))
  | tested i v hi hv =>
    refine iff_of_true (hs.move hi rfl hset ?_ ?_) (hserved (by simp))
    · rcases hv with rfl | rfl <;> simp
    · rcases hv with rfl | rfl <;> simp
  | woke i hi =>
    exact iff_of_true (hs.move hi rfl hset (by simp) (by simp)) (hserved (by simp))
  | foundEmpty i d hi hd =>
    exact iff_of_true (hs.move hi rfl hset (by simp) (by simp)) (hserved (by simp))
  | taken i r hi hr =>
    refine iff_of_true (hs.move hi rfl ?_ (by simp) (by simp)) (hserved (by simp))
    exact fun hmem => hset (Finset.mem_of_mem_erase hmem)
  | thrown i hi hr => exact absurd hr hset
  | refused i r d p hi hr hg =>
    have href := (SQLPool.getPool_null_iff hg).mp rfl
    constructor
    · rintro ht j r' he hj
      cases he
      obtain rfl := SqlWorker.took.inj (Option.some.inj (hi.symm.trans hj))
      have hmem : .refused none ∈ s.workers.set i (.refused none) :=
        (Threads.mem_set_iff hi).mpr (.inl rfl)
      exact absurd rfl ((neverNull_iff.mp ht).2 _ hmem).2
    · intro hc
      refine hs.move hi rfl hset (by simp) fun hd => ?_
      obtain rfl := SqlWorker.refused.inj hd
      exact hc i r rfl hi href
  | obtained i r d p a hi hr hg =>
    refine iff_of_true (hs.move hi rfl hset (by simp) (by simp)) fun j r' he hj href => ?_
    cases he
    cases (SQLPool.getPool_null_iff hg).mpr href
  | released i d a c p hi hp =>
    exact iff_of_true (hs.move hi rfl hset (by simp) (by simp)) (hserved (by simp))
  | requeued i d hi =>
    refine iff_of_true (hs.move hi rfl ?_ (by simp) (by simp)) (hserved (by simp))
    exact hs.notInserted i _ h

/-- When clients queue requests only, NULL never comes into the set and ends no worker,
in all states of a run, exactly when `GetPool` returns no NULL to a worker that found
the set empty. -/
theorem neverNull_iff_emptyTakeServed (w n : ℕ) (events : List Event) (s : Database w)
    (hclients : ∀ e ∈ events, QueuesRequest e) (h : exec step (start w n) events = some s) :
    Always step NeverNull (start w n) events ↔ Along step EmptyTakeServed (start w n) events := by
  refine always_iff_along_of (I := fun _ => True) (A := fun _ e => QueuesRequest e)
    (fun s e t _ hs hq hst => step_neverNull hs hq hst) (fun _ _ _ _ _ _ _ => trivial) trivial ?_
    (along_of_forall_mem hclients _) h
  refine neverNull_iff.mpr ⟨by simp [start], fun v hv => ?_⟩
  obtain ⟨-, rfl⟩ := List.mem_replicate.mp hv
  simp

/-- A worker wakes for nothing and gets a connection all the same. -/
theorem neverNull_iff_emptyTakeServed_spurious : ∃ s : Database 32,
    exec step (start 32 2) [.test 0, .test 1, .wake 0, .getData 0 none, .getPool 0 (.fine 1),
      .releasePool 0, .queueRequest (some 7), .wake 1, .getData 1 (some 7)] = some s ∧
    (Always step NeverNull (start 32 2) [.test 0, .test 1, .wake 0, .getData 0 none,
      .getPool 0 (.fine 1), .releasePool 0, .queueRequest (some 7), .wake 1, .getData 1 (some 7)] ↔
    Along step EmptyTakeServed (start 32 2) [.test 0, .test 1, .wake 0, .getData 0 none,
      .getPool 0 (.fine 1), .releasePool 0, .queueRequest (some 7), .wake 1,
      .getData 1 (some 7)]) := by
  apply exists_exec (by decide +kernel)
  intro s hs
  exact neverNull_iff_emptyTakeServed 32 2 _ s (by simp [QueuesRequest]) hs

/-- Two workers wake for one request. The second finds the set empty and cannot connect:
it puts NULL into the set, and the next `GetData` throws. -/
theorem empty_take_inserts_null : ∃ s : Database 32,
    exec step (start 32 2) [.test 0, .test 1, .queueRequest (some 7), .wake 0, .wake 1,
      .getData 0 (some 7), .getData 1 none,
      .getPool 1 { Answers.fine 1 with connect := some false }, .requeue 1, .getPool 0 (.fine 1),
      .releasePool 0, .test 0, .wake 0, .getData 0 none] = some s ∧
    s.workers = [.dead, .testing] ∧ ¬ s.NeverNull := by
  have hrun : (exec step (start 32 2) [.test 0, .test 1, .queueRequest (some 7), .wake 0, .wake 1,
      .getData 0 (some 7), .getData 1 none,
      .getPool 1 { Answers.fine 1 with connect := some false }, .requeue 1, .getPool 0 (.fine 1),
      .releasePool 0, .test 0, .wake 0, .getData 0 none]).map workers =
      some [.dead, .testing] := by decide +kernel
  obtain ⟨s, hs, hworkers⟩ := Option.map_eq_some_iff.mp hrun
  exact ⟨s, hs, hworkers, fun hn => hn.notDead (by simp [hworkers])⟩

end Database
end Xiaoxin
