import Xiaoxin.MessageQueue

/-!
# Wake-ups that the message queue loses

`Add` inserts and notifies under `_mutex`. A worker that has found the list empty and
has left `_mutex`, but has not reached its wait, is not notified and does not look
again. One other worker is enough to take what was inserted, since a worker with a
message looks at the list again before it blocks. So a wake-up is lost when an
insertion meets all workers between their test and their wait.
-/
namespace Xiaoxin
open Transition Threads

namespace QueueWorker

/-- The worker will look at the list before it blocks again. -/
def active : QueueWorker → Bool
  | entering => false
  | waiting => false
  | _ => true

theorem notify_active (v : QueueWorker) : v.notify.active = true ↔ v ≠ .entering := by
  cases v <;> simp [notify, active]

end QueueWorker

namespace MessageQueue

variable {bufferSize i : ℕ} {s t : MessageQueue} {v z : QueueWorker}
  {p : PPerHandleData} {e : Event}

/-- There are messages, and all workers are blocked without a notification. -/
def Stranded (s : MessageQueue) : Prop :=
  s.handleDataList ≠ [] ∧ ∀ v ∈ s.workers, v = .waiting

/-- A step of a worker that nobody else has to bring about. -/
def Own : Event → Prop
  | .look _ => True
  | .wait _ => True
  | .wake _ => True
  | .dispatch _ => True
  | .release _ => True
  | _ => False

/-- The workers alone can come to leave a message behind. -/
def Strands (bufferSize : ℕ) (s : MessageQueue) : Prop :=
  ∃ events t, (∀ e ∈ events, Own e) ∧ exec (step bufferSize) s events = some t ∧ t.Stranded

/-- If there is a message, a worker will look at the list before it blocks. -/
def Attended (s : MessageQueue) : Prop :=
  s.handleDataList = [] ∨ ∃ v ∈ s.workers, v.active = true

/-- An insertion finds a worker that is not between its test and its wait. -/
def Heard (s : MessageQueue) (e : Event) : Prop :=
  ∀ k, e = .insert k → ∃ v ∈ s.workers, v ≠ .entering

theorem Stranded.not_attended (h : s.Stranded) : ¬ s.Attended := by
  rintro (hl | ⟨v, hv, hactive⟩)
  · exact h.1 hl
  · rw [h.2 v hv] at hactive
    cases hactive

theorem pushFront_attended_iff {k : ℕ} :
    (s.pushFront k p).Attended ↔ ∃ v ∈ s.workers, v ≠ .entering := by
  have hl : (s.pushFront k p).handleDataList ≠ [] := List.cons_ne_nil _ _
  simp only [Attended, hl, false_or]
  show (∃ v ∈ s.workers.map QueueWorker.notify, v.active = true) ↔ _
  simp only [List.mem_map, exists_exists_and_eq_and, QueueWorker.notify_active]

/-- A worker moves, and looks at the list later if it would have done so before. -/
theorem Attended.move (hs : s.Attended) (hi : s.workers[i]? = some v)
    (ht : t.workers = s.workers.set i z) (hz : v.active = true → z.active = true)
    (hl : t.handleDataList = s.handleDataList) : t.Attended := by
  refine hs.imp (fun h => hl.trans h) (fun hactive => ?_)
  rw [ht]
  exact (exists_set_iff hi).mpr (((exists_iff hi).mp hactive).imp_left hz)

/-- A worker moves to where it will look at the list. -/
theorem attended_of_active (hi : s.workers[i]? = some v) (ht : t.workers = s.workers.set i z)
    (hz : z.active = true) : t.Attended := by
  refine .inr ?_
  rw [ht]
  exact (exists_set_iff hi).mpr (.inl hz)

theorem step_attended (hs : s.Attended) (he : ∀ k, e ≠ .insert k)
    (h : s.step bufferSize e = some t) : t.Attended := by
  cases step_cases h with
  | noMemory data past => exact hs
  | copied data a past ha => exact hs
  | inserted k p hk => exact absurd rfl (he k)
  | foundEmpty i hi hl => exact .inl hl
  | taken i rest p hi hl => exact attended_of_active (z := .took p) hi rfl rfl
  | waited i hi => exact hs.move hi rfl (by simp [QueueWorker.active]) rfl
  | woke i hi => exact attended_of_active hi rfl rfl
  | wokeAlone i hi => exact attended_of_active hi rfl rfl
  | did i p hi => exact attended_of_active (z := .done p) hi rfl rfl
  | freed i p hi => exact attended_of_active (z := .looking) hi rfl rfl

/-- With nobody to look at the list, a worker that is not blocked yet can only wait. -/
theorem exists_step_nearer (hs : ¬ s.Attended) (hstr : ¬ s.Stranded) :
    ∃ e t, Own e ∧ s.step bufferSize e = some t ∧ ¬ t.Attended ∧
      t.workers.countP (· = .entering) < s.workers.countP (· = .entering) := by
  obtain ⟨hl, hnone⟩ := not_or.mp hs
  have hw : ∃ v ∈ s.workers, v ≠ .waiting := by
    by_contra hall
    push Not at hall
    exact hstr ⟨hl, hall⟩
  obtain ⟨v, hv, hne⟩ := hw
  have hentering : v = .entering := by
    cases v with
    | entering => rfl
    | waiting => exact absurd rfl hne
    | looking => exact absurd ⟨_, hv, rfl⟩ hnone
    | notified => exact absurd ⟨_, hv, rfl⟩ hnone
    | took p => exact absurd ⟨_, hv, rfl⟩ hnone
    | done p => exact absurd ⟨_, hv, rfl⟩ hnone
  subst hentering
  obtain ⟨i, hi⟩ := List.mem_iff_getElem?.mp hv
  refine ⟨.wait i, s.move i .waiting, trivial, by simp [step, hi], ?_, ?_⟩
  · rintro (h | h)
    · exact hl h
    · rcases (exists_set_iff hi).mp h with h | h
      · cases h
      · exact hnone ((exists_iff hi).mpr (.inr h))
  · show (s.workers.set i .waiting).countP _ < _
    rw [countP_set_eq hi, countP_eq hi]
    simp

/-- The workers alone can leave a message behind exactly when none of them will look at
the list before it blocks. -/
theorem strands_iff : s.Strands bufferSize ↔ ¬ s.Attended :=
  exists_exec_iff_not (fun s => s.workers.countP (· = .entering))
    (fun _ _ _ hs ho hst => step_attended hs (by rintro k rfl; exact ho) hst)
    (fun _ hs hstr => hstr.not_attended hs) (fun _ hs hstr => exists_step_nearer hs hstr)

theorem Stranded.strands (h : s.Stranded) : s.Strands bufferSize := ⟨[], s, by simp, rfl, h⟩

/-- A step keeps a worker for the list exactly when it is heard. -/
theorem step_attended_iff (hs : s.Attended) (h : s.step bufferSize e = some t) :
    t.Attended ↔ s.Heard e := by
  by_cases he : ∃ k, e = .insert k
  · obtain ⟨k, rfl⟩ := he
    have hheard : s.Heard (.insert k) ↔ ∃ v ∈ s.workers, v ≠ .entering := by simp [Heard]
    rw [hheard]
    cases step_cases h with
    | inserted k p hk => exact pushFront_attended_iff
  · push Not at he
    exact iff_of_true (step_attended hs he h) (fun k hk => absurd hk (he k))

/-- In all states of a run every message can still be dispatched without another call of
`Add`, exactly when each insertion is heard; then no state of the run is stranded. -/
theorem noLostWakeup_iff_heard (bufferSize n : ℕ) (events : List Event) (s : MessageQueue)
    (h : exec (step bufferSize) (start n) events = some s) :
    (Always (step bufferSize) (fun s => ¬ s.Strands bufferSize) (start n) events ↔
      Along (step bufferSize) Heard (start n) events) ∧
    (Along (step bufferSize) Heard (start n) events →
      Always (step bufferSize) (fun s => ¬ s.Stranded) (start n) events) := by
  exact always_not_iff_along (P := Attended) (fun s => strands_iff) (fun s hs => hs.strands)
    (fun s e t hs hst => step_attended_iff hs hst) (.inl rfl) h

/-- One worker has found the list empty when the message comes, the other one waits. -/
theorem noLostWakeup_iff_heard_two : ∃ s,
    exec (step 4) (start 2) [.look 0, .wait 0, .look 1,
      .copy ⟨100, some 5, [1, 2, 3, 4], 1, 4, 2⟩ (some 7) (fun _ => 0), .insert 0, .wait 1,
      .wake 0, .look 0] = some s ∧
    (Always (step 4) (fun s => ¬ s.Strands 4) (start 2) [.look 0, .wait 0, .look 1,
      .copy ⟨100, some 5, [1, 2, 3, 4], 1, 4, 2⟩ (some 7) (fun _ => 0), .insert 0, .wait 1,
      .wake 0, .look 0] ↔
    Along (step 4) Heard (start 2) [.look 0, .wait 0, .look 1,
      .copy ⟨100, some 5, [1, 2, 3, 4], 1, 4, 2⟩ (some 7) (fun _ => 0), .insert 0, .wait 1,
      .wake 0, .look 0]) ∧
    (Along (step 4) Heard (start 2) [.look 0, .wait 0, .look 1,
      .copy ⟨100, some 5, [1, 2, 3, 4], 1, 4, 2⟩ (some 7) (fun _ => 0), .insert 0, .wait 1,
      .wake 0, .look 0] →
    Always (step 4) (fun s => ¬ s.Stranded) (start 2) [.look 0, .wait 0, .look 1,
      .copy ⟨100, some 5, [1, 2, 3, 4], 1, 4, 2⟩ (some 7) (fun _ => 0), .insert 0, .wait 1,
      .wake 0, .look 0]) := by
  apply exists_exec (by decide +kernel)
  intro s hs
  exact noLostWakeup_iff_heard 4 2 _ s hs

/-- The only worker has found the list empty; `Add` inserts a message and notifies
nobody; the worker waits. -/
theorem insertion_before_wait_strands : ∃ s,
    exec (step 4) (start 1) [.look 0,
      .copy ⟨100, some 5, [1, 2, 3, 4], 1, 4, 2⟩ (some 7) (fun _ => 0), .insert 0,
      .wait 0] = some s ∧
    s.handleDataList = [⟨7, 0⟩] ∧ s.workers = [.waiting] ∧ s.Stranded := by
  have hrun : (exec (step 4) (start 1) [.look 0,
      .copy ⟨100, some 5, [1, 2, 3, 4], 1, 4, 2⟩ (some 7) (fun _ => 0), .insert 0, .wait 0]).map
      (fun s => (s.handleDataList, s.workers)) = some ([⟨7, 0⟩], [.waiting]) := by decide +kernel
  obtain ⟨s, hs, hv⟩ := Option.map_eq_some_iff.mp hrun
  obtain ⟨hlist, hworkers⟩ : s.handleDataList = [⟨7, 0⟩] ∧ s.workers = [.waiting] := by
    simpa using hv
  exact ⟨s, hs, hlist, hworkers, by simp [hlist], by simp [hworkers]⟩

end MessageQueue
end Xiaoxin
