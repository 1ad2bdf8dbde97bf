import Xiaoxin.ExactlyOnce

/-!
# The destructor of the message queue

The workers leave their loop when `_dispatch_func` is null, and the destructor never
sets it. It notifies the workers, sleeps, interrupts them, releases what is left in
the list without `_mutex`, and returns without waiting for anybody. An interruption
takes effect in the wait alone, at its beginning or while the worker is blocked in it;
if the worker was notified as well, the wait may return. A worker that ends leaves the
list of workers.

So what a worker does after the destructor has returned is decided when the workers
are interrupted: those that are blocked without a notification, or are about to
block, end in the wait, and any other one goes on.
-/
namespace Xiaoxin
open Transition Threads

/-- What the destructor has done last; while it releases, how many entries of the list it
has passed. -/
inductive DestructorPhase
  | running | notified | slept | releasing (k : ℕ) | cleared | returned
  deriving DecidableEq, Repr

/-- `interrupt_all` has been called. -/
def DestructorPhase.interrupted : DestructorPhase → Bool
  | running | notified | slept => false
  | _ => true

/-- A message queue with its destructor. -/
structure QueueDestructor where
  queue : MessageQueue
  phase : DestructorPhase
  /-- The numbers of what the destructor has released. -/
  freed : List ℕ
  /-- After the destructor had returned, a worker called the dispatch function, touched
  the list or released a handle. -/
  late : Bool

namespace QueueDestructor

inductive Event
  /-- A step of a worker, or of `Add` before the destructor is called. -/
  | queue (e : MessageQueue.Event)
  /-- The wait of the `i`-th worker throws. -/
  | throws (i : ℕ)
  | notifyAll | sleep | interruptAll | releaseNext | clear | finish

def start (n : ℕ) : QueueDestructor := ⟨MessageQueue.start n, .running, [], false⟩

/-- The steps of a worker that call the dispatch function, touch the list or release. -/
def acts : MessageQueue.Event → Bool
  | .look _ | .dispatch _ | .release _ => true
  | _ => false

/-- Which steps the queue can take: nobody calls `Add` any more once the destructor is
called, and an interrupted worker neither begins to wait nor returns unnotified. -/
def admits (phase : DestructorPhase) : MessageQueue.Event → Bool
  | .copy _ _ _ | .insert _ => phase = .running
  | .wait _ | .spurious _ => !phase.interrupted
  | _ => true

/-- The worker is inside the wait, or reaches it next. -/
def atWait : QueueWorker → Bool
  | .entering | .waiting => true
  | _ => false

/-- The `i`-th worker ends. -/
def endWorker (s : QueueDestructor) (i : ℕ) : QueueDestructor :=
  { s with queue := { s.queue with workers := s.queue.workers.eraseIdx i } }

def notifyWorkers (q : MessageQueue) : MessageQueue :=
  { q with workers := q.workers.map QueueWorker.notify }

/-- `ReleaseMemory` on the entry that the iterator has come to. -/
def releaseEntry (s : QueueDestructor) (k : ℕ) (tmpData : PPerHandleData) : QueueDestructor :=
  { s with
    queue := { s.queue with handles := Function.update s.queue.handles tmpData.address none }
    phase := .releasing (k + 1)
    freed := s.freed ++ [tmpData.number] }

def clearList (s : QueueDestructor) : QueueDestructor :=
  { s with queue := { s.queue with handleDataList := [] }, phase := .cleared }

def step (bufferSize : ℕ) (s : QueueDestructor) : Event → Option QueueDestructor
  | .queue e =>
    if admits s.phase e then
      (s.queue.step bufferSize e).map fun q =>
        { s with queue := q, late := s.late || (s.phase = .returned && acts e) }
    else none
  | .throws i =>
    if s.phase.interrupted then
      match s.queue.workers[i]? with
      | some .entering | some .waiting | some .notified => some (s.endWorker i)
      | _ => none
    else none
  | .notifyAll =>
    if s.phase = .running then some { s with queue := notifyWorkers s.queue, phase := .notified }
    else none
  | .sleep => if s.phase = .notified then some { s with phase := .slept } else none
  | .interruptAll => if s.phase = .slept then some { s with phase := .releasing 0 } else none
  | .releaseNext =>
    match s.phase with
    | .releasing k => s.queue.handleDataList[k]?.map (s.releaseEntry k)
    | _ => none
  | .clear =>
    match s.phase with
    | .releasing k => if s.queue.handleDataList.length ≤ k then some s.clearList else none
    | _ => none
  | .finish => if s.phase = .cleared then some { s with phase := .returned } else none

/-- What the workers, and the destructor behind `interrupt_all`, do by themselves. -/
def Own : Event → Prop
  | .queue (.look _) | .queue (.wake _) | .queue (.dispatch _) | .queue (.release _) => True
  | .throws _ | .releaseNext | .clear | .finish => True
  | _ => False

/-- A worker can come to act after the destructor has returned. -/
def Endangered (bufferSize : ℕ) (s : QueueDestructor) : Prop :=
  ∃ events t, (∀ e ∈ events, Own e) ∧ exec (step bufferSize) s events = some t ∧ t.late = true

/-- Nobody was late, and once the workers are interrupted all of them end in the wait. -/
def Safe (s : QueueDestructor) : Prop :=
  s.late = false ∧
    (s.phase.interrupted = false ∨ ∀ v ∈ s.queue.workers, atWait v = true)

/-- `interrupt_all` finds every worker that has not ended in the wait without a
notification, or in front of it. -/
def Quiet (s : QueueDestructor) (e : Event) : Prop :=
  e = .interruptAll → ∀ v ∈ s.queue.workers, atWait v = true

variable {bufferSize i k : ℕ} {s t : QueueDestructor} {v : QueueWorker} {e : Event}

/-- What a step can do. -/
inductive Step (bufferSize : ℕ) (s : QueueDestructor) : Event → QueueDestructor → Prop
  | queued (e : MessageQueue.Event) (q : MessageQueue) (ha : admits s.phase e = true)
    (hq : s.queue.step bufferSize e = some q) :
    Step bufferSize s (.queue e)
      { s with queue := q, late := s.late || (s.phase = .returned && acts e) }
  | threw (i : ℕ) (hp : s.phase.interrupted = true) :
    Step bufferSize s (.throws i) (s.endWorker i)
  | notified (hp : s.phase = .running) :
    Step bufferSize s .notifyAll { s with queue := notifyWorkers s.queue, phase := .notified }
  | slept (hp : s.phase = .notified) : Step bufferSize s .sleep { s with phase := .slept }
  | interrupted (hp : s.phase = .slept) :
    Step bufferSize s .interruptAll { s with phase := .releasing 0 }
  | releasedNext (k : ℕ) (p : PPerHandleData) (hp : s.phase = .releasing k)
    (hk : s.queue.handleDataList[k]? = some p) :
    Step bufferSize s .releaseNext (s.releaseEntry k p)
  | cleared (k : ℕ) (hp : s.phase = .releasing k) (hk : s.queue.handleDataList.length ≤ k) :
    Step bufferSize s .clear s.clearList
  | finished (hp : s.phase = .cleared) : Step bufferSize s .finish { s with phase := .returned }

theorem step_cases (h : s.step bufferSize e = some t) : Step bufferSize s e t := by
  cases e with
  | queue e =>
    simp only [step, Option.ite_none_right_eq_some, Option.map_eq_some_iff] at h
    obtain ⟨ha, q, hq, rfl⟩ := h
    exact .queued e q ha hq
  | throws i =>
    simp only [step, Option.ite_none_right_eq_some] at h
    obtain ⟨hp, h⟩ := h
    split at h
    · exact Option.some.inj h ▸ .threw i hp
    · exact Option.some.inj h ▸ .threw i hp
    · exact Option.some.inj h ▸ .threw i hp
    · cases h
  | notifyAll =>
    simp only [step, Option.ite_none_right_eq_some, Option.some.injEq] at h
    obtain ⟨hp, rfl⟩ := h
    exact .notified hp
  | sleep =>
    simp only [step, Option.ite_none_right_eq_some, Option.some.injEq] at h
    obtain ⟨hp, rfl⟩ := h
    exact .slept hp
  | interruptAll =>
    simp only [step, Option.ite_none_right_eq_some, Option.some.injEq] at h
    obtain ⟨hp, rfl⟩ := h
    exact .interrupted hp
  | releaseNext =>
    simp only [step] at h
    split at h
    · next k hp =>
      obtain ⟨p, hk, rfl⟩ := Option.map_eq_some_iff.mp h
      exact .releasedNext k p hp hk
    · cases h
  | clear =>
    simp only [step] at h
    split at h
    · next k hp =>
      simp only [Option.ite_none_right_eq_some, Option.some.injEq] at h
      obtain ⟨hk, rfl⟩ := h
      exact .cleared k hp hk
    · cases h
  | finish =>
    simp only [step, Option.ite_none_right_eq_some, Option.some.injEq] at h
    obtain ⟨hp, rfl⟩ := h
    exact .finished hp

/-! ## Who goes on -/

/-- A step of the queue behind `interrupt_all` is one of a worker that is not in the wait. -/
theorem exists_worker {q : MessageQueue} {e : MessageQueue.Event}
    (hp : s.phase.interrupted = true) (ha : admits s.phase e = true)
    (hq : s.queue.step bufferSize e = some q) : ∃ v ∈ s.queue.workers, atWait v = false := by
  have hrunning : s.phase ≠ .running := by
    intro h
    rw [h] at hp
    cases hp
  have hworker {i : ℕ} {v : QueueWorker} (hi : s.queue.workers[i]? = some v)
      (hv : atWait v = false) : ∃ v ∈ s.queue.workers, atWait v = false :=
    ⟨v, List.mem_of_getElem? hi, hv⟩
  cases MessageQueue.step_cases hq with
  | noMemory data past => simp [admits, hrunning] at ha
  | copied data a past hfree => simp [admits, hrunning] at ha
  | inserted k p hk => simp [admits, hrunning] at ha
  | foundEmpty i hi hl => exact hworker hi rfl
  | taken i rest p hi hl => exact hworker hi rfl
  | waited i hi => simp [admits, hp] at ha
  | woke i hi => exact hworker hi rfl
  | wokeAlone i hi => simp [admits, hp] at ha
  | did i p hi => exact hworker hi rfl
  | freed i p hi => exact hworker hi rfl

theorem returned_interrupted (h : s.phase.interrupted = false) : s.phase ≠ .returned := by
  intro hp
  rw [hp] at h
  cases h

/-- Steps of the queue keep the destruction safe. -/
theorem Safe.queued (hs : s.Safe) {q : MessageQueue} {e : MessageQueue.Event}
    (ha : admits s.phase e = true) (hq : s.queue.step bufferSize e = some q) :
    ({ s with queue := q, late := s.late || (s.phase = .returned && acts e) } :
      QueueDestructor).Safe := by
  obtain ⟨hlate, hphase⟩ := hs
  cases hp : s.phase.interrupted with
  | false => exact ⟨by simp [hlate, returned_interrupted hp], .inl hp⟩
  | true =>
    obtain ⟨v, hv, hnot⟩ := exists_worker hp ha hq
    have hall := hphase.resolve_left (by simp [hp])
    exact absurd ((hall v hv).symm.trans hnot) (by decide)

/-- A step keeps the destruction safe exactly when it is quiet. -/
theorem step_safe_iff (hs : s.Safe) (h : s.step bufferSize e = some t) :
    t.Safe ↔ s.Quiet e := by
  obtain ⟨hlate, hphase⟩ := id hs
  have hbehind (hp : s.phase.interrupted = true) : ∀ v ∈ s.queue.workers, atWait v = true :=
    hphase.resolve_left (by simp [hp])
  cases step_cases h with
  | queued e q ha hq => exact iff_of_true (hs.queued ha hq) nofun
  | threw i hp =>
    refine iff_of_true ⟨hlate, .inr fun v hv => ?_⟩ nofun
    exact hbehind hp v (List.mem_of_mem_eraseIdx hv)
  | notified hp => exact iff_of_true ⟨hlate, .inl rfl⟩ nofun
  | slept hp => exact iff_of_true ⟨hlate, .inl rfl⟩ nofun
  | interrupted hp =>
    simp [Safe, Quiet, hlate, DestructorPhase.interrupted]
  | releasedNext k p hp hk =>
    exact iff_of_true ⟨hlate, .inr (hbehind (by rw [hp]; rfl))⟩ nofun
  | cleared k hp hk => exact iff_of_true ⟨hlate, .inr (hbehind (by rw [hp]; rfl))⟩ nofun
  | finished hp => exact iff_of_true ⟨hlate, .inr (hbehind (by rw [hp]; rfl))⟩ nofun

theorem quiet_of_own (h : Own e) : s.Quiet e := by
  rintro rfl
  exact h.elim

/-- The next step of the worker calls the dispatch function, touches the list or releases. -/
def ready : QueueWorker → Bool
  | .looking | .took _ | .done _ => true
  | _ => false

theorem ready_or_notified (h : atWait v = false) : ready v = true ∨ v = .notified := by
  cases v with
  | looking => exact .inl rfl
  | entering => cases h
  | waiting => cases h
  | notified => exact .inr rfl
  | took p => exact .inl rfl
  | done p => exact .inl rfl

/-- How far a worker that goes on is from acting late, in steps. -/
def distance (s : QueueDestructor) : ℕ :=
  if s.late then 0
  else
    match s.phase with
    | .returned => if s.queue.workers.any ready then 1 else 2
    | .cleared => 3
    | .releasing k => 4 + (s.queue.handleDataList.length - k)
    | _ => 0

theorem not_safe_of_late (h : s.late = true) : ¬ s.Safe := by
  intro hs
  exact absurd (h.symm.trans hs.1) (by decide)

theorem not_safe_of_worker (hp : s.phase.interrupted = true)
    (hw : ∃ v ∈ s.queue.workers, atWait v = false) : ¬ s.Safe := by
  rintro ⟨-, hphase⟩
  obtain ⟨v, hv, hnot⟩ := hw
  have hall := hphase.resolve_left (by simp [hp])
  exact absurd ((hall v hv).symm.trans hnot) (by decide)

/-- A worker that is ready acts after the destructor has returned. -/
theorem exists_late_step (hp : s.phase = .returned) (hi : s.queue.workers[i]? = some v)
    (hv : ready v = true) : ∃ e t, Own e ∧ s.step bufferSize e = some t ∧ t.late = true := by
  have hlate (e : MessageQueue.Event) (ha : admits s.phase e = true) (hacts : acts e = true)
      (hown : Own (.queue e)) (hstep : (s.queue.step bufferSize e).isSome) :
      ∃ e t, Own e ∧ s.step bufferSize e = some t ∧ t.late = true := by
    obtain ⟨q, hq⟩ := Option.isSome_iff_exists.mp hstep
    refine ⟨.queue e, { s with queue := q, late := s.late || (s.phase = .returned && acts e) },
      hown, ?_, ?_⟩
    · simp [step, ha, hq]
    · simp [hp, hacts]
  cases v with
  | looking =>
    refine hlate (.look i) rfl rfl trivial ?_
    simp only [MessageQueue.step, hi, if_true]
    split <;> rfl
  | took p => exact hlate (.dispatch i) rfl rfl trivial (by simp [MessageQueue.step, hi])
  | done p => exact hlate (.release i) rfl rfl trivial (by simp [MessageQueue.step, hi])
  | entering => cases hv
  | waiting => cases hv
  | notified => cases hv

/-- With a worker outside the wait the destructor comes to its end, and the worker acts. -/
theorem exists_step_nearer (hs : ¬ s.Safe) (hnot : ¬ s.late = true) :
    ∃ e t, Own e ∧ s.step bufferSize e = some t ∧ ¬ t.Safe ∧ t.distance < s.distance := by
  have hlate : s.late = false := by simpa using hnot
  obtain ⟨hp, hw⟩ : s.phase.interrupted = true ∧ ∃ v ∈ s.queue.workers, atWait v = false := by
    simpa [Safe, hlate] using hs
  cases hphase : s.phase with
  | running => simp [hphase, DestructorPhase.interrupted] at hp
  | notified => simp [hphase, DestructorPhase.interrupted] at hp
  | slept => simp [hphase, DestructorPhase.interrupted] at hp
  | releasing k =>
    cases hk : s.queue.handleDataList[k]? with
    | some p =>
      have hlt : k < s.queue.handleDataList.length := (List.getElem?_eq_some_iff.mp hk).1
      refine ⟨.releaseNext, s.releaseEntry k p, trivial, by simp [step, hphase, hk],
        not_safe_of_worker rfl hw, ?_⟩
      simp only [distance, releaseEntry, hlate, hphase, Bool.false_eq_true, if_false]
      omega
    | none =>
      have hle : s.queue.handleDataList.length ≤ k := List.getElem?_eq_none_iff.mp hk
      refine ⟨.clear, s.clearList, trivial, by simp [step, hphase, hle],
        not_safe_of_worker rfl hw, ?_⟩
      simp only [distance, clearList, hlate, hphase, Bool.false_eq_true, if_false]
      omega
  | cleared =>
    refine ⟨.finish, { s with phase := .returned }, trivial, by simp [step, hphase],
      not_safe_of_worker rfl hw, ?_⟩
    simp only [distance, hlate, hphase, Bool.false_eq_true, if_false]
    split <;> omega
  | returned =>
    by_cases hready : s.queue.workers.any ready = true
    · obtain ⟨v, hv, hvr⟩ := List.any_eq_true.mp hready
      obtain ⟨i, hi⟩ := List.mem_iff_getElem?.mp hv
      obtain ⟨e, t, hown, ht, hlate'⟩ := exists_late_step hphase hi hvr
      refine ⟨e, t, hown, ht, not_safe_of_late hlate', ?_⟩
      simp [distance, hlate', hlate, hphase, hready]
    · obtain ⟨v, hv, hvw⟩ := hw
      have hnotified : v = .notified :=
        (ready_or_notified hvw).resolve_left fun h => hready (List.any_eq_true.mpr ⟨v, hv, h⟩)
      obtain ⟨i, hi⟩ := List.mem_iff_getElem?.mp hv
      rw [hnotified] at hi
      have hlt : i < s.queue.workers.length := (List.getElem?_eq_some_iff.mp hi).1
      have hmem : QueueWorker.looking ∈ (s.queue.move i .looking).workers := List.mem_set hlt ..
      refine ⟨.queue (.wake i), { s with queue := s.queue.move i .looking }, trivial, ?_,
        not_safe_of_worker (by simp [hphase, DestructorPhase.interrupted]) ⟨_, hmem, rfl⟩, ?_⟩
      · simp [step, MessageQueue.step, hi, admits, acts]
      · have hany : (s.queue.move i .looking).workers.any ready = true :=
          List.any_eq_true.mpr ⟨_, hmem, rfl⟩
        simp [distance, hlate, hphase, hany, hready]

theorem endangered_iff : s.Endangered bufferSize ↔ ¬ s.Safe := by
  refine exists_exec_iff_not distance ?_ ?_ ?_
  · intro s e t hs he hst
    exact (step_safe_iff hs hst).mpr (quiet_of_own he)
  · intro s hs hlate
    exact not_safe_of_late hlate hs
  · exact fun s => exists_step_nearer

/-! ## What is released twice -/

/-- Before the workers are interrupted the destructor has released nothing; behind, no worker
takes anything, and what was taken before is neither in the list nor released. -/
structure Apart (s : QueueDestructor) : Prop where
  safe : s.Safe
  before : s.phase.interrupted = false → s.queue.Fifo ∧ s.freed = []
  behind : s.phase.interrupted = true →
    ∀ x ∈ s.freed ++ s.queue.handleDataList.map PPerHandleData.number,
      x ∉ s.queue.removed.map Prod.fst

/-- What is in the list has not been taken. -/
theorem not_mem_removed_of_fifo {q : MessageQueue} (hq : q.Fifo) :
    ∀ x ∈ q.handleDataList.map PPerHandleData.number, x ∉ q.removed.map Prod.fst := by
  intro x hx hr
  have hnodup := (List.nodup_append.mp hq.once).1
  rw [hq.order] at hnodup
  have hx' : x ∈ q.handleDataList.reverse.map PPerHandleData.number := by
    rwa [List.map_reverse, List.mem_reverse]
  exact (List.nodup_append.mp hnodup).2.2 x hr x hx' rfl

theorem step_apart (hs : s.Apart) (hq : s.Quiet e) (h : s.step bufferSize e = some t) :
    t.Apart := by
  have hsafe := (step_safe_iff hs.safe h).mpr hq
  cases step_cases h with
  | queued e q ha hstep =>
    refine ⟨hsafe, fun hp => ?_, fun hp => ?_⟩
    · exact ⟨MessageQueue.step_fifo (hs.before hp).1 hstep, (hs.before hp).2⟩
    · have hbehind : s.phase.interrupted = true := hp
      obtain ⟨v, hv, hnot⟩ := exists_worker hbehind ha hstep
      have hall := hs.safe.2.resolve_left (fun h => absurd (hp.symm.trans h) (by decide))
      exact absurd ((hall v hv).symm.trans hnot) (by decide)
  | threw i hp =>
    exact ⟨hsafe, fun hnot => absurd (hp.symm.trans hnot) (by decide), fun _ => hs.behind hp⟩
  | notified hp =>
    obtain ⟨hfifo, hfreed⟩ := hs.before (by rw [hp]; rfl)
    exact ⟨hsafe, fun _ => ⟨⟨hfifo.order, hfifo.once, hfifo.known⟩, hfreed⟩, nofun⟩
  | slept hp => exact ⟨hsafe, fun _ => hs.before (by rw [hp]; rfl), nofun⟩
  | interrupted hp =>
    obtain ⟨hfifo, hfreed⟩ := hs.before (by rw [hp]; rfl)
    refine ⟨hsafe, nofun, fun _ => ?_⟩
    show ∀ x ∈ s.freed ++ _, _
    rw [hfreed]
    exact not_mem_removed_of_fifo hfifo
  | releasedNext k p hp hk =>
    have hbehind := hs.behind (by rw [hp]; rfl)
    refine ⟨hsafe, nofun, fun _ x hx => hbehind x ?_⟩
    have hmem : p.number ∈ s.queue.handleDataList.map PPerHandleData.number :=
      List.mem_map_of_mem (List.mem_of_getElem? hk)
    simp only [releaseEntry, List.mem_append, List.mem_singleton] at hx ⊢
    rcases hx with (hx | rfl) | hx
    · exact .inl hx
    · exact .inr hmem
    · exact .inr hx
  | cleared k hp hk =>
    have hbehind := hs.behind (by rw [hp]; rfl)
    refine ⟨hsafe, nofun, fun _ x hx => hbehind x ?_⟩
    simp only [clearList, List.map_nil, List.append_nil] at hx
    exact List.mem_append_left _ hx
  | finished hp => exact ⟨hsafe, nofun, fun _ => hs.behind (by rw [hp]; rfl)⟩

theorem start_apart (n : ℕ) : (start n).Apart where
  safe := ⟨rfl, .inl rfl⟩
  before _ := ⟨MessageQueue.start_fifo n, rfl⟩
  behind := nofun

theorem Apart.disjoint (hs : s.Apart) : ∀ x ∈ s.freed, x ∉ s.queue.removed.map Prod.fst := by
  intro x hx
  cases hp : s.phase.interrupted with
  | false =>
    rw [(hs.before hp).2] at hx
    cases hx
  | true => exact hs.behind hp x (List.mem_append_left _ hx)

/-- In a run of the destructor beside any number of workers, no worker can come to act after
the destructor has returned if and only if `interrupt_all` finds each of them ended, in
the wait without a notification, or in front of the wait. Then nobody acts late, and
nothing is both released by the destructor and taken by a worker. -/
theorem destructor_iff (bufferSize n : ℕ) (events : List Event) (t : QueueDestructor)
    (h : exec (step bufferSize) (start n) events = some t) :
    (Always (step bufferSize) (fun s => ¬ s.Endangered bufferSize) (start n) events ↔
      Along (step bufferSize) Quiet (start n) events) ∧
    (Along (step bufferSize) Quiet (start n) events →
      Always (step bufferSize) (fun s => ¬ s.late = true ∧
        ∀ x ∈ s.freed, x ∉ s.queue.removed.map Prod.fst) (start n) events) := by
  constructor
  · refine (always_not_iff_along (P := Safe) (Q := fun s => s.late = true)
      (fun s => endangered_iff) ?_ (fun s e t hs hst => step_safe_iff hs hst)
      (start_apart n).safe h).1
    intro s hlate
    exact ⟨[], s, by simp, rfl, hlate⟩
  · intro hquiet
    have happart := always_of_along (fun _ _ _ hs hq hst => step_apart hs hq hst)
      (start_apart n) hquiet
    refine happart.imp (I := fun _ => True) (fun _ _ _ _ _ => trivial) ?_ trivial
    intro s _ hs
    exact ⟨fun hlate => not_safe_of_late hlate hs.safe, hs.disjoint⟩

/-- Two workers, one of which is woken by the destructor and blocks again in time. -/
theorem destructor_waits : ∃ t, exec (step 4) (start 2)
      [.queue (.look 0), .queue (.wait 0), .queue (.look 1), .notifyAll, .queue (.wake 0),
        .queue (.look 0), .sleep, .interruptAll, .throws 0, .clear, .throws 0, .finish] = some t ∧
    (Always (step 4) (fun s => ¬ s.Endangered 4) (start 2)
        [.queue (.look 0), .queue (.wait 0), .queue (.look 1), .notifyAll, .queue (.wake 0),
          .queue (.look 0), .sleep, .interruptAll, .throws 0, .clear, .throws 0, .finish] ↔
      Along (step 4) Quiet (start 2)
        [.queue (.look 0), .queue (.wait 0), .queue (.look 1), .notifyAll, .queue (.wake 0),
          .queue (.look 0), .sleep, .interruptAll, .throws 0, .clear, .throws 0, .finish]) := by
  apply exists_exec (by decide +kernel)
  intro t ht
  exact (destructor_iff 4 2 _ t ht).1

/-- The only worker has taken a message when it is interrupted, and calls the dispatch
function after the destructor has returned. -/
theorem dispatches_after_return :
    ¬ ∀ (bufferSize n : ℕ) (events : List Event) (t : QueueDestructor),
      exec (step bufferSize) (start n) events = some t →
      ¬ t.late = true ∧ ∀ x ∈ t.freed, x ∉ t.queue.removed.map Prod.fst := by
  intro h
  have hrun : (exec (step 4) (start 1)
      [.queue (.copy ⟨100, some 5, [1, 2, 3, 4], 1, 4, 2⟩ (some 7) (fun _ => 0)),
        .queue (.insert 0), .queue (.look 0), .notifyAll, .sleep, .interruptAll, .clear, .finish,
        .queue (.dispatch 0)]).map (fun t => t.late) = some true := by decide +kernel
  obtain ⟨t, ht, hv⟩ := Option.map_eq_some_iff.mp hrun
  exact (h 4 1 _ t ht).1 hv

end QueueDestructor

end Xiaoxin
