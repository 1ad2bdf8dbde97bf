import Xiaoxin.Transition

/-!
# The accepts of an acceptor and its release

`Initialize` posts `_max_prepare_accept_count` accepts. Each completion runs
`accept_handler` on a thread that is in `Start`, and the handler posts an accept again
whatever the completion was. `ReleaseResource` closes the acceptor, which completes all
accepts with an error, so every thread in `Start` has handlers to run while the release
goes on.
-/
namespace Xiaoxin
open Transition

/-- What `ReleaseResource` has done last. -/
inductive Release
  | none | closed | deleted | nulled | cleared | managerReset | stopped | serviceReset | finished
  deriving DecidableEq, Repr

namespace Release

/-- The statement that comes next. -/
def next : Release → Release
  | none => closed
  | closed => deleted
  | deleted => nulled
  | nulled => cleared
  | cleared => managerReset
  | managerReset => stopped
  | stopped => serviceReset
  | _ => finished

/-- `_socket_manager` is null. -/
def managerReleased : Release → Bool
  | none | closed | deleted | nulled | cleared => false
  | _ => true

/-- `run` of the io_service returns without running a handler. -/
def serviceStopped : Release → Bool
  | stopped | serviceReset | finished => true
  | _ => false

end Release

/-- What a running `accept_handler` does next. -/
inductive AcceptHandler
  | postRecvAndFirst | deleteSocket | postAccept
  deriving DecidableEq, Repr

/-- An acceptor after `Initialize`, with the threads that are in `Start`. -/
structure AcceptPool where
  released : Release
  /-- The accepts that are posted and have not completed. -/
  pending : ℕ
  /-- The accepts that have completed, with or without success, and whose handler has
  not begun. -/
  completed : List Bool
  /-- The threads in `run` that have no handler to run. -/
  idle : ℕ
  handlers : List AcceptHandler
  /-- `PostAccept` was called without an open acceptor, or `PostRecvAndFirst` without a
  socket manager. -/
  misused : Bool
  deriving DecidableEq, Repr

namespace AcceptPool

inductive Event
  | start | leave | complete (success : Bool) | dispatch | handle (i : ℕ) | release
  deriving DecidableEq, Repr

/-- After `Initialize`, with `_max_prepare_accept_count` as given. -/
def initial (maxPrepareAcceptCount : ℕ) : AcceptPool :=
  ⟨.none, maxPrepareAcceptCount, [], 0, [], false⟩

/-- A thread calls `Start`. -/
def start (s : AcceptPool) : AcceptPool :=
  if s.released.serviceStopped then s else { s with idle := s.idle + 1 }

/-- `run` returns when it is stopped or there is no work left. -/
def leave (s : AcceptPool) : Option AcceptPool :=
  if s.idle ≠ 0 ∧ (s.released.serviceStopped ∨
      (s.pending = 0 ∧ s.completed = [] ∧ s.handlers = [])) then
    some { s with idle := s.idle - 1 }
  else none

def complete (s : AcceptPool) (success : Bool) : Option AcceptPool :=
  if s.pending ≠ 0 then
    some { s with pending := s.pending - 1, completed := s.completed ++ [success] }
  else none

/-- A thread begins with the handler of the oldest completion. -/
def dispatch (s : AcceptPool) : Option AcceptPool :=
  match s.completed with
  | [] => none
  | success :: completed =>
    if s.idle ≠ 0 ∧ ¬ s.released.serviceStopped then
      some { s with
        completed := completed
        idle := s.idle - 1
        handlers := s.handlers ++ [if success then .postRecvAndFirst else .deleteSocket] }
    else none

/-- The next statement of a running handler. -/
def handle (s : AcceptPool) (i : ℕ) : AcceptHandler → AcceptPool
  | .postRecvAndFirst =>
    { s with
      handlers := s.handlers.set i .postAccept
      misused := s.misused || s.released.managerReleased }
  | .deleteSocket => { s with handlers := s.handlers.set i .postAccept }
  | .postAccept =>
    { s with
      pending := if s.released = .none then s.pending + 1 else s.pending
      idle := s.idle + 1
      handlers := s.handlers.eraseIdx i
      misused := s.misused || decide (s.released ≠ .none) }

/-- The next statement of `ReleaseResource`. To close the acceptor completes its accepts. -/
def release (s : AcceptPool) : AcceptPool :=
  if s.released = .none then
    { s with
      released := .closed
      pending := 0
      completed := s.completed ++ List.replicate s.pending false }
  else { s with released := s.released.next }

def step (s : AcceptPool) : Event → Option AcceptPool
  | .start => some s.start
  | .leave => s.leave
  | .complete success => s.complete success
  | .dispatch => s.dispatch
  | .handle i => s.handlers[i]?.map (s.handle i)
  | .release => some s.release

/-- The accepts whose handler has not begun. -/
def posted (s : AcceptPool) : ℕ := s.pending + s.completed.length

/-- A step that the threads in `Start` take by themselves. -/
def Own : Event → Prop
  | .complete _ => True
  | .dispatch => True
  | .handle _ => True
  | _ => False

/-- The handlers alone can come to misuse what was released. -/
def Endangered (s : AcceptPool) : Prop :=
  ∃ events t, (∀ e ∈ events, Own e) ∧ exec step s events = some t ∧ t.misused = true

/-- Nothing was misused, and if the release has begun no handler runs and none can begin. -/
def Safe (s : AcceptPool) : Prop :=
  s.misused = false ∧
    (s.released = .none ∨
      s.handlers = [] ∧ (s.idle = 0 ∨ s.posted = 0 ∨ s.released.serviceStopped = true))

/-- The release begins while no thread is in `Start` or no accept is posted, and so it is
when a thread calls `Start` during the release. -/
def Quiet (s : AcceptPool) : Event → Prop
  | .release => s.released = .none → s.handlers = [] ∧ (s.idle = 0 ∨ s.posted = 0)
  | .start => s.released = .none ∨ s.released.serviceStopped = true ∨ s.posted = 0
  | _ => True

instance (s : AcceptPool) : ∀ e, Decidable (s.Quiet e)
  | .release => inferInstanceAs (Decidable (s.released = .none →
      s.handlers = [] ∧ (s.idle = 0 ∨ s.posted = 0)))
  | .start => inferInstanceAs (Decidable (s.released = .none ∨
      s.released.serviceStopped = true ∨ s.posted = 0))
  | .leave => isTrue trivial
  | .complete _ => isTrue trivial
  | .dispatch => isTrue trivial
  | .handle _ => isTrue trivial

variable {s t : AcceptPool} {e : Event}

/-- What a step can do. -/
inductive Step (s : AcceptPool) : Event → AcceptPool → Prop
  | started (hp : s.released.serviceStopped = false) : Step s .start { s with idle := s.idle + 1 }
  | startedStopped (hp : s.released.serviceStopped = true) : Step s .start s
  | left (hi : s.idle ≠ 0)
    (hw : s.released.serviceStopped ∨ (s.pending = 0 ∧ s.completed = [] ∧ s.handlers = [])) :
    Step s .leave { s with idle := s.idle - 1 }
  | completed (success : Bool) (hp : s.pending ≠ 0) :
    Step s (.complete success)
      { s with pending := s.pending - 1, completed := s.completed ++ [success] }
  | dispatched (success : Bool) (rest : List Bool) (hc : s.completed = success :: rest)
    (hi : s.idle ≠ 0) (hp : ¬ s.released.serviceStopped) :
    Step s .dispatch
      { s with
        completed := rest
        idle := s.idle - 1
        handlers := s.handlers ++ [if success then .postRecvAndFirst else .deleteSocket] }
  | handled (i : ℕ) (handler : AcceptHandler) (hi : s.handlers[i]? = some handler) :
    Step s (.handle i) (s.handle i handler)
  | closed (hp : s.released = .none) :
    Step s .release
      { s with
        released := .closed
        pending := 0
        completed := s.completed ++ List.replicate s.pending false }
  | went (hp : s.released ≠ .none) : Step s .release { s with released := s.released.next }

theorem step_cases (h : s.step e = some t) : Step s e t := by
  cases e with
  | start =>
    obtain rfl := Option.some.inj h
    unfold start
    split
    · next hp => exact .startedStopped hp
    · next hp => exact .started (by simpa using hp)
  | leave =>
    simp only [step, leave, Option.ite_none_right_eq_some, Option.some.injEq] at h
    obtain ⟨⟨hi, hw⟩, rfl⟩ := h
    exact .left hi hw
  | complete success =>
    simp only [step, complete, Option.ite_none_right_eq_some, Option.some.injEq] at h
    obtain ⟨hp, rfl⟩ := h
    exact .completed success hp
  | dispatch =>
    simp only [step, dispatch] at h
    split at h
    · cases h
    · next success rest hc =>
      simp only [Option.ite_none_right_eq_some, Option.some.injEq] at h
      obtain ⟨⟨hi, hp⟩, rfl⟩ := h
      exact .dispatched success rest hc hi hp
  | handle i =>
    obtain ⟨handler, hi, rfl⟩ := Option.map_eq_some_iff.mp h
    exact .handled i handler hi
  | release =>
    obtain rfl := Option.some.inj h
    unfold release
    split
    · next hp => exact .closed hp
    · next hp => exact .went hp

/-! ## The number of accepts -/

/-- Before the release each accept is posted or its handler runs. -/
def Counted (maxPrepareAcceptCount : ℕ) (s : AcceptPool) : Prop :=
  s.released = .none → s.posted + s.handlers.length = maxPrepareAcceptCount

theorem Counted.handle {n i : ℕ} {handler : AcceptHandler} (hs : s.Counted n)
    (hi : s.handlers[i]? = some handler) : (s.handle i handler).Counted n := by
  obtain ⟨hlt, -⟩ := List.getElem?_eq_some_iff.mp hi
  intro hp
  cases handler with
  | postRecvAndFirst =>
    have hcount := hs hp
    simpa [AcceptPool.handle, posted] using hcount
  | deleteSocket =>
    have hcount := hs hp
    simpa [AcceptPool.handle, posted] using hcount
  | postAccept =>
    have hnone : s.released = .none := hp
    have hcount := hs hnone
    simp only [AcceptPool.handle, posted, hnone, if_true, List.length_eraseIdx, hlt] at hcount ⊢
    omega

theorem Release.next_ne_none (r : Release) : r.next ≠ .none := by
  cases r <;> exact nofun

theorem step_counted {n : ℕ} (hs : s.Counted n) (h : s.step e = some t) : t.Counted n := by
  cases step_cases h with
  | started hp => exact hs
  | startedStopped hp => exact hs
  | left hi hw => exact hs
  | completed success hpending =>
    intro hp
    have hcount := hs hp
    simp only [posted, List.length_append, List.length_singleton] at hcount ⊢
    omega
  | dispatched success rest hc hi hstop =>
    intro hp
    have hcount := hs hp
    simp only [posted, hc, List.length_append, List.length_cons, List.length_nil] at hcount ⊢
    omega
  | handled i handler hi => exact hs.handle hi
  | closed hp => exact nofun
  | went hp => exact fun hnone => absurd hnone (Release.next_ne_none _)

/-! ## The release -/

theorem Release.serviceStopped_next {r : Release} (h : r.serviceStopped = true) :
    r.next.serviceStopped = true := by
  cases r <;> first | rfl | exact absurd h Bool.false_ne_true

/-- The handlers of an acceptor that is not being released misuse nothing. -/
theorem Safe.handle {i : ℕ} {handler : AcceptHandler} (hs : s.Safe)
    (hi : s.handlers[i]? = some handler) : (s.handle i handler).Safe := by
  obtain ⟨hmisused, hp | ⟨hnil, -⟩⟩ := hs
  · cases handler with
    | postRecvAndFirst =>
      exact ⟨by simp [AcceptPool.handle, hmisused, hp, Release.managerReleased], .inl hp⟩
    | deleteSocket => exact ⟨hmisused, .inl hp⟩
    | postAccept => exact ⟨by simp [AcceptPool.handle, hmisused, hp], .inl hp⟩
  · simp [hnil] at hi

/-- A step keeps the acceptor safe exactly when it is quiet. -/
theorem step_safe_iff (hs : s.Safe) (h : s.step e = some t) : t.Safe ↔ s.Quiet e := by
  obtain ⟨hmisused, hsafe⟩ := id hs
  cases step_cases h with
  | started hp =>
    simp only [Safe, Quiet, hmisused, true_and, hp, Bool.false_eq_true, or_false, false_or,
      Nat.add_one_ne_zero, posted] at hsafe ⊢
    refine or_congr_right' fun hnone => ?_
    exact and_iff_right (hsafe.resolve_left hnone).1
  | startedStopped hp => exact iff_of_true hs (.inr (.inl hp))
  | left hi hw =>
    refine iff_of_true ⟨hmisused, hsafe.imp_right fun h => ⟨h.1, h.2.imp_left fun hidle => ?_⟩⟩
      trivial
    simp [hidle]
  | completed success hpending =>
    refine iff_of_true ⟨hmisused, hsafe.imp_right fun h => ⟨h.1, h.2.imp_right fun h => ?_⟩⟩
      trivial
    exact h.imp_left fun hposted => absurd hposted (by simp [posted, hpending])
  | dispatched success rest hc hi hstop =>
    refine iff_of_true ⟨hmisused, .inl (hsafe.resolve_right fun h => ?_)⟩ trivial
    rcases h.2 with hidle | hposted | hstopped
    · exact hi hidle
    · simp [posted, hc] at hposted
    · exact hstop hstopped
  | handled i handler hi => exact iff_of_true (hs.handle hi) trivial
  | closed hp =>
    simp [Safe, Quiet, hmisused, hp, posted, Release.serviceStopped, and_comm]
  | went hp =>
    refine iff_of_true ⟨hmisused, .inr ?_⟩ fun hnone => absurd hnone hp
    obtain ⟨hnil, hquiet⟩ := hsafe.resolve_left hp
    exact ⟨hnil, hquiet.imp_right (Or.imp_right Release.serviceStopped_next)⟩

theorem quiet_of_own (h : Own e) : s.Quiet e := by
  cases e <;> trivial

/-- How far the handlers are from a misuse, in steps. -/
def distance (s : AcceptPool) : ℕ :=
  if s.misused then 0
  else
    match s.handlers with
    | .postAccept :: _ => 1
    | _ :: _ => 2
    | [] => if s.completed = [] then 4 else 3

theorem not_safe_of_handler (hp : s.released ≠ .none) (hh : s.handlers ≠ []) : ¬ s.Safe := by
  intro hs
  exact hh (hs.2.resolve_left hp).1

theorem distance_of_misused (h : s.misused = true) : s.distance = 0 := by
  rw [distance, if_pos h]

/-- A handler that runs during the release. -/
theorem exists_step_of_handler {handler : AcceptHandler} {rest : List AcceptHandler}
    (hp : s.released ≠ .none) (hm : s.misused = false) (hh : s.handlers = handler :: rest) :
    ∃ t, s.step (.handle 0) = some t ∧ ¬ t.Safe ∧ t.distance < s.distance := by
  refine ⟨s.handle 0 handler, by simp [step, hh], ?_⟩
  have hset : (s.handlers.set 0 AcceptHandler.postAccept) = .postAccept :: rest := by
    rw [hh, List.set_cons_zero]
  cases handler with
  | postRecvAndFirst =>
    refine ⟨not_safe_of_handler hp (by simp [handle, hset]), ?_⟩
    simp only [distance, handle, hm, hh, Bool.false_eq_true, if_false, Bool.false_or]
    split <;> simp
  | deleteSocket =>
    refine ⟨not_safe_of_handler hp (by simp [handle, hset]), ?_⟩
    simp [distance, handle, hm, hh]
  | postAccept =>
    have hmisused : (s.handle 0 .postAccept).misused = true := by simp [handle, hp]
    refine ⟨fun hs => absurd (hmisused.symm.trans hs.1) (by decide), ?_⟩
    rw [distance_of_misused hmisused]
    simp [distance, hm, hh]

/-- Once an acceptor is not safe, its handlers come nearer to a misuse. -/
theorem exists_step_nearer (hs : ¬ s.Safe) (hmisused : ¬ s.misused = true) :
    ∃ e t, Own e ∧ s.step e = some t ∧ ¬ t.Safe ∧ t.distance < s.distance := by
  have hm : s.misused = false := by simpa using hmisused
  simp only [Safe, hm, true_and, not_or, not_and] at hs
  obtain ⟨hp, hs⟩ := hs
  cases hh : s.handlers with
  | cons handler rest =>
    obtain ⟨t, ht, hsafe, hlt⟩ := exists_step_of_handler hp hm hh
    exact ⟨.handle 0, t, trivial, ht, hsafe, hlt⟩
  | nil =>
    obtain ⟨hidle, hposted, hstop⟩ := hs hh
    cases hc : s.completed with
    | nil =>
      have hpending : s.pending ≠ 0 := by simpa [posted, hc] using hposted
      refine ⟨.complete false, _, trivial, if_pos hpending, ?_, ?_⟩
      · simp [Safe, hp, hm, hidle, posted, hstop]
      · simp [distance, hm, hh, hc]
    | cons success rest =>
      have hdispatch : s.step .dispatch = some { s with
          completed := rest
          idle := s.idle - 1
          handlers := s.handlers ++ [if success then .postRecvAndFirst else .deleteSocket] } := by
        simp [step, dispatch, hc, hidle, hstop]
      refine ⟨.dispatch, _, trivial, hdispatch, not_safe_of_handler hp (by simp), ?_⟩
      cases success <;> simp [distance, hm, hh, hc]

theorem endangered_iff : s.Endangered ↔ ¬ s.Safe := by
  refine exists_exec_iff_not distance ?_ ?_ ?_
  · intro s e t hs he hst
    exact (step_safe_iff hs hst).mpr (quiet_of_own he)
  · intro s hs hmisused
    exact absurd (hs.1.symm.trans hmisused) (by decide)
  · exact fun s => exists_step_nearer

/-- Before the release begins the accepts that are posted are as many as
`_max_prepare_accept_count` whenever no handler runs. The handlers of a run cannot come to
use what was released if and only if the release begins with no thread in `Start` or no
accept posted, and while it goes on no thread calls `Start` with accepts posted. -/
theorem accept_pool_iff (maxPrepareAcceptCount : ℕ) (events : List Event) (t : AcceptPool)
    (h : exec step (initial maxPrepareAcceptCount) events = some t) :
    Always step (fun s => s.released = .none → s.handlers = [] →
        s.posted = maxPrepareAcceptCount) (initial maxPrepareAcceptCount) events ∧
      (Always step (fun s => ¬ s.Endangered) (initial maxPrepareAcceptCount) events ↔
        Along step Quiet (initial maxPrepareAcceptCount) events) ∧
      (Along step Quiet (initial maxPrepareAcceptCount) events →
        Always step (fun s => ¬ s.misused = true) (initial maxPrepareAcceptCount) events) := by
  constructor
  · have hcounted : Always step (Counted maxPrepareAcceptCount) (initial maxPrepareAcceptCount)
        events :=
      always_of_along (C := fun _ _ => True) (fun _ _ _ hs _ hst => step_counted hs hst)
        (fun _ => rfl) (along_of_forall (fun _ _ => trivial) _ events)
    refine hcounted.imp (I := fun _ => True) (fun _ _ _ _ _ => trivial) ?_ trivial
    intro s _ hs hp hnil
    simpa [hnil] using hs hp
  · refine always_not_iff_along (P := Safe) (fun s => endangered_iff) ?_
      (fun s e t hs hst => step_safe_iff hs hst) ⟨rfl, .inl rfl⟩ h
    intro s hmisused
    exact ⟨[], s, by simp, rfl, hmisused⟩

/-- Two threads in `Start` run the handlers of a successful and a failed accept; and a
release of two accepts that have completed, with no thread in `Start` until the service is
stopped. -/
theorem accept_pool_two :
    (∃ t, exec step (initial 2) [.start, .start, .complete true, .complete false, .dispatch,
        .dispatch, .handle 1, .handle 0, .handle 1, .handle 0] = some t ∧
      Always step (fun s => s.released = .none → s.handlers = [] → s.posted = 2) (initial 2)
        [.start, .start, .complete true, .complete false, .dispatch, .dispatch, .handle 1,
          .handle 0, .handle 1, .handle 0] ∧
      Always step (fun s => ¬ s.Endangered) (initial 2)
        [.start, .start, .complete true, .complete false, .dispatch, .dispatch, .handle 1,
          .handle 0, .handle 1, .handle 0]) ∧
    ∃ t, exec step (initial 2) [.complete true, .complete false, .release, .release, .release,
        .release, .release, .release, .start] = some t ∧
      Always step (fun s => ¬ s.misused = true) (initial 2) [.complete true, .complete false,
        .release, .release, .release, .release, .release, .release, .start] := by
  refine ⟨?_, ?_⟩
  · apply exists_exec (by decide)
    intro t ht
    obtain ⟨hcount, hiff, -⟩ := accept_pool_iff 2 _ t ht
    exact ⟨hcount, hiff.mpr (by decide)⟩
  · apply exists_exec (by decide)
    intro t ht
    exact (accept_pool_iff 2 _ t ht).2.2 (by decide)

/-- One thread in `Start` and one accept: `Stop` closes, deletes and nulls the acceptor, and
the handler of the accept posts another one. -/
theorem posts_on_released_acceptor :
    ¬ ∀ (maxPrepareAcceptCount : ℕ) (events : List Event) (t : AcceptPool),
      exec step (initial maxPrepareAcceptCount) events = some t → ¬ t.misused = true := by
  intro h
  have hrun : (exec step (initial 1) [.start, .release, .release, .release, .dispatch, .handle 0,
      .handle 0]).map (fun t => t.misused) = some true := rfl
  obtain ⟨t, ht, hv⟩ := Option.map_eq_some_iff.mp hrun
  exact h 1 _ t ht hv

end AcceptPool

end Xiaoxin
