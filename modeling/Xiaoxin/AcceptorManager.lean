import Xiaoxin.AcceptorConnectorBase
import Xiaoxin.Transition

/-!
# Starting the acceptor again

`RunAll` makes an acceptor, hands it the receive manager and waits for its threads; when
they have ended it drops the acceptor and starts over, at most three times. The
destructor of an acceptor deletes the receive manager it was handed, so the manager is
gone after the first round, and `RunAll` goes on with the same pointer.

A step is what one statement of the loop does; `StopAll` may set `_is_end` between any
two of them.
-/
namespace Xiaoxin
open Transition

namespace AcceptorConnectorBase

/-- The number of receive managers that `ReleaseResource` deletes. -/
def deletes (b : AcceptorConnectorBase) : ℕ := if b.receiveManager.isSome then 1 else 0

end AcceptorConnectorBase

namespace Acceptor

/-- The constructor. -/
def new (prepareAcceptSocketCount : ℕ) : Acceptor :=
  ⟨AcceptorConnectorBase.new, prepareAcceptSocketCount, 0⟩

/-- The receive managers that the destructor deletes: `~Acceptor` and then
`~Acceptor_Connector_Base` call `ReleaseResource`. -/
def destroy (a : Acceptor) : ℕ := a.base.deletes + a.base.releaseResource.deletes

end Acceptor

/-- The statement of `RunAll` that comes next. -/
inductive Point
  | loop | initializing | joining | resetting | counting | returned | thrown
  deriving DecidableEq, Repr

/-- How a call of `Initialize` ends: it can throw before or after it has stored the
receive manager. -/
inductive Outcome
  | success | throwsBefore | throwsBehind
  deriving DecidableEq, Repr

/-- `AcceptorManager` in a call of `RunAll`. -/
structure AcceptorManager where
  isEnd : Bool
  tmpCount : ℕ
  tmpAcceptor : Option Acceptor
  point : Point
  /-- How often the receive manager was deleted. -/
  deletions : ℕ
  /-- For each call of `Initialize`, whether the receive manager was deleted before. -/
  onDeleted : List Bool

namespace AcceptorManager

inductive Event
  | stopAll | test | initializeWith (outcome : Outcome) | joinAll | reset | count
  deriving DecidableEq, Repr

/-- The beginning of `RunAll`. -/
def start (isEnd : Bool) : AcceptorManager := ⟨isEnd, 3, none, .loop, 0, []⟩

/-- `while(!_is_end)`, and the new acceptor. -/
def test (prepareAcceptSocketCount : ℕ) (s : AcceptorManager) : AcceptorManager :=
  if s.isEnd then { s with point := .returned }
  else
    { s with tmpAcceptor := some (Acceptor.new prepareAcceptSocketCount), point := .initializing }

/-- `Initialize`; when it throws, the acceptor is destroyed on the way out. -/
def initializeAcceptor (recvMng : ReceiveManager) (s : AcceptorManager) (a : Acceptor) :
    Outcome → AcceptorManager
  | .success =>
    { s with
      tmpAcceptor := a.initializeWith (some recvMng)
      point := .joining
      onDeleted := s.onDeleted ++ [decide (s.deletions ≠ 0)] }
  | .throwsBefore =>
    { s with
      tmpAcceptor := none
      point := .thrown
      deletions := s.deletions + a.destroy
      onDeleted := s.onDeleted ++ [decide (s.deletions ≠ 0)] }
  | .throwsBehind =>
    { s with
      tmpAcceptor := none
      point := .thrown
      deletions := s.deletions +
        ((a.initializeWith (some recvMng)).map Acceptor.destroy).getD 0
      onDeleted := s.onDeleted ++ [decide (s.deletions ≠ 0)] }

/-- `tmp_acceptor.reset()`: no thread holds the acceptor any more. -/
def reset (s : AcceptorManager) : AcceptorManager :=
  { s with
    tmpAcceptor := none
    point := .counting
    deletions := s.deletions + (s.tmpAcceptor.map Acceptor.destroy).getD 0 }

/-- The end of the loop's body; the debug build throws when the attempts are used up. -/
def count (debug : Bool) (s : AcceptorManager) : AcceptorManager :=
  { s with
    tmpCount := s.tmpCount - 1
    point :=
      if s.isEnd then .returned
      else if s.tmpCount - 1 = 0 then (if debug then .thrown else .returned)
      else .loop }

def step (debug : Bool) (recvMng : ReceiveManager) (prepareAcceptSocketCount : ℕ)
    (s : AcceptorManager) : Event → Option AcceptorManager
  | .stopAll => some { s with isEnd := true }
  | .test => if s.point = .loop then some (s.test prepareAcceptSocketCount) else none
  | .initializeWith outcome =>
    if s.point = .initializing then
      s.tmpAcceptor.map fun a => s.initializeAcceptor recvMng a outcome
    else none
  | .joinAll => if s.point = .joining then some { s with point := .resetting } else none
  | .reset => if s.point = .resetting then some s.reset else none
  | .count => if s.point = .counting then some (s.count debug) else none

/-- No `Initialize` was given a deleted manager, and it was deleted once at most. -/
def Sound (s : AcceptorManager) : Prop := (∀ d ∈ s.onDeleted, d = false) ∧ s.deletions ≤ 1

/-- `Initialize` is called in the first round only. -/
def FirstRound (s : AcceptorManager) (e : Event) : Prop :=
  ∀ outcome, e = .initializeWith outcome → s.tmpCount = 3

variable {debug : Bool} {recvMng : ReceiveManager} {n : ℕ} {s t : AcceptorManager}

/-- The rounds that are over have deleted the manager once each. -/
structure Inv (s : AcceptorManager) : Prop where
  positive : s.point ∈ [.loop, .initializing, .joining, .resetting, .counting] → 0 < s.tmpCount
  before : s.point ∈ [.loop, .initializing, .joining, .resetting] → s.deletions + s.tmpCount = 3
  counting : s.point = .counting → s.deletions + s.tmpCount = 4
  fresh : s.point = .initializing → ∃ n, s.tmpAcceptor = some (Acceptor.new n)
  holds : s.point ∈ [.joining, .resetting] →
    (s.tmpAcceptor.map Acceptor.destroy).getD 0 = 1 ∧ (s.tmpCount = 3 ∨ true ∈ s.onDeleted)

theorem start_inv (isEnd : Bool) : (start isEnd).Inv where
  positive _ := Nat.succ_pos 2
  before _ := rfl
  counting := nofun
  fresh := nofun
  holds h := absurd h (by simp [start])

/-- What a step can do. -/
inductive Step (s : AcceptorManager) : Event → AcceptorManager → Prop
  | stopped : Step s .stopAll { s with isEnd := true }
  | ended (hp : s.point = .loop) : Step s .test { s with point := .returned }
  | entered (n : ℕ) (hp : s.point = .loop) :
    Step s .test { s with tmpAcceptor := some (Acceptor.new n), point := .initializing }
  | initialized (n : ℕ) (recvMng : ReceiveManager) (outcome : Outcome)
    (hp : s.point = .initializing) :
    Step s (.initializeWith outcome) (s.initializeAcceptor recvMng (Acceptor.new n) outcome)
  | joined (hp : s.point = .joining) : Step s .joinAll { s with point := .resetting }
  | dropped (hp : s.point = .resetting) : Step s .reset s.reset
  | counted (debug : Bool) (hp : s.point = .counting) : Step s .count (s.count debug)

theorem step_cases (hs : s.Inv) {e : Event} (h : s.step debug recvMng n e = some t) :
    Step s e t := by
  cases e with
  | stopAll =>
    obtain rfl := Option.some.inj h
    exact .stopped
  | test =>
    simp only [step, Option.ite_none_right_eq_some, Option.some.injEq] at h
    obtain ⟨hp, rfl⟩ := h
    unfold test
    split
    · exact .ended hp
    · exact .entered n hp
  | initializeWith outcome =>
    simp only [step, Option.ite_none_right_eq_some] at h
    obtain ⟨hp, h⟩ := h
    obtain ⟨n, ha⟩ := hs.fresh hp
    rw [ha] at h
    obtain rfl := Option.some.inj h
    exact .initialized n recvMng outcome hp
  | joinAll =>
    simp only [step, Option.ite_none_right_eq_some, Option.some.injEq] at h
    obtain ⟨hp, rfl⟩ := h
    exact .joined hp
  | reset =>
    simp only [step, Option.ite_none_right_eq_some, Option.some.injEq] at h
    obtain ⟨hp, rfl⟩ := h
    exact .dropped hp
  | count =>
    simp only [step, Option.ite_none_right_eq_some, Option.some.injEq] at h
    obtain ⟨hp, rfl⟩ := h
    exact .counted debug hp

theorem Inv.initializeAcceptor (hs : s.Inv) (hp : s.point = .initializing) (n : ℕ)
    (outcome : Outcome) : (s.initializeAcceptor recvMng (Acceptor.new n) outcome).Inv := by
  have hpos := hs.positive (by simp [hp])
  have hcount := hs.before (by simp [hp])
  cases outcome with
  | success =>
    refine ⟨fun _ => hpos, fun _ => hcount, nofun, nofun, fun _ => ⟨rfl, ?_⟩⟩
    by_cases hthree : s.tmpCount = 3
    · exact .inl hthree
    · have hdeleted : decide (s.deletions ≠ 0) = true := decide_eq_true (by omega)
      simp [AcceptorManager.initializeAcceptor, hdeleted]
  | throwsBefore =>
    constructor <;> intro h <;> simp [AcceptorManager.initializeAcceptor] at h
  | throwsBehind =>
    constructor <;> intro h <;> simp [AcceptorManager.initializeAcceptor] at h

theorem Inv.count (hs : s.Inv) (hp : s.point = .counting) (debug : Bool) :
    (s.count debug).Inv := by
  have hpos := hs.positive (by simp [hp])
  have hcount := hs.counting hp
  unfold AcceptorManager.count
  by_cases hend : s.isEnd = true
  · constructor <;> intro h <;> simp [hend] at h
  · by_cases hzero : s.tmpCount - 1 = 0
    · cases debug <;> constructor <;> intro h <;> simp [hend, hzero] at h
    · simp only [hend, hzero, if_false, Bool.false_eq_true]
      refine ⟨fun _ => ?_, fun _ => ?_, nofun, nofun, fun h => absurd h (by simp)⟩
      · exact Nat.pos_of_ne_zero hzero
      · show s.deletions + (s.tmpCount - 1) = 3
        omega

theorem step_inv (hs : s.Inv) {e : Event} (h : s.step debug recvMng n e = some t) : t.Inv := by
  cases step_cases hs h with
  | stopped => exact ⟨hs.positive, hs.before, hs.counting, hs.fresh, hs.holds⟩
  | ended hp => constructor <;> intro h <;> simp at h
  | entered n hp =>
    exact ⟨fun _ => hs.positive (by simp [hp]), fun _ => hs.before (by simp [hp]), nofun,
      fun _ => ⟨n, rfl⟩, fun h => absurd h (by simp)⟩
  | initialized n recvMng outcome hp => exact hs.initializeAcceptor hp n outcome
  | joined hp =>
    exact ⟨fun _ => hs.positive (by simp [hp]), fun _ => hs.before (by simp [hp]), nofun, nofun,
      fun _ => hs.holds (by simp [hp])⟩
  | dropped hp =>
    have hone := (hs.holds (by simp [hp])).1
    have hcount := hs.before (by simp [hp])
    refine ⟨fun _ => hs.positive (by simp [hp]), fun h => absurd h (by simp [reset]), fun _ => ?_,
      nofun, fun h => absurd h (by simp [reset])⟩
    show s.deletions + (s.tmpAcceptor.map Acceptor.destroy).getD 0 + s.tmpCount = 4
    omega
  | counted debug hp => exact hs.count hp debug

/-! ## Which calls find the manager -/

theorem sound_initializeAcceptor_iff (hs : s.Inv) (hsound : s.Sound)
    (hp : s.point = .initializing) (n : ℕ) (outcome : Outcome) :
    (s.initializeAcceptor recvMng (Acceptor.new n) outcome).Sound ↔ s.tmpCount = 3 := by
  have hcount := hs.before (by simp [hp])
  have hdeleted : decide (s.deletions ≠ 0) = false ↔ s.tmpCount = 3 := by
    rw [decide_eq_false_iff_not, not_not]
    omega
  have hlog : (∀ d ∈ s.onDeleted ++ [decide (s.deletions ≠ 0)], d = false) ↔ s.tmpCount = 3 := by
    simp only [List.forall_mem_append, List.forall_mem_singleton, hdeleted]
    exact and_iff_right hsound.1
  have hle (k : ℕ) (hk : k ≤ 1) (hthree : s.tmpCount = 3) : s.deletions + k ≤ 1 := by omega
  cases outcome with
  | success =>
    refine ⟨fun h => hlog.mp h.1, fun h => ⟨hlog.mpr h, hle 0 (Nat.zero_le 1) h⟩⟩
  | throwsBefore =>
    exact ⟨fun h => hlog.mp h.1, fun h => ⟨hlog.mpr h, hle 0 (Nat.zero_le 1) h⟩⟩
  | throwsBehind =>
    exact ⟨fun h => hlog.mp h.1, fun h => ⟨hlog.mpr h, hle 1 (Nat.le_refl 1) h⟩⟩

theorem step_sound_iff (hs : s.Inv) (hsound : s.Sound) {e : Event}
    (h : s.step debug recvMng n e = some t) : t.Sound ↔ s.FirstRound e := by
  cases step_cases hs h with
  | initialized n recvMng outcome hp =>
    rw [sound_initializeAcceptor_iff hs hsound hp]
    exact ⟨fun h _ _ => h, fun h => h outcome rfl⟩
  | dropped hp =>
    obtain ⟨hone, hthree⟩ := hs.holds (by simp [hp])
    have hcount := hs.before (by simp [hp])
    refine iff_of_true ⟨hsound.1, ?_⟩ nofun
    have htmp : s.tmpCount = 3 :=
      hthree.resolve_right fun hmem => absurd (hsound.1 true hmem) (by decide)
    show s.deletions + (s.tmpAcceptor.map Acceptor.destroy).getD 0 ≤ 1
    omega
  | stopped => exact iff_of_true hsound nofun
  | ended hp => exact iff_of_true hsound nofun
  | entered n hp => exact iff_of_true hsound nofun
  | joined hp => exact iff_of_true hsound nofun
  | counted debug hp => exact iff_of_true hsound nofun

/-- In a run of `RunAll` no `Initialize` is given a deleted manager and the manager is deleted
once at most, if and only if `Initialize` is called in the first round only. -/
theorem manager_survives_iff (debug : Bool) (recvMng : ReceiveManager)
    (prepareAcceptSocketCount : ℕ) (isEnd : Bool) (events : List Event) (t : AcceptorManager)
    (h : exec (step debug recvMng prepareAcceptSocketCount) (start isEnd) events = some t) :
    Always (step debug recvMng prepareAcceptSocketCount) Sound (start isEnd) events ↔
      Along (step debug recvMng prepareAcceptSocketCount) FirstRound (start isEnd) events :=
  always_iff_along (I := Inv) (fun _ _ _ hs hst => step_inv hs hst)
    (fun _ _ _ hs hsound hst => step_sound_iff hs hsound hst) (start_inv isEnd)
    ⟨by simp [start], Nat.zero_le 1⟩ h

/-- `StopAll` during the first round. -/
theorem manager_survives_stopped :
    ∃ t, exec (step true ⟨16384, false, by decide⟩ 2000) (start false)
        [.test, .initializeWith .success, .stopAll, .joinAll, .reset, .count] = some t ∧
      (Always (step true ⟨16384, false, by decide⟩ 2000) Sound (start false)
          [.test, .initializeWith .success, .stopAll, .joinAll, .reset, .count] ↔
        Along (step true ⟨16384, false, by decide⟩ 2000) FirstRound (start false)
          [.test, .initializeWith .success, .stopAll, .joinAll, .reset, .count]) := by
  apply exists_exec rfl
  intro t ht
  exact manager_survives_iff true ⟨16384, false, by decide⟩ 2000 false _ t ht

/-- The threads of the first acceptor end at once, since there is nothing to accept, and
the second acceptor is given the deleted manager. -/
theorem manager_deleted_twice :
    ¬ ∀ (recvMng : ReceiveManager) (events : List Event) (t : AcceptorManager),
      exec (step false recvMng 0) (start false) events = some t → t.Sound := by
  intro h
  have hrun : (exec (step false ⟨16384, false, by decide⟩ 0) (start false)
      [.test, .initializeWith .success, .joinAll, .reset, .count,
        .test, .initializeWith .success, .joinAll, .reset, .count]).map
      (fun t => (t.onDeleted, t.deletions)) = some ([false, true], 2) := rfl
  obtain ⟨t, ht, hv⟩ := Option.map_eq_some_iff.mp hrun
  have hsound := (h _ _ t ht).2
  have htwo : t.deletions = 2 := congrArg Prod.snd hv
  omega

end AcceptorManager

end Xiaoxin
