import Xiaoxin.OdbcCalls

/-!
# The handles over whole runs

Runs of `GetPool`, `ReleasePool` and `Shutdown` with the calls they make to the driver.
Without the calls such a run is one of `Borrowing`. However the driver answers, it is
never called out of turn, and the handles it has given out are those in the cells of the
pool, each in one of them; after `Shutdown` it has all of them back.
-/
namespace Xiaoxin
open Transition DoublyLinked Odbc

structure OdbcBorrowing (w : ℕ) where
  odbc : OdbcPool w
  borrowed : List ℕ
  faulted : Bool

namespace OdbcBorrowing

variable {w : ℕ}

inductive Call
  | getPool (r : DriverAnswers)
  | releasePool (a : ℕ) (isDelete : Bool)
  | shutdown
  deriving DecidableEq, Repr

def start (w : ℕ) : OdbcBorrowing w := ⟨OdbcPool.initialized w, [], false⟩

/-- The effect of a call that came back, or the calls that were made to the end of the process. -/
def returned (s : OdbcBorrowing w) {α : Type} (o : Except (List Odbc.Call) α)
    (f : α → OdbcBorrowing w) : OdbcBorrowing w :=
  match o with
  | .error calls => { s with odbc.calls := calls, faulted := true }
  | .ok x => f x

def step (s : OdbcBorrowing w) : Call → Option (OdbcBorrowing w)
  | .getPool r =>
    if s.faulted = false ∧ s.odbc.pool.CanAlloc r.answers then
      some (s.returned (s.odbc.getPool r) fun o =>
        { s with odbc := o.1, borrowed := o.2.toList ++ s.borrowed })
    else none
  | .releasePool a isDelete =>
    if s.faulted = false ∧ a ∈ s.borrowed then
      some (s.returned (s.odbc.releasePool a isDelete) fun p =>
        { s with odbc := p, borrowed := s.borrowed.erase a })
    else none
  | .shutdown =>
    if s.faulted = false then
      some (s.returned s.odbc.shutdown fun p => { s with odbc := p, borrowed := [] })
    else none

/-- The run without the calls to the driver. -/
def toBorrowing (s : OdbcBorrowing w) : Borrowing w := ⟨s.odbc.pool, s.borrowed, s.faulted⟩

def Call.toCall : Call → Borrowing.Call
  | .getPool r => .getPool r.answers
  | .releasePool a isDelete => .releasePool a isDelete
  | .shutdown => .shutdown

/-- Either the lists are in order and their handles given out, or the process is gone. -/
inductive Inv (s : OdbcBorrowing w) : Prop
  | running (ps ns : List ℕ) (alive : s.faulted = false) (ready : s.odbc.Ready ps ns)
    (borrowed : ps.Perm s.borrowed)
  | gone (e : Bool) (os : List Handles) (faulted : s.faulted = true)
    (owned : OdbcPool.Owned e os s.odbc.calls)

theorem start_inv : (start w).Inv := .running [] [] rfl OdbcPool.initialized_ready .nil

/-- A step keeps the invariant and is a step of the pool. -/
theorem step_inv {s t : OdbcBorrowing w} {call : Call} (hs : s.Inv) (h : s.step call = some t) :
    t.Inv ∧ s.toBorrowing.step call.toCall = some t.toBorrowing := by
  cases hs with
  | gone e os hf ho => cases call <;> simp [step, hf] at h
  | running ps ns hf hp hb =>
    cases call with
    | getPool r =>
      simp only [step] at h
      split_ifs at h with hr
      obtain rfl := Option.some.inj h
      rcases OdbcPool.getPool_spec hp hr.2 with ⟨calls, e, os, hg, hg', ho⟩ | ⟨q, c, hg, hg', hq⟩
      · refine ⟨?_, ?_⟩
        · rw [hg]
          exact .gone e os rfl ho
        · simp [toBorrowing, Call.toCall, Borrowing.step, Borrowing.returned, returned, hr, hg, hg']
      · refine ⟨?_, ?_⟩
        · rw [hg]
          exact .running _ _ hf hq (hb.append_left _)
        · simp [toBorrowing, Call.toCall, Borrowing.step, Borrowing.returned, returned, hr, hg, hg']
    | releasePool a isDelete =>
      simp only [step] at h
      split_ifs at h with ha
      obtain rfl := Option.some.inj h
      obtain ⟨l, m, rfl⟩ := List.append_of_mem (hb.mem_iff.mpr ha.2)
      obtain ⟨q, hg, hg', hq⟩ := OdbcPool.releasePool_spec hp isDelete
      have hperm := (List.perm_middle.symm.trans hb).erase a
      rw [List.erase_cons_head] at hperm
      refine ⟨?_, ?_⟩
      · rw [hg]
        exact .running _ _ hf hq hperm
      · simp [toBorrowing, Call.toCall, Borrowing.step, Borrowing.returned, returned, hf, ha.2, hg,
          hg']
    | shutdown =>
      simp only [step] at h
      split_ifs at h
      obtain rfl := Option.some.inj h
      obtain ⟨q, hg, hg', hq⟩ := OdbcPool.shutdown_spec hp
      refine ⟨?_, ?_⟩
      · rw [hg]
        exact .running [] [] hf hq .nil
      · simp [toBorrowing, Call.toCall, Borrowing.step, Borrowing.returned, returned, hf, hg, hg']

theorem inv {s : OdbcBorrowing w} {calls : List Call} (h : exec step (start w) calls = some s) :
    s.Inv := invariant (fun _ _ _ hs hst => (step_inv hs hst).1) start_inv h

theorem exec_toBorrowing_of_inv {s t : OdbcBorrowing w} {calls : List Call} (hs : s.Inv)
    (h : exec step s calls = some t) :
    exec Borrowing.step s.toBorrowing (calls.map Call.toCall) = some t.toBorrowing := by
  induction calls generalizing s with
  | nil => exact congrArg (fun o => o.map toBorrowing) h
  | cons c calls ih =>
    obtain ⟨u, hu, h⟩ := exec_cons_eq_some.mp h
    obtain ⟨hinv, hstep⟩ := step_inv hs hu
    exact exec_cons_eq_some.mpr ⟨u.toBorrowing, hstep, ih hinv h⟩

/-- Without the calls to the driver a run is one of the pool. -/
theorem exec_toBorrowing {s : OdbcBorrowing w} {calls : List Call}
    (h : exec step (start w) calls = some s) :
    exec Borrowing.step (Borrowing.start w) (calls.map Call.toCall) = some s.toBorrowing :=
  exec_toBorrowing_of_inv start_inv h

/-- What the objects of the cell at `a` hold. -/
def HasHandles (s : OdbcBorrowing w) (a h t : ℕ) : Prop :=
  ∃ v, s.odbc.pool.connectionAt a = some v ∧ s.odbc.objects v = (⟨some h⟩, ⟨some t⟩)

theorem HasHandles.handlesAt {s : OdbcBorrowing w} {a h t : ℕ} (ha : s.HasHandles a h t) :
    s.odbc.handlesAt a = .ready h t := by
  obtain ⟨v, hv, hobj⟩ := ha
  simp [OdbcPool.handlesAt, hv, hobj, OdbcPool.handlesOf]

section Ready

variable {s : OdbcBorrowing w} {ps ns : List ℕ} {a h t : ℕ}

theorem mem_of_hasHandles (hp : s.odbc.Ready ps ns) (ha : s.HasHandles a h t) : a ∈ ps ++ ns := by
  obtain ⟨v, hv, -⟩ := ha
  have hmem := (hp.shape.split.covers a).mp (OdbcPool.connectionAt_isSome hv)
  simpa using hmem

theorem mem_handles_iff (hp : s.odbc.Ready ps ns) {o : Handles} :
    o ∈ (ps ++ ns).map s.odbc.handlesAt ↔ ∃ a h t, s.HasHandles a h t ∧ o = .ready h t := by
  constructor
  · intro ho
    obtain ⟨a, ha, rfl⟩ := List.mem_map.mp ho
    obtain ⟨v, h, t, hobj⟩ := hp.objects a ha
    have hhas : s.HasHandles a h t := ⟨v, hobj⟩
    exact ⟨a, h, t, hhas, hhas.handlesAt⟩
  · rintro ⟨a, h, t, ha, rfl⟩
    exact List.mem_map.mpr ⟨a, mem_of_hasHandles hp ha, ha.handlesAt⟩

end Ready

/-- No call is out of turn, and as long as the process is there the driver has given out
what the cells hold: to each an open connection with one statement, to no two of them
the same. Without an environment it has everything back. -/
theorem handles_of_cells (w : ℕ) (calls : List Call) (s : OdbcBorrowing w)
    (h : exec step (start w) calls = some s)
    (hd : Along Driver.step Driver.Possible Driver.start s.odbc.calls) :
    ∃ d, exec Driver.step Driver.start s.odbc.calls = some d ∧ (s.faulted = false →
      d.environment = s.odbc.pool.mSqlEnv ∧
      (d.environment = false → d = ⟨false, ∅, ∅, ∅⟩) ∧
      (∀ a, (s.odbc.pool.heap a).isSome → ∃ h t, s.HasHandles a h t) ∧
      (∀ h, h ∈ d.connections ↔ ∃ a t, s.HasHandles a h t) ∧ d.connected = d.connections ∧
      (∀ t h, (t, h) ∈ d.statements ↔ ∃ a, s.HasHandles a h t) ∧
      ∀ a b h t u, s.HasHandles a h t → s.HasHandles b h u → a = b) := by
  cases inv h with
  | gone e os hf ho =>
    obtain ⟨d, hd, -⟩ := ho Driver.start rfl hd
    exact ⟨d, hd, fun hf' => by simp [hf] at hf'⟩
  | running ps ns hf hp hb =>
    obtain ⟨d, hd, hholds⟩ := hp.owned Driver.start rfl hd
    have hconnections (h : ℕ) : h ∈ d.connections ↔ ∃ a t, s.HasHandles a h t := by
      simp only [hholds.connections, mem_handles_iff hp]
      constructor
      · rintro ⟨-, ⟨a, g, t, ha, rfl⟩, hg⟩
        exact ⟨a, t, Option.some.inj hg ▸ ha⟩
      · rintro ⟨a, t, ha⟩
        exact ⟨_, ⟨a, h, t, ha, rfl⟩, rfl⟩
    refine ⟨d, hd, fun _ => ⟨hholds.environment, fun he => ?_, fun a ha => ?_, hconnections, ?_,
      fun t h => ?_, fun a b h t u ha hb => ?_⟩⟩
    · have hnil := hp.environment.resolve_left (by simp [← hholds.environment, he])
      rw [hnil] at hholds
      rw [hholds.eq, ← hholds.environment, he]
    · have hmem := (hp.shape.split.covers a).mp ha
      obtain ⟨v, h, t, hobj⟩ := hp.objects a (by simpa using hmem)
      exact ⟨h, t, v, hobj⟩
    · ext h
      rw [hconnections, hholds.connected]
      simp only [mem_handles_iff hp]
      constructor
      · rintro ⟨-, ⟨a, g, t, ha, rfl⟩, hg⟩
        exact ⟨a, t, Option.some.inj hg ▸ ha⟩
      · rintro ⟨a, t, ha⟩
        exact ⟨_, ⟨a, h, t, ha, rfl⟩, rfl⟩
    · simp only [hholds.statements, mem_handles_iff hp]
      constructor
      · rintro ⟨-, ⟨a, g, u, ha, rfl⟩, hu, hg⟩
        obtain rfl := Option.some.inj hu
        obtain rfl := Option.some.inj hg
        exact ⟨a, ha⟩
      · rintro ⟨a, ha⟩
        exact ⟨_, ⟨a, h, t, ha, rfl⟩, rfl, rfl⟩
    · by_contra hab
      have hsymm : Std.Symm fun a b => (s.odbc.handlesAt a).Apart (s.odbc.handlesAt b) :=
        ⟨fun _ _ h => h.symm⟩
      have hpair := (List.pairwise_map.mp hholds.apart).forall
        (mem_of_hasHandles hp ha) (mem_of_hasHandles hp hb) hab
      rw [ha.handlesAt, hb.handlesAt] at hpair
      exact hpair.1 h rfl rfl

/-- A statement comes with information and is given back, two connections are made, one
of them is found dead, its handles are given out again, and the pool is shut down. -/
theorem handles_of_cells_reused : ∃ s : OdbcBorrowing 32,
    exec step (start 32) [
      .getPool ⟨false, some 1, .success 7, .success, .successWithInfo 3⟩,
      .getPool ⟨false, some 1, .success 7, .successWithInfo, .success 3⟩,
      .getPool ⟨false, some 2, .success 8, .success, .success 4⟩,
      .releasePool 1 false,
      .getPool ⟨true, some 1, .success 7, .success, .success 3⟩,
      .shutdown] = some s ∧
    ∃ d, exec Driver.step Driver.start s.odbc.calls = some d ∧ (s.faulted = false →
      d.environment = s.odbc.pool.mSqlEnv ∧
      (d.environment = false → d = ⟨false, ∅, ∅, ∅⟩) ∧
      (∀ a, (s.odbc.pool.heap a).isSome → ∃ h t, s.HasHandles a h t) ∧
      (∀ h, h ∈ d.connections ↔ ∃ a t, s.HasHandles a h t) ∧ d.connected = d.connections ∧
      (∀ t h, (t, h) ∈ d.statements ↔ ∃ a, s.HasHandles a h t) ∧
      ∀ a b h t u, s.HasHandles a h t → s.HasHandles b h u → a = b) := by
  have hrun : (exec step (start 32) [
      .getPool ⟨false, some 1, .success 7, .success, .successWithInfo 3⟩,
      .getPool ⟨false, some 1, .success 7, .successWithInfo, .success 3⟩,
      .getPool ⟨false, some 2, .success 8, .success, .success 4⟩,
      .releasePool 1 false,
      .getPool ⟨true, some 1, .success 7, .success, .success 3⟩,
      .shutdown]).map (fun s =>
        decide (Along Driver.step Driver.Possible Driver.start s.odbc.calls)) = some true := by
    decide +kernel
  obtain ⟨s, hs, hd⟩ := Option.map_eq_some_iff.mp hrun
  exact ⟨s, hs, handles_of_cells 32 _ s hs (of_decide_eq_true hd)⟩

end OdbcBorrowing
end Xiaoxin
