import Xiaoxin.Database

/-!
# Whether a connection outlives its borrower

A worker holds the cell that `GetPool` returned until its `ReleasePool`, and
`Shutdown` may come in between: it frees both lists. The connection a worker holds
is identified by the objects in its cell, not by the address, which may be used
again.
-/
namespace Xiaoxin
open Transition DoublyLinked

/-- The connection that the worker got from `GetPool` is still in its cell. -/
def SqlWorker.Intact {w : ℕ} (p : SQLPool w) (v : SqlWorker) : Prop :=
  ∀ d a c, v = .holds d a c → p.connectionAt a = some c

theorem SqlWorker.intact_of_cell {w : ℕ} {p : SQLPool w} {v : SqlWorker} (hv : v.cell = none) :
    v.Intact p := by
  rintro d a c rfl
  cases hv

namespace Database

variable {w : ℕ} {s t : Database w} {ps ns : List ℕ} {i : ℕ} {v z : SqlWorker} {e : Event}

/-- No connection that a worker holds has been freed. -/
def Outlive (s : Database w) : Prop := ∀ v ∈ s.workers, v.Intact s.pool

/-- `Shutdown` comes when no worker holds a connection. -/
def ShutsIdle (s : Database w) (e : Event) : Prop :=
  e = .shutdown → ∀ v ∈ s.workers, v.cell = none

instance (s : Database w) (e : Event) : Decidable (s.ShutsIdle e) := by
  unfold ShutsIdle
  infer_instance

/-- The first list of the pool is what the workers hold. -/
structure Lists (s : Database w) (ps ns : List ℕ) : Prop where
  shape : s.pool.Shape ps ns none
  cells : ps.Perm (s.workers.filterMap SqlWorker.cell)

theorem start_lists (n : ℕ) : (start w n).Lists [] [] := by
  refine ⟨SQLPool.initialized_shape, ?_⟩
  rw [start, List.filterMap_replicate_of_none rfl]

/-- Moves of a worker that holds no connection. -/
theorem Lists.move (hs : s.Lists ps ns) (hi : s.workers[i]? = some v) (hv : v.cell = none)
    (hv' : z.cell = none) : (s.move i z).Lists ps ns := by
  refine ⟨hs.shape, hs.cells.trans ?_⟩
  have hold := Threads.filterMap_perm hi SqlWorker.cell
  have hnew := Threads.filterMap_set_perm hi SqlWorker.cell z
  rw [hv] at hold
  rw [hv'] at hnew
  exact hold.trans hnew.symm

theorem Outlive.move (hs : s.Outlive) (hi : s.workers[i]? = some v) (hv' : z.cell = none) :
    (s.move i z).Outlive :=
  (Threads.forall_set_iff hi).mpr ⟨SqlWorker.intact_of_cell hv', ((Threads.forall_iff hi).mp hs).2⟩

/-- What the other workers hold is kept by a pool operation that keeps `l`. -/
theorem intact_others {p : SQLPool w} {l : List ℕ} (hs : s.Outlive) (hi : s.workers[i]? = some v)
    (hl : ∀ a, a ∈ (s.workers.eraseIdx i).filterMap SqlWorker.cell → a ∈ l)
    (hp : ∀ a ∈ l, p.connectionAt a = s.pool.connectionAt a) :
    ∀ u ∈ s.workers.eraseIdx i, u.Intact p := by
  rintro u hu d a c rfl
  have hold := ((Threads.forall_iff hi).mp hs).2 _ hu d a c rfl
  rw [hp a (hl a (List.mem_filterMap.mpr ⟨_, hu, rfl⟩)), hold]

/-- The lists are as they should be, and no borrowed connection is freed. -/
def Sound (s : Database w) : Prop := ∃ ps ns, s.Lists ps ns ∧ s.Outlive

/-- After `Shutdown` there is no connection. -/
theorem shutdown_frees {p : SQLPool w} (hs : s.Lists ps ns) (hp : s.pool.shutdown = some p) :
    p.Shape [] [] none ∧ ∀ a, p.connectionAt a = none := by
  obtain ⟨q, hq, hshape, -⟩ := SQLPool.shutdown_spec hs.shape
  obtain rfl := Option.some.inj (hp.symm.trans hq)
  refine ⟨hshape, fun a => ?_⟩
  have hcov := hshape.split.covers a
  simp only [List.not_mem_nil, Option.mem_def, reduceCtorEq, or_false, iff_false,
    Option.not_isSome_iff_eq_none] at hcov
  simp [SQLPool.connectionAt, hcov]

theorem shutdown_sound {p : SQLPool w} (hs : s.Lists ps ns) (hp : s.pool.shutdown = some p)
    (hc : ∀ v ∈ s.workers, v.cell = none) : Sound { s with pool := p } := by
  have hcells : s.workers.filterMap SqlWorker.cell = [] := List.filterMap_eq_nil_iff.mpr hc
  refine ⟨[], [], ⟨(shutdown_frees hs hp).1, ?_⟩, fun v hv => SqlWorker.intact_of_cell (hc v hv)⟩
  show List.Perm [] (s.workers.filterMap SqlWorker.cell)
  rw [hcells]

/-- A worker that holds a connection during `Shutdown` loses it. -/
theorem cell_of_shutdown {p : SQLPool w} (hs : s.Lists ps ns) (hp : s.pool.shutdown = some p)
    (ht : Outlive { s with pool := p }) : ∀ v ∈ s.workers, v.cell = none := by
  intro v hv
  cases v with
  | holds d a c =>
    have hfree := (shutdown_frees hs hp).2 a
    exact absurd (hfree.symm.trans (ht _ hv d a c rfl)) (by simp)
  | _ => rfl

theorem refused_sound {r : Answers} {d : Option ℕ} {p : SQLPool w} (hs : s.Lists ps ns)
    (ho : s.Outlive) (hi : s.workers[i]? = some (.took d)) (hr : s.pool.CanAlloc r)
    (hg : s.pool.getPool r = some (p, none)) : Sound { s.move i (.refused d) with pool := p } := by
  have hspec := hg ▸ SQLPool.getPool_spec hs.shape hr
  have hl := hs.move (z := .refused d) hi rfl rfl
  refine ⟨_, _, ⟨hspec.shape hs.shape, hl.cells⟩, (Threads.forall_set_iff hi).mpr
    ⟨SqlWorker.intact_of_cell rfl,
      intact_others ho hi (fun a ha => ?_) (fun a ha => hspec.keeps ha)⟩⟩
  exact hs.cells.mem_iff.mpr ((Threads.filterMap_perm hi _).mem_iff.mpr ha)

theorem obtained_sound {r : Answers} {d : Option ℕ} {p : SQLPool w} {a : ℕ} (hs : s.Lists ps ns)
    (ho : s.Outlive) (hi : s.workers[i]? = some (.took d)) (hr : s.pool.CanAlloc r)
    (hg : s.pool.getPool r = some (p, some a)) :
    Sound { s.move i (.holds d a ((p.connectionAt a).getD 0)) with pool := p } := by
  have hspec := hg ▸ SQLPool.getPool_spec hs.shape hr
  have hshape := hspec.shape hs.shape
  have hold := Threads.filterMap_perm hi SqlWorker.cell
  have hnew := Threads.filterMap_set_perm hi SqlWorker.cell
    (.holds d a ((p.connectionAt a).getD 0))
  have hself : (SqlWorker.holds d a ((p.connectionAt a).getD 0)).Intact p := by
    rintro d' a' c' hv
    cases hv
    obtain ⟨c, hc⟩ := hshape.connectionAt (a := a) (by simp)
    rw [hc, Option.getD_some]
  refine ⟨_, _, ⟨hshape, ((hs.cells.trans hold).cons a).trans hnew.symm⟩,
    (Threads.forall_set_iff hi).mpr ⟨hself, intact_others ho hi (fun b hb => ?_)
      (fun b hb => hspec.keeps hb)⟩⟩
  exact hs.cells.mem_iff.mpr (hold.mem_iff.mpr hb)

theorem released_sound {d : Option ℕ} {a c : ℕ} {p : SQLPool w} (hs : s.Lists ps ns)
    (ho : s.Outlive) (hi : s.workers[i]? = some (.holds d a c))
    (hrel : s.pool.releasePool a false = some p) : Sound { s.move i .testing with pool := p } := by
  have hold := hs.cells.trans (Threads.filterMap_perm hi SqlWorker.cell)
  have hnew := Threads.filterMap_set_perm hi SqlWorker.cell .testing
  obtain ⟨l, m, rfl⟩ := List.append_of_mem (hold.mem_iff.mpr (List.mem_cons_self ..))
  have hrest : (l ++ m).Perm ((s.workers.eraseIdx i).filterMap SqlWorker.cell) :=
    (List.perm_middle.symm.trans hold).cons_inv
  have hna : a ∉ l ++ m :=
    (List.nodup_cons.mp (List.nodup_middle.mp hs.shape.split.first.nodup)).1
  refine ⟨_, _, ⟨SQLPool.releasePool_shape hs.shape hrel, hrest.trans hnew.symm⟩,
    (Threads.forall_set_iff hi).mpr ⟨SqlWorker.intact_of_cell rfl, ?_⟩⟩
  refine intact_others ho hi (fun b hb => hrest.mem_iff.mpr hb) (fun b hb => ?_)
  exact SQLPool.releasePool_keeps hs.shape hrel (ne_of_mem_of_not_mem hb hna)

theorem step_sound (hs : s.Lists ps ns) (ho : s.Outlive) (hc : s.ShutsIdle e)
    (h : s.step e = some t) : t.Sound := by
  cases step_cases h with
  | queued d => exact ⟨ps, ns, ⟨hs.shape, hs.cells⟩, ho⟩
  | closed => exact ⟨ps, ns, ⟨hs.shape, hs.cells⟩, ho⟩
  | shut p hp => exact shutdown_sound hs hp (hc rfl)
  | tested i v hi hv =>
    have hv : v.cell = none := by rcases hv with rfl | rfl <;> rfl
    exact ⟨ps, ns, hs.move hi rfl hv, ho.move hi hv⟩
  | woke i hi => exact ⟨ps, ns, hs.move hi rfl rfl, ho.move hi rfl⟩
  | foundEmpty i d hi hd => exact ⟨ps, ns, hs.move hi rfl rfl, ho.move hi rfl⟩
  | taken i r hi hr =>
    have hl := hs.move (z := .took (some r)) hi rfl rfl
    exact ⟨ps, ns, ⟨hl.shape, hl.cells⟩, ho.move hi rfl⟩
  | thrown i hi hr =>
    have hl := hs.move (z := .dead) hi rfl rfl
    exact ⟨ps, ns, ⟨hl.shape, hl.cells⟩, ho.move hi rfl⟩
  | requeued i d hi =>
    have hl := hs.move (z := .testing) hi rfl rfl
    exact ⟨ps, ns, ⟨hl.shape, hl.cells⟩, ho.move hi rfl⟩
  | refused i r d p hi hr hg => exact refused_sound hs ho hi hr hg
  | obtained i r d p a hi hr hg => exact obtained_sound hs ho hi hr hg
  | released i d a c p hi hrel => exact released_sound hs ho hi hrel

/-- A step keeps every borrowed connection exactly when it is no `Shutdown` in the
middle of a borrowing. -/
theorem step_outlive_iff (hs : s.Lists ps ns) (ho : s.Outlive) (h : s.step e = some t) :
    t.Outlive ↔ s.ShutsIdle e := by
  constructor
  · rintro ht rfl
    cases step_cases h with
    | shut p hp => exact cell_of_shutdown hs hp ht
  · intro hc
    obtain ⟨-, -, -, ht⟩ := step_sound hs ho hc h
    exact ht

theorem start_outlive (n : ℕ) : (start w n).Outlive := by
  intro v hv
  obtain ⟨-, rfl⟩ := List.mem_replicate.mp hv
  exact SqlWorker.intact_of_cell rfl

/-- Every borrowed connection is there until it is released, in all states of a run,
exactly when `Shutdown` comes only while nothing is borrowed. -/
theorem outlive_iff (w n : ℕ) (events : List Event) (s : Database w)
    (h : exec step (start w n) events = some s) :
    Always step Outlive (start w n) events ↔ Along step ShutsIdle (start w n) events := by
  refine always_iff_along_of (I := fun s : Database w => ∃ ps ns, s.Lists ps ns)
    (A := fun _ _ => True) ?_ ?_ ⟨[], [], start_lists n⟩ (start_outlive n)
    (along_of_forall (fun _ _ => trivial) _ _) h
  · rintro s e t ⟨ps, ns, hs⟩ ho - hst
    exact step_outlive_iff hs ho hst
  · rintro s e t ⟨ps, ns, hs⟩ ho ht hst
    obtain ⟨ps', ns', hl, -⟩ := step_sound hs ho ((step_outlive_iff hs ho hst).mp ht) hst
    exact ⟨ps', ns', hl⟩

/-- The program is closed after the worker's iteration. -/
theorem outlive_iff_one : ∃ s : Database 32,
    exec step (start 32 1) [.test 0, .queueRequest (some 7), .wake 0, .getData 0 (some 7),
      .getPool 0 (.fine 1), .releasePool 0, .notifyAllAndClose, .shutdown] = some s ∧
    (Always step Outlive (start 32 1) [.test 0, .queueRequest (some 7), .wake 0,
      .getData 0 (some 7), .getPool 0 (.fine 1), .releasePool 0, .notifyAllAndClose, .shutdown] ↔
    Along step ShutsIdle (start 32 1) [.test 0, .queueRequest (some 7), .wake 0,
      .getData 0 (some 7), .getPool 0 (.fine 1), .releasePool 0, .notifyAllAndClose,
      .shutdown]) := by
  apply exists_exec (by decide +kernel)
  intro s hs
  exact outlive_iff 32 1 _ s hs

/-- The program is closed in the middle of an iteration: the worker holds a cell
that is freed, and its `ReleasePool` would read it. -/
theorem shutdown_frees_borrowed : ∃ s : Database 32,
    exec step (start 32 1) [.test 0, .queueRequest (some 7), .wake 0, .getData 0 (some 7),
      .getPool 0 (.fine 1), .notifyAllAndClose, .shutdown] = some s ∧
    s.workers = [.holds (some 7) 1 0] ∧ s.pool.releasePool 1 false = none ∧ ¬ s.Outlive := by
  have hrun : (exec step (start 32 1) [.test 0, .queueRequest (some 7), .wake 0,
      .getData 0 (some 7), .getPool 0 (.fine 1), .notifyAllAndClose, .shutdown]).map
      (fun s => (s.workers, s.pool.connectionAt 1, (s.pool.releasePool 1 false).isNone)) =
      some ([.holds (some 7) 1 0], none, true) := by decide +kernel
  obtain ⟨s, hs, hv⟩ := Option.map_eq_some_iff.mp hrun
  obtain ⟨hworkers, hcell, hrel⟩ : s.workers = [.holds (some 7) 1 0] ∧
      s.pool.connectionAt 1 = none ∧ (s.pool.releasePool 1 false).isNone = true := by simpa using hv
  refine ⟨s, hs, hworkers, Option.isNone_iff_eq_none.mp hrel, fun ho => ?_⟩
  have := ho (.holds (some 7) 1 0) (by simp [hworkers]) (some 7) 1 0 rfl
  simp [hcell] at this

end Database
end Xiaoxin
