import Xiaoxin.PoolCalls

/-!
# Connections handed out by the pool

Runs of `GetPool`, `ReleasePool` and `Shutdown` on one pool, with any answers from
the allocator and the driver. Beside the pool the state keeps the addresses that
`GetPool` returned and that are not released yet; `ReleasePool` is called on these
only, in any order. `Shutdown` ends every borrowing. A call that faults ends the
run.
-/
namespace Xiaoxin
open Transition DoublyLinked

structure Borrowing (w : ℕ) where
  pool : SQLPool w
  borrowed : List ℕ
  /-- Whether a call brought the process down. -/
  faulted : Bool

namespace Borrowing

variable {w : ℕ}

inductive Call
  | getPool (r : Answers)
  | releasePool (a : ℕ) (isDelete : Bool)
  | shutdown
  deriving DecidableEq, Repr

def start (w : ℕ) : Borrowing w := ⟨SQLPool.initialized w, [], false⟩

/-- The effect of a call that came back, or the end of the process. -/
def returned (s : Borrowing w) {α : Type} (o : Option α) (f : α → Borrowing w) : Borrowing w :=
  o.elim { s with faulted := true } f

def step (s : Borrowing w) : Call → Option (Borrowing w)
  | .getPool r =>
    if s.faulted = false ∧ s.pool.CanAlloc r then
      some (s.returned (s.pool.getPool r) fun o =>
        { s with pool := o.1, borrowed := o.2.toList ++ s.borrowed })
    else none
  | .releasePool a isDelete =>
    if s.faulted = false ∧ a ∈ s.borrowed then
      some (s.returned (s.pool.releasePool a isDelete) fun p =>
        { s with pool := p, borrowed := s.borrowed.erase a })
    else none
  | .shutdown =>
    if s.faulted = false then
      some (s.returned s.pool.shutdown fun p => { s with pool := p, borrowed := [] })
    else none

/-- The lists of the pool, the first holding what is borrowed. -/
structure Lists (s : Borrowing w) (ps ns : List ℕ) : Prop where
  shape : s.pool.Shape ps ns none
  borrowed : ps.Perm s.borrowed

theorem start_lists : (start w).Lists [] [] := ⟨SQLPool.initialized_shape, List.Perm.nil⟩

/-- What a step can do. -/
inductive Steps (s : Borrowing w) (ps ns : List ℕ) : Call → Borrowing w → Prop
  | faulted (r : Answers) (hr : s.pool.CanAlloc r) (h : s.pool.getPool r = none) :
    Steps s ps ns (.getPool r) { s with faulted := true }
  | got (r : Answers) (q : SQLPool w) (c : Option ℕ) (hr : s.pool.CanAlloc r)
      (h : s.pool.getPool r = some (q, c)) :
    Steps s ps ns (.getPool r) { s with pool := q, borrowed := c.toList ++ s.borrowed }
  | released (l m : List ℕ) (a : ℕ) (isDelete : Bool) (q : SQLPool w) (hps : ps = l ++ a :: m)
      (h : s.pool.releasePool a isDelete = some q) :
    Steps s ps ns (.releasePool a isDelete) { s with pool := q, borrowed := s.borrowed.erase a }
  | shutdown (q : SQLPool w) (h : s.pool.shutdown = some q) :
    Steps s ps ns .shutdown { s with pool := q, borrowed := [] }

theorem step_cases {s t : Borrowing w} {ps ns : List ℕ} {call : Call} (hs : s.Lists ps ns)
    (h : s.step call = some t) : Steps s ps ns call t := by
  cases call with
  | getPool r =>
    simp only [step] at h
    split_ifs at h with hr
    obtain rfl := Option.some.inj h
    cases hg : s.pool.getPool r with
    | none => exact .faulted r hr.2 hg
    | some o => exact .got r o.1 o.2 hr.2 hg
  | releasePool a isDelete =>
    simp only [step] at h
    split_ifs at h with ha
    obtain rfl := Option.some.inj h
    obtain ⟨l, m, rfl⟩ := List.append_of_mem (hs.borrowed.mem_iff.mpr ha.2)
    have hrel := SQLPool.releasePool_eq hs.shape isDelete
    rw [hrel]
    exact .released l m a isDelete _ rfl hrel
  | shutdown =>
    simp only [step] at h
    split_ifs at h with hf
    obtain rfl := Option.some.inj h
    obtain ⟨q, hq, -⟩ := SQLPool.shutdown_spec hs.shape
    rw [hq]
    exact .shutdown q hq

theorem releasePool_lists {s : Borrowing w} {l m ns : List ℕ} {a : ℕ} {isDelete : Bool}
    {q : SQLPool w} (hs : s.Lists (l ++ a :: m) ns) (h : s.pool.releasePool a isDelete = some q) :
    Lists { s with pool := q, borrowed := s.borrowed.erase a } (l ++ m)
      (if isDelete then ns else a :: ns) := by
  have hperm := (List.perm_middle.symm.trans hs.borrowed).erase a
  rw [List.erase_cons_head] at hperm
  exact ⟨SQLPool.releasePool_shape hs.shape h, hperm⟩

theorem step_lists {s t : Borrowing w} {ps ns : List ℕ} {call : Call} (hs : s.Lists ps ns)
    (h : s.step call = some t) : ∃ ps' ns', t.Lists ps' ns' := by
  cases step_cases hs h with
  | faulted r hr hg => exact ⟨ps, ns, hs.shape, hs.borrowed⟩
  | got r q c hr hg =>
    have hspec := hg ▸ SQLPool.getPool_spec hs.shape hr
    exact ⟨_, _, hspec.shape hs.shape, hs.borrowed.append_left _⟩
  | released l m a isDelete q hps hrel =>
    subst hps
    exact ⟨_, _, releasePool_lists hs hrel⟩
  | shutdown q hq =>
    obtain ⟨q', hq', hshape, -⟩ := SQLPool.shutdown_spec hs.shape
    obtain rfl := Option.some.inj (hq.symm.trans hq')
    exact ⟨[], [], hshape, List.Perm.nil⟩

theorem lists {s : Borrowing w} {calls : List Call} (h : exec step (start w) calls = some s) :
    ∃ ps ns, s.Lists ps ns :=
  invariant (I := fun s : Borrowing w => ∃ ps ns, s.Lists ps ns)
    (fun _ _ _ ⟨_, _, hs⟩ hst => step_lists hs hst) ⟨[], [], start_lists⟩ h

/-- In every reachable state the two heads start doubly linked lists without a node
in common: what is borrowed, and everything else that is allocated. `GetPool` does
not return a connection that is borrowed. -/
theorem pools_linked (w : ℕ) (calls : List Call) (s : Borrowing w)
    (h : exec step (start w) calls = some s) :
    ∃ ps ns, IsList s.pool.heap s.pool.mPagedPoolUsage ps ∧
      IsList s.pool.heap s.pool.mNonPagedPoolUsage ns ∧ (ps ++ ns).Nodup ∧
      ps.Perm s.borrowed ∧ (∀ a, a ∈ ns ↔ (s.pool.heap a).isSome ∧ a ∉ s.borrowed) ∧
      ∀ r q a, s.pool.CanAlloc r → s.pool.getPool r = some (q, some a) → a ∉ s.borrowed := by
  obtain ⟨ps, ns, hs⟩ := lists h
  refine ⟨ps, ns, hs.shape.split.first, hs.shape.split.second, hs.shape.nodup, hs.borrowed,
    fun a => ?_, fun r q a hr hg ha => ?_⟩
  · rw [hs.shape.split.covers, ← hs.borrowed.mem_iff]
    have hdisj : a ∈ ps → a ∉ ns := fun hp hn => hs.shape.split.disjoint hp hn
    simp only [Option.mem_def, reduceCtorEq, or_false]
    tauto
  · have hspec := hg ▸ SQLPool.getPool_spec hs.shape hr
    have hnodup := (hspec.shape hs.shape).split.first.nodup
    exact (List.nodup_cons.mp hnodup).1 (hs.borrowed.mem_iff.mpr ha)

/-- Three connections are made, the middle one and the last are released, one of
them is found dead. -/
theorem pools_linked_three : ∃ s : Borrowing 32,
    exec step (start 32) [.getPool (.fine 1), .getPool (.fine 2), .getPool (.fine 3),
      .releasePool 2 false, .releasePool 1 false,
      .getPool { Answers.fine 1 with connectionDead := true }, .releasePool 3 true] = some s ∧
    ∃ ps ns, IsList s.pool.heap s.pool.mPagedPoolUsage ps ∧
      IsList s.pool.heap s.pool.mNonPagedPoolUsage ns ∧ (ps ++ ns).Nodup ∧
      ps.Perm s.borrowed ∧ (∀ a, a ∈ ns ↔ (s.pool.heap a).isSome ∧ a ∉ s.borrowed) ∧
      ∀ r q a, s.pool.CanAlloc r → s.pool.getPool r = some (q, some a) → a ∉ s.borrowed := by
  apply exists_exec (by decide +kernel)
  intro s hs
  exact pools_linked 32 _ s hs

/-! ## The number of connections -/

/-- `mWorkingSetSize` is the number of connections in the two lists and never went
below zero, and no call has faulted. -/
structure Counts (s : Borrowing w) : Prop where
  alive : s.faulted = false
  neverWrapped : s.pool.wrapped = false
  workingSet : ∃ ps ns, IsList s.pool.heap s.pool.mPagedPoolUsage ps ∧
    IsList s.pool.heap s.pool.mNonPagedPoolUsage ns ∧
    s.pool.mWorkingSetSize.toNat = ps.length + ns.length

/-- A `GetPool` that needs a new connection gets one. -/
def Obtains (s : Borrowing w) : Call → Prop
  | .getPool r => s.pool.Obtains r
  | _ => True

instance : ∀ (s : Borrowing w) (call : Call), Decidable (s.Obtains call)
  | s, .getPool r => inferInstanceAs (Decidable (s.pool.Obtains r))
  | _, .releasePool _ _ => isTrue trivial
  | _, .shutdown => isTrue trivial

theorem counts_iff {s : Borrowing w} {ps ns : List ℕ} (hs : s.Lists ps ns) :
    s.Counts ↔ s.faulted = false ∧ s.pool.Accounts (ps.length + ns.length) := by
  have hlt := hs.shape.length_lt
  constructor
  · rintro ⟨ha, hn, ps', ns', hps, hns, hw⟩
    obtain rfl := hs.shape.split.first.unique hps
    obtain rfl := hs.shape.split.second.unique hns
    exact ⟨ha, by rw [← hw, BitVec.ofNat_toNat, BitVec.setWidth_eq], hn⟩
  · rintro ⟨ha, hw, hn⟩
    refine ⟨ha, hn, ps, ns, hs.shape.split.first, hs.shape.split.second, ?_⟩
    rw [hw, BitVec.toNat_ofNat, Nat.mod_eq_of_lt hlt]

theorem step_counts {s t : Borrowing w} {ps ns : List ℕ} {call : Call} (hs : s.Lists ps ns)
    (hc : s.Counts) (h : s.step call = some t) : t.Counts ↔ s.Obtains call := by
  obtain ⟨halive, hacc⟩ := (counts_iff hs).mp hc
  cases step_cases hs h with
  | faulted r hr hg =>
    have hspec := hg ▸ SQLPool.getPool_spec hs.shape hr
    exact iff_of_false (fun ht => Bool.noConfusion ht.alive) hspec.not_obtains
  | got r q c hr hg =>
    have hspec := hg ▸ SQLPool.getPool_spec hs.shape hr
    have ht :
        Lists { s with pool := q, borrowed := c.toList ++ s.borrowed } (c.toList ++ ps) ns.tail :=
      ⟨hspec.shape hs.shape, hs.borrowed.append_left _⟩
    rw [counts_iff ht, hspec.accounts_iff hacc]
    exact and_iff_right halive
  | released l m a isDelete q hps hrel =>
    subst hps
    have hlists := releasePool_lists hs hrel
    exact iff_of_true ((counts_iff hlists).mpr
      ⟨halive, SQLPool.releasePool_accounts hs.shape hacc hrel⟩) trivial
  | shutdown q hq =>
    obtain ⟨q', hq', hshape, hacc'⟩ := SQLPool.shutdown_spec hs.shape
    obtain rfl := Option.some.inj (hq.symm.trans hq')
    have hlists : Lists { s with pool := q, borrowed := [] } [] [] := ⟨hshape, List.Perm.nil⟩
    exact iff_of_true ((counts_iff hlists).mpr ⟨halive, hacc' hacc⟩) trivial

theorem start_counts : (start w).Counts :=
  (counts_iff start_lists).mpr ⟨rfl, SQLPool.initialized_accounts⟩

/-- The account stays right exactly as long as each `GetPool` that finds no idle
connection alive makes a new one. -/
theorem counts_iff_obtains (w : ℕ) (calls : List Call) (s : Borrowing w)
    (h : exec step (start w) calls = some s) :
    Always step Counts (start w) calls ↔ Along step Obtains (start w) calls := by
  refine always_iff_along (I := fun s : Borrowing w => ∃ ps ns, s.Lists ps ns) ?_ ?_
    ⟨[], [], start_lists⟩ start_counts h
  · rintro s call t ⟨ps, ns, hs⟩ hst
    exact step_lists hs hst
  · rintro s call t ⟨ps, ns, hs⟩ hc hst
    exact step_counts hs hc hst

/-- Two connections made, one found dead and replaced, one deleted, and a shutdown. -/
theorem counts_iff_obtains_five : ∃ s : Borrowing 32,
    exec step (start 32) [.getPool (.fine 1), .getPool (.fine 2), .releasePool 1 false,
      .getPool { Answers.fine 1 with connectionDead := true }, .releasePool 2 true,
      .shutdown] = some s ∧
    (Always step Counts (start 32) [.getPool (.fine 1), .getPool (.fine 2), .releasePool 1 false,
      .getPool { Answers.fine 1 with connectionDead := true }, .releasePool 2 true, .shutdown] ↔
    Along step Obtains (start 32) [.getPool (.fine 1), .getPool (.fine 2), .releasePool 1 false,
      .getPool { Answers.fine 1 with connectionDead := true }, .releasePool 2 true,
      .shutdown]) := by
  apply exists_exec (by decide +kernel)
  intro s hs
  exact counts_iff_obtains 32 _ s hs

/-- The first `GetPool` cannot connect: it returns NULL, and the pool without a
connection reports 4294967295 of them. When `GlobalAlloc` has no memory it faults. -/
theorem failed_connect_miscounts :
    (∃ s : Borrowing 32,
      exec step (start 32) [.getPool { Answers.fine 1 with connect := some false }] = some s ∧
      s.borrowed = [] ∧ s.pool.getProcessMemoryInfo = (0, 0, 4294967295) ∧ ¬ s.Counts) ∧
    ∃ s : Borrowing 32,
      exec step (start 32) [.getPool { Answers.fine 1 with globalAlloc := none }] = some s ∧
      ¬ s.Counts := by
  refine ⟨?_, ?_⟩
  · have hrun : (exec step (start 32) [.getPool { Answers.fine 1 with connect := some false }]).map
        (fun s => (s.borrowed, s.pool.getProcessMemoryInfo, s.pool.wrapped)) =
        some ([], (0, 0, 4294967295), true) := by decide +kernel
    obtain ⟨s, hs, hv⟩ := Option.map_eq_some_iff.mp hrun
    obtain ⟨hb, hm, hw⟩ : s.borrowed = [] ∧ s.pool.getProcessMemoryInfo = (0, 0, 4294967295) ∧
        s.pool.wrapped = true := by simpa using hv
    exact ⟨s, hs, hb, hm, fun hc => by simpa [hw] using hc.neverWrapped⟩
  · have hrun : (exec step (start 32)
        [.getPool { Answers.fine 1 with globalAlloc := none }]).map faulted = some true := by
      decide +kernel
    obtain ⟨s, hs, hv⟩ := Option.map_eq_some_iff.mp hrun
    exact ⟨s, hs, fun hc => by simpa [hv] using hc.alive⟩

end Borrowing
end Xiaoxin
