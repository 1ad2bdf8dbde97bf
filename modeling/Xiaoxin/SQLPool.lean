import Xiaoxin.Transition
import Xiaoxin.DoublyLinked

/-!
# The connection pool

`cSQLPool` keeps its connections in two doubly linked lists: those handed out
hang on `mPagedPoolUsage`, the idle ones on `mNonPagedPoolUsage`. Each public
method holds `mCs` throughout, so a call is one step. What the allocator and the
ODBC driver answer comes with the call. A result of `none` means that the process
is gone: NULL or freed memory was dereferenced, or `throw` was executed with no
exception to rethrow.

Pointers are addresses below `2 ^ w`, where `w` is the width of `SIZE_T`; NULL is
`none`.
-/
namespace Xiaoxin
open Transition DoublyLinked

/-- What is answered while `GetPool` runs. -/
structure Answers where
  /-- `ConnectionDead` of the idle connection. -/
  connectionDead : Bool
  /-- The memory from `GlobalAlloc`. -/
  globalAlloc : Option ℕ
  allocDbc : Bool
  /-- `Connect` returns, or ends in its `throw`. -/
  connect : Option Bool
  allocStmt : Bool
  deriving DecidableEq, Repr

/-- The driver goes along with the whole of `AllocSQLConnection`. -/
def Answers.accepts (r : Answers) : Bool := r.allocDbc && r.connect == some true && r.allocStmt

/-- The driver reports a failure to `AllocSQLConnection`. -/
def Answers.refuses (r : Answers) : Bool :=
  !r.allocDbc || r.connect == some false || r.connect == some true && !r.allocStmt

/-- Nothing goes wrong, and a new cell is made at `a`. -/
def Answers.fine (a : ℕ) : Answers := ⟨false, some a, true, some true, true⟩

structure SQLPool (w : ℕ) where
  /-- Whether `mSqlEnv` is set. -/
  mSqlEnv : Bool
  mPagedPoolUsage : Option ℕ
  mNonPagedPoolUsage : Option ℕ
  mQuotaPagedPoolUsage : BitVec w
  mQuotaNonPagedPoolUsage : BitVec w
  mWorkingSetSize : BitVec w
  /-- The cells of type `PerSQLConnection` from `GlobalAlloc` that are not freed. The two
  objects of a cell are made and deleted with it; the value tells those of one allocation
  from those of another. -/
  heap : Heap ℕ ℕ
  /-- The number of cells made so far. -/
  made : ℕ
  /-- Whether `mWorkingSetSize` was ever decremented at zero. -/
  wrapped : Bool

namespace SQLPool

variable {w : ℕ}

/-- The constructor, and `mSqlEnv` as `Initialize` sets it. -/
def initialized (w : ℕ) : SQLPool w := ⟨true, none, none, 0, 0, 0, fun _ => none, 0, false⟩

/-- The parameter is the variable whose address the callers pass, so it is never
the pointer that the code tests. It comes back as NULL. -/
def freeSQLConnection (p : SQLPool w) (perSQLConnection : Option ℕ) :
    Option (SQLPool w × Option ℕ) := do
  let a ← perSQLConnection
  let _ ← p.heap a
  some ({ p with
    heap := Function.update p.heap a none
    mWorkingSetSize := p.mWorkingSetSize - 1
    wrapped := p.wrapped || p.mWorkingSetSize == 0 }, none)

/-- The new cell with its two objects and NULL links. -/
def makeCell (p : SQLPool w) (a : ℕ) : SQLPool w :=
  { p with heap := Function.update p.heap a (some ⟨p.made, none, none⟩), made := p.made + 1 }

def allocSQLConnection (p : SQLPool w) (r : Answers) : Option (SQLPool w × Option ℕ) :=
  match r.globalAlloc with
  | none => p.freeSQLConnection none
  | some a =>
    -- `AllocDbc` reads a field of `*mSqlEnv`
    if p.mSqlEnv then
      let q := p.makeCell a
      if r.allocDbc then
        match r.connect with
        | none => none
        | some true =>
          if r.allocStmt then some ({ q with mWorkingSetSize := q.mWorkingSetSize + 1 }, some a)
          else q.freeSQLConnection (some a)
        | some false => q.freeSQLConnection (some a)
      else q.freeSQLConnection (some a)
    else none

/-- The heap and the new value of `*pool`. -/
def attachPool (h : Heap ℕ ℕ) (pool : Option ℕ) (a : ℕ) : Option (Heap ℕ ℕ × Option ℕ) :=
  match pool with
  | none => some (h, some a)
  | some c => do
    let h ← write h c (fun n => n.setPrev (some a))
    let h ← write h a (fun n => n.setPrev none)
    let h ← write h a (fun n => n.setNext (some c))
    some (h, some a)

/-- The heap and the new value of `*pool`. -/
def detachPool (h : Heap ℕ ℕ) (pool : Option ℕ) (a : ℕ) : Option (Heap ℕ ℕ × Option ℕ) := do
  let n ← h a
  let (h, pool) ← match n.prev, n.next with
    | none, none => some (h, none)
    | none, some c => (write h c (fun n => n.setPrev none)).map (fun h => (h, some c))
    | some b, none => (write h b (fun n => n.setNext none)).map (fun h => (h, pool))
    | some b, some c => do
      let h ← write h b (fun n => n.setNext (some c))
      let h ← write h c (fun n => n.setPrev (some b))
      some (h, pool)
  let h ← write h a (fun n => n.setPrev none)
  let h ← write h a (fun n => n.setNext none)
  some (h, pool)

/-- `GetPool` up to the test whether a connection was there to be taken. -/
def takeIdle (p : SQLPool w) (r : Answers) : Option (SQLPool w × Option ℕ) :=
  match p.mNonPagedPoolUsage with
  | none => some (p, none)
  | some a => do
    let (h, pool) ← detachPool p.heap p.mNonPagedPoolUsage a
    let p := { p with
      heap := h
      mNonPagedPoolUsage := pool
      mQuotaNonPagedPoolUsage := p.mQuotaNonPagedPoolUsage - 1 }
    if r.connectionDead then p.freeSQLConnection (some a) else some (p, some a)

def getPool (p : SQLPool w) (r : Answers) : Option (SQLPool w × Option ℕ) := do
  let (p, c) ← p.takeIdle r
  let (p, c) ← if c.isNone then p.allocSQLConnection r else some (p, c)
  match c with
  | none => some (p, none)
  | some a =>
    let (h, pool) ← attachPool p.heap p.mPagedPoolUsage a
    some ({ p with
      heap := h
      mPagedPoolUsage := pool
      mQuotaPagedPoolUsage := p.mQuotaPagedPoolUsage + 1 }, some a)

def releasePool (p : SQLPool w) (a : ℕ) (isDelete : Bool) : Option (SQLPool w) := do
  let (h, pool) ← detachPool p.heap p.mPagedPoolUsage a
  let p := { p with
    heap := h
    mPagedPoolUsage := pool
    mQuotaPagedPoolUsage := p.mQuotaPagedPoolUsage - 1 }
  if isDelete then
    let (p, _) ← p.freeSQLConnection (some a)
    some p
  else
    let (h, pool) ← attachPool p.heap p.mNonPagedPoolUsage a
    some { p with
      heap := h
      mNonPagedPoolUsage := pool
      mQuotaNonPagedPoolUsage := p.mQuotaNonPagedPoolUsage + 1 }

/-- A loop of `Shutdown`: it frees the cells from a head on. No list is as long as
the fuel it gets, see `freeAll_eq`. -/
def freeAll : ℕ → SQLPool w → Option ℕ → Option (SQLPool w)
  | _, p, none => some p
  | 0, _, some _ => none
  | fuel + 1, p, some a => do
    let n ← p.heap a
    let (p, _) ← p.freeSQLConnection (some a)
    freeAll fuel p n.next

/-- The two loops, and `mSqlEnv`. -/
def shutdown (p : SQLPool w) : Option (SQLPool w) := do
  let p ← freeAll (2 ^ w) p p.mPagedPoolUsage
  let p ← freeAll (2 ^ w) { p with mPagedPoolUsage := none } p.mNonPagedPoolUsage
  some { p with mNonPagedPoolUsage := none, mSqlEnv := false }

/-- What `GetProcessMemoryInfo` reports. -/
def getProcessMemoryInfo (p : SQLPool w) : BitVec w × BitVec w × BitVec w :=
  (p.mQuotaPagedPoolUsage, p.mQuotaNonPagedPoolUsage, p.mWorkingSetSize)

/-- `GlobalAlloc` returns memory that is not in use. `GetPool` may have freed the
dead connection before it allocates. -/
def CanAlloc (p : SQLPool w) (r : Answers) : Prop :=
  ∀ a ∈ r.globalAlloc, (0 < a ∧ a < 2 ^ w) ∧
    (p.heap a = none ∨ r.connectionDead = true ∧ p.mNonPagedPoolUsage = some a)

instance (p : SQLPool w) (r : Answers) : Decidable (p.CanAlloc r) := by
  unfold CanAlloc
  infer_instance

/-- `GetPool` finds no idle connection that is alive. -/
def MustAlloc (p : SQLPool w) (r : Answers) : Prop :=
  p.mNonPagedPoolUsage = none ∨ r.connectionDead = true

instance (p : SQLPool w) (r : Answers) : Decidable (p.MustAlloc r) :=
  inferInstanceAs (Decidable (_ ∨ _))

/-! ## The list operations -/

section Lists

variable {h : Heap ℕ ℕ} {x : Option ℕ} {a v : ℕ} {l m : List ℕ}

/-- `AttachPool` relies on the links of the node: on an empty list it sets none. -/
theorem attachPool_eq (hl : IsList h x l) (ha : h a = some ⟨v, none, none⟩) :
    attachPool h x a = some (pushFront h x a, some a) := by
  have hsome : (h a).isSome := by simp [ha]
  cases x with
  | none =>
    rw [attachPool, pushFront, modify?_none, modify_eq_self]
    rw [ha]
    rfl
  | some c =>
    have hc : (h c).isSome := hl.isSome (List.mem_of_head? hl.1.symm)
    simp only [attachPool, write_eq hc, write_eq (modify_isSome.trans hsome), Option.bind_eq_bind,
      Option.bind_some, write_eq (modify_isSome.trans (modify_isSome.trans hsome)),
      modify_modify]
    rfl

/-- The four cases of `DetachPool` come to the same thing. -/
theorem detachPool_eq (hl : IsList h x (l ++ a :: m)) :
    detachPool h x a = some (unlink h a, (l ++ m).head?) := by
  obtain ⟨n, hn, hp, ht⟩ := hl.links
  have ha : (h a).isSome := by simp [hn]
  have hb : ∀ b, l.getLast? = some b → (h b).isSome := fun b he =>
    hl.isSome (List.mem_append_left _ (List.mem_of_getLast? he))
  have hc : ∀ c, m.head? = some c → (h c).isSome := fun c he =>
    hl.isSome (List.mem_append_right _ (List.mem_cons_of_mem a (List.mem_of_head? he)))
  have hx : ∀ b, l.getLast? = some b → x = l.head? := by
    intro b he
    cases l with
    | nil => cases he
    | cons d l => simpa using hl.1
  simp only [detachPool, unlink, hn, Option.bind_eq_bind, Option.bind_some, Option.elim_some,
    hp, ht]
  cases hlast : l.getLast? with
  | none =>
    obtain rfl := List.getLast?_eq_none_iff.mp hlast
    cases hhead : m.head? with
    | none => simp [write_eq ha, write_eq (modify_isSome.trans ha), modify_modify, hhead]
    | some c =>
      have hca := hc c hhead
      have hm := (modify_isSome (h := h) (a := c) (f := fun n => n.setPrev none)).trans ha
      simp [write_eq hca, write_eq hm, write_eq (modify_isSome.trans hm), modify_modify, hhead]
  | some b =>
    have hhd : (l ++ m).head? = x := by
      rw [hx b hlast, List.head?_append_of_ne_nil _ (by rintro rfl; cases hlast)]
    have hba := hb b hlast
    cases hhead : m.head? with
    | none =>
      have hm := (modify_isSome (h := h) (a := b) (f := fun n => n.setNext none)).trans ha
      simp [write_eq hba, write_eq hm, write_eq (modify_isSome.trans hm), modify_modify, hhd]
    | some c =>
      have hca :=
        (modify_isSome (h := h) (a := b) (f := fun n => n.setNext (some c))).trans (hc c hhead)
      have hm := (modify_isSome (h := modify h b (fun n => n.setNext (some c))) (a := c)
        (f := fun n => n.setPrev (some b))).trans (modify_isSome.trans ha)
      simp [write_eq hba, write_eq hca, write_eq hm, write_eq (modify_isSome.trans hm),
        modify_modify, hhd]

end Lists

end SQLPool
end Xiaoxin
