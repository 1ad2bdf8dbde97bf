import Xiaoxin.Odbc
import Xiaoxin.Borrowing

/-!
# The handles of the pool's connections

`cSQLConnection` keeps a connection handle and `cSQLStatement` a statement handle;
their destructors give them back. The pool makes and deletes the two together with a
cell. Its methods are followed here once more, with the calls they make to the driver;
left without these they are the methods of the pool, see `step_toBorrowing`. A call that
brings the process down leaves the calls made before it.
-/
namespace Xiaoxin
open Transition DoublyLinked Odbc

/-- The answer to a request for a handle. A success with information gives one out, too. -/
inductive Allocation
  | success (handle : ℕ)
  | successWithInfo (handle : ℕ)
  | error
  deriving DecidableEq, Repr

namespace Allocation

def handle : Allocation → Option ℕ
  | success h | successWithInfo h => some h
  | error => none

/-- The comparison with `SQL_SUCCESS`. -/
def isSuccess : Allocation → Bool
  | success _ => true
  | successWithInfo _ | error => false

end Allocation

/-- The answer to `SQLConnectW`; `im002` is an error for which `SQLGetDiagRecW` gives the SQL
state on which `Connect` throws. -/
inductive Connected
  | success
  | successWithInfo
  | im002
  | error
  deriving DecidableEq, Repr

structure SQLConnection where
  mHdbc : Option ℕ
  deriving DecidableEq, Repr

structure SQLStatement where
  mHstmt : Option ℕ
  deriving DecidableEq, Repr

namespace SQLConnection

def allocDbc (r : Allocation) : SQLConnection × Bool × List Call :=
  (⟨r.handle⟩, r.isSuccess, [.allocConnect r.handle])

def disconnect (c : SQLConnection) : List Call := c.mHdbc.toList.map Call.disconnect

def freeDbc (c : SQLConnection) : List Call := c.mHdbc.toList.map Call.freeConnect

/-- The result is `none` where it throws. -/
def connect (c : SQLConnection) : Connected → Option Bool × List Call
  | .success | .successWithInfo => (some true, [.connect c.mHdbc true])
  | .im002 => (none, [.connect c.mHdbc false, .getDiagRec c.mHdbc])
  | .error => (some false, [.connect c.mHdbc false, .getDiagRec c.mHdbc] ++ c.disconnect)

def connectionDead (c : SQLConnection) : List Call := [.getConnectAttr c.mHdbc]

/-- The destructor. -/
def delete (c : SQLConnection) : List Call := c.disconnect ++ c.freeDbc

end SQLConnection

namespace SQLStatement

def allocStmt (c : SQLConnection) (r : Allocation) : SQLStatement × Bool × List Call :=
  (⟨r.handle⟩, r.isSuccess, [.allocStmt c.mHdbc r.handle])

def freeStmt (s : SQLStatement) : List Call := s.mHstmt.toList.map Call.freeStmt

/-- The destructor. -/
def delete (s : SQLStatement) : List Call := s.freeStmt

end SQLStatement

/-- What is answered while `GetPool` runs. -/
structure DriverAnswers where
  connectionDead : Bool
  globalAlloc : Option ℕ
  allocDbc : Allocation
  connect : Connected
  allocStmt : Allocation
  deriving DecidableEq, Repr

/-- As far as the pool tells the answers apart. -/
def DriverAnswers.answers (r : DriverAnswers) : Answers where
  connectionDead := r.connectionDead
  globalAlloc := r.globalAlloc
  allocDbc := r.allocDbc.isSuccess
  connect := ((⟨none⟩ : SQLConnection).connect r.connect).1
  allocStmt := r.allocStmt.isSuccess

structure OdbcPool (w : ℕ) where
  pool : SQLPool w
  /-- The objects of each connection, under its number. -/
  objects : ℕ → SQLConnection × SQLStatement
  /-- The calls to the driver since the environment was made. -/
  calls : List Call

namespace OdbcPool

variable {w : ℕ}

def initialized (w : ℕ) : OdbcPool w := ⟨SQLPool.initialized w, fun _ => (⟨none⟩, ⟨none⟩), []⟩

/-- Where nothing comes back the process is gone. -/
def orFault (p : OdbcPool w) {α : Type} (o : Option α) : Except (List Call) α :=
  o.elim (.error p.calls) .ok

def call (p : OdbcPool w) (calls : List Call) : OdbcPool w := { p with calls := p.calls ++ calls }

def setObjects (p : OdbcPool w) (v : ℕ) (o : SQLConnection × SQLStatement) : OdbcPool w :=
  { p with objects := Function.update p.objects v o }

def freeSQLConnection (p : OdbcPool w) (perSQLConnection : Option ℕ) :
    Except (List Call) (OdbcPool w × Option ℕ) := do
  let a ← p.orFault perSQLConnection
  let v ← p.orFault (p.pool.connectionAt a)
  let p := p.call (p.objects v).2.delete
  let p := p.call (p.objects v).1.delete
  let (q, c) ← p.orFault (p.pool.freeSQLConnection (some a))
  return ({ p with pool := q }, c)

def allocSQLConnection (p : OdbcPool w) (r : DriverAnswers) :
    Except (List Call) (OdbcPool w × Option ℕ) :=
  match r.globalAlloc with
  | none => p.freeSQLConnection none
  | some a =>
    if p.pool.mSqlEnv then
      let v := p.pool.made
      let (c, dbc, calls) := SQLConnection.allocDbc r.allocDbc
      let p := ({ p with pool := p.pool.makeCell a }.setObjects v (c, ⟨none⟩)).call calls
      if dbc then
        let (connected, calls) := c.connect r.connect
        let p := p.call calls
        match connected with
        | none => .error p.calls
        | some true =>
          let (s, stmt, calls) := SQLStatement.allocStmt c r.allocStmt
          let p := (p.setObjects v (c, s)).call calls
          if stmt then .ok ({ p with pool := p.pool.counted }, some a)
          else p.freeSQLConnection (some a)
        | some false => p.freeSQLConnection (some a)
      else p.freeSQLConnection (some a)
    else .error p.calls

/-- `GetPool` up to the test whether a connection was there to be taken. -/
def takeIdle (p : OdbcPool w) (r : DriverAnswers) : Except (List Call) (OdbcPool w × Option ℕ) :=
  match p.pool.mNonPagedPoolUsage with
  | none => .ok (p, none)
  | some a => do
    let (h, pool) ← p.orFault (SQLPool.detachPool p.pool.heap p.pool.mNonPagedPoolUsage a)
    let p := { p with
      pool.heap := h
      pool.mNonPagedPoolUsage := pool
      pool.mQuotaNonPagedPoolUsage := p.pool.mQuotaNonPagedPoolUsage - 1 }
    let v ← p.orFault (p.pool.connectionAt a)
    let p := p.call (p.objects v).1.connectionDead
    if r.connectionDead then p.freeSQLConnection (some a) else .ok (p, some a)

def getPool (p : OdbcPool w) (r : DriverAnswers) : Except (List Call) (OdbcPool w × Option ℕ) := do
  let (p, c) ← p.takeIdle r
  let (p, c) ← if c.isNone then p.allocSQLConnection r else .ok (p, c)
  match c with
  | none => return (p, none)
  | some a =>
    let (h, pool) ← p.orFault (SQLPool.attachPool p.pool.heap p.pool.mPagedPoolUsage a)
    return ({ p with
      pool.heap := h
      pool.mPagedPoolUsage := pool
      pool.mQuotaPagedPoolUsage := p.pool.mQuotaPagedPoolUsage + 1 }, some a)

def releasePool (p : OdbcPool w) (a : ℕ) (isDelete : Bool) :
    Except (List Call) (OdbcPool w) := do
  let (h, pool) ← p.orFault (SQLPool.detachPool p.pool.heap p.pool.mPagedPoolUsage a)
  let p := { p with
    pool.heap := h
    pool.mPagedPoolUsage := pool
    pool.mQuotaPagedPoolUsage := p.pool.mQuotaPagedPoolUsage - 1 }
  if isDelete then
    let (p, _) ← p.freeSQLConnection (some a)
    return p
  else
    let (h, pool) ← p.orFault (SQLPool.attachPool p.pool.heap p.pool.mNonPagedPoolUsage a)
    return { p with
      pool.heap := h
      pool.mNonPagedPoolUsage := pool
      pool.mQuotaNonPagedPoolUsage := p.pool.mQuotaNonPagedPoolUsage + 1 }

/-- A loop of `Shutdown`, with the fuel of `SQLPool.freeAll`. -/
def freeAll : ℕ → OdbcPool w → Option ℕ → Except (List Call) (OdbcPool w)
  | _, p, none => .ok p
  | 0, p, some _ => .error p.calls
  | fuel + 1, p, some a => do
    let n ← p.orFault (p.pool.heap a)
    let (p, _) ← p.freeSQLConnection (some a)
    freeAll fuel p n.next

/-- `FreeEnv` is called on the environment that is there, and its destructor finds none. -/
def shutdown (p : OdbcPool w) : Except (List Call) (OdbcPool w) := do
  let p ← freeAll (2 ^ w) p p.pool.mPagedPoolUsage
  let p ← freeAll (2 ^ w) { p with pool.mPagedPoolUsage := none } p.pool.mNonPagedPoolUsage
  let p := if p.pool.mSqlEnv then p.call [.freeEnv] else p
  return { p with pool.mNonPagedPoolUsage := none, pool.mSqlEnv := false }

end OdbcPool
end Xiaoxin
