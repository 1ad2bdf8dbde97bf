import Xiaoxin.OdbcSql

/-!
# Every handle is given back

`Owned` says of the calls made so far that each was in turn and which handles the driver
has given out since. Each method of the pool takes it on: what `AllocSQLConnection` gave
up half way is given back by the destructors, and the lists hold connections that are
open and have a statement. In a whole run the handles given out are those of the cells,
and `Shutdown` leaves none.
-/
namespace Xiaoxin
open Transition DoublyLinked Odbc
namespace OdbcPool

variable {w : ℕ}

/-- What the pool sees of a result. -/
def forget {α : Type} (o : Except (List Call) (OdbcPool w × α)) : Option (SQLPool w × α) :=
  match o with
  | .error _ => none
  | .ok (p, x) => some (p.pool, x)

@[simp] theorem forget_error {α : Type} (calls : List Call) :
    forget (.error calls : Except (List Call) (OdbcPool w × α)) = none := rfl

@[simp] theorem forget_ok {α : Type} (p : OdbcPool w) (x : α) :
    forget (.ok (p, x)) = some (p.pool, x) := rfl

@[simp] theorem call_pool (p : OdbcPool w) (calls : List Call) : (p.call calls).pool = p.pool := rfl
@[simp] theorem setObjects_pool (p : OdbcPool w) (v : ℕ) (o : SQLConnection × SQLStatement) :
    (p.setObjects v o).pool = p.pool := rfl

theorem call_call (p : OdbcPool w) (calls more : List Call) :
    (p.call calls).call more = p.call (calls ++ more) := by
  simp [call]

theorem call_setObjects (p : OdbcPool w) (calls : List Call) (v : ℕ)
    (o : SQLConnection × SQLStatement) :
    (p.call calls).setObjects v o = (p.setObjects v o).call calls := rfl

theorem setObjects_setObjects (p : OdbcPool w) (v : ℕ) (o o' : SQLConnection × SQLStatement) :
    (p.setObjects v o).setObjects v o' = p.setObjects v o' := by
  simp [setObjects]

@[simp] theorem orFault_none {α : Type} (p : OdbcPool w) :
    p.orFault (none : Option α) = .error p.calls := rfl

@[simp] theorem orFault_some {α : Type} (p : OdbcPool w) (x : α) : p.orFault (some x) = .ok x := rfl

theorem freeSQLConnection_forget (p : OdbcPool w) (c : Option ℕ) :
    forget (p.freeSQLConnection c) = p.pool.freeSQLConnection c := by
  cases c with
  | none => rfl
  | some a =>
    cases ha : p.pool.heap a with
    | none =>
      simp [freeSQLConnection, SQLPool.freeSQLConnection, SQLPool.connectionAt, ha, bind,
        Except.bind]
    | some n =>
      simp [freeSQLConnection, SQLPool.freeSQLConnection, SQLPool.connectionAt, ha, bind,
        Except.bind, pure, Except.pure]

theorem allocSQLConnection_forget (p : OdbcPool w) (r : DriverAnswers) :
    forget (p.allocSQLConnection r) = p.pool.allocSQLConnection r.answers := by
  obtain ⟨dead, x, dbc, connect, stmt⟩ := r
  cases x with
  | none => exact freeSQLConnection_forget p none
  | some a =>
    cases he : p.pool.mSqlEnv <;> cases dbc <;> cases connect <;> cases stmt <;>
      simp [allocSQLConnection, SQLPool.allocSQLConnection, he, DriverAnswers.answers,
        SQLConnection.allocDbc, SQLConnection.connect, SQLStatement.allocStmt,
        Allocation.isSuccess, freeSQLConnection_forget, SQLPool.counted]

section Shape

variable {p : OdbcPool w} {ps ns l m : List ℕ} {a v : ℕ} {r : DriverAnswers}

def withPool (p : OdbcPool w) (q : SQLPool w) : OdbcPool w := { p with pool := q }

/-- The objects in the cell at an address are deleted with it. -/
def freed (p : OdbcPool w) (a v : ℕ) : OdbcPool w :=
  { p with
    pool := p.pool.freed a
    calls := p.calls ++ (p.objects v).2.delete ++ (p.objects v).1.delete }

theorem freeSQLConnection_eq (hv : p.pool.connectionAt a = some v) :
    p.freeSQLConnection (some a) = .ok (p.freed a v, none) := by
  have ha : (p.pool.heap a).isSome := by
    have := congrArg Option.isSome hv
    simpa [SQLPool.connectionAt] using this
  simp [freeSQLConnection, hv, SQLPool.freeSQLConnection_eq ha, freed, call, bind, Except.bind,
    pure, Except.pure]

theorem takeIdle_nil (hp : p.pool.Shape ps [] none) : p.takeIdle r = .ok (p, none) := by
  rw [takeIdle, hp.nonPaged_eq]
  rfl

/-- The head of the idle list, taken out and asked whether it is alive. -/
def asked (p : OdbcPool w) (a v : ℕ) (pool : Option ℕ) : OdbcPool w :=
  (p.withPool (p.pool.detachNonPaged a pool)).call (p.objects v).1.connectionDead

theorem takeIdle_eq (hp : p.pool.Shape ps (a :: m) none) (hv : p.pool.connectionAt a = some v) :
    p.takeIdle r = if r.connectionDead then .ok ((p.asked a v m.head?).freed a v, none)
      else .ok (p.asked a v m.head?, some a) := by
  have hd := SQLPool.detachPool_eq (l := []) hp.split.second
  have hv' : (p.asked a v m.head?).pool.connectionAt a = some v :=
    SQLPool.connectionAt_detachNonPaged.trans hv
  have hfree := freeSQLConnection_eq hv'
  simp only [takeIdle, hp.nonPaged_eq, List.head?_cons] at hd ⊢
  rw [← hfree]
  have hv'' : SQLPool.connectionAt { p.pool with
      heap := unlink p.pool.heap a
      mNonPagedPoolUsage := m.head?
      mQuotaNonPagedPoolUsage := p.pool.mQuotaNonPagedPoolUsage - 1 } a = some v := hv'
  simp only [hd, orFault_some]
  simp only [bind, Except.bind, List.nil_append, hv'']
  rfl

theorem connectionAt_isSome (hv : p.pool.connectionAt a = some v) : (p.pool.heap a).isSome := by
  have := congrArg Option.isSome hv
  simpa [SQLPool.connectionAt] using this

/-! ## What the driver has given out -/

/-- The calls so far are in turn, and leave the driver with these handles given out. -/
def Owned (environment : Bool) (os : List Handles) (calls : List Call) : Prop :=
  Carries Driver.step Driver.Possible (· = Driver.start) calls (Holds environment os)

theorem Owned.append {e e' : Bool} {os os' : List Handles} {calls more : List Call}
    (h : Owned e os calls)
    (hm : Carries Driver.step Driver.Possible (Holds e os) more (Holds e' os')) :
    Owned e' os' (calls ++ more) := Carries.append h hm

theorem Owned.perm {e : Bool} {os os' : List Handles} {calls : List Call} (h : Owned e os calls)
    (hp : os.Perm os') : Owned e os' calls := Carries.mono h (fun _ hd => hd.perm hp)

/-- The handles in the objects of a cell that is in use. -/
def handlesOf (o : SQLConnection × SQLStatement) : Handles :=
  match o.1.mHdbc, o.2.mHstmt with
  | some h, some t => .ready h t
  | some h, none => .connected h
  | none, _ => .nothing

def handlesAt (p : OdbcPool w) (a : ℕ) : Handles :=
  ((p.pool.connectionAt a).map (fun v => handlesOf (p.objects v))).getD .nothing

/-- The cells at these addresses each have a connection with a statement. -/
structure Complete (p : OdbcPool w) (l : List ℕ) : Prop where
  numbers : ∀ a v, p.pool.connectionAt a = some v → v < p.pool.made
  objects : ∀ a ∈ l, ∃ v h t, p.pool.connectionAt a = some v ∧ p.objects v = (⟨some h⟩, ⟨some t⟩)

/-- No call is running. -/
structure Ready (p : OdbcPool w) (ps ns : List ℕ) : Prop extends Complete p (ps ++ ns) where
  shape : p.pool.Shape ps ns none
  owned : Owned p.pool.mSqlEnv ((ps ++ ns).map p.handlesAt) p.calls
  /-- Only with an environment there are connections. -/
  environment : p.pool.mSqlEnv = true ∨ ps ++ ns = []

/-- A call has the cell at `a` in hand, with the handles `o` in its objects. -/
structure InHand (p : OdbcPool w) (ps ns : List ℕ) (a : ℕ) (o : Handles) : Prop
    extends Complete p (ps ++ ns) where
  shape : p.pool.Shape ps ns (some a)
  hand : ∃ v, p.pool.connectionAt a = some v ∧ p.objects v = (⟨o.hdbc⟩, ⟨o.hstmt⟩)
  owned : Owned p.pool.mSqlEnv (o :: (ps ++ ns).map p.handlesAt) p.calls
  environment : p.pool.mSqlEnv = true

theorem initialized_ready : (initialized w).Ready [] [] where
  numbers := by simp [initialized, SQLPool.initialized, SQLPool.connectionAt]
  objects := by simp
  shape := SQLPool.initialized_shape
  owned := carries_nil (by rintro d rfl; exact start_holds)
  environment := .inl rfl

/-- The two destructors give back what the objects hold, how far they ever got. -/
theorem carries_delete (e : Bool) (o : Handles) (os : List Handles) :
    Carries Driver.step Driver.Possible (Holds e (o :: os))
      ((⟨o.hstmt⟩ : SQLStatement).delete ++ (⟨o.hdbc⟩ : SQLConnection).delete) (Holds e os) := by
  have hfree (h : ℕ) : Carries Driver.step Driver.Possible (Holds e (.allocated h :: os))
      [.freeConnect h] (Holds e os) := carries_freeConnect.mono fun _ => holds_nothing.mp
  cases o with
  | nothing => exact carries_nil (fun _ => holds_nothing.mp)
  | allocated h => exact (carries_disconnect (.inl rfl)).append (hfree h)
  | connected h => exact (carries_disconnect (.inr rfl)).append (hfree h)
  | ready h t => exact carries_freeStmt.append ((carries_disconnect (.inr rfl)).append (hfree h))

theorem InHand.free {o : Handles} (hp : p.InHand ps ns a o) :
    ∃ q, p.freeSQLConnection (some a) = .ok (q, none) ∧ q.Ready ps ns := by
  obtain ⟨v, hv, hobj⟩ := hp.hand
  obtain ⟨hps, hns, -⟩ := hp.shape.split.loose a rfl
  have hne : ∀ b ∈ ps ++ ns, b ≠ a := by
    rintro b hb rfl
    exact (List.mem_append.mp hb).elim hps hns
  have hat : ∀ b ∈ ps ++ ns, (p.freed a v).pool.connectionAt b = p.pool.connectionAt b :=
    fun b hb => SQLPool.connectionAt_freed (hne b hb)
  refine ⟨_, freeSQLConnection_eq hv, ⟨fun b u hb => ?_, fun b hb => ?_⟩, hp.shape.freed, ?_,
    .inl hp.environment⟩
  · by_cases hba : b = a
    · subst hba
      simp [freed, SQLPool.connectionAt, SQLPool.freed] at hb
    · exact hp.numbers b u ((SQLPool.connectionAt_freed hba).symm.trans hb)
  · rw [hat b hb]
    exact hp.objects b hb
  · have hmap : (ps ++ ns).map (p.freed a v).handlesAt = (ps ++ ns).map p.handlesAt :=
      List.map_congr_left fun b hb => by simp only [handlesAt, hat b hb]; rfl
    rw [hmap]
    have howned := hp.owned.append (carries_delete _ _ _)
    show Owned p.pool.mSqlEnv _ _
    simpa only [freed, hobj, List.append_assoc] using howned

/-- A new cell with what its objects have been given. -/
theorem Ready.make (hp : p.Ready ps ns) (he : p.pool.mSqlEnv = true)
    (ha : p.pool.heap a = none ∧ 0 < a ∧ a < 2 ^ w) {o : Handles} {more : List Call}
    (hm : ∀ os, Carries Driver.step Driver.Possible (Holds true os) more (Holds true (o :: os))) :
    (((p.withPool (p.pool.makeCell a)).setObjects p.pool.made
      (⟨o.hdbc⟩, ⟨o.hstmt⟩)).call more).InHand ps ns a o := by
  have hne : ∀ b ∈ ps ++ ns, b ≠ a := by
    rintro b hb rfl
    obtain ⟨v, -, -, hv, -⟩ := hp.objects b hb
    simpa [ha.1] using connectionAt_isSome hv
  have hat : ∀ b ∈ ps ++ ns, (p.pool.makeCell a).connectionAt b = p.pool.connectionAt b :=
    fun b hb => SQLPool.connectionAt_makeCell (hne b hb)
  have hself : (p.pool.makeCell a).connectionAt a = some p.pool.made := by
    simp [SQLPool.connectionAt, SQLPool.makeCell]
  refine ⟨⟨fun b v hb => ?_, fun b hb => ?_⟩, hp.shape.makeCell ha.1 ha.2,
    ⟨p.pool.made, hself, Function.update_self ..⟩, ?_, he⟩
  · show v < p.pool.made + 1
    by_cases hba : b = a
    · subst hba
      obtain rfl := Option.some.inj (hself.symm.trans hb)
      exact Nat.lt_succ_self _
    · exact Nat.lt_succ_of_lt (hp.numbers b v ((SQLPool.connectionAt_makeCell hba).symm.trans hb))
  · obtain ⟨v, h, t, hv, hobj⟩ := hp.objects b hb
    have hlt := hp.numbers b v hv
    exact ⟨v, h, t, (hat b hb).trans hv, by
      simpa only [withPool, setObjects, call, Function.update_of_ne hlt.ne] using hobj⟩
  · have hmap : (ps ++ ns).map (((p.withPool (p.pool.makeCell a)).setObjects p.pool.made
        (⟨o.hdbc⟩, ⟨o.hstmt⟩)).call more).handlesAt =
        (ps ++ ns).map p.handlesAt := by
      refine List.map_congr_left fun b hb => ?_
      obtain ⟨v, h, t, hv, -⟩ := hp.objects b hb
      have hlt := hp.numbers b v hv
      simp only [handlesAt, withPool, setObjects, call, hat b hb, hv, Option.map_some,
        Function.update_of_ne hlt.ne]
    rw [hmap]
    have howned := hp.owned
    rw [he] at howned
    show Owned p.pool.mSqlEnv _ _
    rw [he]
    exact howned.append (hm _)

/-- What a method leaves: the calls made before the end of the process, or lists to
which the connection it returns is still to be added. -/
def Outcome (ps ns : List ℕ) : Except (List Call) (OdbcPool w × Option ℕ) → Prop
  | .error calls => ∃ e os, Owned e os calls
  | .ok (q, none) => q.Ready ps ns
  | .ok (q, some a) => ∃ h t, q.InHand ps ns a (.ready h t)

theorem InHand.outcome {o : Handles} (hp : p.InHand ps ns a o) :
    Outcome ps ns (p.freeSQLConnection (some a)) := by
  obtain ⟨q, hq, hready⟩ := hp.free
  rw [hq]
  exact hready

theorem allocSQLConnection_outcome (hp : p.Ready ps ns)
    (ha : ∀ a ∈ r.globalAlloc, p.pool.heap a = none ∧ 0 < a ∧ a < 2 ^ w) :
    Outcome ps ns (p.allocSQLConnection r) := by
  cases hg : r.globalAlloc with
  | none =>
    rw [allocSQLConnection, hg]
    exact ⟨_, _, hp.owned⟩
  | some a =>
    have ha := ha a hg
    cases he : p.pool.mSqlEnv with
    | false =>
      simp only [allocSQLConnection, hg, he]
      exact ⟨_, _, hp.owned⟩
    | true =>
      have hdbc (x : Option ℕ) (os : List Handles) : Carries Driver.step Driver.Possible
          (Holds true os) [.allocConnect x] (Holds true (x.elim .nothing .allocated :: os)) :=
        (carries_allocConnect x).imp fun _ => holds_nothing.mpr
      simp only [allocSQLConnection, hg, he, if_true]
      cases hd : r.allocDbc with
      | error => exact (hp.make he ha (hdbc none)).outcome
      | successWithInfo h => exact (hp.make he ha (hdbc (some h))).outcome
      | success h =>
        have hconn (ok : Bool) (os : List Handles) := (hdbc (some h) os).append (carries_connect ok)
        have hfail (os : List Handles) := (hconn false os).append (carries_getDiagRec rfl)
        simp only [SQLConnection.allocDbc, Allocation.isSuccess, Allocation.handle, if_true]
        cases hc : r.connect with
        | im002 =>
          have howned := hp.owned
          rw [he] at howned
          refine ⟨true, .allocated h :: (ps ++ ns).map p.handlesAt, ?_⟩
          simpa [call, setObjects, SQLConnection.connect] using howned.append (hfail _)
        | error =>
          have hmake := hp.make he ha (o := .allocated h)
            (fun os => (hfail os).append (carries_disconnect (.inl rfl)))
          simp only [SQLConnection.connect, call_call]
          exact hmake.outcome
        | success | successWithInfo =>
          have hstmt (x : Option ℕ) (os : List Handles) :=
            (hconn true os).append (carries_allocStmt x)
          simp only [SQLConnection.connect, call_call, SQLStatement.allocStmt, call_setObjects,
            setObjects_setObjects]
          cases r.allocStmt with
          | error => exact (hp.make (o := .connected h) he ha (hstmt none)).outcome
          | successWithInfo t => exact (hp.make (o := .ready h t) he ha (hstmt (some t))).outcome
          | success t =>
            have hmake := hp.make (o := .ready h t) he ha (hstmt (some t))
            exact ⟨h, t, ⟨hmake.numbers, hmake.objects⟩, hmake.shape.counted, hmake.hand,
              hmake.owned, he⟩

/-! The list operations make no calls and leave the objects alone. -/

theorem Complete.relink (hp : p.Complete l) {q : SQLPool w} {m : List ℕ}
    (hq : ∀ b, q.connectionAt b = p.pool.connectionAt b) (hm : q.made = p.pool.made)
    (hmem : ∀ b ∈ m, b ∈ l) : (p.withPool q).Complete m where
  numbers b v hb := by
    show v < q.made
    rw [hm]
    exact hp.numbers b v ((hq b).symm.trans hb)
  objects b hb := by
    obtain ⟨v, h, t, hv, hobj⟩ := hp.objects b (hmem b hb)
    exact ⟨v, h, t, (hq b).trans hv, hobj⟩

theorem handlesAt_relink {q : SQLPool w} (hq : ∀ b, q.connectionAt b = p.pool.connectionAt b) :
    (p.withPool q).handlesAt = p.handlesAt := by
  funext b
  simp only [handlesAt, withPool, hq]

/-- A cell taken out of the lists is the one in hand. -/
theorem Ready.detach (hp : p.Ready ps ns) (ha : a ∈ ps ++ ns) {q : SQLPool w} {l m : List ℕ}
    (hs : q.Shape l m (some a)) (hq : ∀ b, q.connectionAt b = p.pool.connectionAt b)
    (hm : q.made = p.pool.made) (he : q.mSqlEnv = p.pool.mSqlEnv)
    (hperm : (ps ++ ns).Perm (a :: (l ++ m))) :
    ∃ h t, (p.withPool q).InHand l m a (.ready h t) := by
  obtain ⟨v, h, t, hv, hobj⟩ := hp.objects a ha
  have henv : p.pool.mSqlEnv = true :=
    hp.environment.resolve_right (List.ne_nil_of_mem ha)
  refine ⟨h, t, hp.toComplete.relink hq hm fun b hb => ?_, hs, ⟨v, (hq a).trans hv, hobj⟩, ?_,
    he.trans henv⟩
  · exact hperm.mem_iff.mpr (List.mem_cons_of_mem a hb)
  · have hself : p.handlesAt a = .ready h t := by simp [handlesAt, hv, hobj, handlesOf]
    have howned := hp.owned.perm (hperm.map p.handlesAt)
    rw [List.map_cons, hself, ← he] at howned
    rw [handlesAt_relink hq]
    exact howned

/-- The cell in hand is put into one of the lists. -/
theorem InHand.attach {h t : ℕ} (hp : p.InHand ps ns a (.ready h t)) {q : SQLPool w}
    {l m : List ℕ} (hs : q.Shape l m none)
    (hq : ∀ b, q.connectionAt b = p.pool.connectionAt b) (hm : q.made = p.pool.made)
    (he : q.mSqlEnv = p.pool.mSqlEnv) (hperm : (a :: (ps ++ ns)).Perm (l ++ m)) :
    (p.withPool q).Ready l m := by
  obtain ⟨v, hv, hobj⟩ := hp.hand
  have hcomplete : p.Complete (a :: (ps ++ ns)) := by
    refine ⟨hp.numbers, fun b hb => ?_⟩
    rcases List.mem_cons.mp hb with rfl | hb
    · exact ⟨v, h, t, hv, hobj⟩
    · exact hp.objects b hb
  refine ⟨hcomplete.relink hq hm fun b hb => hperm.mem_iff.mpr hb, hs, ?_,
    .inl (he.trans hp.environment)⟩
  have hself : p.handlesAt a = .ready h t := by
    simp [handlesAt, hv, hobj, handlesOf, Handles.hdbc, Handles.hstmt]
  have howned : Owned p.pool.mSqlEnv ((a :: (ps ++ ns)).map p.handlesAt) p.calls := by
    rw [List.map_cons, hself]
    exact hp.owned
  rw [handlesAt_relink hq]
  show Owned q.mSqlEnv _ _
  rw [he]
  exact howned.perm (hperm.map p.handlesAt)

theorem InHand.asked {h t : ℕ} (hp : p.InHand ps ns a (.ready h t)) :
    (p.call [.getConnectAttr (some h)]).InHand ps ns a (.ready h t) :=
  ⟨⟨hp.numbers, hp.objects⟩, hp.shape, hp.hand, hp.owned.append (carries_getConnectAttr rfl),
    hp.environment⟩

theorem takeIdle_outcome (hp : p.Ready ps ns) : Outcome ps ns.tail (p.takeIdle r) := by
  cases ns with
  | nil =>
    rw [takeIdle_nil hp.shape]
    exact hp
  | cons a m =>
    have ha : a ∈ ps ++ a :: m := by simp
    obtain ⟨v, -, -, hv, -⟩ := hp.objects a ha
    rw [takeIdle_eq hp.shape hv]
    obtain ⟨h, t, hhand⟩ := hp.detach ha hp.shape.detachNonPaged
      (fun _ => SQLPool.connectionAt_detachNonPaged) rfl rfl List.perm_middle
    obtain ⟨v', hv', hobj⟩ := hhand.hand
    obtain rfl : v = v' :=
      Option.some.inj (hv.symm.trans (SQLPool.connectionAt_detachNonPaged.symm.trans hv'))
    have hasked : (p.asked a v m.head?).InHand ps m a (.ready h t) := by
      have hobj : p.objects v = (⟨some h⟩, ⟨some t⟩) := hobj
      simpa only [OdbcPool.asked, SQLConnection.connectionDead, hobj] using hhand.asked
    split_ifs
    · obtain ⟨q, hq, hready⟩ := hasked.free
      rw [freeSQLConnection_eq (p := p.asked a v m.head?) hv'] at hq
      cases hq
      exact hready
    · exact ⟨h, t, hasked⟩

/-- The cell in hand is attached to the list of those handed out. -/
theorem attachPaged_eq (hp : p.pool.Shape ps ns (some a)) :
    (do
      let (h, pool) ← p.orFault (SQLPool.attachPool p.pool.heap p.pool.mPagedPoolUsage a)
      return ({ p with
        pool.heap := h
        pool.mPagedPoolUsage := pool
        pool.mQuotaPagedPoolUsage := p.pool.mQuotaPagedPoolUsage + 1 }, some a)) =
    (.ok (p.withPool (p.pool.attachPaged a), some a) :
      Except (List Call) (OdbcPool w × Option ℕ)) := by
  obtain ⟨-, -, v, hv⟩ := hp.split.loose a rfl
  rw [SQLPool.attachPool_eq hp.split.first hv]
  rfl

theorem takeIdle_forget (hp : p.Ready ps ns) :
    forget (p.takeIdle r) = p.pool.takeIdle r.answers := by
  cases ns with
  | nil => rw [takeIdle_nil hp.shape, SQLPool.takeIdle_nil hp.shape, forget_ok]
  | cons a m =>
    obtain ⟨v, -, -, hv, -⟩ := hp.objects a (by simp)
    rw [takeIdle_eq hp.shape hv]
    cases hr : r.connectionDead with
    | true => exact (SQLPool.takeIdle_dead hp.shape (r := r.answers) hr).symm
    | false => exact (SQLPool.takeIdle_alive hp.shape (r := r.answers) hr).symm

/-- After the idle connection was taken or found dead the memory that is returned is not
in use. -/
theorem takeIdle_free (hp : p.Ready ps ns) (hr : p.pool.CanAlloc r.answers) {q : OdbcPool w}
    (hx : p.takeIdle r = .ok (q, none)) :
    ∀ a ∈ r.globalAlloc, q.pool.heap a = none ∧ 0 < a ∧ a < 2 ^ w := by
  have htake := takeIdle_forget (r := r) hp
  rw [hx, forget_ok] at htake
  obtain ⟨hmust, -⟩ := SQLPool.takeIdle_env htake.symm
  obtain ⟨q', hq', hv⟩ := SQLPool.takeIdle_vacates hp.shape (hmust.mp rfl)
  obtain ⟨hqq, -⟩ := Prod.mk.inj (Option.some.inj (htake.trans hq'))
  rw [← hqq] at hv
  exact fun a ha => hr.free hp.shape hv ha

/-- What `GetPool` leaves; the pool sees of it what it saw without the driver. -/
theorem getPool_spec (hp : p.Ready ps ns) (hr : p.pool.CanAlloc r.answers) :
    (∃ calls e os, p.getPool r = .error calls ∧ p.pool.getPool r.answers = none ∧
      Owned e os calls) ∨
    ∃ q c, p.getPool r = .ok (q, c) ∧ p.pool.getPool r.answers = some (q.pool, c) ∧
      q.Ready (c.toList ++ ps) ns.tail := by
  have htake := takeIdle_outcome (r := r) hp
  have hpool := takeIdle_forget (r := r) hp
  have hattach {q : OdbcPool w} {a h t : ℕ} (hq : q.InHand ps ns.tail a (.ready h t)) :
      (q.withPool (q.pool.attachPaged a)).Ready (a :: ps) ns.tail :=
    hq.attach hq.shape.attachPaged (fun _ => SQLPool.connectionAt_attachPaged) rfl rfl (.refl _)
  cases hx : p.takeIdle r with
  | error calls =>
    rw [hx] at htake hpool
    obtain ⟨e, os, howned⟩ := htake
    refine .inl ⟨calls, e, os, by simp [getPool, hx, bind, Except.bind], ?_, howned⟩
    simp [SQLPool.getPool, ← hpool]
  | ok o =>
    obtain ⟨q, c⟩ := o
    rw [hx] at htake hpool
    rw [forget_ok] at hpool
    cases c with
    | some a =>
      obtain ⟨h, t, hq⟩ := htake
      obtain ⟨⟨g, x⟩, ho, hcell⟩ := Option.map_eq_some_iff.mp (SQLPool.attachPaged_eq hq.shape)
      refine .inr ⟨_, some a, ?_, ?_, hattach hq⟩
      · simp only [getPool, hx]
        exact attachPaged_eq hq.shape
      · simp [SQLPool.getPool, ← hpool, ho, ← hcell, withPool]
    | none =>
      have halloc := allocSQLConnection_outcome (r := r) htake (takeIdle_free hp hr hx)
      have hforget := allocSQLConnection_forget q r
      cases hy : q.allocSQLConnection r with
      | error calls =>
        rw [hy] at halloc hforget
        obtain ⟨e, os, howned⟩ := halloc
        refine .inl ⟨calls, e, os, by simp [getPool, hx, hy, bind, Except.bind], ?_, howned⟩
        simp [SQLPool.getPool, ← hpool, ← hforget]
      | ok o =>
        obtain ⟨q', c⟩ := o
        rw [hy] at halloc hforget
        rw [forget_ok] at hforget
        cases c with
        | none =>
          refine .inr ⟨q', none, ?_, ?_, halloc⟩
          · simp [getPool, hx, hy, bind, Except.bind, pure, Except.pure]
          · simp [SQLPool.getPool, ← hpool, ← hforget]
        | some a =>
          obtain ⟨h, t, hq⟩ := halloc
          obtain ⟨⟨g, x⟩, ho, hcell⟩ := Option.map_eq_some_iff.mp (SQLPool.attachPaged_eq hq.shape)
          refine .inr ⟨_, some a, ?_, ?_, hattach hq⟩
          · simp only [getPool, hx]
            show (q.allocSQLConnection r >>= _) = _
            rw [hy]
            exact attachPaged_eq hq.shape
          · simp [SQLPool.getPool, ← hpool, ← hforget, ho, ← hcell, withPool]

/-! ## `ReleasePool` and `Shutdown` -/

theorem releasePool_spec (hp : p.Ready (l ++ a :: m) ns) (isDelete : Bool) :
    ∃ q, p.releasePool a isDelete = .ok q ∧ p.pool.releasePool a isDelete = some q.pool ∧
      q.Ready (l ++ m) (if isDelete then ns else a :: ns) := by
  obtain ⟨h, t, hhand⟩ := hp.detach (a := a) (by simp) hp.shape.detachPaged
    (fun _ => SQLPool.connectionAt_detachPaged) rfl rfl (by simp)
  have hdetach := SQLPool.detachPool_eq hp.shape.split.first
  rw [SQLPool.releasePool_eq hp.shape]
  cases isDelete with
  | true =>
    obtain ⟨v, hv, -⟩ := hhand.hand
    obtain ⟨q, hq, hready⟩ := hhand.free
    have hfree := freeSQLConnection_eq hv
    rw [hfree] at hq
    cases hq
    refine ⟨_, ?_, rfl, hready⟩
    simp only [releasePool, hdetach, orFault_some]
    exact congrArg (fun o => o.bind fun o => .ok o.1) hfree
  | false =>
    obtain ⟨-, -, u, hu⟩ := hhand.shape.split.loose a rfl
    have hattach := SQLPool.attachPool_eq hhand.shape.split.second hu
    refine ⟨_, ?_, rfl, hhand.attach hhand.shape.attachNonPaged
      (fun _ => SQLPool.connectionAt_attachNonPaged) rfl rfl List.perm_middle.symm⟩
    simp only [releasePool, hdetach, orFault_some]
    exact congrArg (fun o => (p.orFault o).bind fun o =>
      .ok { p.withPool (p.pool.detachPaged a (l ++ m).head?) with
      pool.heap := o.1
      pool.mNonPagedPoolUsage := o.2
      pool.mQuotaNonPagedPoolUsage := p.pool.mQuotaNonPagedPoolUsage + 1 }) hattach

/-- A loop of `Shutdown` deletes the objects of its cells, one after another. -/
theorem freeAll_spec {e : Bool} {x : Option ℕ} {f : ℕ} {rest : List Handles}
    (hl : Linked p.pool.heap x l none) (hf : l.length ≤ f)
    (hobj : ∀ a ∈ l, ∃ v h t, p.pool.connectionAt a = some v ∧ p.objects v = (⟨some h⟩, ⟨some t⟩))
    (ho : Owned e (l.map p.handlesAt ++ rest) p.calls) :
    ∃ calls, freeAll f p l.head? =
        .ok { p with pool := l.foldl SQLPool.freed p.pool, calls := calls } ∧
      Owned e rest calls := by
  induction l generalizing p x f with
  | nil => exact ⟨p.calls, by cases f <;> rfl, ho⟩
  | cons a l ih =>
    obtain ⟨f, rfl⟩ : ∃ k, f = k + 1 := Nat.exists_eq_succ_of_ne_zero (by
      rw [List.length_cons] at hf
      omega)
    have hd := List.nodup_cons.mp hl.nodup
    obtain ⟨n, hn, -, hnext, hl⟩ := hl
    obtain ⟨v, h, t, hv, hobja⟩ := hobj a (List.mem_cons_self ..)
    have hne : ∀ b ∈ l, b ≠ a := fun b hb => ne_of_mem_of_not_mem hb hd.1
    have hat : ∀ b ∈ l, (p.freed a v).pool.connectionAt b = p.pool.connectionAt b :=
      fun b hb => SQLPool.connectionAt_freed (hne b hb)
    have hrest : Linked (p.freed a v).pool.heap (some a) l none :=
      hl.congr fun b hb => Function.update_of_ne (hne b hb) _ _
    have hmap : l.map (p.freed a v).handlesAt = l.map p.handlesAt :=
      List.map_congr_left fun b hb => by simp only [handlesAt, hat b hb]; rfl
    have hself : p.handlesAt a = .ready h t := by simp [handlesAt, hv, hobja, handlesOf]
    obtain ⟨calls, hfree, howned⟩ := ih hrest (Nat.le_of_succ_le_succ hf)
      (fun b hb => by rw [hat b hb]; exact hobj b (List.mem_cons_of_mem a hb)) (by
        rw [hmap]
        rw [List.map_cons, hself] at ho
        have hdel : Owned e (l.map p.handlesAt ++ rest) (p.calls ++
            ((⟨some t⟩ : SQLStatement).delete ++ (⟨some h⟩ : SQLConnection).delete)) :=
          Owned.append ho (carries_delete e (.ready h t) _)
        simpa only [freed, hobja, List.append_assoc] using hdel)
    refine ⟨calls, ?_, howned⟩
    have hstep := freeSQLConnection_eq hv
    simp only [freeAll, List.head?_cons, hn, orFault_some, List.foldl_cons]
    simp only [bind, Except.bind, hstep, hnext, Option.or_none]
    exact hfree

theorem freeAll_forget (f : ℕ) (p : OdbcPool w) (x : Option ℕ) :
    (freeAll f p x).toOption.map OdbcPool.pool = SQLPool.freeAll f p.pool x := by
  induction f generalizing p x with
  | zero => cases x <;> rfl
  | succ f ih =>
    cases x with
    | none => rfl
    | some a =>
      have hfree := freeSQLConnection_forget p (some a)
      cases hn : p.pool.heap a with
      | none => simp [freeAll, SQLPool.freeAll, hn, bind, Except.bind, Except.toOption]
      | some n =>
        cases hx : p.freeSQLConnection (some a) with
        | error calls =>
          rw [hx] at hfree
          simp [freeAll, SQLPool.freeAll, hn, hx, ← hfree, bind, Except.bind, Except.toOption]
        | ok o =>
          rw [hx] at hfree
          simpa [freeAll, SQLPool.freeAll, hn, hx, ← hfree, forget, bind, Except.bind] using
            ih o.1 n.next

theorem shutdown_forget (p : OdbcPool w) :
    p.shutdown.toOption.map OdbcPool.pool = p.pool.shutdown := by
  have h₁ := freeAll_forget (2 ^ w) p p.pool.mPagedPoolUsage
  cases hx : freeAll (2 ^ w) p p.pool.mPagedPoolUsage with
  | error calls =>
    rw [hx] at h₁
    simp [shutdown, SQLPool.shutdown, hx, ← h₁, bind, Except.bind, Except.toOption]
  | ok q =>
    rw [hx] at h₁
    have h₂ :=
      freeAll_forget (2 ^ w) { q with pool.mPagedPoolUsage := none } q.pool.mNonPagedPoolUsage
    cases hy :
      freeAll (2 ^ w) { q with pool.mPagedPoolUsage := none } q.pool.mNonPagedPoolUsage with
    | error calls =>
      rw [hy] at h₂
      simp [shutdown, SQLPool.shutdown, hx, hy, ← h₁, ← h₂, bind, Except.bind, Except.toOption]
    | ok q' =>
      rw [hy] at h₂
      cases henv : q'.pool.mSqlEnv <;>
        simp [shutdown, SQLPool.shutdown, hx, hy, ← h₁, ← h₂, henv, bind, Except.bind, pure,
          Except.pure, Except.toOption]

theorem foldl_freed_env (l : List ℕ) (p : SQLPool w) :
    (l.foldl SQLPool.freed p).mSqlEnv = p.mSqlEnv := by
  induction l generalizing p with
  | nil => rfl
  | cons a l ih => exact ih (p.freed a)

theorem shutdown_spec (hp : p.Ready ps ns) :
    ∃ q, p.shutdown = .ok q ∧ p.pool.shutdown = some q.pool ∧ q.Ready [] [] := by
  have hlt := hp.shape.length_lt
  have howned := hp.owned
  rw [List.map_append] at howned
  obtain ⟨calls₁, h₁, howned₁⟩ := freeAll_spec (f := 2 ^ w) hp.shape.split.first.2 (by omega)
    (fun a ha => hp.objects a (List.mem_append_left _ ha)) howned
  rw [← hp.shape.split.first.1] at h₁
  obtain ⟨p₁, hp₁⟩ : ∃ p₁ : OdbcPool w, p₁ = ⟨{ ps.foldl SQLPool.freed p.pool with
    mPagedPoolUsage := none }, p.objects, calls₁⟩ := ⟨_, rfl⟩
  have hheap : ∀ b ∈ ns, p₁.pool.heap b = p.pool.heap b := by
    intro b hb
    rw [hp₁]
    exact (SQLPool.foldl_freed_heap ps p.pool).trans
      (if_neg fun hbp => hp.shape.split.disjoint hbp hb)
  have hat : ∀ b ∈ ns, p₁.pool.connectionAt b = p.pool.connectionAt b := fun b hb => by
    rw [SQLPool.connectionAt, hheap b hb, SQLPool.connectionAt]
  have hmap : ns.map p₁.handlesAt = ns.map p.handlesAt :=
    List.map_congr_left fun b hb => by rw [handlesAt, hat b hb, hp₁]; rfl
  have hrest : Owned p.pool.mSqlEnv (ns.map p₁.handlesAt ++ []) p₁.calls := by
    rw [List.append_nil, hmap, hp₁]
    exact howned₁
  obtain ⟨calls₂, h₂, howned₂⟩ := freeAll_spec (p := p₁) (f := 2 ^ w)
    (hp.shape.split.second.2.congr hheap) (by omega)
    (fun a ha => by rw [hat a ha, hp₁]; exact hp.objects a (List.mem_append_right _ ha)) hrest
  have hhead : p₁.pool.mNonPagedPoolUsage = ns.head? := by
    rw [hp₁]
    exact (SQLPool.foldl_freed_heads ps p.pool).2.trans hp.shape.nonPaged_eq
  rw [← hhead] at h₂
  have henv : (ns.foldl SQLPool.freed p₁.pool).mSqlEnv = p.pool.mSqlEnv := by
    rw [foldl_freed_env, hp₁]
    exact foldl_freed_env ps p.pool
  obtain ⟨q', hq', hshape, -⟩ := SQLPool.shutdown_spec hp.shape
  have hforget := shutdown_forget p
  rw [hq'] at hforget
  obtain ⟨q, hq, rfl⟩ := Option.map_eq_some_iff.mp hforget
  have hrun : p.shutdown = .ok q := by
    cases hx : p.shutdown with
    | error calls => simp [hx, Except.toOption] at hq
    | ok o => simpa [hx, Except.toOption] using hq
  have hcalls : Owned false [] q.calls ∧ q.pool.mSqlEnv = false := by
    have hrun' := hrun
    subst hp₁
    simp only [shutdown, h₁, bind, Except.bind, h₂, henv] at hrun'
    cases hb : p.pool.mSqlEnv with
    | false =>
      rw [hb] at howned₂
      simp only [hb, Bool.false_eq_true, if_false, pure, Except.pure, Except.ok.injEq] at hrun'
      exact hrun' ▸ ⟨howned₂, rfl⟩
    | true =>
      rw [hb] at howned₂
      simp only [hb, if_true, pure, Except.pure, Except.ok.injEq] at hrun'
      exact hrun' ▸ ⟨howned₂.append carries_freeEnv, rfl⟩
  refine ⟨q, hrun, hq', ⟨fun a v ha => ?_, by simp⟩, hshape, ?_, .inr rfl⟩
  · have hnone := connectionAt_isSome ha
    simpa using (hshape.split.covers a).mp hnone
  · rw [hcalls.2]
    exact hcalls.1

end Shape

end OdbcPool

end Xiaoxin
