import Xiaoxin.SQLPool

/-!
# What the calls of the connection pool do

`Shape` names the two lists of a pool and the cell that a call may have in hand.
One lemma says what each list operation makes of a shape; the specifications of
`GetPool`, `ReleasePool` and `Shutdown` put these together. `Accounts` follows
`mWorkingSetSize` through the same operations: a cell that `AllocSQLConnection`
gives up is counted off although it was never counted, and nothing else
upsets the account.
-/
namespace Xiaoxin
open Transition DoublyLinked
namespace SQLPool

variable {w : ℕ}

/-! ## What the calls do to the lists -/

/-- The connections handed out, the idle ones, and perhaps one that a call holds. -/
structure Shape (p : SQLPool w) (ps ns : List ℕ) (c : Option ℕ) : Prop where
  split : Split p.heap p.mPagedPoolUsage p.mNonPagedPoolUsage ps ns c
  range : ∀ a, (p.heap a).isSome → 0 < a ∧ a < 2 ^ w

/-- `mWorkingSetSize` is the number of cells, and never went below zero. -/
structure Accounts (p : SQLPool w) (cells : ℕ) : Prop where
  workingSet : p.mWorkingSetSize = BitVec.ofNat w cells
  wrapped : p.wrapped = false

/-- The connection, if any, in the cell at an address. -/
def connectionAt (p : SQLPool w) (a : ℕ) : Option ℕ := (p.heap a).map Node.value

def detachPaged (p : SQLPool w) (a : ℕ) (pool : Option ℕ) : SQLPool w :=
  { p with
    heap := unlink p.heap a
    mPagedPoolUsage := pool
    mQuotaPagedPoolUsage := p.mQuotaPagedPoolUsage - 1 }

def attachPaged (p : SQLPool w) (a : ℕ) : SQLPool w :=
  { p with
    heap := pushFront p.heap p.mPagedPoolUsage a
    mPagedPoolUsage := some a
    mQuotaPagedPoolUsage := p.mQuotaPagedPoolUsage + 1 }

def detachNonPaged (p : SQLPool w) (a : ℕ) (pool : Option ℕ) : SQLPool w :=
  { p with
    heap := unlink p.heap a
    mNonPagedPoolUsage := pool
    mQuotaNonPagedPoolUsage := p.mQuotaNonPagedPoolUsage - 1 }

def attachNonPaged (p : SQLPool w) (a : ℕ) : SQLPool w :=
  { p with
    heap := pushFront p.heap p.mNonPagedPoolUsage a
    mNonPagedPoolUsage := some a
    mQuotaNonPagedPoolUsage := p.mQuotaNonPagedPoolUsage + 1 }

def freed (p : SQLPool w) (a : ℕ) : SQLPool w :=
  { p with
    heap := Function.update p.heap a none
    mWorkingSetSize := p.mWorkingSetSize - 1
    wrapped := p.wrapped || p.mWorkingSetSize == 0 }

def counted (p : SQLPool w) : SQLPool w := { p with mWorkingSetSize := p.mWorkingSetSize + 1 }

theorem initialized_shape : (initialized w).Shape [] [] none :=
  ⟨⟨isList_nil.mpr rfl, isList_nil.mpr rfl, by simp, by simp, by simp [initialized]⟩,
    by simp [initialized]⟩

theorem initialized_accounts : (initialized w).Accounts 0 := ⟨rfl, rfl⟩

section Operations

variable {p q : SQLPool w} {ps ns l m : List ℕ} {a b : ℕ} {c : Option ℕ} {r : Answers}

/-- A list operation keeps the range of the addresses, since it allocates nothing. -/
theorem Shape.of_split (hp : p.Shape ps ns c) {h : Heap ℕ ℕ} {x y : Option ℕ} {e : Option ℕ}
    (hs : Split h x y l m e) (hr : ∀ a, (h a).isSome → (p.heap a).isSome)
    (hq : q.heap = h ∧ q.mPagedPoolUsage = x ∧ q.mNonPagedPoolUsage = y) : q.Shape l m e := by
  obtain ⟨rfl, rfl, rfl⟩ := hq
  exact ⟨hs, fun a ha => hp.range a (hr a ha)⟩

theorem isSome_of_map_eq {h h' : Heap ℕ ℕ} (hv : (h a).map Node.value = (h' a).map Node.value)
    (ha : (h a).isSome) : (h' a).isSome := by
  rw [← Option.isSome_map, ← hv, Option.isSome_map]
  exact ha

theorem Shape.detachPaged (hp : p.Shape (l ++ a :: m) ns none) :
    (p.detachPaged a (l ++ m).head?).Shape (l ++ m) ns (some a) :=
  hp.of_split hp.split.detach (fun _ => isSome_of_map_eq unlink_value) ⟨rfl, rfl, rfl⟩

theorem Shape.attachPaged (hp : p.Shape ps ns (some a)) :
    (p.attachPaged a).Shape (a :: ps) ns none :=
  hp.of_split hp.split.attach (fun _ => isSome_of_map_eq pushFront_value) ⟨rfl, rfl, rfl⟩

theorem Shape.detachNonPaged (hp : p.Shape ps (a :: m) none) :
    (p.detachNonPaged a m.head?).Shape ps m (some a) :=
  hp.of_split (hp.split.swap.detach (k := [])).swap (fun _ => isSome_of_map_eq unlink_value)
    ⟨rfl, rfl, rfl⟩

theorem Shape.attachNonPaged (hp : p.Shape ps ns (some a)) :
    (p.attachNonPaged a).Shape ps (a :: ns) none :=
  hp.of_split hp.split.swap.attach.swap (fun _ => isSome_of_map_eq pushFront_value) ⟨rfl, rfl, rfl⟩

theorem Shape.freed (hp : p.Shape ps ns (some a)) : (p.freed a).Shape ps ns none := by
  refine hp.of_split hp.split.free (fun b hb => ?_) ⟨rfl, rfl, rfl⟩
  by_cases hba : b = a
  · subst hba
    simp at hb
  · rwa [Function.update_of_ne hba] at hb

theorem Shape.makeCell (hp : p.Shape ps ns none) (ha : p.heap a = none) (hr : 0 < a ∧ a < 2 ^ w) :
    (p.makeCell a).Shape ps ns (some a) := by
  refine ⟨hp.split.make ha p.made, fun b hb => ?_⟩
  by_cases hba : b = a
  · rwa [hba]
  · exact hp.range b (by simpa [SQLPool.makeCell, hba] using hb)

theorem Shape.counted (hp : p.Shape ps ns c) : p.counted.Shape ps ns c := ⟨hp.split, hp.range⟩

theorem Shape.nodup (hp : p.Shape ps ns c) : (ps ++ ns).Nodup :=
  List.nodup_append'.mpr ⟨hp.split.first.nodup, hp.split.second.nodup, hp.split.disjoint⟩

/-- There are fewer cells than addresses. -/
theorem Shape.length_lt (hp : p.Shape ps ns c) : ps.length + ns.length < 2 ^ w := by
  have hsub : (ps ++ ns).toFinset ⊆ Finset.Ioo 0 (2 ^ w) := by
    intro a ha
    have hmem : a ∈ ps ∨ a ∈ ns := by simpa using ha
    exact Finset.mem_Ioo.mpr (hp.range a ((hp.split.covers a).mpr (by tauto)))
  have hcard := Finset.card_le_card hsub
  rw [List.toFinset_card_of_nodup hp.nodup, List.length_append, Nat.card_Ioo] at hcard
  have hpos : 0 < 2 ^ w := Nat.two_pow_pos w
  omega

/-! ## The calls -/

theorem Shape.isSome (hp : p.Shape ps ns (some a)) : (p.heap a).isSome :=
  (hp.split.covers a).mpr (.inr (.inr rfl))

theorem freeSQLConnection_eq (ha : (p.heap a).isSome) :
    p.freeSQLConnection (some a) = some (p.freed a, none) := by
  obtain ⟨n, hn⟩ := Option.isSome_iff_exists.mp ha
  simp [freeSQLConnection, freed, hn]

/-- An allocation that the driver goes along with. -/
theorem allocSQLConnection_accepts (ha : r.globalAlloc = some a) (hr : r.accepts = true)
    (he : p.mSqlEnv = true) :
    p.allocSQLConnection r = some ((p.makeCell a).counted, some a) := by
  obtain ⟨⟨h₁, h₂⟩, h₃⟩ : (r.allocDbc = true ∧ r.connect = some true) ∧ r.allocStmt = true := by
    simpa [Answers.accepts] using hr
  simp [allocSQLConnection, ha, he, h₁, h₂, h₃, counted]

/-- An allocation that the driver refuses: the cell is counted off without having
been counted. -/
theorem allocSQLConnection_refuses (hp : p.Shape ps ns none) (ha : r.globalAlloc = some a)
    (hr : r.refuses = true) (he : p.mSqlEnv = true) (hfree : p.heap a = none)
    (hrange : 0 < a ∧ a < 2 ^ w) :
    p.allocSQLConnection r = some ((p.makeCell a).freed a, none) := by
  have hfreed := freeSQLConnection_eq (hp.makeCell hfree hrange).isSome
  simp only [Answers.refuses, Bool.or_eq_true, Bool.not_eq_eq_eq_not, Bool.not_true,
    beq_iff_eq, Bool.and_eq_true] at hr
  rcases hr with (hr | hr) | ⟨hr, hs⟩
  · simp [allocSQLConnection, ha, he, hr, hfreed]
  · cases hd : r.allocDbc <;> simp [allocSQLConnection, ha, he, hr, hd, hfreed]
  · cases hd : r.allocDbc <;> simp [allocSQLConnection, ha, he, hr, hs, hd, hfreed]

/-- Without memory, without `mSqlEnv`, or when `Connect` throws, the process is gone. -/
theorem allocSQLConnection_faults
    (h : p.mSqlEnv = true → r.globalAlloc.isSome → r.accepts = false ∧ r.refuses = false) :
    p.allocSQLConnection r = none := by
  cases ha : r.globalAlloc with
  | none => simp [allocSQLConnection, ha, freeSQLConnection]
  | some a =>
    cases he : p.mSqlEnv with
    | false => simp [allocSQLConnection, ha, he]
    | true =>
      obtain ⟨hr, hs⟩ := h he (by simp [ha])
      cases hd : r.allocDbc with
      | false => simp [Answers.refuses, hd] at hs
      | true =>
        cases hc : r.connect with
        | none => simp [allocSQLConnection, ha, he, hd, hc]
        | some b =>
          cases b <;> cases ht : r.allocStmt <;>
            simp [Answers.refuses, Answers.accepts, hd, hc, ht] at hs hr

theorem Shape.nonPaged_eq (hp : p.Shape ps ns c) : p.mNonPagedPoolUsage = ns.head? :=
  hp.split.second.1

theorem takeIdle_nil (hp : p.Shape ps [] none) : p.takeIdle r = some (p, none) := by
  rw [takeIdle, hp.nonPaged_eq]
  rfl

theorem takeIdle_alive (hp : p.Shape ps (a :: m) none) (hr : r.connectionDead = false) :
    p.takeIdle r = some (p.detachNonPaged a m.head?, some a) := by
  have hd := detachPool_eq (l := []) hp.split.second
  simp only [takeIdle, hp.nonPaged_eq, List.head?_cons] at hd ⊢
  simp [hd, hr, detachNonPaged]

theorem takeIdle_dead (hp : p.Shape ps (a :: m) none) (hr : r.connectionDead = true) :
    p.takeIdle r = some ((p.detachNonPaged a m.head?).freed a, none) := by
  have hd := detachPool_eq (l := []) hp.split.second
  have hf := freeSQLConnection_eq hp.detachNonPaged.isSome
  simp only [takeIdle, hp.nonPaged_eq, List.head?_cons] at hd ⊢
  simp only [hd, hr, Option.bind_eq_bind, Option.bind_some, if_true]
  exact hf

/-! What an operation does to the connections in the cells and to the account. -/

@[simp] theorem connectionAt_detachPaged {x : Option ℕ} :
    (p.detachPaged a x).connectionAt b = p.connectionAt b := unlink_value

@[simp] theorem connectionAt_attachPaged :
    (p.attachPaged a).connectionAt b = p.connectionAt b := pushFront_value

@[simp] theorem connectionAt_detachNonPaged {x : Option ℕ} :
    (p.detachNonPaged a x).connectionAt b = p.connectionAt b := unlink_value

@[simp] theorem connectionAt_attachNonPaged :
    (p.attachNonPaged a).connectionAt b = p.connectionAt b := pushFront_value

@[simp] theorem connectionAt_counted : p.counted.connectionAt b = p.connectionAt b := rfl

theorem connectionAt_freed (hba : b ≠ a) : (p.freed a).connectionAt b = p.connectionAt b := by
  simp [connectionAt, freed, hba]

theorem connectionAt_makeCell (hba : b ≠ a) :
    (p.makeCell a).connectionAt b = p.connectionAt b := by
  simp [connectionAt, makeCell, hba]

theorem Shape.connectionAt (hp : p.Shape ps ns none) (ha : a ∈ ps ++ ns) :
    ∃ v, p.connectionAt a = some v := by
  have hmem := List.mem_append.mp ha
  have hsome := (hp.split.covers a).mpr (by tauto)
  obtain ⟨n, hn⟩ := Option.isSome_iff_exists.mp hsome
  exact ⟨n.value, by simp [SQLPool.connectionAt, hn]⟩

theorem Accounts.freed {k : ℕ} (hp : p.Accounts (k + 1)) (hk : k + 1 < 2 ^ w) :
    (p.freed a).Accounts k := by
  have hne : p.mWorkingSetSize ≠ 0 := by
    intro h0
    have := congrArg BitVec.toNat (hp.workingSet.symm.trans h0)
    simp [Nat.mod_eq_of_lt hk] at this
  refine ⟨?_, by simpa [SQLPool.freed, hp.wrapped] using hne⟩
  show p.mWorkingSetSize - 1 = BitVec.ofNat w k
  rw [hp.workingSet, BitVec.ofNat_add]
  exact BitVec.add_sub_cancel _ _

theorem Accounts.counted {k : ℕ} (hp : p.Accounts k) : p.counted.Accounts (k + 1) :=
  ⟨by rw [BitVec.ofNat_add, ← hp.workingSet]; rfl, hp.wrapped⟩

/-- A cell that is counted off without having been counted. -/
theorem Accounts.freed_uncounted {k : ℕ} (hp : p.Accounts k) (hw : 1 < 2 ^ w) :
    ¬ (p.freed a).Accounts k := by
  intro hq
  have hsub : p.mWorkingSetSize - 1 = p.mWorkingSetSize := hq.workingSet.trans hp.workingSet.symm
  have hadd : p.mWorkingSetSize = p.mWorkingSetSize + 1 := BitVec.sub_eq_iff_eq_add.mp hsub
  have h1 := congrArg BitVec.toNat (BitVec.self_eq_add_right.mp hadd)
  simp [Nat.mod_eq_of_lt hw] at h1

/-! ## `GetPool` -/

/-- What is left of a pool once `GetPool` found no connection alive. -/
structure Vacated (p q : SQLPool w) (ps ns : List ℕ) : Prop where
  shape : q.Shape ps ns.tail none
  env : q.mSqlEnv = p.mSqlEnv
  made : q.made = p.made
  accounts : p.Accounts (ps.length + ns.length) → q.Accounts (ps.length + ns.tail.length)
  keeps : ∀ b ∈ ps, q.connectionAt b = p.connectionAt b

theorem takeIdle_vacates (hp : p.Shape ps ns none) (hm : p.MustAlloc r) :
    ∃ q, p.takeIdle r = some (q, none) ∧ Vacated p q ps ns := by
  cases ns with
  | nil => exact ⟨p, takeIdle_nil hp, hp, rfl, rfl, id, fun _ _ => rfl⟩
  | cons a m =>
    have hr : r.connectionDead = true := hm.resolve_left (by simp [hp.nonPaged_eq])
    have hlt := hp.length_lt
    refine ⟨_, takeIdle_dead hp hr, hp.detachNonPaged.freed, rfl, rfl, fun hacc => ?_, ?_⟩
    · exact Accounts.freed (p := p.detachNonPaged a m.head?) ⟨hacc.workingSet, hacc.wrapped⟩ hlt
    · intro b hb
      have hba : b ≠ a := by
        rintro rfl
        exact hp.split.disjoint hb (List.mem_cons_self ..)
      rw [connectionAt_freed hba, connectionAt_detachNonPaged]

theorem CanAlloc.free (hr : p.CanAlloc r) (hp : p.Shape ps ns none) (hq : Vacated p q ps ns)
    (ha : r.globalAlloc = some a) : q.heap a = none ∧ 0 < a ∧ a < 2 ^ w := by
  obtain ⟨hrange, hfree⟩ := hr a ha
  refine ⟨Option.not_isSome_iff_eq_none.mp fun hsome => ?_, hrange⟩
  have hmem : a ∈ ps ∨ a ∈ ns.tail := by simpa using (hq.shape.split.covers a).mp hsome
  rcases hfree with hfree | ⟨-, hhead⟩
  · refine absurd ((hp.split.covers a).mpr ?_) (by simp [hfree])
    exact hmem.imp_right (fun h => .inl (List.mem_of_mem_tail h))
  · -- the address of the dead connection, which is in neither list any more
    rw [hp.nonPaged_eq] at hhead
    obtain ⟨m, rfl⟩ : ∃ m, ns = a :: m := by
      cases ns with
      | nil => cases hhead
      | cons b m => exact ⟨m, by rw [Option.some.inj hhead]⟩
    rcases hmem with hmem | hmem
    · exact hp.split.disjoint hmem (List.mem_cons_self ..)
    · exact (List.nodup_cons.mp hp.split.second.nodup).1 hmem

/-- How a `GetPool` can end. -/
inductive GetPool (p : SQLPool w) (ps ns : List ℕ) (r : Answers) :
    Option (SQLPool w × Option ℕ) → Prop
  | reused (a : ℕ) (m : List ℕ) (hns : ns = a :: m) (hm : ¬ p.MustAlloc r) :
    GetPool p ps ns r (some ((p.detachNonPaged a m.head?).attachPaged a, some a))
  | made (q : SQLPool w) (a : ℕ) (hm : p.MustAlloc r) (hq : Vacated p q ps ns)
      (he : p.mSqlEnv = true) (ha : r.globalAlloc = some a) (hr : r.accepts = true)
      (hfree : q.heap a = none ∧ 0 < a ∧ a < 2 ^ w) :
    GetPool p ps ns r (some ((q.makeCell a).counted.attachPaged a, some a))
  | refused (q : SQLPool w) (a : ℕ) (hm : p.MustAlloc r) (hq : Vacated p q ps ns)
      (he : p.mSqlEnv = true) (ha : r.globalAlloc = some a) (hr : r.refuses = true)
      (hfree : q.heap a = none ∧ 0 < a ∧ a < 2 ^ w) :
    GetPool p ps ns r (some ((q.makeCell a).freed a, none))
  | faulted (hm : p.MustAlloc r)
      (h : p.mSqlEnv = true → r.globalAlloc.isSome → r.accepts = false ∧ r.refuses = false) :
    GetPool p ps ns r none

theorem attachPaged_eq {q : SQLPool w} (hq : q.Shape ps ns (some a)) :
    (attachPool q.heap q.mPagedPoolUsage a).map (fun o => ({ q with
      heap := o.1
      mPagedPoolUsage := o.2
      mQuotaPagedPoolUsage := q.mQuotaPagedPoolUsage + 1 } : SQLPool w)) =
    some (q.attachPaged a) := by
  obtain ⟨-, -, v, hv⟩ := hq.split.loose a rfl
  rw [attachPool_eq hq.split.first hv]
  rfl

/-- The specification of `GetPool`. -/
theorem getPool_spec (hp : p.Shape ps ns none) (hr : p.CanAlloc r) :
    GetPool p ps ns r (p.getPool r) := by
  by_cases hm : p.MustAlloc r
  · obtain ⟨q, hq, hv⟩ := takeIdle_vacates hp hm
    by_cases hf : p.mSqlEnv = true → r.globalAlloc.isSome → r.accepts = false ∧ r.refuses = false
    · have halloc := allocSQLConnection_faults (p := q) (hv.env ▸ hf)
      have : p.getPool r = none := by simp [getPool, hq, halloc]
      exact this ▸ .faulted hm hf
    · push Not at hf
      obtain ⟨he, hsome, hans⟩ := hf
      obtain ⟨a, ha⟩ := Option.isSome_iff_exists.mp hsome
      have hfree := hr.free hp hv ha
      cases hacc : r.accepts with
      | true =>
        have halloc := allocSQLConnection_accepts (p := q) ha hacc (hv.env.trans he)
        have hcell := attachPaged_eq (hv.shape.makeCell hfree.1 hfree.2).counted
        obtain ⟨⟨h, x⟩, ho, hcell⟩ := Option.map_eq_some_iff.mp hcell
        have : p.getPool r = some ((q.makeCell a).counted.attachPaged a, some a) := by
          simp only [getPool, hq, halloc, Option.bind_eq_bind, Option.bind_some,
            Option.isNone_none, if_true, ho, ← hcell]
        exact this ▸ .made q a hm hv he ha hacc hfree
      | false =>
        have href : r.refuses = true := by simpa using hans hacc
        have halloc := allocSQLConnection_refuses hv.shape ha href (hv.env.trans he) hfree.1 hfree.2
        have : p.getPool r = some ((q.makeCell a).freed a, none) := by simp [getPool, hq, halloc]
        exact this ▸ .refused q a hm hv he ha href hfree
  · obtain ⟨hhead, hdead⟩ := not_or.mp hm
    cases ns with
    | nil => exact absurd hp.nonPaged_eq hhead
    | cons a m =>
      have hidle := takeIdle_alive hp (by simpa using hdead)
      obtain ⟨⟨h, x⟩, ho, hcell⟩ := Option.map_eq_some_iff.mp (attachPaged_eq hp.detachNonPaged)
      have : p.getPool r = some ((p.detachNonPaged a m.head?).attachPaged a, some a) := by
        simp only [getPool, hidle, Option.bind_eq_bind, Option.bind_some, Option.isNone_some,
          Bool.false_eq_true, if_false, ho, ← hcell]
      exact this ▸ .reused a m rfl hm

/-- `GetPool` takes a connection from the idle ones or makes one. -/
def Obtains (p : SQLPool w) (r : Answers) : Prop :=
  p.MustAlloc r → p.mSqlEnv = true ∧ r.globalAlloc.isSome = true ∧ r.accepts = true

instance : Decidable (p.Obtains r) := by
  unfold Obtains
  infer_instance

/-- `GetPool` returns NULL. -/
def Refused (p : SQLPool w) (r : Answers) : Prop :=
  p.MustAlloc r ∧ p.mSqlEnv = true ∧ r.globalAlloc.isSome = true ∧ r.refuses = true

instance : Decidable (p.Refused r) := by
  unfold Refused
  infer_instance

theorem Answers.not_refuses (hr : r.accepts = true) : r.refuses = false := by
  obtain ⟨⟨h₁, h₂⟩, h₃⟩ : (r.allocDbc = true ∧ r.connect = some true) ∧ r.allocStmt = true := by
    simpa [Answers.accepts] using hr
  simp [Answers.refuses, h₁, h₂, h₃]

theorem GetPool.shape (h : GetPool p ps ns r (some (q, c))) (hp : p.Shape ps ns none) :
    q.Shape (c.toList ++ ps) ns.tail none := by
  cases h with
  | reused a m hns hm =>
    subst hns
    exact hp.detachNonPaged.attachPaged
  | made q a hm hq he ha hr hfree => exact (hq.shape.makeCell hfree.1 hfree.2).counted.attachPaged
  | refused q a hm hq he ha hr hfree => exact (hq.shape.makeCell hfree.1 hfree.2).freed

/-- The connections handed out stay the same ones. -/
theorem GetPool.keeps (h : GetPool p ps ns r (some (q, c))) (hb : b ∈ ps) :
    q.connectionAt b = p.connectionAt b := by
  have hne {q : SQLPool w} {a : ℕ} (hq : Vacated p q ps ns) (hfree : q.heap a = none) : b ≠ a := by
    rintro rfl
    have := hq.shape.split.first.isSome hb
    simp [hfree] at this
  cases h with
  | reused a m hns hm => rw [connectionAt_attachPaged, connectionAt_detachNonPaged]
  | made q a hm hq he ha hr hfree =>
    rw [connectionAt_attachPaged, connectionAt_counted, connectionAt_makeCell (hne hq hfree.1),
      hq.keeps b hb]
  | refused q a hm hq he ha hr hfree =>
    rw [connectionAt_freed (hne hq hfree.1), connectionAt_makeCell (hne hq hfree.1), hq.keeps b hb]

/-- The account is right after a `GetPool` exactly when it obtained a connection. -/
theorem GetPool.accounts_iff (h : GetPool p ps ns r (some (q, c)))
    (hacc : p.Accounts (ps.length + ns.length)) :
    q.Accounts ((c.toList ++ ps).length + ns.tail.length) ↔ p.Obtains r := by
  cases h with
  | reused a m hns hm =>
    refine iff_of_true ⟨?_, hacc.wrapped⟩ (fun hm' => absurd hm' hm)
    subst hns
    refine Eq.trans hacc.workingSet ?_
    congr 1
    simp only [Option.toList_some, List.singleton_append, List.length_cons, List.tail_cons]
    omega
  | made q a hm hq he ha hr hfree =>
    refine iff_of_true ?_ (fun _ => ⟨he, by simp [ha], hr⟩)
    have hq' := hq.accounts hacc
    have hc := Accounts.counted (p := q.makeCell a) ⟨hq'.workingSet, hq'.wrapped⟩
    rw [Option.toList_some, List.singleton_append, List.length_cons, Nat.add_right_comm]
    exact ⟨hc.workingSet, hc.wrapped⟩
  | refused q a hm hq he ha hr hfree =>
    refine iff_of_false (fun hq' => ?_) (fun hob => ?_)
    · have hacc' := hq.accounts hacc
      refine Accounts.freed_uncounted (p := q.makeCell a) (a := a) ⟨hacc'.workingSet, hacc'.wrapped⟩
        ?_ hq'
      omega
    · simp [Answers.not_refuses (hob hm).2.2] at hr

theorem GetPool.not_obtains (h : GetPool p ps ns r none) : ¬ p.Obtains r := by
  cases h with
  | faulted hm h =>
    intro hob
    obtain ⟨he, ha, hr⟩ := hob hm
    simp [(h he ha).1] at hr

theorem freeSQLConnection_env {o : Option ℕ} (h : p.freeSQLConnection o = some (q, c)) :
    c = none ∧ q.mSqlEnv = p.mSqlEnv := by
  simp only [freeSQLConnection, Option.bind_eq_bind, Option.bind_eq_some_iff, Option.some.injEq,
    Prod.mk.injEq] at h
  obtain ⟨a, -, n, -, rfl, rfl⟩ := h
  exact ⟨rfl, rfl⟩

theorem takeIdle_env (h : p.takeIdle r = some (q, c)) :
    (c = none ↔ p.MustAlloc r) ∧ q.mSqlEnv = p.mSqlEnv := by
  cases hhead : p.mNonPagedPoolUsage with
  | none =>
    simp only [takeIdle, hhead, Option.some.injEq, Prod.mk.injEq] at h
    obtain ⟨rfl, rfl⟩ := h
    exact ⟨iff_of_true rfl (.inl hhead), rfl⟩
  | some a =>
    simp only [takeIdle, hhead, Option.bind_eq_bind, Option.bind_eq_some_iff] at h
    obtain ⟨⟨g, x⟩, -, h⟩ := h
    split_ifs at h with hd
    · obtain ⟨rfl, henv⟩ := freeSQLConnection_env h
      exact ⟨iff_of_true rfl (.inr hd), henv⟩
    · simp only [Option.some.injEq, Prod.mk.injEq] at h
      obtain ⟨rfl, rfl⟩ := h
      exact ⟨iff_of_false (by simp) (by simp [MustAlloc, hhead, hd]), rfl⟩

theorem allocSQLConnection_null_iff (h : p.allocSQLConnection r = some (q, c)) :
    c = none ↔ p.mSqlEnv = true ∧ r.globalAlloc.isSome = true ∧ r.refuses = true := by
  cases ha : r.globalAlloc with
  | none => simp [allocSQLConnection, ha, freeSQLConnection] at h
  | some a =>
    simp only [allocSQLConnection, ha] at h
    split at h
    · rename_i he
      split at h
      · rename_i hd
        split at h
        · cases h
        · rename_i hc
          split at h
          · rename_i hs
            simp only [Option.some.injEq, Prod.mk.injEq] at h
            exact iff_of_false (by simp [← h.2]) (by simp [Answers.refuses, hd, hc, hs])
          · rename_i hs
            exact iff_of_true (freeSQLConnection_env h).1
              ⟨he, rfl, by simp [Answers.refuses, hc, hs]⟩
        · rename_i hc
          exact iff_of_true (freeSQLConnection_env h).1 ⟨he, rfl, by simp [Answers.refuses, hc]⟩
      · rename_i hd
        exact iff_of_true (freeSQLConnection_env h).1 ⟨he, rfl, by simp [Answers.refuses, hd]⟩
    · cases h

/-- When `GetPool` comes back with NULL, in any state of the pool. -/
theorem getPool_null_iff (h : p.getPool r = some (q, c)) : c = none ↔ p.Refused r := by
  obtain ⟨⟨p₁, c₁⟩, htake, h⟩ := Option.bind_eq_some_iff.mp h
  obtain ⟨hmust, henv⟩ := takeIdle_env htake
  rw [Refused, ← hmust, ← henv]
  cases c₁ with
  | none =>
    simp only [Option.isNone_none, if_true, Option.bind_eq_bind] at h
    obtain ⟨⟨p₂, c₂⟩, halloc, h⟩ := Option.bind_eq_some_iff.mp h
    have hc : c = c₂ := by
      cases c₂ with
      | none => exact (Prod.mk.inj (Option.some.inj h)).2.symm
      | some a =>
        obtain ⟨o, -, h⟩ := Option.bind_eq_some_iff.mp h
        exact (Prod.mk.inj (Option.some.inj h)).2.symm
    rw [hc, allocSQLConnection_null_iff halloc]
    exact (and_iff_right rfl).symm
  | some a =>
    simp only [Option.isNone_some, Bool.false_eq_true, if_false, Option.bind_eq_bind,
      Option.bind_some] at h
    obtain ⟨o, -, h⟩ := Option.bind_eq_some_iff.mp h
    exact iff_of_false (by simp [← (Prod.mk.inj (Option.some.inj h)).2]) (by simp)

/-! ## `ReleasePool` and `Shutdown` -/

theorem releasePool_eq (hp : p.Shape (l ++ a :: m) ns none) (isDelete : Bool) :
    p.releasePool a isDelete = some (if isDelete then (p.detachPaged a (l ++ m).head?).freed a
      else (p.detachPaged a (l ++ m).head?).attachNonPaged a) := by
  have hd := hp.detachPaged
  cases isDelete with
  | true =>
    have hf := freeSQLConnection_eq hd.isSome
    simp only [releasePool, detachPool_eq hp.split.first, Option.bind_eq_bind, Option.bind_some,
      if_true]
    exact congrArg (fun o => o.bind (fun o => some o.1)) hf
  | false =>
    obtain ⟨-, -, v, hv⟩ := hd.split.loose a rfl
    have hat := attachPool_eq hd.split.second hv
    simp only [releasePool, detachPool_eq hp.split.first, Option.bind_eq_bind, Option.bind_some,
      Bool.false_eq_true, if_false]
    exact congrArg (fun o => o.bind (fun o => some { p.detachPaged a (l ++ m).head? with
      heap := o.1
      mNonPagedPoolUsage := o.2
      mQuotaNonPagedPoolUsage := p.mQuotaNonPagedPoolUsage + 1 })) hat

theorem releasePool_shape (hp : p.Shape (l ++ a :: m) ns none) {isDelete : Bool}
    (h : p.releasePool a isDelete = some q) :
    q.Shape (l ++ m) (if isDelete then ns else a :: ns) none := by
  obtain rfl := Option.some.inj ((releasePool_eq hp isDelete).symm.trans h)
  cases isDelete with
  | true => exact hp.detachPaged.freed
  | false => exact hp.detachPaged.attachNonPaged

theorem releasePool_keeps (hp : p.Shape (l ++ a :: m) ns none) {isDelete : Bool}
    (h : p.releasePool a isDelete = some q) (hba : b ≠ a) :
    q.connectionAt b = p.connectionAt b := by
  obtain rfl := Option.some.inj ((releasePool_eq hp isDelete).symm.trans h)
  cases isDelete with
  | true => exact (connectionAt_freed hba).trans connectionAt_detachPaged
  | false => exact connectionAt_attachNonPaged.trans connectionAt_detachPaged

theorem releasePool_accounts (hp : p.Shape (l ++ a :: m) ns none) {isDelete : Bool}
    (hacc : p.Accounts ((l ++ a :: m).length + ns.length)) (h : p.releasePool a isDelete = some q) :
    q.Accounts ((l ++ m).length + (if isDelete then ns else a :: ns).length) := by
  obtain rfl := Option.some.inj ((releasePool_eq hp isDelete).symm.trans h)
  have hlt := hp.length_lt
  have hlen : (l ++ a :: m).length + ns.length = (l ++ m).length + ns.length + 1 := by
    simp only [List.length_append, List.length_cons]
    omega
  rw [hlen] at hacc hlt
  cases isDelete with
  | true =>
    exact Accounts.freed (p := p.detachPaged a (l ++ m).head?) ⟨hacc.workingSet, hacc.wrapped⟩ hlt
  | false => exact ⟨hacc.workingSet, hacc.wrapped⟩

theorem foldl_freed_heap (l : List ℕ) (p : SQLPool w) :
    (l.foldl freed p).heap b = if b ∈ l then none else p.heap b := by
  induction l generalizing p with
  | nil => simp
  | cons a l ih =>
    rw [List.foldl_cons, ih]
    by_cases hba : b = a
    · simp [hba, freed]
    · simp [hba, freed]

theorem foldl_freed_heads (l : List ℕ) (p : SQLPool w) :
    (l.foldl freed p).mPagedPoolUsage = p.mPagedPoolUsage ∧
    (l.foldl freed p).mNonPagedPoolUsage = p.mNonPagedPoolUsage := by
  induction l generalizing p with
  | nil => exact ⟨rfl, rfl⟩
  | cons a l ih => exact ih (p.freed a)

theorem Accounts.foldl_freed {k : ℕ} (hp : p.Accounts (l.length + k)) (hk : l.length + k < 2 ^ w) :
    (l.foldl SQLPool.freed p).Accounts k := by
  induction l generalizing p with
  | nil => simpa using hp
  | cons a l ih =>
    have hlen : (a :: l).length + k = l.length + k + 1 := by
      rw [List.length_cons]
      omega
    rw [hlen] at hp hk
    exact ih (hp.freed hk) (Nat.lt_of_succ_lt hk)

/-- With fuel for its list the loop frees all of it. -/
theorem freeAll_eq {x : Option ℕ} {f : ℕ} (hl : Linked p.heap x l none) (hf : l.length ≤ f) :
    freeAll f p l.head? = some (l.foldl freed p) := by
  induction l generalizing p x f with
  | nil => cases f <;> rfl
  | cons a l ih =>
    obtain ⟨f, rfl⟩ : ∃ k, f = k + 1 := Nat.exists_eq_succ_of_ne_zero (by
      rw [List.length_cons] at hf
      omega)
    have hd := List.nodup_cons.mp hl.nodup
    obtain ⟨n, hn, -, hnext, hl⟩ := hl
    have hrest : Linked (p.freed a).heap (some a) l none := hl.congr fun b hb =>
      Function.update_of_ne (ne_of_mem_of_not_mem hb hd.1) _ _
    have hfree := freeSQLConnection_eq (p := p) (a := a) (by simp [hn])
    simp only [freeAll, List.head?_cons, hn, hfree, Option.bind_eq_bind, Option.bind_some, hnext,
      Option.or_none, List.foldl_cons]
    exact ih hrest (Nat.le_of_succ_le_succ hf)

theorem shutdown_spec (hp : p.Shape ps ns none) : ∃ q, p.shutdown = some q ∧ q.Shape [] [] none ∧
    (p.Accounts (ps.length + ns.length) → q.Accounts 0) := by
  have hlt := hp.length_lt
  obtain ⟨p₁, hp₁⟩ : ∃ p₁, ps.foldl freed p = p₁ := ⟨_, rfl⟩
  have hps := freeAll_eq (f := 2 ^ w) hp.split.first.2 (by omega)
  have hhead : p₁.mNonPagedPoolUsage = ns.head? := by
    rw [← hp₁, (foldl_freed_heads ps p).2, hp.nonPaged_eq]
  have hheap : ∀ b, p₁.heap b = if b ∈ ps then none else p.heap b := by
    intro b
    rw [← hp₁, foldl_freed_heap]
  have hlink : Linked p₁.heap none ns none := hp.split.second.2.congr fun b hb => by
    rw [hheap, if_neg (fun hbp => hp.split.disjoint hbp hb)]
  have hns := freeAll_eq (p := { p₁ with mPagedPoolUsage := none }) (f := 2 ^ w) hlink (by omega)
  rw [← hp.split.first.1, hp₁] at hps
  rw [← hhead] at hns
  refine ⟨{ ns.foldl freed { p₁ with mPagedPoolUsage := none } with
    mNonPagedPoolUsage := none, mSqlEnv := false }, ?_, ?_, fun hacc => ?_⟩
  · simp only [shutdown, hps, Option.bind_eq_bind, Option.bind_some, hns]
  · have hnone : ∀ b, (ns.foldl freed { p₁ with mPagedPoolUsage := none }).heap b = none := by
      intro b
      rw [foldl_freed_heap]
      split_ifs with hbn
      · rfl
      · refine (hheap b).trans (ite_eq_left_iff.mpr fun hbp => ?_)
        refine Option.not_isSome_iff_eq_none.mp fun hsome => ?_
        have := (hp.split.covers b).mp hsome
        simp [hbn, hbp] at this
    refine ⟨⟨isList_nil.mpr ?_, isList_nil.mpr rfl, by simp, by simp, fun b => ?_⟩, fun b hb => ?_⟩
    · exact (foldl_freed_heads ns _).1
    · simp [hnone b]
    · simp [hnone b] at hb
  · have hfree := hacc.foldl_freed hlt
    rw [hp₁] at hfree
    have hrest := Accounts.foldl_freed (p := { p₁ with mPagedPoolUsage := none })
      (l := ns) (k := 0) ⟨hfree.workingSet, hfree.wrapped⟩ (by omega)
    exact ⟨hrest.workingSet, hrest.wrapped⟩

end Operations

end SQLPool
end Xiaoxin
