import Xiaoxin.Transition
import Xiaoxin.PerHandleData

/-!
# The socket manager

`SocketManager` keeps the sockets of one acceptor or connector. A report that a
socket failed goes through `SocketErrorNotify`, which takes its lock only to look
the socket up and to erase it. Notifying, closing and deleting come after the
lock is released, and they do not ask whether the socket was found. The two parts
are two steps here, so that other callers can come in between.

Beside the fields of the class the model keeps what has been done to sockets so
far: the notifications sent, the sockets closed and the sockets deleted.
-/
namespace Xiaoxin
open Transition

/-- `SocketManager::eSocketEvent`. -/
inductive ESocketEvent
  | none | postRecvFailed | sendFailed | closed
  deriving DecidableEq, Repr

structure SocketManager where
  /-- `_set`. -/
  set : List Socket
  /-- Whether `_func_socket_event_notify` is set. -/
  notifies : Bool
  notified : List (Socket × ESocketEvent)
  closed : List Socket
  deleted : List Socket
  deriving DecidableEq, Repr

namespace SocketManager

/-- The constructor leaves `_func_socket_event_notify` null. -/
def new : SocketManager := ⟨[], false, [], [], []⟩

def init (m : SocketManager) (func : Bool) : SocketManager := { m with notifies := func }

def add (m : SocketManager) (s : Socket) : SocketManager := { m with set := m.set.insert s }

/-- The locked part of `SocketErrorNotify`. -/
def lockedErase (m : SocketManager) (s : Socket) : SocketManager :=
  { m with set := m.set.erase s }

/-- The rest of `SocketErrorNotify`: notify, close, delete. -/
def closeAndDelete (m : SocketManager) (s : Socket) (eventID : ESocketEvent) : SocketManager :=
  { m with
    notified := if m.notifies then m.notified ++ [(s, eventID)] else m.notified
    closed := m.closed ++ [s]
    deleted := m.deleted ++ [s] }

/-- `ClearAll` holds its lock throughout. -/
def clearAll (m : SocketManager) : SocketManager :=
  { m with
    set := []
    notifies := false
    closed := m.closed ++ m.set
    deleted := m.deleted ++ m.set }

/-! ## Several callers at once -/

/-- A call of `SocketErrorNotify` that has released its lock. -/
structure Call where
  socket : Socket
  eventID : ESocketEvent
  /-- Whether the call found its socket in `_set` and so took it out. -/
  found : Bool
  deriving DecidableEq, Repr

/-- The manager, the calls that still have to close and delete, and for the record
the sockets added and the deletions with whether the deleting call took the socket
out of `_set`. -/
structure Callers where
  manager : SocketManager
  pending : List Call
  added : List Socket
  deletions : List (Socket × Bool)
  deriving DecidableEq, Repr

inductive Operation
  | add (s : Socket)
  | postRecvFailed (s : Socket)
  | sendFailed (s : Socket)
  | socketClosed (s : Socket)
  /-- The `i`-th pending call closes and deletes its socket. -/
  | finish (i : ℕ)
  | clearAll
  deriving DecidableEq, Repr

/-- The socket that a report names. -/
def Operation.reports : Operation → Option Socket
  | .postRecvFailed s => some s
  | .sendFailed s => some s
  | .socketClosed s => some s
  | _ => none

namespace Callers

def start (func : Bool) : Callers := ⟨new.init func, [], [], []⟩

/-- `SocketErrorNotify` up to the release of its lock. -/
def socketErrorNotify (c : Callers) (s : Socket) (eventID : ESocketEvent) : Callers :=
  { c with
    manager := c.manager.lockedErase s
    pending := c.pending ++ [⟨s, eventID, decide (s ∈ c.manager.set)⟩] }

/-- The rest of the call. -/
def finish (c : Callers) (i : ℕ) (call : Call) : Callers :=
  { c with
    manager := c.manager.closeAndDelete call.socket call.eventID
    pending := c.pending.eraseIdx i
    deletions := c.deletions ++ [(call.socket, call.found)] }

/-- Each socket is added once. -/
def step (c : Callers) : Operation → Option Callers
  | .add s =>
    if s ∈ c.added then none
    else some { c with manager := c.manager.add s, added := s :: c.added }
  | .postRecvFailed s => some (c.socketErrorNotify s .postRecvFailed)
  | .sendFailed s => some (c.socketErrorNotify s .sendFailed)
  | .socketClosed s => some (c.socketErrorNotify s .closed)
  | .finish i => (c.pending[i]?).map (c.finish i)
  | .clearAll =>
    some { c with
      manager := c.manager.clearAll
      deletions := c.deletions ++ c.manager.set.map (fun s => (s, true)) }

/-- What a step can do. -/
theorem step_cases {c d : Callers} {op : Operation} (h : c.step op = some d) :
    (∃ s, op = .add s ∧ s ∉ c.added ∧
      d = { c with manager := c.manager.add s, added := s :: c.added }) ∨
    (∃ s e, op.reports = some s ∧ d = c.socketErrorNotify s e) ∨
    (∃ i call, op = .finish i ∧ c.pending[i]? = some call ∧ d = c.finish i call) ∨
    (op = .clearAll ∧ d = { c with
      manager := c.manager.clearAll
      deletions := c.deletions ++ c.manager.set.map (fun s => (s, true)) }) := by
  cases op with
  | add s =>
    simp only [step] at h
    split_ifs at h with hs
    exact .inl ⟨s, rfl, hs, (Option.some.inj h).symm⟩
  | postRecvFailed s => exact .inr (.inl ⟨s, _, rfl, (Option.some.inj h).symm⟩)
  | sendFailed s => exact .inr (.inl ⟨s, _, rfl, (Option.some.inj h).symm⟩)
  | socketClosed s => exact .inr (.inl ⟨s, _, rfl, (Option.some.inj h).symm⟩)
  | finish i =>
    obtain ⟨call, hc, rfl⟩ := Option.map_eq_some_iff.mp h
    exact .inr (.inr (.inl ⟨i, call, rfl, hc, rfl⟩))
  | clearAll => exact .inr (.inr (.inr ⟨rfl, (Option.some.inj h).symm⟩))

/-- Every deletion so far was of a socket that the same call took out of `_set`,
and no socket was deleted twice. -/
structure DeletedOnce (c : Callers) : Prop where
  once : c.manager.deleted.Nodup
  registered : ∀ d ∈ c.deletions, d.2 = true

instance (c : Callers) : Decidable c.DeletedOnce :=
  decidable_of_iff (c.manager.deleted.Nodup ∧ ∀ d ∈ c.deletions, d.2 = true)
    ⟨fun h => ⟨h.1, h.2⟩, fun h => ⟨h.once, h.registered⟩⟩

/-- A report finds the socket it names. -/
def ReportFinds (c : Callers) (op : Operation) : Prop :=
  ∀ s, op.reports = some s → s ∈ c.manager.set

instance (c : Callers) (op : Operation) : Decidable (ReportFinds c op) :=
  inferInstanceAs (Decidable (∀ s ∈ op.reports, s ∈ c.manager.set))

/-- The sockets that are registered, on their way out or deleted: each occurs once. -/
def custody (c : Callers) : List Socket :=
  c.manager.set ++ c.pending.map Call.socket ++ c.deletions.map Prod.fst

structure Inv (c : Callers) : Prop where
  once : c.custody.Nodup
  added : ∀ s ∈ c.custody, s ∈ c.added

/-- No call deletes, or is about to delete, a socket that it did not take out. -/
def TookOut (c : Callers) : Prop :=
  (∀ call ∈ c.pending, call.found = true) ∧ ∀ d ∈ c.deletions, d.2 = true

theorem start_inv (func : Bool) : (start func).Inv :=
  ⟨by simp [start, custody, new, init], by simp [start, custody, new, init]⟩

/-- Custody is only passed on: an operation adds a fresh socket or moves one along. -/
theorem step_custody {c d : Callers} {op : Operation} (hc : ReportFinds c op)
    (h : c.step op = some d) :
    (∃ s, s ∉ c.added ∧ d.added = s :: c.added ∧
      (d.custody.Perm (s :: c.custody) ∨ d.custody.Perm c.custody)) ∨
    (d.added = c.added ∧ d.custody.Perm c.custody) := by
  rcases step_cases h with ⟨s, -, hs, rfl⟩ | ⟨s, e, hr, rfl⟩ | ⟨i, call, -, hi, rfl⟩ | ⟨-, rfl⟩
  · refine .inl ⟨s, hs, rfl, ?_⟩
    by_cases hm : s ∈ c.manager.set
    · exact .inr (by simp [custody, SocketManager.add, hm])
    · exact .inl (by simp [custody, SocketManager.add, hm])
  · refine .inr ⟨rfl, ?_⟩
    have hm := (List.perm_cons_erase (hc s hr)).symm
    simp only [custody, socketErrorNotify, lockedErase, List.map_append, List.map_cons,
      List.map_nil]
    refine List.Perm.append_right _ ?_
    rw [← List.append_assoc]
    exact List.perm_append_comm.trans (List.Perm.append_right _ hm)
  · refine .inr ⟨rfl, ?_⟩
    have hlt : i < c.pending.length := (List.getElem?_eq_some_iff.mp hi).1
    have hget : c.pending[i] = call := (List.getElem?_eq_some_iff.mp hi).2
    have hp : c.pending.Perm (call :: c.pending.eraseIdx i) := by
      rw [← hget]
      exact (List.getElem_cons_eraseIdx_perm hlt).symm
    have hm := (hp.map Call.socket).symm
    simp only [custody, Callers.finish, closeAndDelete, List.map_append, List.map_cons,
      List.map_nil, List.append_assoc]
    refine List.Perm.append_left _ ?_
    rw [← List.append_assoc]
    refine List.Perm.trans List.perm_append_comm ?_
    rw [← List.append_assoc]
    exact List.Perm.append_right _ (by simpa using hm)
  · refine .inr ⟨rfl, ?_⟩
    simp only [custody, clearAll, List.map_append, List.map_map, Function.comp_def,
      List.map_id_fun', id_eq, List.nil_append, List.append_assoc]
    rw [← List.append_assoc, ← List.append_assoc]
    exact List.perm_append_comm.trans (by rw [List.append_assoc])

theorem step_inv {c d : Callers} {op : Operation} (hi : c.Inv) (hc : ReportFinds c op)
    (h : c.step op = some d) : d.Inv := by
  rcases step_custody hc h with ⟨s, hs, hadd, hp | hp⟩ | ⟨hadd, hp⟩
  · have hn : s ∉ c.custody := fun hm => hs (hi.added s hm)
    refine ⟨hp.nodup_iff.mpr (List.nodup_cons.mpr ⟨hn, hi.once⟩), fun t ht => ?_⟩
    rw [hadd]
    rcases List.mem_cons.mp (hp.mem_iff.mp ht) with rfl | ht
    · exact List.mem_cons_self ..
    · exact List.mem_cons_of_mem _ (hi.added t ht)
  · refine ⟨hp.nodup_iff.mpr hi.once, fun t ht => ?_⟩
    rw [hadd]
    exact List.mem_cons_of_mem _ (hi.added t (hp.mem_iff.mp ht))
  · refine ⟨hp.nodup_iff.mpr hi.once, fun t ht => ?_⟩
    rw [hadd]
    exact hi.added t (hp.mem_iff.mp ht)

/-- A step keeps every call honest exactly when a report finds its socket. -/
theorem step_tookOut_iff {c d : Callers} {op : Operation} (hi : c.TookOut)
    (h : c.step op = some d) : d.TookOut ↔ ReportFinds c op := by
  rcases step_cases h with ⟨s, rfl, -, rfl⟩ | ⟨s, e, hr, rfl⟩ | ⟨i, call, rfl, hget, rfl⟩ |
    ⟨rfl, rfl⟩
  · simp only [ReportFinds, Operation.reports]
    exact ⟨fun _ => by simp, fun _ => hi⟩
  · simp only [TookOut, socketErrorNotify, ReportFinds, hr, List.mem_append, List.mem_singleton]
    constructor
    · rintro ⟨hp, -⟩ t ht
      have := hp _ (Or.inr rfl)
      simp_all
    · intro hf
      refine ⟨fun x hx => ?_, hi.2⟩
      rcases hx with hx | rfl
      · exact hi.1 x hx
      · simpa using hf s rfl
  · have hm : call ∈ c.pending := List.mem_of_getElem? hget
    refine ⟨fun _ => by simp [ReportFinds, Operation.reports],
      fun _ => ⟨fun x hx => ?_, fun x hx => ?_⟩⟩
    · exact hi.1 x (List.mem_of_mem_eraseIdx hx)
    · rcases List.mem_append.mp hx with hx | hx
      · exact hi.2 x hx
      · rw [List.mem_singleton.mp hx]
        exact hi.1 call hm
  · refine ⟨fun _ => by simp [ReportFinds, Operation.reports], fun _ => ⟨hi.1, fun x hx => ?_⟩⟩
    rcases List.mem_append.mp hx with hx | hx
    · exact hi.2 x hx
    · obtain ⟨s, -, rfl⟩ := List.mem_map.mp hx
      rfl

/-- A dishonest call stays on record. -/
theorem step_tookOut_back {c d : Callers} {op : Operation} (h : c.step op = some d)
    (hd : d.TookOut) : c.TookOut := by
  rcases step_cases h with ⟨s, -, -, rfl⟩ | ⟨s, e, -, rfl⟩ | ⟨i, call, -, hget, rfl⟩ | ⟨-, rfl⟩
  · exact hd
  · exact ⟨fun x hx => hd.1 x (List.mem_append_left _ hx), hd.2⟩
  · refine ⟨fun x hx => ?_, fun x hx => hd.2 x (List.mem_append_left _ hx)⟩
    by_cases hxc : x = call
    · subst hxc
      exact hd.2 (x.socket, x.found) (List.mem_append_right _ (List.mem_singleton_self _))
    · refine hd.1 x ?_
      obtain ⟨j, hj⟩ := List.mem_iff_getElem?.mp hx
      have hij : i ≠ j := by
        rintro rfl
        exact hxc (Option.some.inj (hj.symm.trans hget))
      exact List.mem_eraseIdx_iff_getElem?.mpr ⟨j, hij.symm, hj⟩
  · exact ⟨hd.1, fun x hx => hd.2 x (List.mem_append_left _ hx)⟩

theorem tookOut_iff_along {func : Bool} {ops : List Operation} {f : Callers}
    (h : exec step (start func) ops = some f) :
    f.TookOut ↔ Along step ReportFinds (start func) ops := by
  rw [← always_iff_last (fun _ _ _ => step_tookOut_back) h]
  exact always_iff_along (I := fun _ => True) (fun _ _ _ _ _ => trivial)
    (fun _ _ _ _ => step_tookOut_iff) trivial ⟨by simp [start], by simp [start]⟩ h

/-- The record has the deletions that the manager has made. -/
theorem step_deletions {c d : Callers} {op : Operation}
    (hi : c.deletions.map Prod.fst = c.manager.deleted) (h : c.step op = some d) :
    d.deletions.map Prod.fst = d.manager.deleted := by
  rcases step_cases h with ⟨s, -, -, rfl⟩ | ⟨s, e, -, rfl⟩ | ⟨i, call, -, -, rfl⟩ | ⟨-, rfl⟩
  · exact hi
  · exact hi
  · simp [Callers.finish, closeAndDelete, hi]
  · simp [clearAll, hi, Function.comp_def]

theorem deletions_eq {func : Bool} {ops : List Operation} {f : Callers}
    (h : exec step (start func) ops = some f) : f.deletions.map Prod.fst = f.manager.deleted :=
  invariant (I := fun c => c.deletions.map Prod.fst = c.manager.deleted)
    (fun _ _ _ => step_deletions) rfl h

theorem deleted_nodup {func : Bool} {ops : List Operation} {f : Callers}
    (h : exec step (start func) ops = some f) (hc : Along step ReportFinds (start func) ops) :
    f.manager.deleted.Nodup := by
  have hi := invariant_of_along (fun _ _ _ => step_inv) (start_inv func) hc h
  rw [← deletions_eq h]
  exact hi.once.sublist (List.sublist_append_right _ _)

/-- Sockets are deleted once and only by the call that took them out of `_set`, in
every run whose reports all name a registered socket; and a run that has finished
its calls has no other way to be clean. -/
theorem deletedOnce_iff_reports_find (func : Bool) (ops : List Operation) (f : Callers)
    (h : exec step (start func) ops = some f) :
    (Along step ReportFinds (start func) ops → f.DeletedOnce) ∧
    (f.pending = [] → f.DeletedOnce → Along step ReportFinds (start func) ops) := by
  refine ⟨fun hc => ⟨deleted_nodup h hc, ((tookOut_iff_along h).mpr hc).2⟩, fun hp hd => ?_⟩
  exact (tookOut_iff_along h).mp ⟨by simp [hp], hd.registered⟩

/-- Sockets 0 and 1 are reported, the call for 1 closes and deletes first, `ClearAll` takes
socket 2, and the call for 0 comes last. -/
theorem deletedOnce_iff_reports_find_closed :
    ∃ f, exec step (start true) [.add 0, .add 1, .socketClosed 0, .add 2, .sendFailed 1, .finish 1,
        .clearAll, .finish 0] = some f ∧ f.DeletedOnce := by
  apply exists_exec (by decide)
  intro f hf
  exact (deletedOnce_iff_reports_find true _ f hf).1 (by decide)

/-- `ClearAll` closes a socket, which completes its receive with nothing read; the
handler of that completion reports the socket closed, finds nothing in `_set` and
deletes all the same. -/
theorem report_after_clearAll_deletes_again :
    ¬ ∀ (func : Bool) (ops : List Operation) (f : Callers),
      exec step (start func) ops = some f → f.DeletedOnce := by
  intro h
  have := h true [.add 0, .clearAll, .socketClosed 0, .finish 0] _ rfl
  revert this
  decide

end Callers

end SocketManager

end Xiaoxin
