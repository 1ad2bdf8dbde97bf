import Xiaoxin.Transition

/-!
# The handles of a database driver

An application has an environment at the driver, takes connection handles out of it,
connects them, takes statement handles out of these and gives everything back. What
the driver answers comes with the call. A call out of turn (on a handle that is not
allocated or was given back, on a connection that is not open, an environment that is
still in use) has no successor.

`Holds` says that the driver has given out what the objects of an application hold, and
nothing else. One rule for each call follows an object through it, whatever the others
are, so that the rules can be put together for any order of calls.
-/
namespace Xiaoxin.Odbc
open Transition

inductive Call
  | allocConnect (hdbc : Option ℕ)
  | connect (hdbc : Option ℕ) (connected : Bool)
  | getDiagRec (hdbc : Option ℕ)
  | getConnectAttr (hdbc : Option ℕ)
  | disconnect (hdbc : ℕ)
  | freeConnect (hdbc : ℕ)
  | allocStmt (hdbc : Option ℕ) (hstmt : Option ℕ)
  | freeStmt (hstmt : ℕ)
  | freeEnv
  deriving DecidableEq, Repr

structure Driver where
  environment : Bool
  connections : Finset ℕ
  connected : Finset ℕ
  /-- The statements, each with its connection. -/
  statements : Finset (ℕ × ℕ)
  deriving DecidableEq

namespace Driver

/-- An environment and nothing in it. -/
def start : Driver := ⟨true, ∅, ∅, ∅⟩

/-- The calls that are in turn. A connection that is not open can be closed: the driver
reports that and does nothing. -/
def Legal (d : Driver) : Call → Prop
  | .allocConnect _ => d.environment = true
  | .connect x _ => ∃ h ∈ x, h ∈ d.connections ∧ h ∉ d.connected
  | .getDiagRec x => ∃ h ∈ x, h ∈ d.connections
  | .getConnectAttr x => ∃ h ∈ x, h ∈ d.connected
  | .disconnect h => h ∈ d.connections
  | .freeConnect h => h ∈ d.connections ∧ h ∉ d.connected
  | .allocStmt x _ => ∃ h ∈ x, h ∈ d.connected
  | .freeStmt t => t ∈ d.statements.image Prod.fst
  | .freeEnv => d.environment = true ∧ d.connections = ∅

instance : ∀ (d : Driver) (c : Call), Decidable (d.Legal c)
  | d, .allocConnect _ => inferInstanceAs (Decidable (d.environment = true))
  | d, .connect x _ => inferInstanceAs (Decidable (∃ h ∈ x, h ∈ d.connections ∧ h ∉ d.connected))
  | d, .getDiagRec x => inferInstanceAs (Decidable (∃ h ∈ x, h ∈ d.connections))
  | d, .getConnectAttr x => inferInstanceAs (Decidable (∃ h ∈ x, h ∈ d.connected))
  | d, .disconnect h => inferInstanceAs (Decidable (h ∈ d.connections))
  | d, .freeConnect h => inferInstanceAs (Decidable (h ∈ d.connections ∧ h ∉ d.connected))
  | d, .allocStmt x _ => inferInstanceAs (Decidable (∃ h ∈ x, h ∈ d.connected))
  | d, .freeStmt t => inferInstanceAs (Decidable (t ∈ d.statements.image Prod.fst))
  | d, .freeEnv => inferInstanceAs (Decidable (d.environment = true ∧ d.connections = ∅))

/-- Closing a connection drops its statements. -/
def after (d : Driver) : Call → Driver
  | .allocConnect h => { d with connections := h.toFinset ∪ d.connections }
  | .connect x connected =>
    if connected then { d with connected := x.toFinset ∪ d.connected } else d
  | .getDiagRec _ => d
  | .getConnectAttr _ => d
  | .disconnect h => { d with
      connected := d.connected.erase h
      statements := d.statements.filter (fun s => s.2 ≠ h) }
  | .freeConnect h => { d with connections := d.connections.erase h }
  | .allocStmt x t => { d with statements := t.toFinset ×ˢ x.toFinset ∪ d.statements }
  | .freeStmt t => { d with statements := d.statements.filter (fun s => s.1 ≠ t) }
  | .freeEnv => { d with environment := false }

def step (d : Driver) (c : Call) : Option Driver := if d.Legal c then some (d.after c) else none

/-- The driver does not give out a handle that is in use. -/
def Possible (d : Driver) : Call → Prop
  | .allocConnect h => ∀ x ∈ h, x ∉ d.connections
  | .allocStmt _ t => ∀ x ∈ t, x ∉ d.statements.image Prod.fst
  | _ => True

instance : ∀ (d : Driver) (c : Call), Decidable (d.Possible c)
  | d, .allocConnect h => inferInstanceAs (Decidable (∀ x ∈ h, x ∉ d.connections))
  | d, .allocStmt _ t => inferInstanceAs (Decidable (∀ x ∈ t, x ∉ d.statements.image Prod.fst))
  | _, .connect _ _ => isTrue trivial
  | _, .getDiagRec _ => isTrue trivial
  | _, .getConnectAttr _ => isTrue trivial
  | _, .disconnect _ => isTrue trivial
  | _, .freeConnect _ => isTrue trivial
  | _, .freeStmt _ => isTrue trivial
  | _, .freeEnv => isTrue trivial

theorem step_eq {d : Driver} {c : Call} (h : d.Legal c) : d.step c = some (d.after c) := if_pos h

end Driver

/-- What an object of the application holds. -/
inductive Handles
  | nothing
  | allocated (hdbc : ℕ)
  | connected (hdbc : ℕ)
  | ready (hdbc hstmt : ℕ)
  deriving DecidableEq, Repr

namespace Handles

def hdbc : Handles → Option ℕ
  | nothing => none
  | allocated h | connected h | ready h _ => some h

/-- The handle of an open connection. -/
def opened : Handles → Option ℕ
  | nothing | allocated _ => none
  | connected h | ready h _ => some h

def hstmt : Handles → Option ℕ
  | nothing | allocated _ | connected _ => none
  | ready _ t => some t

theorem hdbc_of_opened {o : Handles} {h : ℕ} (ho : o.opened = some h) : o.hdbc = some h := by
  cases o <;> simp_all [opened, hdbc]

theorem exists_hdbc_of_hstmt {o : Handles} {t : ℕ} (ho : o.hstmt = some t) :
    ∃ h, o.hdbc = some h := by
  cases o <;> simp_all [hdbc, hstmt]

/-- Two objects do not share a handle. -/
def Apart (o o' : Handles) : Prop :=
  (∀ h ∈ o.hdbc, o'.hdbc ≠ some h) ∧ ∀ t ∈ o.hstmt, o'.hstmt ≠ some t

theorem Apart.symm {o o' : Handles} (h : o.Apart o') : o'.Apart o :=
  ⟨fun x hx hx' => h.1 x hx' hx, fun x hx hx' => h.2 x hx' hx⟩

end Handles

open Handles

/-- The driver has given out what the objects hold, each to one of them. -/
structure Holds (environment : Bool) (os : List Handles) (d : Driver) : Prop where
  environment : d.environment = environment
  connections : ∀ h, h ∈ d.connections ↔ ∃ o ∈ os, o.hdbc = some h
  connected : ∀ h, h ∈ d.connected ↔ ∃ o ∈ os, o.opened = some h
  statements : ∀ t h, (t, h) ∈ d.statements ↔ ∃ o ∈ os, o.hstmt = some t ∧ o.hdbc = some h
  apart : os.Pairwise Apart

theorem start_holds : Holds true [] Driver.start := by
  refine ⟨rfl, ?_, ?_, ?_, List.Pairwise.nil⟩ <;> simp [Driver.start]

section Rules

attribute [local simp] hdbc opened hstmt

variable {e : Bool} {o : Handles} {os os' : List Handles} {h t : ℕ} {d : Driver}

theorem Holds.perm (hd : Holds e os d) (hp : os.Perm os') : Holds e os' d := by
  refine ⟨hd.environment, ?_, ?_, ?_, hd.apart.perm hp (fun h => h.symm)⟩
  · simpa only [hp.mem_iff] using hd.connections
  · simpa only [hp.mem_iff] using hd.connected
  · simpa only [hp.mem_iff] using hd.statements

/-- An object without handles does not matter. -/
theorem holds_nothing : Holds e (nothing :: os) d ↔ Holds e os d := by
  constructor
  · intro hd
    refine ⟨hd.environment, ?_, ?_, ?_, (List.pairwise_cons.mp hd.apart).2⟩
    · simpa using hd.connections
    · simpa using hd.connected
    · simpa using hd.statements
  · intro hd
    refine ⟨hd.environment, ?_, ?_, ?_, List.pairwise_cons.mpr ⟨?_, hd.apart⟩⟩
    · simpa using hd.connections
    · simpa using hd.connected
    · simpa using hd.statements
    · simp [Apart]

/-- Without objects the driver is as it was at the start, or shut down. -/
theorem Holds.eq (hd : Holds e [] d) : d = ⟨e, ∅, ∅, ∅⟩ := by
  obtain ⟨environment, connections, connected, statements⟩ := d
  obtain ⟨h₁, h₂, h₃, h₄, -⟩ := hd
  simp only [List.not_mem_nil, false_and, exists_false, iff_false] at h₁ h₂ h₃ h₄
  simp only [Driver.mk.injEq]
  exact ⟨h₁, Finset.eq_empty_of_forall_notMem h₂, Finset.eq_empty_of_forall_notMem h₃,
    Finset.eq_empty_of_forall_notMem (fun s => h₄ s.1 s.2)⟩

theorem Holds.apart_head (hd : Holds e (o :: os) d) : ∀ o' ∈ os, o.Apart o' :=
  (List.pairwise_cons.mp hd.apart).1

/-- One object changes, and the driver as it does: all that was the object's is taken
out, all that is new to it is put in. -/
theorem Holds.replace (hd : Holds e (o :: os) d) (o' : Handles) {d' : Driver}
    (he : d'.environment = d.environment)
    (hc : ∀ h, h ∈ d'.connections ↔ o'.hdbc = some h ∨ h ∈ d.connections ∧ o.hdbc ≠ some h)
    (ho : ∀ h, h ∈ d'.connected ↔ o'.opened = some h ∨ h ∈ d.connected ∧ o.hdbc ≠ some h)
    (hs : ∀ t h, (t, h) ∈ d'.statements ↔
      o'.hstmt = some t ∧ o'.hdbc = some h ∨ (t, h) ∈ d.statements ∧ o.hdbc ≠ some h)
    (hnew : ∀ h ∈ o'.hdbc, h ∈ d.connections → o.hdbc = some h)
    (hnew' : ∀ t ∈ o'.hstmt, ∀ h, (t, h) ∈ d.statements → o.hstmt = some t) :
    Holds e (o' :: os) d' := by
  have hrest : ∀ x ∈ os, ∀ h, x.hdbc = some h → o.hdbc ≠ some h :=
    fun x hx h hxh hoh => (hd.apart_head x hx).1 h hoh hxh
  refine ⟨he.trans hd.environment, fun h => ?_, fun h => ?_, fun t h => ?_, ?_⟩
  · have hmem : (∃ x ∈ os, x.hdbc = some h) → o.hdbc ≠ some h :=
      fun ⟨x, hx, hxh⟩ => hrest x hx h hxh
    rw [hc, hd.connections, List.exists_mem_cons_iff, List.exists_mem_cons_iff]
    tauto
  · have hmem : (∃ x ∈ os, x.opened = some h) → o.hdbc ≠ some h :=
      fun ⟨x, hx, hxh⟩ => hrest x hx h (hdbc_of_opened hxh)
    rw [ho, hd.connected, List.exists_mem_cons_iff, List.exists_mem_cons_iff]
    constructor
    · rintro (hn | ⟨hh | hh, hne⟩)
      · exact .inl hn
      · exact absurd (hdbc_of_opened hh) hne
      · exact .inr hh
    · exact Or.imp_right fun hh => ⟨.inr hh, hmem hh⟩
  · have hmem : (∃ x ∈ os, x.hstmt = some t ∧ x.hdbc = some h) → o.hdbc ≠ some h :=
      fun ⟨x, hx, hxh⟩ => hrest x hx h hxh.2
    rw [hs, hd.statements, List.exists_mem_cons_iff, List.exists_mem_cons_iff]
    tauto
  · refine List.pairwise_cons.mpr ⟨fun x hx => ⟨fun h hh hxh => ?_, fun t ht hxt => ?_⟩,
      (List.pairwise_cons.mp hd.apart).2⟩
    · have hmem := (hd.connections h).mpr ⟨x, List.mem_cons_of_mem o hx, hxh⟩
      exact hrest x hx h hxh (hnew h hh hmem)
    · obtain ⟨h, hxh⟩ := exists_hdbc_of_hstmt hxt
      have hmem := (hd.statements t h).mpr ⟨x, List.mem_cons_of_mem o hx, hxt, hxh⟩
      exact (hd.apart_head x hx).2 t (hnew' t ht h hmem) hxt

theorem Holds.mem_connections (hd : Holds e (o :: os) d) (ho : o.hdbc = some h) :
    h ∈ d.connections :=
  (hd.connections h).mpr ⟨o, List.mem_cons_self .., ho⟩

theorem Holds.mem_connected_iff (hd : Holds e (o :: os) d) (ho : o.hdbc = some h) :
    h ∈ d.connected ↔ o.opened = some h := by
  rw [hd.connected, List.exists_mem_cons_iff]
  refine or_iff_left ?_
  rintro ⟨x, hx, hxh⟩
  exact (hd.apart_head x hx).1 h ho (hdbc_of_opened hxh)

theorem Holds.mem_statements_iff (hd : Holds e (o :: os) d) (ho : o.hdbc = some h) :
    (t, h) ∈ d.statements ↔ o.hstmt = some t := by
  rw [hd.statements, List.exists_mem_cons_iff, and_iff_left ho]
  refine or_iff_left ?_
  rintro ⟨x, hx, -, hxh⟩
  exact (hd.apart_head x hx).1 h ho hxh

/-! One rule for each call. -/

theorem carries_allocConnect (x : Option ℕ) :
    Carries Driver.step Driver.Possible (Holds true (nothing :: os)) [.allocConnect x]
      (Holds true (x.elim nothing allocated :: os)) := by
  refine carries_one fun d hd hx => ⟨_, Driver.step_eq hd.environment, ?_⟩
  cases x with
  | none => simpa [Driver.after] using hd
  | some h =>
    have hx : h ∉ d.connections := hx h rfl
    refine hd.replace (allocated h) rfl ?_ ?_ ?_ ?_ ?_ <;> simp [Driver.after, hx, eq_comm]

theorem carries_connect (ok : Bool) :
    Carries Driver.step Driver.Possible (Holds e (allocated h :: os)) [.connect (some h) ok]
      (Holds e (cond ok (connected h) (allocated h) :: os)) := by
  refine carries_one fun d hd _ => ⟨_, Driver.step_eq ?_, ?_⟩
  · exact ⟨h, rfl, hd.mem_connections rfl, (not_congr (hd.mem_connected_iff rfl)).mpr (by simp)⟩
  · cases ok with
    | false => simpa [Driver.after] using hd
    | true =>
      have hmem := hd.mem_connections rfl
      have hnone : ∀ t, (t, h) ∉ d.statements :=
        fun t => (not_congr (hd.mem_statements_iff rfl)).mpr (by simp)
      refine hd.replace (connected h) rfl ?_ ?_ ?_ ?_ ?_ <;> simp [Driver.after, eq_comm]
      · grind
      · grind
      · grind

theorem carries_getDiagRec (ho : o.hdbc = some h) :
    Carries Driver.step Driver.Possible (Holds e (o :: os)) [.getDiagRec (some h)]
      (Holds e (o :: os)) :=
  carries_one fun _ hd _ => ⟨_, Driver.step_eq ⟨h, rfl, hd.mem_connections ho⟩, hd⟩

theorem carries_getConnectAttr (ho : o.opened = some h) :
    Carries Driver.step Driver.Possible (Holds e (o :: os)) [.getConnectAttr (some h)]
      (Holds e (o :: os)) := by
  refine carries_one fun d hd _ => ⟨_, Driver.step_eq ?_, hd⟩
  exact ⟨h, rfl, (hd.mem_connected_iff (hdbc_of_opened ho)).mpr ho⟩

theorem carries_allocStmt (x : Option ℕ) :
    Carries Driver.step Driver.Possible (Holds e (connected h :: os)) [.allocStmt (some h) x]
      (Holds e (x.elim (connected h) (ready h) :: os)) := by
  refine carries_one fun d hd hx => ⟨_, Driver.step_eq ?_, ?_⟩
  · exact ⟨h, rfl, (hd.mem_connected_iff rfl).mpr rfl⟩
  · cases x with
    | none => simpa [Driver.after] using hd
    | some t =>
      have hx : t ∉ d.statements.image Prod.fst := hx t rfl
      have hmem := hd.mem_connections rfl
      have hopen : h ∈ d.connected := (hd.mem_connected_iff rfl).mpr rfl
      have hnone : ∀ t, (t, h) ∉ d.statements :=
        fun t => (not_congr (hd.mem_statements_iff rfl)).mpr (by simp)
      refine hd.replace (ready h t) rfl ?_ ?_ ?_ ?_ ?_ <;> simp [Driver.after, eq_comm] <;> grind

theorem carries_freeStmt :
    Carries Driver.step Driver.Possible (Holds e (ready h t :: os)) [.freeStmt t]
      (Holds e (connected h :: os)) := by
  refine carries_one fun d hd _ => ⟨_, Driver.step_eq ?_, ?_⟩
  · exact Finset.mem_image_of_mem Prod.fst ((hd.mem_statements_iff rfl).mpr rfl)
  · have hmem := hd.mem_connections rfl
    have hopen : h ∈ d.connected := (hd.mem_connected_iff rfl).mpr rfl
    have hone : ∀ u, (u, h) ∈ d.statements ↔ t = u := by
      intro u
      simpa using hd.mem_statements_iff (t := u) rfl
    have honly : ∀ g, (t, g) ∈ d.statements → g = h := by
      intro g hg
      obtain ⟨x, hx, hxt, hxg⟩ := (hd.statements t g).mp hg
      rcases List.mem_cons.mp hx with rfl | hx
      · exact (Option.some.inj hxg).symm
      · exact absurd hxt ((hd.apart_head x hx).2 t rfl)
    refine hd.replace (connected h) rfl ?_ ?_ ?_ ?_ ?_ <;> simp [Driver.after, eq_comm] <;> grind

/-- Closing what is open, or what was never opened. -/
theorem carries_disconnect (ho : o = allocated h ∨ o = connected h) :
    Carries Driver.step Driver.Possible (Holds e (o :: os)) [.disconnect h]
      (Holds e (allocated h :: os)) := by
  refine carries_one fun d hd _ => ⟨_, Driver.step_eq ?_, ?_⟩
  · rcases ho with rfl | rfl <;> exact hd.mem_connections rfl
  · have hnone : ∀ t, (t, h) ∉ d.statements := by
      intro t
      rcases ho with rfl | rfl <;> exact (not_congr (hd.mem_statements_iff rfl)).mpr (by simp)
    rcases ho with rfl | rfl <;>
      (have hmem := hd.mem_connections rfl
       refine hd.replace (allocated h) rfl ?_ ?_ ?_ ?_ ?_ <;>
         simp [Driver.after, eq_comm] <;> grind)

theorem carries_freeConnect :
    Carries Driver.step Driver.Possible (Holds e (allocated h :: os)) [.freeConnect h]
      (Holds e (nothing :: os)) := by
  refine carries_one fun d hd _ => ⟨_, Driver.step_eq ?_, ?_⟩
  · exact ⟨hd.mem_connections rfl, (not_congr (hd.mem_connected_iff rfl)).mpr (by simp)⟩
  · have hclosed : h ∉ d.connected := (not_congr (hd.mem_connected_iff rfl)).mpr (by simp)
    have hnone : ∀ t, (t, h) ∉ d.statements :=
      fun t => (not_congr (hd.mem_statements_iff rfl)).mpr (by simp)
    refine hd.replace nothing rfl ?_ ?_ ?_ ?_ ?_ <;> simp [Driver.after, eq_comm] <;> grind

theorem carries_freeEnv :
    Carries Driver.step Driver.Possible (Holds true []) [.freeEnv] (Holds false []) := by
  refine carries_one fun d hd _ => ⟨_, Driver.step_eq ⟨hd.environment, ?_⟩, ?_⟩
  · rw [hd.eq]
  · rw [hd.eq]
    exact ⟨rfl, by simp [Driver.after], by simp [Driver.after], by simp [Driver.after],
      List.Pairwise.nil⟩

end Rules

end Xiaoxin.Odbc
