import Xiaoxin.Transition

/-!
# The registry of child servers

`_client_map` maps the id of a child server to a `boost::shared_ptr` to its data.
The map is the list of its entries in the order in which an iterator meets them;
the hash decides that order, and an insertion may change all of it.

Subclasses insert, `ReleaseChildServer` erases. The destructor goes through the map,
resets each pointer and clears the map. Its loop leaves the third part of `for` empty
and does not move the iterator in the body either.
-/
namespace Xiaoxin
open Transition

/-- The entries of `_client_map`, in the order of iteration. -/
structure ClientMap (δ : Type) where
  entries : List (ℤ × Option δ)
  nodup : (entries.map Prod.fst).Nodup

/-- A `ChildServerManager` that is being destroyed. -/
structure TearDown (δ : Type) where
  clientMap : List (ℤ × Option δ)
  /-- The ids of the entries whose pointer was reset, the last first. -/
  resets : List ℤ

namespace ClientMap

variable {δ : Type}

def empty : ClientMap δ := ⟨[], List.nodup_nil⟩

def ids (m : ClientMap δ) : List ℤ := m.entries.map Prod.fst

def getSvrCount (m : ClientMap δ) : ℕ := m.entries.length

/-- `insert` on an `unordered_map`: an entry with the same id stays as it is. -/
def insert (m : ClientMap δ) (id : ℤ) (data : Option δ) : ClientMap δ :=
  if h : id ∈ m.entries.map Prod.fst then m
  else ⟨(id, data) :: m.entries, List.nodup_cons.mpr ⟨h, m.nodup⟩⟩

/-- An assignment through `operator[]`: an entry with the same id gets the new pointer. -/
def assign (m : ClientMap δ) (id : ℤ) (data : Option δ) : ClientMap δ :=
  if h : id ∈ m.entries.map Prod.fst then
    ⟨m.entries.map (fun e => if e.1 = id then (id, data) else e), by
      have hfst : Prod.fst ∘ (fun e : ℤ × Option δ => if e.1 = id then (id, data) else e) =
          Prod.fst := by
        funext e
        by_cases he : e.1 = id <;> simp [he]
      rw [List.map_map, hfst]
      exact m.nodup⟩
  else ⟨(id, data) :: m.entries, List.nodup_cons.mpr ⟨h, m.nodup⟩⟩

/-- `ReleaseChildServer`. An id that is not there leaves the map as it is, behind an
assertion. -/
def releaseChildServer (m : ClientMap δ) (id : ℤ) : ClientMap δ :=
  if m.entries.length = 0 then m
  else
    match m.entries.find? (fun e => e.1 = id) with
    | none => m
    | some _ =>
      ⟨m.entries.eraseP (fun e => e.1 = id),
        m.nodup.sublist ((List.eraseP_sublist ..).map Prod.fst)⟩

/-- The same map with its entries in another order. -/
def reorder [DecidableEq δ] (m : ClientMap δ) (order : List (ℤ × Option δ)) :
    Option (ClientMap δ) :=
  if h : order.Perm m.entries then some ⟨order, (h.map Prod.fst).nodup_iff.mpr m.nodup⟩
  else none

/-- The calls that change the map, an insertion with the order it leaves. -/
inductive Call (δ : Type)
  | insert (id : ℤ) (data : Option δ) (order : List (ℤ × Option δ))
  | assign (id : ℤ) (data : Option δ) (order : List (ℤ × Option δ))
  | releaseChildServer (id : ℤ)

def step [DecidableEq δ] (m : ClientMap δ) : Call δ → Option (ClientMap δ)
  | .insert id data order => (m.insert id data).reorder order
  | .assign id data order => (m.assign id data).reorder order
  | .releaseChildServer id => some (m.releaseChildServer id)

/-! ## The destructor -/

/-- `tmp_ptr.reset()` on the entry that the iterator is at. -/
def reset (d : TearDown δ) (tmpBegin : ℕ) : TearDown δ :=
  { clientMap := d.clientMap.modify tmpBegin fun e => (e.1, none)
    resets := ((d.clientMap.map Prod.fst)[tmpBegin]?).toList ++ d.resets }

/-- The loop of the destructor with the iterator at `tmpBegin`, for at most `fuel` rounds.
Nothing stands where the iterator would advance. -/
def destroyLoop : ℕ → ℕ → TearDown δ → Option (TearDown δ)
  | 0, tmpBegin, d => if tmpBegin = d.clientMap.length then some d else none
  | fuel + 1, tmpBegin, d =>
    if tmpBegin = d.clientMap.length then some d
    else destroyLoop fuel tmpBegin (reset d tmpBegin)

/-- `~ChildServerManager`, if its loop ends within `fuel` rounds. -/
def destructor (fuel : ℕ) (m : ClientMap δ) : Option (TearDown δ) :=
  (destroyLoop fuel 0 ⟨m.entries, []⟩).map fun d => { d with clientMap := [] }

/-- The destructor comes back, every pointer was reset once and the map is empty. -/
def TornDown (m : ClientMap δ) : Prop :=
  ∃ fuel d, m.destructor fuel = some d ∧ d.resets.Perm m.ids ∧ d.clientMap = []

@[simp] theorem reset_length (d : TearDown δ) (tmpBegin : ℕ) :
    (reset d tmpBegin).clientMap.length = d.clientMap.length := by
  simp [reset]

/-- A reset leaves the ids and their order. -/
@[simp] theorem reset_ids (d : TearDown δ) (tmpBegin : ℕ) :
    (reset d tmpBegin).clientMap.map Prod.fst = d.clientMap.map Prod.fst := by
  apply List.ext_getElem?
  intro i
  simp only [reset, List.getElem?_map, List.getElem?_modify]
  cases d.clientMap[i]? with
  | none => rfl
  | some e => by_cases h : tmpBegin = i <;> simp [h]

@[simp] theorem iterate_reset_length (rounds tmpBegin : ℕ) (d : TearDown δ) :
    ((reset · tmpBegin)^[rounds] d).clientMap.length = d.clientMap.length := by
  induction rounds generalizing d with
  | zero => rfl
  | succ rounds ih => rw [Function.iterate_succ_apply, ih, reset_length]

/-- A loop that is at an entry does all its rounds there. -/
theorem destroyLoop_add {tmpBegin : ℕ} (rounds fuel : ℕ) {d : TearDown δ}
    (h : tmpBegin < d.clientMap.length) :
    destroyLoop (rounds + fuel) tmpBegin d =
      destroyLoop fuel tmpBegin ((reset · tmpBegin)^[rounds] d) := by
  induction rounds generalizing d with
  | zero => rw [Nat.zero_add, Function.iterate_zero_apply]
  | succ rounds ih =>
    have hne : tmpBegin ≠ d.clientMap.length := by omega
    rw [Nat.succ_add, destroyLoop, if_neg hne, Function.iterate_succ_apply]
    exact ih (by rw [reset_length]; exact h)

theorem destroyLoop_eq_none {tmpBegin : ℕ} (fuel : ℕ) {d : TearDown δ}
    (h : tmpBegin < d.clientMap.length) : destroyLoop fuel tmpBegin d = none := by
  have hne : tmpBegin ≠ d.clientMap.length := by omega
  have hrounds := destroyLoop_add fuel 0 h
  rw [Nat.add_zero] at hrounds
  rw [hrounds, destroyLoop, iterate_reset_length, if_neg hne]

/-- What the loop has done after a number of rounds: it has reset one pointer that often
and no other. -/
theorem iterate_reset {tmpBegin : ℕ} (rounds : ℕ) {d : TearDown δ} {id : ℤ}
    (h : (d.clientMap.map Prod.fst)[tmpBegin]? = some id) :
    ((reset · tmpBegin)^[rounds] d).resets = List.replicate rounds id ++ d.resets := by
  induction rounds generalizing d with
  | zero => rfl
  | succ rounds ih =>
    have hreset : (reset d tmpBegin).resets = id :: d.resets := by
      simp only [reset, h, Option.toList_some, List.singleton_append]
    rw [Function.iterate_succ_apply, ih (by rw [reset_ids]; exact h), hreset,
      List.replicate_succ', List.append_assoc, List.singleton_append]

theorem destroyLoop_end (fuel : ℕ) (d : TearDown δ) :
    destroyLoop fuel d.clientMap.length d = some d := by
  cases fuel <;> simp [destroyLoop]

/-- The destructor comes back from an empty map alone. -/
theorem destructor_isSome_iff (m : ClientMap δ) :
    (∃ fuel, (m.destructor fuel).isSome) ↔ m.getSvrCount = 0 := by
  constructor
  · rintro ⟨fuel, h⟩
    by_contra hne
    have hpos : 0 < m.entries.length := by unfold getSvrCount at hne; omega
    rw [destructor, destroyLoop_eq_none fuel hpos] at h
    exact absurd h (by simp)
  · intro h
    have hend := destroyLoop_end 0 (⟨m.entries, []⟩ : TearDown δ)
    rw [show (⟨m.entries, []⟩ : TearDown δ).clientMap.length = 0 from h] at hend
    exact ⟨0, by simp [destructor, hend]⟩

/-- Whatever was inserted and released, the destructor tears the registry down exactly
when no child server is left in it. -/
theorem tornDown_iff_getSvrCount [DecidableEq δ] {cs : List (Call δ)} {m : ClientMap δ}
    (_ : exec step empty cs = some m) : m.TornDown ↔ m.getSvrCount = 0 := by
  constructor
  · rintro ⟨fuel, d, hd, -, -⟩
    exact (destructor_isSome_iff m).mp ⟨fuel, by rw [hd]; rfl⟩
  · intro h
    have hnil : m.entries = [] := List.length_eq_zero_iff.mp h
    exact ⟨0, ⟨[], []⟩, by simp [destructor, hnil, destroyLoop], by simp [ids, hnil], rfl⟩

theorem tornDown_after_release :
    ∃ m, exec step empty [.insert 7 (some 1) [(7, some 1)], .releaseChildServer 7] = some m ∧
      (m.TornDown ↔ m.getSvrCount = 0) := by
  apply exists_exec (by decide)
  intro m hm
  exact tornDown_iff_getSvrCount hm

/-- One child server is enough. -/
theorem not_tornDown_of_one :
    ∃ m, exec step empty [.insert 7 (some 1) [(7, some 1)]] = some m ∧ ¬ m.TornDown := by
  apply exists_exec (by decide)
  intro m hm hdown
  obtain ⟨fuel, d, hd, -, -⟩ := hdown
  have hzero := (destructor_isSome_iff m).mp ⟨fuel, by rw [hd]; rfl⟩
  have hone : (exec step empty [.insert 7 (some 1) [(7, some 1)]]).map getSvrCount = some 1 := by
    decide
  rw [hm, Option.map_some, hzero] at hone
  exact absurd hone (by decide)

end ClientMap

end Xiaoxin
