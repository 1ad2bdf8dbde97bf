import Mathlib.Data.List.Perm.Basic
import Mathlib.Tactic

/-!
# A list of threads

The threads of a system are a list of their states. One of them moves when its
state is replaced; the others are the list without it. What is said of all threads,
what they hold together and how many of them are in some state is then said of the
one that moves and of the others. A log that names the threads is one log for each.
-/
namespace Xiaoxin.Threads

variable {α β : Type*} {l : List α} {i : ℕ} {a b : α}

theorem perm_others (hi : l[i]? = some a) : l.Perm (a :: l.eraseIdx i) := by
  obtain ⟨hlt, rfl⟩ := List.getElem?_eq_some_iff.mp hi
  exact (List.getElem_cons_eraseIdx_perm hlt).symm

theorem set_perm_others (hi : l[i]? = some a) (b : α) : (l.set i b).Perm (b :: l.eraseIdx i) :=
  List.set_perm_cons_eraseIdx (List.getElem?_eq_some_iff.mp hi).1 b

theorem mem_iff (hi : l[i]? = some a) : b ∈ l ↔ b = a ∨ b ∈ l.eraseIdx i := by
  rw [(perm_others hi).mem_iff, List.mem_cons]

theorem mem_set_iff (hi : l[i]? = some a) {c : α} : c ∈ l.set i b ↔ c = b ∨ c ∈ l.eraseIdx i := by
  rw [(set_perm_others hi b).mem_iff, List.mem_cons]

theorem forall_iff (hi : l[i]? = some a) {P : α → Prop} :
    (∀ c ∈ l, P c) ↔ P a ∧ ∀ c ∈ l.eraseIdx i, P c := by
  simp only [mem_iff hi, forall_eq_or_imp]

theorem forall_set_iff (hi : l[i]? = some a) {P : α → Prop} :
    (∀ c ∈ l.set i b, P c) ↔ P b ∧ ∀ c ∈ l.eraseIdx i, P c := by
  simp only [mem_set_iff hi, forall_eq_or_imp]

theorem exists_iff (hi : l[i]? = some a) {P : α → Prop} :
    (∃ c ∈ l, P c) ↔ P a ∨ ∃ c ∈ l.eraseIdx i, P c := by
  simp only [mem_iff hi, exists_eq_or_imp]

theorem exists_set_iff (hi : l[i]? = some a) {P : α → Prop} :
    (∃ c ∈ l.set i b, P c) ↔ P b ∨ ∃ c ∈ l.eraseIdx i, P c := by
  simp only [mem_set_iff hi, exists_eq_or_imp]

theorem mem_others {j : ℕ} (hj : l[j]? = some b) (hji : j ≠ i) : b ∈ l.eraseIdx i :=
  List.mem_eraseIdx_iff_getElem?.mpr ⟨j, hji, hj⟩

theorem get_moved {m : List α} (hi : l[i]? = some a) (hm : m = l.set i b) : m[i]? = some b := by
  rw [hm, List.getElem?_set_self (List.getElem?_eq_some_iff.mp hi).1]

theorem get_other {m : List α} (hm : m = l.set i b) {j : ℕ} (hji : j ≠ i) : m[j]? = l[j]? := by
  rw [hm, List.getElem?_set_ne (Ne.symm hji)]

/-- What the threads hold, before and after one of them moves. -/
theorem filterMap_perm (hi : l[i]? = some a) (f : α → Option β) :
    (l.filterMap f).Perm ((f a).toList ++ (l.eraseIdx i).filterMap f) := by
  refine ((perm_others hi).filterMap f).trans ?_
  cases hf : f a <;> simp [hf]

theorem filterMap_set_perm (hi : l[i]? = some a) (f : α → Option β) (b : α) :
    ((l.set i b).filterMap f).Perm ((f b).toList ++ (l.eraseIdx i).filterMap f) := by
  refine ((set_perm_others hi b).filterMap f).trans ?_
  cases hf : f b <;> simp [hf]

/-- If the threads hold nothing twice, no two of them hold the same. -/
theorem eq_of_holds {f : α → Option β} (h : (l.filterMap f).Nodup) {j : ℕ} {x : β}
    (hi : l[i]? = some a) (hj : l[j]? = some b) (ha : f a = some x) (hb : f b = some x) :
    j = i := by
  by_contra hji
  have hnodup := (filterMap_perm hi f).nodup_iff.mp h
  rw [ha, Option.toList_some, List.singleton_append, List.nodup_cons] at hnodup
  exact hnodup.1 (List.mem_filterMap.mpr ⟨b, mem_others hj hji, hb⟩)

theorem countP_eq (hi : l[i]? = some a) (p : α → Bool) :
    l.countP p = (if p a then 1 else 0) + (l.eraseIdx i).countP p := by
  rw [(perm_others hi).countP_eq, List.countP_cons, Nat.add_comm]

theorem countP_set_eq (hi : l[i]? = some a) (p : α → Bool) (b : α) :
    (l.set i b).countP p = (if p b then 1 else 0) + (l.eraseIdx i).countP p := by
  rw [(set_perm_others hi b).countP_eq, List.countP_cons, Nat.add_comm]

theorem sum_set (hi : l[i]? = some a) (f : α → ℕ) (b : α) :
    ((l.set i b).map f).sum + f a = (l.map f).sum + f b := by
  rw [((set_perm_others hi b).map f).sum_eq, ((perm_others hi).map f).sum_eq, List.map_cons,
    List.map_cons, List.sum_cons, List.sum_cons]
  omega

/-- A thread that moves to a place of smaller rank makes the sum of the ranks smaller. -/
theorem sum_set_lt (hi : l[i]? = some a) {f : α → ℕ} (h : f b < f a) :
    ((l.set i b).map f).sum < (l.map f).sum := by
  have hsum := sum_set hi f b
  omega

/-! ## Logs -/

variable {log log' : List (β × ℕ)} {x : β}

/-- What the `i`-th thread has put in a log. -/
def ofThread (log : List (β × ℕ)) (i : ℕ) : List β :=
  (log.filter (fun r => r.2 = i)).map Prod.fst

theorem mem_ofThread : x ∈ ofThread log i ↔ (x, i) ∈ log := by
  simp only [ofThread, List.mem_map, List.mem_filter, decide_eq_true_eq]
  constructor
  · rintro ⟨⟨y, j⟩, ⟨hr, rfl⟩, rfl⟩
    exact hr
  · intro hr
    exact ⟨(x, i), ⟨hr, rfl⟩, rfl⟩

theorem ofThread_append_self (log : List (β × ℕ)) (x : β) (i : ℕ) :
    ofThread (log ++ [(x, i)]) i = ofThread log i ++ [x] := by
  simp [ofThread]

theorem ofThread_append_ne (log : List (β × ℕ)) (x : β) {j : ℕ} (hji : j ≠ i) :
    ofThread (log ++ [(x, i)]) j = ofThread log j := by
  simp [ofThread, Ne.symm hji]

theorem nodup_ofThread (h : (log.map Prod.fst).Nodup) (i : ℕ) : (ofThread log i).Nodup :=
  (List.filter_sublist.map Prod.fst).nodup h

/-- A log in which each thread has a part of what it has in a log without repetitions
is without repetitions itself. -/
theorem nodup_of_ofThread_sublist (h : (log.map Prod.fst).Nodup)
    (hsub : ∀ i, (ofThread log' i).Sublist (ofThread log i)) : (log'.map Prod.fst).Nodup := by
  classical
  have hmem {r : β × ℕ} (hr : r ∈ log') : r ∈ log :=
    mem_ofThread.mp ((hsub r.2).mem (mem_ofThread.mpr hr))
  have hlog : log'.Nodup := by
    rw [List.nodup_iff_count_le_one]
    intro r
    have hone : (log'.filter (fun q => q.2 = r.2)).Nodup :=
      List.Nodup.of_map Prod.fst ((hsub r.2).nodup (nodup_ofThread h r.2))
    have hcount := List.nodup_iff_count_le_one.mp hone r
    rwa [List.count_filter (by simp)] at hcount
  exact hlog.map_on fun q hq r hr hqr => List.inj_on_of_nodup_map h (hmem hq) (hmem hr) hqr

end Xiaoxin.Threads
