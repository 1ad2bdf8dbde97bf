import Mathlib.Tactic

/-!
# Numbered items through a queue and past it

Items are numbered as they are issued. An item is started at once, or it goes into a
first-in first-out queue, from which it is taken and some time later started by
whoever took it. Several items may be held at the same time.

Items are started in the order of their numbers as long as none is started at once
while older ones are waiting, and none is started by its holder while an older one is
held (`Move.inOrder_iff`).
-/
namespace Xiaoxin

/-- How many items were issued, and which have been started, are held, are queued. The
queue is listed newest first. -/
structure Flow where
  issued : ℕ
  started : List ℕ
  held : List ℕ
  queued : List ℕ
  deriving DecidableEq, Repr

namespace Flow

/-- A move, and the condition under which it starts no item before its turn. -/
inductive Move (f : Flow) : Flow → Prop → Prop
  | stay : Move f f True
  | direct : Move f { f with issued := f.issued + 1, started := f.started ++ [f.issued] }
      (f.held = [] ∧ f.queued = [])
  | enqueue : Move f { f with issued := f.issued + 1, queued := f.issued :: f.queued } True
  | take {l r q : List ℕ} {i : ℕ} (hh : f.held = l ++ r) (hq : f.queued = q ++ [i]) :
      Move f { f with held := l ++ i :: r, queued := q } True
  | start {l r : List ℕ} {i : ℕ} (hh : f.held = l ++ i :: r) :
      Move f { f with held := l ++ r, started := f.started ++ [i] } (∀ j ∈ f.held, i ≤ j)

/-- Each item issued is in one place, and the queue is in order, behind what is held. -/
structure Inv (f : Flow) : Prop where
  once : ∀ i, f.started.count i + f.held.count i + f.queued.count i =
    if i < f.issued then 1 else 0
  sorted : f.queued.Pairwise (· > ·)
  older : ∀ i ∈ f.held, ∀ j ∈ f.queued, i < j

/-- The items started are the first ones, in their order. -/
def InOrder (f : Flow) : Prop := f.started = List.range f.started.length

instance (f : Flow) : Decidable f.InOrder := by
  unfold InOrder
  infer_instance

variable {f g : Flow} {C : Prop}

theorem Inv.lt_of_mem (hi : f.Inv) {i : ℕ} (h : i ∈ f.started ∨ i ∈ f.held ∨ i ∈ f.queued) :
    i < f.issued := by
  have hc := hi.once i
  by_contra hge
  rw [if_neg hge] at hc
  rcases h with h | h | h <;>
    · have := List.count_pos_iff.mpr h
      omega

theorem Move.inv (hi : f.Inv) (h : Move f g C) : g.Inv := by
  cases h with
  | stay => exact hi
  | direct =>
    refine ⟨fun i => ?_, hi.sorted, hi.older⟩
    have hc := hi.once i
    simp only [List.count_append, List.count_singleton, beq_iff_eq]
    split_ifs at hc ⊢ <;> omega
  | enqueue =>
    refine ⟨fun i => ?_, ?_, ?_⟩
    · have hc := hi.once i
      simp only [List.count_cons, beq_iff_eq]
      split_ifs at hc ⊢ <;> omega
    · exact List.pairwise_cons.mpr ⟨fun j hj => hi.lt_of_mem (.inr (.inr hj)), hi.sorted⟩
    · intro i hh j hj
      rcases List.mem_cons.mp hj with rfl | hj
      · exact hi.lt_of_mem (.inr (.inl hh))
      · exact hi.older i hh j hj
  | @take l r q i hh hq =>
    have hs := hi.sorted
    rw [hq, List.pairwise_append] at hs
    refine ⟨fun j => ?_, hs.1, ?_⟩
    · have hc := hi.once j
      rw [hh, hq] at hc
      simp only [List.count_append, List.count_cons, List.count_nil] at hc ⊢
      omega
    · intro j hj k hk
      have hk' : k ∈ f.queued := by rw [hq]; exact List.mem_append_left _ hk
      simp only [List.mem_append, List.mem_cons] at hj
      rcases hj with hj | rfl | hj
      · exact hi.older j (by rw [hh]; exact List.mem_append_left _ hj) k hk'
      · exact hs.2.2 k hk j (List.mem_singleton_self j)
      · exact hi.older j (by rw [hh]; exact List.mem_append_right _ hj) k hk'
  | @start l r i hh =>
    refine ⟨fun j => ?_, hi.sorted, fun j hj => hi.older j ?_⟩
    · have hc := hi.once j
      rw [hh] at hc
      simp only [List.count_append, List.count_cons, List.count_nil] at hc ⊢
      omega
    · rw [hh]
      simp only [List.mem_append, List.mem_cons] at hj ⊢
      tauto

/-- While items are in order, those not yet started are the ones from the next on. -/
theorem Inv.waiting_iff (hi : f.Inv) (ho : f.InOrder) (i : ℕ) :
    (i ∈ f.held ∨ i ∈ f.queued) ↔ f.started.length ≤ i ∧ i < f.issued := by
  have hc := hi.once i
  rw [ho, List.count_range] at hc
  simp only [← List.count_pos_iff]
  split_ifs at hc <;> omega

theorem Inv.length_le (hi : f.Inv) (ho : f.InOrder) : f.started.length ≤ f.issued := by
  by_contra h
  have := hi.lt_of_mem (.inl (by rw [ho]; exact List.mem_range.mpr (not_le.mp h)))
  exact lt_irrefl _ this

theorem inOrder_append {i : ℕ} (ho : f.InOrder) :
    f.started ++ [i] = List.range (f.started ++ [i]).length ↔ i = f.started.length := by
  rw [List.length_append, List.length_singleton, List.range_succ, ← ho]
  simp

/-- A move keeps the order exactly when it starts nothing before its turn. -/
theorem Move.inOrder_iff (hi : f.Inv) (ho : f.InOrder) (h : Move f g C) : g.InOrder ↔ C := by
  cases h with
  | stay => exact iff_of_true ho trivial
  | enqueue => exact iff_of_true ho trivial
  | take => exact iff_of_true ho trivial
  | direct =>
    have hle := hi.length_le ho
    refine (inOrder_append ho).trans ⟨fun he => ?_, fun ⟨hh, hq⟩ => ?_⟩
    · have hnone : ∀ i, ¬ (i ∈ f.held ∨ i ∈ f.queued) := fun i hw => by
        have := (hi.waiting_iff ho i).mp hw
        omega
      exact ⟨List.eq_nil_iff_forall_not_mem.mpr fun i hw => hnone i (.inl hw),
        List.eq_nil_iff_forall_not_mem.mpr fun i hw => hnone i (.inr hw)⟩
    · by_contra hne
      have := (hi.waiting_iff ho f.started.length).mpr ⟨le_rfl, by omega⟩
      simp [hh, hq] at this
  | @start l r i hh =>
    have hheld : i ∈ f.held := by simp [hh]
    obtain ⟨hge, hlt⟩ := (hi.waiting_iff ho i).mp (.inl hheld)
    refine (inOrder_append ho).trans ⟨fun he j hj => ?_, fun hall => ?_⟩
    · rw [he]
      exact ((hi.waiting_iff ho j).mp (.inl hj)).1
    · -- the next item is held or queued; either way it is not younger than `i`
      rcases (hi.waiting_iff ho f.started.length).mpr ⟨le_rfl, by omega⟩ with hn | hn
      · exact le_antisymm (hall _ hn) hge
      · exact absurd (hi.older i hheld _ hn) (by omega)

end Flow

end Xiaoxin
