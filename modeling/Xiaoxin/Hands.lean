import Xiaoxin.Threads

/-!
# What a thread has in hand

A thread works off a list of actions. An action may make an object, which the thread has
in hand from then on, or pass on one that it has in hand, to another holder or back to
where objects come from. What a thread will have left at its end is known from the
start (`spend`), and what it has left then is lost, since nobody else knows of it.
-/
namespace Xiaoxin.Hands

/-- What an action does with objects. -/
inductive Deed (α : Type*)
  | make (a : α)
  | pass (a : α)
  | other
  deriving DecidableEq, Repr

/-- What a thread has still to do, and what it has in hand. -/
structure Hand (ε α : Type*) where
  todo : List ε
  hand : Multiset α
  deriving DecidableEq

variable {ε α : Type*}

/-! ## All threads together -/

/-- What some threads have in hand together. -/
def total (ts : List (Hand ε α)) : Multiset α := (ts.map Hand.hand).sum

variable {ts : List (Hand ε α)} {i : ℕ} {t : Hand ε α}

@[simp] theorem total_nil : total ([] : List (Hand ε α)) = 0 := rfl

@[simp] theorem total_append_singleton (t : Hand ε α) : total (ts ++ [t]) = total ts + t.hand := by
  simp [total]

/-- One thread changes what it has in hand. -/
theorem total_set (hi : ts[i]? = some t) (u : Hand ε α) :
    total (ts.set i u) + t.hand = total ts + u.hand := by
  have hold := ((Threads.perm_others hi).map Hand.hand).sum_eq
  have hnew := ((Threads.set_perm_others hi u).map Hand.hand).sum_eq
  simp only [List.map_cons, List.sum_cons] at hold hnew
  rw [total, total, hold, hnew]
  abel

theorem mem_total {a : α} (hi : ts[i]? = some t) (ha : a ∈ t.hand) : a ∈ total ts := by
  have hold := ((Threads.perm_others hi).map Hand.hand).sum_eq
  rw [List.map_cons, List.sum_cons] at hold
  rw [total, hold]
  exact Multiset.mem_add.mpr (.inl ha)

/-- When every thread has an empty hand, all hands are empty. -/
theorem total_eq_zero : total ts = 0 ↔ ∀ t ∈ ts, t.hand = 0 := by
  induction ts with
  | nil => simp
  | cons t ts ih =>
    simp only [total, List.map_cons, List.sum_cons, add_eq_zero, List.forall_mem_cons] at ih ⊢
    rw [ih]

/-! ## One thread -/

variable [DecidableEq α]

namespace Deed

def after (hand : Multiset α) : Deed α → Multiset α
  | make a => {a} + hand
  | pass a => hand.erase a
  | other => hand

/-- Only what is in hand is passed on. -/
def Allowed (hand : Multiset α) : Deed α → Prop
  | pass a => a ∈ hand
  | _ => True

instance (hand : Multiset α) : ∀ d : Deed α, Decidable (d.Allowed hand)
  | make _ => isTrue trivial
  | pass a => inferInstanceAs (Decidable (a ∈ hand))
  | other => isTrue trivial

/-- What else is in hand does not matter. -/
theorem Allowed.add {hand : Multiset α} {d : Deed α} (h : d.Allowed hand) (u : Multiset α) :
    d.Allowed (hand + u) ∧ d.after (hand + u) = d.after hand + u := by
  cases d with
  | make a => exact ⟨trivial, (add_assoc {a} hand u).symm⟩
  | pass a => exact ⟨Multiset.mem_add.mpr (.inl h), Multiset.erase_add_left_pos u h⟩
  | other => exact ⟨trivial, rfl⟩

end Deed

section Spend

variable (deed : ε → Deed α)

/-- What is left in hand when the actions are done. -/
def spend : Multiset α → List ε → Option (Multiset α)
  | hand, [] => some hand
  | hand, e :: es =>
    if (deed e).Allowed hand then spend ((deed e).after hand) es else none

variable {deed} {hand rest : Multiset α} {e : ε} {es fs : List ε}

@[simp] theorem spend_nil : spend deed hand [] = some hand := rfl

theorem spend_cons : spend deed hand (e :: es) =
    if (deed e).Allowed hand then spend deed ((deed e).after hand) es else none := rfl

theorem spend_cons_eq_some : spend deed hand (e :: es) = some rest ↔
    (deed e).Allowed hand ∧ spend deed ((deed e).after hand) es = some rest := by
  rw [spend_cons]
  split_ifs with h
  · simp [h]
  · simp [h]

theorem spend_make {a : α} (he : deed e = .make a) :
    spend deed hand (e :: es) = spend deed ({a} + hand) es := by
  rw [spend_cons, he]
  exact if_pos trivial

theorem spend_pass {a : α} (he : deed e = .pass a) :
    spend deed ({a} + hand) (e :: es) = spend deed hand es := by
  have ha : (Deed.pass a).Allowed ({a} + hand) :=
    Multiset.mem_add.mpr (.inl (Multiset.mem_singleton_self a))
  rw [spend_cons, he, if_pos ha, Deed.after, Multiset.singleton_add, Multiset.erase_cons_head]

theorem spend_append : spend deed hand (es ++ fs) =
    (spend deed hand es).bind (fun r => spend deed r fs) := by
  induction es generalizing hand with
  | nil => rfl
  | cons e es ih =>
    rw [List.cons_append, spend_cons, spend_cons]
    split_ifs with h
    · exact ih
    · rfl

/-- One list of actions after another. -/
theorem spend_append_of_eq {r : Multiset α} (h : spend deed hand es = some r) :
    spend deed hand (es ++ fs) = spend deed r fs := by
  rw [spend_append, h, Option.bind_some]

/-- What else is in hand is left over. -/
theorem spend_add (h : spend deed hand es = some rest) (u : Multiset α) :
    spend deed (hand + u) es = some (rest + u) := by
  induction es generalizing hand with
  | nil => rw [← Option.some.inj h, spend_nil]
  | cons e es ih =>
    obtain ⟨ha, hs⟩ := spend_cons_eq_some.mp h
    obtain ⟨ha', hafter⟩ := ha.add u
    exact spend_cons_eq_some.mpr ⟨ha', by rw [hafter]; exact ih hs⟩

/-- Actions that leave an empty hand empty leave every hand as it is. -/
theorem spend_of_zero (h : spend deed 0 es = some 0) (u : Multiset α) :
    spend deed u es = some u := by
  simpa using spend_add h u

end Spend

/-- A thread that ends with an empty hand. -/
def Clean (deed : ε → Deed α) (t : Hand ε α) : Prop := spend deed t.hand t.todo = some 0

/-- A thread that passes on only what it has in hand. -/
def Sound (deed : ε → Deed α) (t : Hand ε α) : Prop := (spend deed t.hand t.todo).isSome

section Step

variable {deed : ε → Deed α} {e : ε} {es : List ε} {hand : Multiset α}

/-- An action does not change what a thread ends with. -/
theorem Sound.step (h : Sound deed ⟨e :: es, hand⟩) :
    (deed e).Allowed hand ∧ Sound deed ⟨es, (deed e).after hand⟩ ∧
      (Clean deed ⟨es, (deed e).after hand⟩ ↔ Clean deed ⟨e :: es, hand⟩) := by
  obtain ⟨r, hr⟩ := Option.isSome_iff_exists.mp h
  obtain ⟨ha, hs⟩ := spend_cons_eq_some.mp hr
  refine ⟨ha, Option.isSome_iff_exists.mpr ⟨r, hs⟩, ?_⟩
  simp only [Clean]
  rw [spend_cons, if_pos ha]

theorem clean_nil : Clean deed ⟨[], hand⟩ ↔ hand = 0 := by
  simp [Clean]

end Step

/-! ## A thread among the others -/

/-- A thread makes something. -/
theorem total_make {es : List ε} {hand : Multiset α} (hi : ts[i]? = some ⟨es, hand⟩) (fs : List ε)
    (a : α) :
    total (ts.set i ⟨fs, (Deed.make a).after hand⟩) = {a} + total ts := by
  have h := total_set hi ⟨fs, {a} + hand⟩
  apply add_right_cancel (b := hand)
  calc total (ts.set i ⟨fs, {a} + hand⟩) + hand = total ts + ({a} + hand) := h
    _ = {a} + total ts + hand := by abel

/-- A thread passes something on. -/
theorem total_pass {es : List ε} {hand : Multiset α} {a : α} (hi : ts[i]? = some ⟨es, hand⟩)
    (fs : List ε) (ha : a ∈ hand) :
    {a} + total (ts.set i ⟨fs, (Deed.pass a).after hand⟩) = total ts := by
  have h := total_set hi ⟨fs, hand.erase a⟩
  have he : {a} + hand.erase a = hand := by
    rw [Multiset.singleton_add, Multiset.cons_erase ha]
  apply add_right_cancel (b := hand.erase a)
  calc {a} + total (ts.set i ⟨fs, hand.erase a⟩) + hand.erase a
      = total (ts.set i ⟨fs, hand.erase a⟩) + ({a} + hand.erase a) := by abel
    _ = total (ts.set i ⟨fs, hand.erase a⟩) + hand := by rw [he]
    _ = total ts + hand.erase a := h

theorem total_other {es : List ε} {hand : Multiset α} (hi : ts[i]? = some ⟨es, hand⟩)
    (fs : List ε) :
    total (ts.set i ⟨fs, (Deed.other : Deed α).after hand⟩) = total ts :=
  add_right_cancel (total_set hi ⟨fs, hand⟩)

end Xiaoxin.Hands
