import Mathlib.Tactic

/-!
# Tables with an identity column

A table numbers its rows itself and keeps them in the order of these numbers. A
number is used up by an insert that fails as well, and there are no more of them
than a 32-bit integer holds. A value that may be missing is an `Option`; no
comparison with a missing value is true.
-/
namespace Xiaoxin.Relational

variable {ρ : Type}

def intMin : ℤ := -2147483648
def intMax : ℤ := 2147483647

/-- The value can be stored in a 32-bit column. -/
def IsInt (x : ℤ) : Prop := intMin ≤ x ∧ x ≤ intMax

instance (x : ℤ) : Decidable (IsInt x) := inferInstanceAs (Decidable (_ ∧ _))

/-- A comparison of two values either of which may be missing. -/
def compares {α β : Type} (r : α → β → Bool) : Option α → Option β → Bool
  | some a, some b => r a b
  | _, _ => false

@[simp] theorem compares_some {α β : Type} (r : α → β → Bool) (a : α) (b : β) :
    compares r (some a) (some b) = r a b := rfl

@[simp] theorem compares_none_left {α β : Type} (r : α → β → Bool) (b : Option β) :
    compares r none b = false := rfl

@[simp] theorem compares_none_right {α β : Type} (r : α → β → Bool) (a : Option α) :
    compares r a none = false := by cases a <;> rfl

theorem compares_eq_true {α β : Type} {r : α → β → Bool} {a : Option α} {b : Option β} :
    compares r a b = true ↔ ∃ x y, a = some x ∧ b = some y ∧ r x y = true := by
  cases a <;> cases b <;> simp

theorem compares_beq {α : Type} [BEq α] [LawfulBEq α] {a b : Option α} :
    compares (· == ·) a b = true ↔ ∃ x, a = some x ∧ b = some x := by
  rw [compares_eq_true]
  constructor
  · rintro ⟨x, y, rfl, rfl, hxy⟩
    exact ⟨x, rfl, by rw [eq_of_beq hxy]⟩
  · rintro ⟨x, rfl, rfl⟩
    exact ⟨x, x, rfl, rfl, beq_self_eq_true x⟩

/-- What is equal to one value is not equal to another. -/
theorem compares_of_ne {α : Type} [BEq α] [LawfulBEq α] {a b c : Option α} (hbc : b ≠ c)
    (h : compares (· == ·) a b = true) : compares (· == ·) a c = false := by
  rw [Bool.eq_false_iff]
  intro h'
  obtain ⟨x, rfl, rfl⟩ := compares_beq.mp h
  obtain ⟨y, hy, rfl⟩ := compares_beq.mp h'
  exact hbc hy

structure Row (ρ : Type) where
  id : ℤ
  val : ρ
  deriving DecidableEq, Repr

structure Table (ρ : Type) where
  rows : List (Row ρ)
  /-- The number of the next row. -/
  seed : ℤ
  ordered : rows.Pairwise (fun a b => a.id < b.id)
  below : ∀ r ∈ rows, r.id < seed

namespace Table

variable {t : Table ρ} {p q : Row ρ → Bool}

instance [DecidableEq ρ] : DecidableEq (Table ρ) := fun s t =>
  decidable_of_iff (s.rows = t.rows ∧ s.seed = t.seed) (by cases s; cases t; simp)

def empty : Table ρ := ⟨[], 1, List.Pairwise.nil, by simp⟩

/-- The rows that meet a condition, by their numbers. -/
def select (t : Table ρ) (p : Row ρ → Bool) : List (Row ρ) := t.rows.filter p

/-- Whether a row meets the condition. -/
def any (t : Table ρ) (p : Row ρ → Bool) : Bool := t.rows.any p

def count (t : Table ρ) (p : Row ρ → Bool) : ℕ := t.rows.countP p

def delete (t : Table ρ) (p : Row ρ → Bool) : Table ρ where
  rows := t.rows.filter (fun r => !p r)
  seed := t.seed
  ordered := t.ordered.filter _
  below r hr := t.below r (List.mem_of_mem_filter hr)

def update (t : Table ρ) (p : Row ρ → Bool) (f : ρ → ρ) : Table ρ where
  rows := t.rows.map (fun r => if p r then ⟨r.id, f r.val⟩ else r)
  seed := t.seed
  ordered := by
    refine List.pairwise_map.mpr (t.ordered.imp fun {a b} hab => ?_)
    split <;> split <;> exact hab
  below := by
    simp only [List.mem_map, forall_exists_index, and_imp]
    rintro _ r hr rfl
    have := t.below r hr
    split <;> exact this

/-- The number goes to nobody. -/
def skip (t : Table ρ) : Table ρ where
  rows := t.rows
  seed := t.seed + 1
  ordered := t.ordered
  below r hr := by have := t.below r hr; omega

def append (t : Table ρ) (v : ρ) : Table ρ where
  rows := t.rows ++ [⟨t.seed, v⟩]
  seed := t.seed + 1
  ordered := List.pairwise_append.mpr
    ⟨t.ordered, List.pairwise_singleton _ _, by simpa using t.below⟩
  below r hr := by
    rcases List.mem_append.mp hr with hr | hr
    · have := t.below r hr
      omega
    · rw [List.mem_singleton.mp hr]
      exact lt_add_one _

/-- The rows of `t` again, after `u` has used up numbers. -/
def rollback (t u : Table ρ) : Table ρ where
  rows := t.rows
  seed := max t.seed u.seed
  ordered := t.ordered
  below r hr := lt_max_of_lt_left (t.below r hr)

/-- There is a number for another row. -/
def HasRoom (t : Table ρ) : Prop := t.seed ≤ intMax

instance (t : Table ρ) : Decidable t.HasRoom := inferInstanceAs (Decidable (_ ≤ _))

/-- An insert and whether it succeeds. There is no row where a constraint of the
table is not met. -/
def insert (t : Table ρ) (row : Option ρ) : Table ρ × Bool :=
  if t.HasRoom then
    match row with
    | some v => (t.append v, true)
    | none => (t.skip, false)
  else (t, false)

theorem insert_some (h : t.HasRoom) (v : ρ) : t.insert (some v) = (t.append v, true) := by
  simp [insert, h]

theorem insert_snd (row : Option ρ) : (t.insert row).2 = true ↔ t.HasRoom ∧ row.isSome := by
  unfold insert; split <;> cases row <;> simp_all

theorem rows_insert (row : Option ρ) : (t.insert row).1.rows =
    if t.HasRoom then t.rows ++ row.toList.map (⟨t.seed, ·⟩) else t.rows := by
  unfold insert; split <;> cases row <;> simp [append, skip]

@[simp] theorem rows_delete : (t.delete p).rows = t.rows.filter (fun r => !p r) := rfl

@[simp] theorem seed_delete : (t.delete p).seed = t.seed := rfl

@[simp] theorem seed_update (f : ρ → ρ) : (t.update p f).seed = t.seed := rfl

@[simp] theorem hasRoom_delete : (t.delete p).HasRoom ↔ t.HasRoom := Iff.rfl

@[simp] theorem hasRoom_update (f : ρ → ρ) : (t.update p f).HasRoom ↔ t.HasRoom := Iff.rfl

@[simp] theorem rows_empty : (empty : Table ρ).rows = [] := rfl

theorem any_eq_true : t.any p = true ↔ ∃ r ∈ t.rows, p r = true := List.any_eq_true

theorem any_eq_false : t.any p = false ↔ ∀ r ∈ t.rows, p r = false := by
  simp [any]

theorem mem_insert {row : Option ρ} {r : Row ρ} : r ∈ (t.insert row).1.rows ↔
    r ∈ t.rows ∨ t.HasRoom ∧ ∃ v ∈ row, r = ⟨t.seed, v⟩ := by
  rw [rows_insert]
  split
  · rename_i h
    cases row <;> simp [h]
  · rename_i h
    simp [h]

theorem select_insert (row : Option ρ) : (t.insert row).1.select p =
    t.select p ++ if t.HasRoom then (row.toList.map (⟨t.seed, ·⟩)).filter p else [] := by
  unfold select
  rw [rows_insert]
  split <;> simp

theorem select_delete : (t.delete q).select p = t.rows.filter (fun r => p r && !q r) := by
  simp [select, List.filter_filter]

theorem length_select : (t.select p).length = t.count p := by
  simp [select, count, List.countP_eq_length_filter]

theorem any_insert {row : Option ρ} : (t.insert row).1.any p = true ↔
    t.any p = true ∨ t.HasRoom ∧ ∃ v ∈ row, p ⟨t.seed, v⟩ = true := by
  simp only [any_eq_true, mem_insert]
  constructor
  · rintro ⟨r, hr | ⟨hroom, v, hv, rfl⟩, hp⟩
    · exact Or.inl ⟨r, hr, hp⟩
    · exact Or.inr ⟨hroom, v, hv, hp⟩
  · rintro (⟨r, hr, hp⟩ | ⟨hroom, v, hv, hp⟩)
    · exact ⟨r, Or.inl hr, hp⟩
    · exact ⟨_, Or.inr ⟨hroom, v, hv, rfl⟩, hp⟩

theorem seed_insert_le (row : Option ρ) : (t.insert row).1.seed ≤ t.seed + 1 := by
  unfold insert
  split
  · cases row <;> exact le_refl _
  · exact (lt_add_one _).le

theorem count_eq_zero : t.count p = 0 ↔ t.any p = false := by
  simp [count, any_eq_false]

theorem count_pos : 0 < t.count p ↔ t.any p = true := by
  simp [count, any_eq_true, List.countP_pos_iff]

@[simp] theorem count_empty : (empty : Table ρ).count p = 0 := rfl

@[simp] theorem count_skip : t.skip.count p = t.count p := rfl

@[simp] theorem count_append (v : ρ) :
    (t.append v).count p = t.count p + if p ⟨t.seed, v⟩ then 1 else 0 := by
  simp [count, append]

theorem count_insert_le (row : Option ρ) : (t.insert row).1.count p ≤ t.count p + 1 := by
  unfold insert
  split
  · cases row with
    | none => simp
    | some v => simp only [count_append]; split <;> omega
  · simp

theorem seed_iterate_insert (v : ρ) (k : ℕ) (hroom : t.seed + k ≤ intMax + 1) :
    ((fun t : Table ρ => (t.insert (some v)).1)^[k] t).seed = t.seed + k := by
  induction k generalizing t with
  | zero => simp
  | succ k ih =>
    push_cast at hroom
    have happend := insert_some (t := t) (by unfold HasRoom; omega) v
    rw [Function.iterate_succ_apply, happend, ih (by simp only [append]; omega)]
    simp only [append]
    push_cast
    ring

/-- As many rows as there are numbers for can be inserted one after the other. -/
theorem count_iterate_insert {v : ρ} (hp : ∀ i, p ⟨i, v⟩ = true) (k : ℕ)
    (hroom : t.seed + k ≤ intMax + 1) :
    ((fun t : Table ρ => (t.insert (some v)).1)^[k] t).count p = t.count p + k := by
  induction k generalizing t with
  | zero => simp
  | succ k ih =>
    push_cast at hroom
    have happend := insert_some (t := t) (by unfold HasRoom; omega) v
    rw [Function.iterate_succ_apply, happend, ih (by simp only [append]; omega), count_append,
      if_pos (hp _)]
    ring

theorem count_insert_of_not {row : Option ρ} (h : ∀ v ∈ row, p ⟨t.seed, v⟩ = false) :
    (t.insert row).1.count p = t.count p := by
  unfold insert
  split
  · cases row with
    | none => simp
    | some v => simp [h v rfl]
  · rfl

theorem count_delete_le : (t.delete q).count p ≤ t.count p :=
  List.Sublist.countP_le List.filter_sublist

@[simp] theorem count_delete_self : (t.delete p).count p = 0 := by
  simp [count, List.countP_filter]

/-- A change that keeps the condition keeps the number of rows that meet it. -/
theorem count_update {f : ρ → ρ} (h : ∀ r, q r = true → p ⟨r.id, f r.val⟩ = p r) :
    (t.update q f).count p = t.count p := by
  simp only [count, update, List.countP_map]
  refine List.countP_congr fun r _ => ?_
  by_cases hq : q r <;> simp [hq, h]

/-- No two rows have the same number. -/
theorem eq_of_id {a b : Row ρ} (ha : a ∈ t.rows) (hb : b ∈ t.rows) (h : a.id = b.id) : a = b := by
  have hnodup : (t.rows.map Row.id).Nodup :=
    List.pairwise_map.mpr (t.ordered.imp fun hlt => hlt.ne)
  exact List.inj_on_of_nodup_map hnodup ha hb h

/-- There are no more rows than numbers. -/
theorem count_le_of_between {m n : ℤ} (hmn : m ≤ n)
    (h : ∀ r ∈ t.rows, p r = true → m < r.id ∧ r.id ≤ n) : (t.count p : ℤ) ≤ n - m := by
  have hnodup : ((t.select p).map Row.id).Nodup :=
    List.pairwise_map.mpr ((t.ordered.filter _).imp fun hlt => hlt.ne)
  have hsub : ((t.select p).map Row.id).toFinset ⊆ Finset.Ioc m n := by
    intro i hi
    obtain ⟨r, hr, rfl⟩ := List.mem_map.mp (List.mem_toFinset.mp hi)
    obtain ⟨hr, hp⟩ := List.mem_filter.mp hr
    exact Finset.mem_Ioc.mpr (h r hr hp)
  have hcard := Finset.card_le_card hsub
  rw [List.toFinset_card_of_nodup hnodup, List.length_map, length_select, Int.card_Ioc] at hcard
  omega

/-- The last rows that meet the condition are all that are newer than `m` exactly if
there are no more of these than rows. -/
theorem newest_iff (m : ℤ) (n : ℕ) :
    (∀ r ∈ t.rows, p r = true → m < r.id → r ∈ (t.select p).reverse.take n) ↔
      t.count (fun r => p r && decide (m < r.id)) ≤ n := by
  have hmem : ∀ r, r ∈ t.select (fun r => p r && decide (m < r.id)) ↔
      r ∈ t.rows ∧ p r = true ∧ m < r.id := by
    simp [select]
  rw [← length_select]
  constructor
  · intro h
    have hnodup : (t.select fun r => p r && decide (m < r.id)).Nodup :=
      (t.ordered.filter _).imp fun hlt heq => hlt.ne (congrArg Row.id heq)
    have hsub : t.select (fun r => p r && decide (m < r.id)) ⊆ (t.select p).reverse.take n :=
      fun r hr => by
        obtain ⟨hrows, hp, hm⟩ := (hmem r).mp hr
        exact h r hrows hp hm
    exact (hnodup.subperm hsub).length_le.trans (List.length_take_le ..)
  · intro hle r hr hp hm
    by_contra hnot
    have hin : r ∈ (t.select p).reverse := List.mem_reverse.mpr (List.mem_filter.mpr ⟨hr, hp⟩)
    rw [← List.take_append_drop n (t.select p).reverse, List.mem_append] at hin
    have hdrop := hin.resolve_left hnot
    -- the rows that are taken are newer than `r`, which is not
    have hordered : (t.select p).reverse.Pairwise fun a b => b.id < a.id :=
      List.pairwise_reverse.mpr (t.ordered.filter _)
    rw [← List.take_append_drop n (t.select p).reverse, List.pairwise_append] at hordered
    have hnewer : ∀ a ∈ (t.select p).reverse.take n, r.id < a.id := fun a ha =>
      hordered.2.2 a ha r hdrop
    have hnodup : (r :: (t.select p).reverse.take n).Nodup :=
      List.nodup_cons.mpr ⟨hnot, hordered.1.imp fun hlt heq => hlt.ne (congrArg Row.id heq.symm)⟩
    have hsub : r :: (t.select p).reverse.take n ⊆ t.select fun r => p r && decide (m < r.id) := by
      intro a ha
      obtain rfl | ha := List.mem_cons.mp ha
      · exact (hmem a).mpr ⟨hr, hp, hm⟩
      · obtain ⟨harows, hap⟩ := List.mem_filter.mp (List.mem_reverse.mp (List.mem_of_mem_take ha))
        have := hnewer a ha
        exact (hmem a).mpr ⟨harows, hap, by omega⟩
    have hlength := (hnodup.subperm hsub).length_le
    have hlong : n < (t.select p).reverse.length := by
      by_contra hshort
      rw [List.drop_eq_nil_of_le (by omega)] at hdrop
      simp at hdrop
    rw [List.length_cons, List.length_take] at hlength
    omega

end Table

end Xiaoxin.Relational
