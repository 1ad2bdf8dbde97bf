import Mathlib.Tactic

/-!
# Memory as cells with addresses

A memory is a function from addresses to cells. `write` stores a list of cells from
an address on and does not look at what the cells belong to; `read` takes a number
of cells from an address on. Which cells a `write` leaves alone and what a `read`
finds after one are all that a proof about arrays in one object needs.
-/
namespace Xiaoxin.Memory

variable {α : Type*}

/-- Store the cells `ws` from the address `p` on. -/
def write (m : ℕ → α) (p : ℕ) (ws : List α) : ℕ → α :=
  fun a => if p ≤ a then (ws[a - p]?).getD (m a) else m a

/-- The `n` cells from the address `p` on. -/
def read (m : ℕ → α) (p n : ℕ) : List α := (List.range' p n).map m

theorem write_of_lt (m : ℕ → α) {p a : ℕ} (ws : List α) (h : a < p) : write m p ws a = m a :=
  if_neg (not_le.mpr h)

theorem write_of_le (m : ℕ → α) {p a : ℕ} {ws : List α} (h : p + ws.length ≤ a) :
    write m p ws a = m a := by
  have hnone : ws[a - p]? = none := List.getElem?_eq_none (by omega)
  simp [write, hnone]

theorem write_add (m : ℕ → α) (p : ℕ) {ws : List α} {i : ℕ} (h : i < ws.length) :
    write m p ws (p + i) = ws[i] := by
  simp [write, h]

@[simp] theorem length_read (m : ℕ → α) (p n : ℕ) : (read m p n).length = n := by
  simp [read]

theorem read_congr {m m' : ℕ → α} {p n : ℕ} (h : ∀ a, p ≤ a → a < p + n → m a = m' a) :
    read m p n = read m' p n := by
  refine List.map_congr_left fun a ha => ?_
  rw [List.mem_range'_1] at ha
  exact h a ha.1 ha.2

theorem eq_of_read_eq {m m' : ℕ → α} {p n : ℕ} (h : read m p n = read m' p n) {a : ℕ}
    (hp : p ≤ a) (hn : a < p + n) : m a = m' a :=
  List.map_inj_left.mp h a (List.mem_range'_1.mpr ⟨hp, hn⟩)

/-- What was written is read back. -/
theorem read_write_self (m : ℕ → α) (p : ℕ) (ws : List α) :
    read (write m p ws) p ws.length = ws := by
  refine List.ext_getElem (by simp) fun i h₁ h₂ => ?_
  simp only [read, List.getElem_map, List.getElem_range', Nat.one_mul]
  exact write_add m p h₂

/-- A second `write` at the same address hides the beginning of the first one. -/
theorem write_write (m : ℕ → α) (p : ℕ) (vs ws : List α) :
    write (write m p vs) p ws = write m p (ws ++ vs.drop ws.length) := by
  funext a
  by_cases hp : p ≤ a
  · obtain ⟨i, rfl⟩ := Nat.exists_eq_add_of_le hp
    by_cases hi : i < ws.length
    · have hi' : i < (ws ++ vs.drop ws.length).length := by simp; omega
      rw [write_add _ p hi, write_add m p hi', List.getElem_append_left hi]
    · rw [write_of_le _ (by omega)]
      simp [write, List.getElem?_append_right (not_lt.mp hi), List.getElem?_drop,
        Nat.add_sub_cancel' (not_lt.mp hi)]
  · rw [write_of_lt _ _ (by omega), write_of_lt _ _ (by omega), write_of_lt _ _ (by omega)]

end Xiaoxin.Memory
