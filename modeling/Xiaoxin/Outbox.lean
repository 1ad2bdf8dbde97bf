import Mathlib.Tactic

/-!
# Buffers written piece by piece

Buffers are accepted one after another, and the oldest that has not been written is
written next, some symbols from its front. What was written is the concatenation of
what was accepted exactly when no buffer was written in part: a symbol that is left
out is missing for good, since every later one comes behind it.
-/
namespace Xiaoxin

/-- Buffers of type `β` holding symbols of type `α`. -/
structure Outbox (β α : Type*) where
  /-- All buffers accepted, the oldest first. -/
  accepted : List β
  /-- Those of them that are still to be written. -/
  pending : List β
  written : List α
  deriving DecidableEq, Repr

namespace Outbox

variable {β α : Type*}

def empty : Outbox β α := ⟨[], [], []⟩

/-- Accept a buffer. -/
def accept (o : Outbox β α) (b : β) : Outbox β α :=
  { o with accepted := o.accepted ++ [b], pending := o.pending ++ [b] }

section Bytes

variable (bytes : β → List α)

/-- Write the first `k` symbols of the oldest buffer `b`; `bs` are the others. -/
def write (o : Outbox β α) (b : β) (bs : List β) (k : ℕ) : Outbox β α :=
  { o with pending := bs, written := o.written ++ (bytes b).take k }

/-- The symbols written and to be written are the symbols accepted. -/
def Balanced (o : Outbox β α) : Prop :=
  o.written ++ o.pending.flatMap bytes = o.accepted.flatMap bytes

/-- No more is written, and to be written, than was accepted. -/
def Bounded (o : Outbox β α) : Prop :=
  o.written.length + (o.pending.flatMap bytes).length ≤ (o.accepted.flatMap bytes).length

theorem empty_balanced : Balanced bytes (empty : Outbox β α) := rfl

theorem empty_bounded : Bounded bytes (empty : Outbox β α) := le_rfl

variable {bytes} {o : Outbox β α} {b : β} {bs : List β} {k : ℕ}

@[simp] theorem accept_balanced : Balanced bytes (o.accept b) ↔ Balanced bytes o := by
  simp only [Balanced, accept, List.flatMap_append, ← List.append_assoc]
  exact List.append_left_inj _

theorem accept_bounded (h : Bounded bytes o) : Bounded bytes (o.accept b) := by
  simp only [Bounded, accept, List.flatMap_append, List.length_append] at h ⊢
  omega

theorem write_bounded (hp : o.pending = b :: bs) (h : Bounded bytes o) :
    Bounded bytes (o.write bytes b bs k) := by
  simp only [Bounded, write, hp, List.flatMap_cons, List.length_append, List.length_take] at h ⊢
  omega

/-- Writing a whole buffer keeps the balance, and only that does. -/
theorem write_balanced (hp : o.pending = b :: bs) (h : Balanced bytes o)
    (hk : k ≤ (bytes b).length) :
    Balanced bytes (o.write bytes b bs k) ↔ k = (bytes b).length := by
  simp only [Balanced, write, hp, List.flatMap_cons] at h ⊢
  rw [← h]
  constructor
  · intro heq
    have hlen := congrArg List.length heq
    simp only [List.length_append, List.length_take] at hlen
    omega
  · rintro rfl
    rw [List.take_length, List.append_assoc]

/-- The balance does not come back. -/
theorem balanced_of_write (hp : o.pending = b :: bs) (hb : Bounded bytes o)
    (h : Balanced bytes (o.write bytes b bs k)) : Balanced bytes o := by
  simp only [Balanced, Bounded, write, hp, List.flatMap_cons, List.length_append] at hb h ⊢
  have hlen := congrArg List.length h
  simp only [List.length_append, List.length_take] at hlen
  have hk : (bytes b).length ≤ k := by omega
  rw [← h, List.take_of_length_le hk, List.append_assoc]

/-- When nothing is left to be written, balance means that all was written. -/
theorem balanced_of_done (hp : o.pending = []) :
    Balanced bytes o ↔ o.written = o.accepted.flatMap bytes := by
  rw [Balanced, hp, List.flatMap_nil, List.append_nil]

end Bytes

end Outbox

end Xiaoxin
