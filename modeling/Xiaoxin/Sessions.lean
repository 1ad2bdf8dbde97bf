import Xiaoxin.Transition

/-!
# Programs of atomic statements and their interleavings

A program reads and changes a state that it shares with others, one statement at
a time. Each of `k` sessions runs one program after another, and the statements
of different sessions come in any order. `bounded` is the rule for a program that
tests a measure of the state before it adds to it: what others do between the
test and the addition lets the measure pass the tested limit, by less than the
number of sessions. `attains` gives the order in which it does.
-/
namespace Xiaoxin.Sessions
open Transition

/-- What follows a statement depends on the state that the statement meets. -/
inductive Prog (σ α : Type) where
  | done (a : α)
  | stmt (f : σ → σ) (next : σ → Prog σ α)

namespace Prog

variable {σ τ α β : Type}

def bind : Prog σ α → (α → Prog σ β) → Prog σ β
  | done a, k => k a
  | stmt f next, k => stmt f (fun s => (next s).bind k)

instance : Monad (Prog σ) where
  pure := done
  bind := bind

/-- A statement that changes nothing. -/
def read (g : σ → β) : Prog σ β := stmt id (fun s => done (g s))

def write (f : σ → σ × β) : Prog σ β := stmt (fun s => (f s).1) (fun s => done (f s).2)

/-- The program with no other session in between. -/
def run : Prog σ α → σ → σ × α
  | done a, s => (s, a)
  | stmt f next, s => (next s).run (f s)

@[simp] theorem pure_eq (a : α) : (pure a : Prog σ α) = done a := rfl

@[simp] theorem done_bind (a : α) (k : α → Prog σ β) : (done a >>= k) = k a := rfl

@[simp] theorem stmt_bind (f : σ → σ) (next : σ → Prog σ α) (k : α → Prog σ β) :
    (stmt f next >>= k) = stmt f (fun s => next s >>= k) := rfl

@[simp] theorem read_bind (g : σ → α) (k : α → Prog σ β) :
    (read g >>= k) = stmt id (fun s => k (g s)) := rfl

@[simp] theorem write_bind (f : σ → σ × α) (k : α → Prog σ β) :
    (write f >>= k) = stmt (fun s => (f s).1) (fun s => k (f s).2) := rfl

@[simp] theorem run_done (a : α) (s : σ) : (done a : Prog σ α).run s = (s, a) := rfl

@[simp] theorem run_stmt (f : σ → σ) (next : σ → Prog σ α) (s : σ) :
    (stmt f next).run s = (next s).run (f s) := rfl

theorem run_bind (p : Prog σ α) (k : α → Prog σ β) (s : σ) :
    (p >>= k).run s = (k (p.run s).2).run (p.run s).1 := by
  induction p generalizing s with
  | done a => rfl
  | stmt f next ih => exact ih s (f s)

/-- No statement changes the part `π` of the state. -/
def Leaves (π : σ → τ) : Prog σ α → Prop
  | done _ => True
  | stmt f next => ∀ s, π (f s) = π s ∧ (next s).Leaves π

@[simp] theorem leaves_done (π : σ → τ) (a : α) : (done a : Prog σ α).Leaves π := trivial

@[simp] theorem leaves_stmt (π : σ → τ) (f : σ → σ) (next : σ → Prog σ α) :
    (stmt f next).Leaves π ↔ ∀ s, π (f s) = π s ∧ (next s).Leaves π := Iff.rfl

@[simp] theorem leaves_read (π : σ → τ) (g : σ → α) : (read g).Leaves π :=
  fun _ => ⟨rfl, trivial⟩

@[simp] theorem leaves_write (π : σ → τ) (f : σ → σ × α) :
    (write f).Leaves π ↔ ∀ s, π (f s).1 = π s := by
  simp [write]

@[simp] theorem leaves_ite (π : σ → τ) (c : Prop) [Decidable c] (p q : Prog σ α) :
    (if c then p else q).Leaves π ↔ (c → p.Leaves π) ∧ (¬ c → q.Leaves π) := by
  split <;> simp_all

theorem Leaves.bind {π : σ → τ} {p : Prog σ α} {k : α → Prog σ β} (hp : p.Leaves π)
    (hk : ∀ a, (k a).Leaves π) : (p >>= k).Leaves π := by
  induction p with
  | done a => exact hk a
  | stmt f next ih => exact fun s => ⟨(hp s).1, ih s (hp s).2⟩

theorem Leaves.run {π : σ → τ} {p : Prog σ α} (hp : p.Leaves π) (s : σ) :
    π (p.run s).1 = π s := by
  induction p generalizing s with
  | done a => rfl
  | stmt f next ih => exact (ih s (hp s).2 (f s)).trans (hp s).1

/-- No statement adds to the measure except one that follows a test: after a
statement that leaves it at most `N` the program may add one, and has to test
again before it adds another. The flag says that the test is behind it. -/
def Guarded (φ : σ → ℕ) (N : ℕ) : Bool → Prog σ α → Prop
  | _, done _ => True
  | false, stmt f next => ∀ s, φ (f s) ≤ φ s ∧
      ((next s).Guarded φ N false ∨ φ (f s) ≤ N ∧ (next s).Guarded φ N true)
  | true, stmt f next => ∀ s, φ (f s) ≤ φ s + 1 ∧ (next s).Guarded φ N false ∨
      φ (f s) ≤ φ s ∧ (next s).Guarded φ N true

section
variable {φ : σ → ℕ} {N : ℕ} {b : Bool}

@[simp] theorem guarded_done (a : α) : (done a : Prog σ α).Guarded φ N b := by
  cases b <;> trivial

/-- A program that never touches what is measured. -/
theorem Leaves.guarded {p : Prog σ α} (hp : p.Leaves φ) : p.Guarded φ N b := by
  induction p generalizing b with
  | done a => exact guarded_done a
  | stmt f next ih =>
    cases b with
    | false => exact fun s => ⟨(hp s).1.le, Or.inl (ih s (hp s).2)⟩
    | true => exact fun s => Or.inr ⟨(hp s).1.le, ih s (hp s).2⟩

theorem Leaves.comp {p : Prog σ α} {π : σ → τ} (hp : p.Leaves π) (ψ : τ → β) :
    p.Leaves (fun s => ψ (π s)) := by
  induction p with
  | done a => trivial
  | stmt f next ih => exact fun s => ⟨congrArg ψ (hp s).1, ih s (hp s).2⟩

/-- A test that is behind the program does no harm. -/
theorem Guarded.mono {p : Prog σ α} (hp : p.Guarded φ N false) : p.Guarded φ N b := by
  cases b with
  | false => exact hp
  | true =>
    induction p with
    | done a => trivial
    | stmt f next ih =>
      intro s
      obtain ⟨hle, h | ⟨-, h⟩⟩ := hp s
      · exact Or.inr ⟨hle, ih s h⟩
      · exact Or.inr ⟨hle, h⟩

theorem Guarded.bind {p : Prog σ α} {k : α → Prog σ β} (hp : p.Guarded φ N b)
    (hk : ∀ a, (k a).Guarded φ N false) : (p >>= k).Guarded φ N b := by
  induction p generalizing b with
  | done a => exact (hk a).mono
  | stmt f next ih =>
    cases b with
    | false =>
      exact fun s => ⟨(hp s).1, (hp s).2.imp (ih s) (fun h => ⟨h.1, ih s h.2⟩)⟩
    | true =>
      exact fun s => (hp s).imp (fun h => ⟨h.1, ih s h.2⟩) (fun h => ⟨h.1, ih s h.2⟩)

theorem Guarded.ite {c : Prop} [Decidable c] {p q : Prog σ α} (hp : c → p.Guarded φ N b)
    (hq : ¬ c → q.Guarded φ N b) : (if c then p else q).Guarded φ N b := by
  split
  · exact hp ‹_›
  · exact hq ‹_›

/-- A statement that does not add to the measure. -/
theorem guarded_stmt {f : σ → σ} {next : σ → Prog σ α} (hf : ∀ s, φ (f s) ≤ φ s)
    (hnext : ∀ s, (next s).Guarded φ N b) : (stmt f next).Guarded φ N b := by
  cases b with
  | false => exact fun s => ⟨hf s, Or.inl (hnext s)⟩
  | true => exact fun s => Or.inr ⟨hf s, hnext s⟩

theorem guarded_write {f : σ → σ × α} (hf : ∀ s, φ (f s).1 ≤ φ s) : (write f).Guarded φ N b :=
  guarded_stmt hf fun _ => guarded_done _

/-- A statement that adds one, after a test. -/
theorem guarded_add {f : σ → σ × α} (hf : ∀ s, φ (f s).1 ≤ φ s + 1) :
    (write f).Guarded φ N true :=
  fun s => Or.inl ⟨hf s, guarded_done _⟩

theorem guarded_read {g : σ → β} {k : β → Prog σ α}
    (hk : ∀ s, (k (g s)).Guarded φ N b) : (read g >>= k).Guarded φ N b :=
  guarded_stmt (fun _ => le_refl _) hk

/-- A statement that reads, and is a test where what follows relies on one. -/
theorem guarded_test {g : σ → β} {k : β → Prog σ α}
    (hk : ∀ s, (k (g s)).Guarded φ N false ∨ φ s ≤ N ∧ (k (g s)).Guarded φ N true) :
    (read g >>= k).Guarded φ N false :=
  fun s => ⟨le_refl _, hk s⟩

end

/-- In the state `s` the program comes to `q` after `n` statements that leave the
state as it is. -/
inductive Reads (s : σ) : ℕ → Prog σ α → Prog σ α → Prop
  | zero (p) : Reads s 0 p p
  | succ {n f next q} : f s = s → Reads s n (next s) q → Reads s (n + 1) (stmt f next) q

/-- Each statement keeps `I`, whatever the other sessions do in between as long as
they keep it too. -/
def Keeps (I : σ → Prop) : Prog σ α → Prop
  | done _ => True
  | stmt f next => ∀ s, I s → I (f s) ∧ (next s).Keeps I

section
variable {I : σ → Prop}

theorem Leaves.keeps {p : Prog σ α} {π : σ → τ} (hp : p.Leaves π)
    (hI : ∀ s t, π t = π s → I s → I t) : p.Keeps I := by
  induction p with
  | done a => trivial
  | stmt f next ih => exact fun s hs => ⟨hI s _ (hp s).1 hs, ih s (hp s).2⟩

theorem Keeps.bind {p : Prog σ α} {k : α → Prog σ β} (hp : p.Keeps I) (hk : ∀ a, (k a).Keeps I) :
    (p >>= k).Keeps I := by
  induction p with
  | done a => exact hk a
  | stmt f next ih => exact fun s hs => ⟨(hp s hs).1, ih s (hp s hs).2⟩

theorem Keeps.ite {c : Prop} [Decidable c] {p q : Prog σ α} (hp : c → p.Keeps I)
    (hq : ¬ c → q.Keeps I) : (if c then p else q).Keeps I := by
  split
  · exact hp ‹_›
  · exact hq ‹_›

theorem keeps_read {g : σ → β} {k : β → Prog σ α} (hk : ∀ s, I s → (k (g s)).Keeps I) :
    (read g >>= k).Keeps I :=
  fun s hs => ⟨hs, hk s hs⟩

theorem keeps_write {f : σ → σ × α} (hf : ∀ s, I s → I (f s).1) : (write f).Keeps I :=
  fun s hs => ⟨hf s hs, trivial⟩

end

end Prog

variable {σ α κ : Type} {k : ℕ}

structure System (σ α : Type) (k : ℕ) where
  state : σ
  progs : Fin k → Prog σ α

inductive Move (κ : Type) (k : ℕ)
  /-- An idle session takes up a call. -/
  | call (i : Fin k) (c : κ)
  /-- A session executes its next statement. -/
  | step (i : Fin k)
  deriving DecidableEq, Repr

def Move.session : Move κ k → Fin k
  | .call i _ => i
  | .step i => i

def step (program : κ → Prog σ α) (s : System σ α k) : Move κ k → Option (System σ α k)
  | .call i c =>
    match s.progs i with
    | .done _ => some { s with progs := Function.update s.progs i (program c) }
    | .stmt _ _ => none
  | .step i =>
    match s.progs i with
    | .done _ => none
    | .stmt f next => some ⟨f s.state, Function.update s.progs i (next s.state)⟩

/-- Every session is idle. -/
def idle (s : σ) (a : α) : System σ α k := ⟨s, fun _ => .done a⟩

section
variable {program : κ → Prog σ α} {φ : σ → ℕ} {N : ℕ}

/-- Which sessions have the test behind them, and that the state has room for what
they will add. -/
def Bounded (φ : σ → ℕ) (N B : ℕ) (s : System σ α k) : Prop :=
  ∃ flags : Fin k → Bool, (∀ i, (s.progs i).Guarded φ N (flags i)) ∧
    φ s.state + ∑ i, (flags i).toNat ≤ B

theorem sum_update (flags : Fin k → Bool) (i : Fin k) (b : Bool) :
    ∑ j, (Function.update flags i b j).toNat + (flags i).toNat =
      ∑ j, (flags j).toNat + b.toNat := by
  have hupdate : (fun j => (Function.update flags i b j).toNat) =
      Function.update (fun j => (flags j).toNat) i b.toNat := by
    funext j
    exact Function.apply_update (fun _ => Bool.toNat) flags i b j
  rw [hupdate, Finset.sum_update_of_mem (Finset.mem_univ i),
    ← Finset.add_sum_erase _ _ (Finset.mem_univ i), Finset.sdiff_singleton_eq_erase]
  omega

theorem sum_flags_le (flags : Fin k → Bool) : ∑ i, (flags i).toNat ≤ k := by
  calc ∑ i, (flags i).toNat ≤ ∑ _i : Fin k, 1 := Finset.sum_le_sum fun i _ => Bool.toNat_le _
    _ = k := by simp

theorem guarded_update {progs : Fin k → Prog σ α} {flags : Fin k → Bool}
    (hg : ∀ i, (progs i).Guarded φ N (flags i)) {i : Fin k} {p : Prog σ α} {b : Bool}
    (hp : p.Guarded φ N b) (j : Fin k) :
    (Function.update progs i p j).Guarded φ N (Function.update flags i b j) := by
  by_cases hji : j = i
  · subst hji
    simpa using hp
  · simpa [hji] using hg j

theorem step_bounded {B : ℕ} (hB : N + k ≤ B) (hprogram : ∀ c, (program c).Guarded φ N false)
    {s t : System σ α k} {m : Move κ k} (hs : Bounded φ N B s) (hm : step program s m = some t) :
    Bounded φ N B t := by
  obtain ⟨flags, hg, hle⟩ := hs
  cases m with
  | call i c =>
    cases hp : s.progs i with
    | stmt f next => simp [step, hp] at hm
    | done a =>
      simp only [step, hp, Option.some.injEq] at hm
      subst hm
      have hsum := sum_update flags i false
      refine ⟨Function.update flags i false, guarded_update hg (hprogram c), ?_⟩
      simp only [Bool.toNat_false] at hsum ⊢
      omega
  | step i =>
    cases hp : s.progs i with
    | done a => simp [step, hp] at hm
    | stmt f next =>
      simp only [step, hp, Option.some.injEq] at hm
      subst hm
      have hi := hg i
      rw [hp] at hi
      -- the flag of the session that moves says which kind of statement this is
      cases hf : flags i with
      | false =>
        rw [hf] at hi
        obtain ⟨hφ, hnext | ⟨hN, hnext⟩⟩ := hi s.state
        · refine ⟨flags, ?_, by simpa using (Nat.add_le_add_right hφ _).trans hle⟩
          rw [← Function.update_eq_self i flags, hf]
          exact guarded_update hg hnext
        · refine ⟨Function.update flags i true, guarded_update hg hnext, ?_⟩
          have hk := sum_flags_le (Function.update flags i true)
          simp only
          omega
      | true =>
        rw [hf] at hi
        obtain ⟨hφ, hnext⟩ | ⟨hφ, hnext⟩ := hi s.state
        · have hsum := sum_update flags i false
          refine ⟨Function.update flags i false, guarded_update hg hnext, ?_⟩
          simp only [hf, Bool.toNat_true, Bool.toNat_false] at hsum ⊢
          omega
        · refine ⟨flags, ?_, by simpa using (Nat.add_le_add_right hφ _).trans hle⟩
          rw [← Function.update_eq_self i flags, hf]
          exact guarded_update hg hnext

/-- A tested measure passes its limit by less than the number of sessions. -/
theorem bounded (hprogram : ∀ c, (program c).Guarded φ N false) (s : σ) (a : α)
    (moves : List (Move κ k)) (t : System σ α k)
    (h : exec (step program) (idle s a) moves = some t) : φ t.state ≤ max (φ s) (N + k) := by
  have hstart : Bounded φ N (max (φ s) (N + k)) (idle s a : System σ α k) :=
    ⟨fun _ => false, fun i => Prog.guarded_done a, by simp [idle]⟩
  obtain ⟨flags, -, hle⟩ := invariant (I := Bounded φ N (max (φ s) (N + k)))
    (fun u m v hu hm => step_bounded (le_max_right _ _) hprogram hu hm) hstart h
  omega

end

/-- What every statement of the programs that are called keeps holds in any order of the
sessions. -/
theorem keeps_invariant {program : κ → Prog σ α} {I : σ → Prop} {C : κ → Prop}
    (hprogram : ∀ c, C c → (program c).Keeps I) {s : σ} (hs : I s) (a : α) (moves : List (Move κ k))
    (hmoves : ∀ i c, Move.call i c ∈ moves → C c) (t : System σ α k)
    (h : exec (step program) (idle s a) moves = some t) : I t.state := by
  have hstart :
      I (idle s a : System σ α k).state ∧ ∀ i, ((idle s a : System σ α k).progs i).Keeps I :=
    ⟨hs, fun _ => trivial⟩
  have hcalls : ∀ m ∈ moves, ∀ i c, m = .call i c → C c := fun m hm i c hmc => hmoves i c (hmc ▸ hm)
  refine (invariant_of_along (I := fun s : System σ α k => I s.state ∧ ∀ i, (s.progs i).Keeps I)
    (fun u m v hu hC hm => ?_) hstart (along_of_forall_mem hcalls (idle s a)) h).1
  obtain ⟨hI, hp⟩ := hu
  have hupdate : ∀ {i : Fin k} {p : Prog σ α}, p.Keeps I →
      ∀ j, (Function.update u.progs i p j).Keeps I := by
    intro i p hkeeps j
    by_cases hji : j = i
    · subst hji
      simpa using hkeeps
    · simpa [hji] using hp j
  cases m with
  | call i c =>
    cases hi : u.progs i with
    | stmt f next => simp [step, hi] at hm
    | done a =>
      simp only [step, hi, Option.some.injEq] at hm
      subst hm
      exact ⟨hI, hupdate (hprogram c (hC i c rfl))⟩
  | step i =>
    cases hi : u.progs i with
    | done a => simp [step, hi] at hm
    | stmt f next =>
      simp only [step, hi, Option.some.injEq] at hm
      subst hm
      have hnow := hp i
      rw [hi] at hnow
      exact ⟨(hnow _ hI).1, hupdate (hnow _ hI).2⟩

/-- A session stands where it is while the others move. -/
theorem exec_others {program : κ → Prog σ α} {i : Fin k} {moves : List (Move κ k)}
    (hmoves : ∀ m ∈ moves, m.session ≠ i) {s t : System σ α k}
    (h : exec (step program) s moves = some t) : t.progs i = s.progs i := by
  refine invariant_of_along (I := fun t : System σ α k => t.progs i = s.progs i)
    (C := fun _ m => m.session ≠ i) (fun u m v hu hm hstep => ?_) rfl
    (along_of_forall_mem hmoves s) h
  rw [← hu]
  cases m with
  | call j c =>
    have hij : i ≠ j := fun hij => hm hij.symm
    cases hj : u.progs j with
    | stmt f next => simp [step, hj] at hstep
    | done a =>
      simp only [step, hj, Option.some.injEq] at hstep
      subst hstep
      simp [hij]
  | step j =>
    have hij : i ≠ j := fun hij => hm hij.symm
    cases hj : u.progs j with
    | done a => simp [step, hj] at hstep
    | stmt f next =>
      simp only [step, hj, Option.some.injEq] at hstep
      subst hstep
      simp [hij]

/-! ## The order in which the bound is met -/

section
variable {program : κ → Prog σ α} {s : σ} {p q : Prog σ α}

/-- A session reads on while the others wait. -/
theorem exec_reads {n : ℕ} (h : p.Reads s n q) (i : Fin k) (progs : Fin k → Prog σ α)
    (hi : progs i = p) : exec (step program) (⟨s, progs⟩ : System σ α k)
      (List.replicate n (.step i)) = some ⟨s, Function.update progs i q⟩ := by
  induction h generalizing progs with
  | zero p => simp [← hi]
  | @succ n f next q hf hr ih =>
    have hstep : step program (⟨s, progs⟩ : System σ α k) (.step i) =
        some ⟨s, Function.update progs i (next s)⟩ := by simp [step, hi, hf]
    rw [List.replicate_succ, exec_cons, hstep]
    simpa using ih (Function.update progs i (next s)) (by simp)

/-- The sessions of `l` take up the same call and read on, one after the other. -/
theorem exec_calls {c : κ} {n : ℕ} (h : (program c).Reads s n q) (l : List (Fin k))
    (hl : l.Nodup) (progs : Fin k → Prog σ α) (hidle : ∀ i ∈ l, ∃ a, progs i = .done a) :
    exec (step program) (⟨s, progs⟩ : System σ α k)
      (l.flatMap fun i => .call i c :: List.replicate n (.step i)) =
    some ⟨s, fun i => if i ∈ l then q else progs i⟩ := by
  induction l generalizing progs with
  | nil => simp
  | cons i l ih =>
    obtain ⟨a, ha⟩ := hidle i (by simp)
    obtain ⟨hi, hl⟩ := List.nodup_cons.mp hl
    have hcall : step program (⟨s, progs⟩ : System σ α k) (.call i c) =
        some ⟨s, Function.update progs i (program c)⟩ := by simp [step, ha]
    have hrest := ih hl (Function.update progs i q) fun j hj => by
      have hne : j ≠ i := fun hji => hi (hji ▸ hj)
      simpa [hne] using hidle j (by simp [hj])
    rw [List.flatMap_cons, List.cons_append, exec_cons, hcall, Option.bind_some, exec_append,
      exec_reads h i _ (by simp), Option.bind_some]
    simp only [Function.update_idem]
    rw [hrest]
    congr 2
    funext j
    by_cases hj : j = i
    · subst hj; simp [hi]
    · simp [hj]

/-- The sessions of `l` all execute the statement they stand at. -/
theorem exec_steps {f : σ → σ} {next : σ → Prog σ α} (l : List (Fin k)) (hl : l.Nodup) (s : σ)
    (progs : Fin k → Prog σ α) (hat : ∀ i ∈ l, progs i = .stmt f next) :
    ∃ progs', exec (step program) (⟨s, progs⟩ : System σ α k) (l.map .step) =
      some ⟨f^[l.length] s, progs'⟩ := by
  induction l generalizing s progs with
  | nil => exact ⟨progs, rfl⟩
  | cons i l ih =>
    obtain ⟨hi, hl⟩ := List.nodup_cons.mp hl
    have hstep : step program (⟨s, progs⟩ : System σ α k) (.step i) =
        some ⟨f s, Function.update progs i (next s)⟩ := by simp [step, hat i (by simp)]
    obtain ⟨progs', h⟩ := ih hl (f s) (Function.update progs i (next s)) fun j hj => by
      have hne : j ≠ i := fun hji => hi (hji ▸ hj)
      simpa [hne] using hat j (by simp [hj])
    refine ⟨progs', ?_⟩
    rw [List.map_cons, exec_cons, hstep]
    simpa using h

/-- All sessions read before any of them writes. -/
theorem attains {c : κ} {n : ℕ} {f : σ → σ} {next : σ → Prog σ α}
    (h : (program c).Reads s n (.stmt f next)) (a : α) (k : ℕ) :
    ∃ (moves : List (Move κ k)) (t : System σ α k),
      exec (step program) (idle s a) moves = some t ∧ t.state = f^[k] s := by
  have hl := List.nodup_finRange k
  obtain ⟨progs, hsteps⟩ : ∃ progs', exec (step program)
      ⟨s, fun i => if i ∈ List.finRange k then .stmt f next else .done a⟩
      ((List.finRange k).map .step) = some ⟨f^[(List.finRange k).length] s, progs'⟩ :=
    exec_steps (List.finRange k) hl s _ fun i _ => if_pos (List.mem_finRange i)
  refine ⟨((List.finRange k).flatMap fun i => .call i c :: List.replicate n (.step i)) ++
    (List.finRange k).map .step, ⟨f^[(List.finRange k).length] s, progs⟩, ?_, by simp⟩
  rw [exec_append, idle, exec_calls h (List.finRange k) hl _ fun i _ => ⟨a, rfl⟩]
  exact hsteps

end

end Xiaoxin.Sessions
