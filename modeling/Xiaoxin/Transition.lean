import Mathlib.Tactic

/-!
# Runs of a labelled transition function

A system is a partial step function on a state type. Its labels carry every
choice that the environment makes (which thread moves, how many bytes arrive,
whether an allocation succeeds), so a start state and a list of labels determine
the run. A label that is not enabled in the state it meets has no successor.

`exec` follows a run, `Along` says that each step of it meets a condition on the
state before the step and on the label, and `Always` that each state it visits
has a property. The rules below turn facts about one step into facts about whole
runs; nothing in this file depends on what is being modelled.
-/
namespace Xiaoxin.Transition

variable {σ τ α β : Type*}

/-- Follow the labels one after another from a state. -/
def exec (step : σ → α → Option σ) : σ → List α → Option σ
  | s, [] => some s
  | s, a :: as => (step s a).bind (fun t => exec step t as)

/-- Each step of the run meets `C`, a condition on the state before and the label. -/
def Along (step : σ → α → Option σ) (C : σ → α → Prop) : σ → List α → Prop
  | _, [] => True
  | s, a :: as => C s a ∧ ∀ t, step s a = some t → Along step C t as

/-- Each state the run visits, the first and the last included, has `P`. -/
def Always (step : σ → α → Option σ) (P : σ → Prop) : σ → List α → Prop
  | s, [] => P s
  | s, a :: as => P s ∧ ∀ t, step s a = some t → Always step P t as

variable {step : σ → α → Option σ}

@[simp] theorem exec_nil (s : σ) : exec step s [] = some s := rfl

@[simp] theorem exec_cons (s : σ) (a : α) (as : List α) :
    exec step s (a :: as) = (step s a).bind (fun t => exec step t as) := rfl

theorem exec_cons_eq_some {s u : σ} {a : α} {as : List α} :
    exec step s (a :: as) = some u ↔ ∃ t, step s a = some t ∧ exec step t as = some u := by
  simp only [exec_cons, Option.bind_eq_some_iff]

theorem exec_append (s : σ) (as bs : List α) :
    exec step s (as ++ bs) = (exec step s as).bind (fun t => exec step t bs) := by
  induction as generalizing s with
  | nil => rfl
  | cons a as ih =>
    simp only [List.cons_append, exec_cons]
    cases step s a with
    | none => rfl
    | some t => simpa using ih t

/-- A run whose labels are all enabled has an end. -/
theorem exists_exec {P : σ → Prop} {s : σ} {as : List α} (h : (exec step s as).isSome)
    (hp : ∀ t, exec step s as = some t → P t) : ∃ t, exec step s as = some t ∧ P t := by
  obtain ⟨t, ht⟩ := Option.isSome_iff_exists.mp h
  exact ⟨t, ht, hp t ht⟩

/-- A map that commutes with every step commutes with every run. -/
theorem exec_map {step' : τ → α → Option τ} {f : σ → τ}
    (h : ∀ s a, step' (f s) a = (step s a).map f) (s : σ) (as : List α) :
    exec step' (f s) as = (exec step s as).map f := by
  induction as generalizing s with
  | nil => rfl
  | cons a as ih =>
    rw [exec_cons, exec_cons, h]
    cases step s a with
    | none => rfl
    | some t => exact ih t

theorem along_cons {C : σ → α → Prop} {s : σ} {a : α} {as : List α} :
    Along step C s (a :: as) ↔ C s a ∧ ∀ t ∈ step s a, Along step C t as := Iff.rfl

/-- Whether a run meets a decidable condition can be computed by following it. -/
instance Along.decidable (C : σ → α → Prop) [∀ s a, Decidable (C s a)] :
    ∀ s as, Decidable (Along step C s as)
  | _, [] => isTrue trivial
  | s, a :: as =>
    match h : step s a with
    | none => decidable_of_iff (C s a) (by simp [along_cons, h])
    | some t =>
      have := Along.decidable C t as
      decidable_of_iff (C s a ∧ Along step C t as) (by simp [along_cons, h])

theorem along_of_forall {C : σ → α → Prop} (h : ∀ s a, C s a) (s : σ) (as : List α) :
    Along step C s as := by
  induction as generalizing s with
  | nil => trivial
  | cons a as ih => exact ⟨h s a, fun t _ => ih t⟩

/-- A condition on the labels alone. -/
theorem along_of_forall_mem {Q : α → Prop} {as : List α} (h : ∀ a ∈ as, Q a) (s : σ) :
    Along step (fun _ a => Q a) s as := by
  induction as generalizing s with
  | nil => trivial
  | cons a as ih =>
    exact ⟨h a (List.mem_cons_self ..),
      fun t _ => ih (fun b hb => h b (List.mem_cons_of_mem a hb)) t⟩

theorem Always.head {P : σ → Prop} {s : σ} {as : List α} (h : Always step P s as) : P s := by
  cases as with
  | nil => exact h
  | cons a as => exact h.1

theorem Always.last {P : σ → Prop} {s t : σ} {as : List α} (h : Always step P s as)
    (he : exec step s as = some t) : P t := by
  induction as generalizing s with
  | nil => exact Option.some.inj he ▸ h
  | cons a as ih =>
    obtain ⟨u, hu, he⟩ := exec_cons_eq_some.mp he
    exact ih (h.2 u hu) he

/-! ## Invariants -/

/-- The conditional invariant rule: what each step that meets `C` preserves holds
throughout every run whose steps all meet `C`. -/
theorem always_of_along {I : σ → Prop} {C : σ → α → Prop}
    (hstep : ∀ s a t, I s → C s a → step s a = some t → I t) {s : σ} {as : List α}
    (hs : I s) (hc : Along step C s as) : Always step I s as := by
  induction as generalizing s with
  | nil => exact hs
  | cons a as ih =>
    exact ⟨hs, fun t ht => ih (hstep s a t hs hc.1 ht) (hc.2 t ht)⟩

/-- The conditional invariant rule for the last state of a run. -/
theorem invariant_of_along {I : σ → Prop} {C : σ → α → Prop}
    (hstep : ∀ s a t, I s → C s a → step s a = some t → I t) {s t : σ} {as : List α}
    (hs : I s) (hc : Along step C s as) (he : exec step s as = some t) : I t :=
  (always_of_along hstep hs hc).last he

/-- The invariant rule. -/
theorem invariant {I : σ → Prop} (hstep : ∀ s a t, I s → step s a = some t → I t)
    {s t : σ} {as : List α} (hs : I s) (he : exec step s as = some t) : I t :=
  invariant_of_along (C := fun _ _ => True) (fun s a t hi _ => hstep s a t hi) hs
    (along_of_forall (fun _ _ => trivial) s as) he

/-- If on the runs that meet an assumption `A` a step keeps `P` exactly when it meets
`C`, and keeps the invariant where it keeps `P`, then `P` holds throughout such a run
exactly when all its steps meet `C`. -/
theorem always_iff_along_of {I P : σ → Prop} {A C : σ → α → Prop}
    (hiff : ∀ s a t, I s → P s → A s a → step s a = some t → (P t ↔ C s a))
    (hinv : ∀ s a t, I s → P s → P t → step s a = some t → I t) {s t : σ} {as : List α}
    (hs : I s) (hp : P s) (ha : Along step A s as) (he : exec step s as = some t) :
    Always step P s as ↔ Along step C s as := by
  induction as generalizing s with
  | nil => exact ⟨fun _ => trivial, fun _ => hp⟩
  | cons a as ih =>
    obtain ⟨u, hu, he⟩ := exec_cons_eq_some.mp he
    constructor
    · intro h
      have hpu := (h.2 u hu).head
      refine ⟨(hiff s a u hs hp ha.1 hu).mp hpu, fun v hv => ?_⟩
      obtain rfl : u = v := Option.some.inj (hu.symm.trans hv)
      exact (ih (hinv s a u hs hp hpu hu) hpu (ha.2 u hu) he).mp (h.2 u hu)
    · intro h
      have hpu := (hiff s a u hs hp ha.1 hu).mpr h.1
      refine ⟨hp, fun v hv => ?_⟩
      obtain rfl : u = v := Option.some.inj (hu.symm.trans hv)
      exact (ih (hinv s a u hs hp hpu hu) hpu (ha.2 u hu) he).mpr (h.2 u hu)

/-- The same under an invariant that every step keeps. -/
theorem always_iff_along {I P : σ → Prop} {C : σ → α → Prop}
    (hinv : ∀ s a t, I s → step s a = some t → I t)
    (hiff : ∀ s a t, I s → P s → step s a = some t → (P t ↔ C s a)) {s t : σ} {as : List α}
    (hs : I s) (hp : P s) (he : exec step s as = some t) :
    Always step P s as ↔ Along step C s as :=
  always_iff_along_of (A := fun _ _ => True) (fun s a t hi hp _ => hiff s a t hi hp)
    (fun s a t hi _ _ => hinv s a t hi) hs hp (along_of_forall (fun _ _ => trivial) s as) he

/-- A property of the end of a run holds throughout, if on the steps that meet `C` it
does not come back once it is lost. -/
theorem always_of_last {I P : σ → Prop} {C : σ → α → Prop}
    (hinv : ∀ s a t, I s → step s a = some t → I t)
    (hback : ∀ s a t, I s → C s a → step s a = some t → P t → P s) {s t : σ} {as : List α}
    (hs : I s) (hc : Along step C s as) (he : exec step s as = some t) (hp : P t) :
    Always step P s as := by
  induction as generalizing s with
  | nil => exact (Option.some.inj he) ▸ hp
  | cons a as ih =>
    obtain ⟨u, hu, he⟩ := exec_cons_eq_some.mp he
    have hall := ih (hinv s a u hs hu) (hc.2 u hu) he
    refine ⟨hback s a u hs hc.1 hu hall.head, fun v hv => ?_⟩
    obtain rfl : u = v := Option.some.inj (hu.symm.trans hv)
    exact hall

/-- If a property that was lost never comes back, it holds at the end of a run
exactly when it holds throughout. -/
theorem always_iff_last {P : σ → Prop} (hback : ∀ s a t, step s a = some t → P t → P s)
    {s t : σ} {as : List α} (he : exec step s as = some t) : Always step P s as ↔ P t :=
  ⟨fun h => h.last he, always_of_last (I := fun _ => True) (C := fun _ _ => True)
    (fun _ _ _ _ _ => trivial) (fun s a t _ _ => hback s a t) trivial
    (along_of_forall (fun _ _ => trivial) s as) he⟩

/-- Under an invariant, a property that holds throughout gives another one. -/
theorem Always.imp {I P Q : σ → Prop} (hinv : ∀ s a t, I s → step s a = some t → I t)
    (h : ∀ s, I s → P s → Q s) {s : σ} {as : List α} (hs : I s) (hp : Always step P s as) :
    Always step Q s as := by
  induction as generalizing s with
  | nil => exact h s hs hp
  | cons a as ih => exact ⟨h s hs hp.1, fun t ht => ih (hinv s a t hs ht) (hp.2 t ht)⟩

/-- What a property of the states says about the steps from them. -/
theorem along_of_always {I P : σ → Prop} {C : σ → α → Prop}
    (hinv : ∀ s a t, I s → step s a = some t → I t) (h : ∀ s a, I s → P s → C s a) {s : σ}
    {as : List α} (hs : I s) (hp : Always step P s as) : Along step C s as := by
  induction as generalizing s with
  | nil => trivial
  | cons a as ih => exact ⟨h s a hs hp.1, fun t ht => ih (hinv s a t hs ht) (hp.2 t ht)⟩

/-- Two conditions that come to the same in the states of an invariant. -/
theorem along_congr {I : σ → Prop} {C D : σ → α → Prop}
    (hinv : ∀ s a t, I s → step s a = some t → I t)
    (h : ∀ s a t, I s → step s a = some t → (C s a ↔ D s a)) {s t : σ} {as : List α} (hs : I s)
    (he : exec step s as = some t) : Along step C s as ↔ Along step D s as := by
  induction as generalizing s with
  | nil => exact Iff.rfl
  | cons a as ih =>
    obtain ⟨u, hu, he⟩ := exec_cons_eq_some.mp he
    rw [along_cons, along_cons, hu]
    simp only [Option.mem_def, Option.some.injEq, forall_eq']
    exact and_congr (h s a u hs hu) (ih (hinv s a u hs hu) he)

/-! ## Runs to a settled state -/

/-- If there is an allowed step that makes a measure smaller as long as `Q` does not hold
yet, then a run of allowed steps leads to a state with `Q`. -/
theorem exists_exec_of_decreasing {I Q : σ → Prop} {L : α → Prop} (μ : σ → ℕ)
    (h : ∀ s, I s → ¬ Q s → ∃ a t, L a ∧ step s a = some t ∧ I t ∧ μ t < μ s) {s : σ} (hs : I s) :
    ∃ as t, (∀ a ∈ as, L a) ∧ exec step s as = some t ∧ I t ∧ Q t := by
  induction hn : μ s using Nat.strong_induction_on generalizing s with
  | h n ih =>
    by_cases hq : Q s
    · exact ⟨[], s, by simp, rfl, hs, hq⟩
    · obtain ⟨a, t, ha, hst, ht, hlt⟩ := h s hs hq
      obtain ⟨as, u, has, he, hu⟩ := ih (μ t) (hn ▸ hlt) ht rfl
      refine ⟨a :: as, u, ?_, exec_cons_eq_some.mpr ⟨t, hst, he⟩, hu⟩
      simpa only [List.forall_mem_cons] using ⟨ha, has⟩

/-- If under an invariant allowed steps keep `P`, `P` excludes `Q`, and without `P` there is
an allowed step nearer to `Q`, then `Q` can be reached by allowed steps exactly where `P`
fails. -/
theorem exists_exec_iff_not_of {I P Q : σ → Prop} {L : α → Prop} (μ : σ → ℕ)
    (hinv : ∀ s a t, I s → step s a = some t → I t)
    (hkeep : ∀ s a t, I s → P s → L a → step s a = some t → P t)
    (hpq : ∀ s, I s → P s → ¬ Q s)
    (hlead : ∀ s, I s → ¬ P s → ¬ Q s → ∃ a t, L a ∧ step s a = some t ∧ ¬ P t ∧ μ t < μ s)
    {s : σ} (hs : I s) :
    (∃ as t, (∀ a ∈ as, L a) ∧ exec step s as = some t ∧ Q t) ↔ ¬ P s := by
  constructor
  · rintro ⟨as, t, has, he, ht⟩ hp
    have hend := invariant_of_along (I := fun s => I s ∧ P s)
      (fun s a t hs ha hst => ⟨hinv s a t hs.1 hst, hkeep s a t hs.1 hs.2 ha hst⟩) ⟨hs, hp⟩
      (along_of_forall_mem has s) he
    exact hpq t hend.1 hend.2 ht
  · intro hp
    have hnear (s : σ) (hs : I s ∧ ¬ P s) (hq : ¬ Q s) :
        ∃ a t, L a ∧ step s a = some t ∧ (I t ∧ ¬ P t) ∧ μ t < μ s := by
      obtain ⟨a, t, ha, hst, ht, hlt⟩ := hlead s hs.1 hs.2 hq
      exact ⟨a, t, ha, hst, ⟨hinv s a t hs.1 hst, ht⟩, hlt⟩
    obtain ⟨as, t, has, he, -, ht⟩ := exists_exec_of_decreasing μ hnear ⟨hs, hp⟩
    exact ⟨as, t, has, he, ht⟩

/-- The same where nothing else has to be known of the states. -/
theorem exists_exec_iff_not {P Q : σ → Prop} {L : α → Prop} (μ : σ → ℕ)
    (hkeep : ∀ s a t, P s → L a → step s a = some t → P t) (hpq : ∀ s, P s → ¬ Q s)
    (hlead : ∀ s, ¬ P s → ¬ Q s → ∃ a t, L a ∧ step s a = some t ∧ ¬ P t ∧ μ t < μ s) {s : σ} :
    (∃ as t, (∀ a ∈ as, L a) ∧ exec step s as = some t ∧ Q t) ↔ ¬ P s :=
  exists_exec_iff_not_of (I := fun _ => True) μ (fun _ _ _ _ _ => trivial)
    (fun s a t _ => hkeep s a t) (fun s _ => hpq s) (fun s _ => hlead s) trivial

/-- Let `P` be what keeps the system from coming to `R` by itself, and `C` say which steps
keep `P`. Then a run stays away from `R` exactly when its steps meet `C`. -/
theorem always_not_iff_along_of {I P R : σ → Prop} {C : σ → α → Prop}
    (hinv : ∀ s a t, I s → step s a = some t → I t) (hr : ∀ s, I s → (R s ↔ ¬ P s))
    (hiff : ∀ s a t, I s → P s → step s a = some t → (P t ↔ C s a)) {s t : σ} {as : List α}
    (hs : I s) (hp : P s) (he : exec step s as = some t) :
    Always step (fun s => ¬ R s) s as ↔ Along step C s as := by
  have hnot (s : σ) (hs : I s) : ¬ R s ↔ P s := (not_congr (hr s hs)).trans not_not
  refine always_iff_along hinv ?_ hs ((hnot s hs).mpr hp) he
  intro s a t hs hp hst
  exact (hnot t (hinv s a t hs hst)).trans (hiff s a t hs ((hnot s hs).mp hp) hst)

/-- Such a run also stays away from the states `Q` in which `R` has happened already. -/
theorem always_not_iff_along {P Q R : σ → Prop} {C : σ → α → Prop} (hr : ∀ s, R s ↔ ¬ P s)
    (hqr : ∀ s, Q s → R s) (hiff : ∀ s a t, P s → step s a = some t → (P t ↔ C s a)) {s t : σ}
    {as : List α} (hs : P s) (he : exec step s as = some t) :
    (Always step (fun s => ¬ R s) s as ↔ Along step C s as) ∧
    (Along step C s as → Always step (fun s => ¬ Q s) s as) := by
  have hmain : Always step (fun s => ¬ R s) s as ↔ Along step C s as :=
    always_not_iff_along_of (I := fun _ => True) (fun _ _ _ _ _ => trivial) (fun s _ => hr s)
      (fun s a t _ => hiff s a t) trivial hs he
  refine ⟨hmain, fun hc => ?_⟩
  exact (hmain.mpr hc).imp (I := fun _ => True) (fun _ _ _ _ _ => trivial)
    (fun s _ hp hq => hp (hqr s hq)) trivial

/-! ## What a run says about its end -/

/-- One of the labels is an `A`, and none after it is a `D`. -/
def Since (A D : α → Prop) (as : List α) : Prop :=
  ∃ l a r, as = l ++ a :: r ∧ A a ∧ ∀ b ∈ r, ¬ D b

theorem not_since_nil (A D : α → Prop) : ¬ Since A D [] := by
  rintro ⟨l, a, r, h, -⟩
  simp at h

theorem since_cons (A D : α → Prop) (a : α) (as : List α) :
    Since A D (a :: as) ↔ Since A D as ∨ A a ∧ ∀ b ∈ as, ¬ D b := by
  constructor
  · rintro ⟨l, b, r, h, hb, hr⟩
    cases l with
    | nil =>
      simp only [List.nil_append, List.cons.injEq] at h
      obtain ⟨rfl, rfl⟩ := h
      exact Or.inr ⟨hb, hr⟩
    | cons c l =>
      simp only [List.cons_append, List.cons.injEq] at h
      exact Or.inl ⟨l, b, r, h.2, hb, hr⟩
  · rintro (⟨l, b, r, rfl, hb, hr⟩ | ⟨ha, hr⟩)
    · exact ⟨a :: l, b, r, rfl, hb, hr⟩
    · exact ⟨[], a, as, rfl, ha, hr⟩

/-- A property that each `A` brings about and each other `D` ends holds at the end of
a run if an `A` has no `D` behind it, or if it held before and there is no `D`. The
number that comes with the invariant is that of the steps left. -/
theorem since_of_step {I : ℕ → σ → Prop} {P : σ → Prop} {A D : α → Prop}
    (hinv : ∀ n s a t, I (n + 1) s → step s a = some t → I n t)
    (hstep : ∀ n s a t, I (n + 1) s → step s a = some t → (P t ↔ A a ∨ ¬ D a ∧ P s))
    {s t : σ} {as : List α} (hs : I as.length s) (h : exec step s as = some t) :
    P t ↔ Since A D as ∨ (∀ a ∈ as, ¬ D a) ∧ P s := by
  induction as generalizing s with
  | nil =>
    cases h
    simp [not_since_nil]
  | cons a as ih =>
    obtain ⟨u, hu, h⟩ := exec_cons_eq_some.mp h
    rw [ih (hinv _ _ _ _ hs hu) h, hstep _ _ _ _ hs hu, since_cons]
    simp only [List.forall_mem_cons]
    tauto

/-! ## Sequences of labels between conditions -/

theorem along_append {C : σ → α → Prop} {s : σ} {as bs : List α} :
    Along step C s (as ++ bs) ↔
      Along step C s as ∧ ∀ t, exec step s as = some t → Along step C t bs := by
  induction as generalizing s with
  | nil => simp [Along]
  | cons a as ih =>
    simp only [List.cons_append, Along, ih, exec_cons_eq_some]
    constructor
    · rintro ⟨ha, h⟩
      exact ⟨⟨ha, fun t ht => (h t ht).1⟩, fun u ⟨t, ht, hu⟩ => (h t ht).2 u hu⟩
    · rintro ⟨⟨ha, h⟩, hb⟩
      exact ⟨ha, fun t ht => ⟨h t ht, fun u hu => hb u ⟨t, ht, hu⟩⟩⟩

/-- From a state with `P` the labels are enabled one after another, as long as the steps
meet `C`, and lead to a state with `Q`. -/
def Carries (step : σ → α → Option σ) (C : σ → α → Prop) (P : σ → Prop) (as : List α)
    (Q : σ → Prop) : Prop :=
  ∀ s, P s → Along step C s as → ∃ t, exec step s as = some t ∧ Q t

section Carries

variable {C : σ → α → Prop} {P Q R : σ → Prop} {as bs : List α}

theorem carries_nil (h : ∀ s, P s → Q s) : Carries step C P [] Q :=
  fun s hs _ => ⟨s, rfl, h s hs⟩

theorem carries_one {a : α} (h : ∀ s, P s → C s a → ∃ t, step s a = some t ∧ Q t) :
    Carries step C P [a] Q := by
  intro s hs hc
  obtain ⟨t, ht, hq⟩ := h s hs hc.1
  exact ⟨t, exec_cons_eq_some.mpr ⟨t, ht, rfl⟩, hq⟩

theorem Carries.append (h : Carries step C P as Q) (h' : Carries step C Q bs R) :
    Carries step C P (as ++ bs) R := by
  intro s hs hc
  obtain ⟨hc, hrest⟩ := along_append.mp hc
  obtain ⟨t, ht, hq⟩ := h s hs hc
  obtain ⟨u, hu, hr⟩ := h' t hq (hrest t ht)
  exact ⟨u, by rw [exec_append, ht, Option.bind_some, hu], hr⟩

theorem Carries.imp (h : Carries step C P as Q) (hp : ∀ s, R s → P s) : Carries step C R as Q :=
  fun s hs => h s (hp s hs)

theorem Carries.mono (h : Carries step C P as Q) (hq : ∀ s, Q s → R s) :
    Carries step C P as R := by
  intro s hs hc
  obtain ⟨t, ht, hqt⟩ := h s hs hc
  exact ⟨t, ht, hq t hqt⟩

end Carries

/-! ## One part of a system -/

/-- A part that only the labels with `p` move, and each as the part would move by itself,
has made the run of these labels. -/
theorem exec_part {step' : τ → α → Option τ} {f : σ → τ} {p : α → Prop} [DecidablePred p]
    {I : σ → Prop} {C : σ → α → Prop}
    (hinv : ∀ s a t, I s → C s a → step s a = some t → I t)
    (hmove : ∀ s a t, I s → C s a → step s a = some t → p a → step' (f s) a = some (f t))
    (hstay : ∀ s a t, I s → C s a → step s a = some t → ¬ p a → f t = f s)
    {s t : σ} {as : List α} (hs : I s) (hc : Along step C s as) (he : exec step s as = some t) :
    exec step' (f s) (as.filter p) = some (f t) := by
  induction as generalizing s with
  | nil => exact congrArg _ (congrArg f (Option.some.inj he))
  | cons a as ih =>
    obtain ⟨u, hu, he⟩ := exec_cons_eq_some.mp he
    have hrest := ih (hinv s a u hs hc.1 hu) (hc.2 u hu) he
    by_cases hp : p a
    · rw [List.filter_cons_of_pos (by simpa using hp), exec_cons,
        hmove s a u hs hc.1 hu hp]
      exact hrest
    · rw [List.filter_cons_of_neg (by simpa using hp), ← hstay s a u hs hc.1 hu hp]
      exact hrest

end Xiaoxin.Transition
