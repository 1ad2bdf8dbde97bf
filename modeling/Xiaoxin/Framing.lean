import Mathlib.Tactic

/-!
# Framing a stream that arrives in pieces

A framer looks at the symbols buffered so far and decides: wait for more, cut a
frame off the front and go on behind it, cut a last frame off and end, or end
with nothing. A decision other than waiting must not change when more symbols
arrive; that is the only law needed for the frames of a stream to be independent
of the pieces in which it arrives.

`capped` bounds the buffer. A framer that would have to wait with a full buffer
hands the full buffer on as a last frame instead.
-/
namespace Xiaoxin.Framing

variable {α : Type*}

inductive Verdict
  /-- The buffered symbols do not decide yet. -/
  | more
  /-- The first `k` symbols are a frame; framing goes on behind it. -/
  | frame (k : ℕ)
  /-- The first `k` symbols are handed on and framing ends. -/
  | last (k : ℕ)
  /-- Framing ends and nothing is handed on. -/
  | stop
  deriving DecidableEq, Repr

structure Framer (α : Type*) where
  verdict : List α → Verdict
  frame_bounds : ∀ {w k}, verdict w = .frame k → 0 < k ∧ k ≤ w.length
  last_bound : ∀ {w k}, verdict w = .last k → k ≤ w.length
  stable : ∀ {w} (x : List α), verdict w ≠ .more → verdict (w ++ x) = verdict w

/-- Where framing stands after the buffered symbols have been worked off. -/
inductive Outcome (α : Type*)
  | waiting (rest : List α)
  | ended
  deriving DecidableEq, Repr

structure Emission (α : Type*) where
  frames : List (List α)
  outcome : Outcome α
  deriving DecidableEq, Repr

/-- Put frames that were handed on earlier in front. -/
def Emission.after (e : Emission α) (earlier : List (List α)) : Emission α :=
  ⟨earlier ++ e.frames, e.outcome⟩

@[simp] theorem Emission.after_nil (e : Emission α) : e.after [] = e := rfl

@[simp] theorem Emission.after_after (e : Emission α) (fs gs : List (List α)) :
    (e.after fs).after gs = e.after (gs ++ fs) := by
  simp [Emission.after]

@[simp] theorem Emission.after_frames (e : Emission α) (fs : List (List α)) :
    (e.after fs).frames = fs ++ e.frames := rfl

@[simp] theorem Emission.after_outcome (e : Emission α) (fs : List (List α)) :
    (e.after fs).outcome = e.outcome := rfl

namespace Framer

variable (F : Framer α)

/-- Work off the buffered symbols: cut frames until the verdict is to wait or to end. -/
def drain (w : List α) : Emission α :=
  match _h : F.verdict w with
  | .more => ⟨[], .waiting w⟩
  | .stop => ⟨[], .ended⟩
  | .last k => ⟨[w.take k], .ended⟩
  | .frame k => (drain (w.drop k)).after [w.take k]
termination_by w.length
decreasing_by
  have := F.frame_bounds _h
  simp only [List.length_drop]
  omega

theorem drain_more {w : List α} (h : F.verdict w = .more) : F.drain w = ⟨[], .waiting w⟩ := by
  rw [drain]
  split <;> simp_all

theorem drain_stop {w : List α} (h : F.verdict w = .stop) : F.drain w = ⟨[], .ended⟩ := by
  rw [drain]
  split <;> simp_all

theorem drain_last {w : List α} {k : ℕ} (h : F.verdict w = .last k) :
    F.drain w = ⟨[w.take k], .ended⟩ := by
  rw [drain]
  split <;> simp_all

theorem drain_frame {w : List α} {k : ℕ} (h : F.verdict w = .frame k) :
    F.drain w = (F.drain (w.drop k)).after [w.take k] := by
  rw [drain]
  split <;> simp_all

/-- A buffer on which framing waits is one on which the verdict is to wait. -/
theorem verdict_of_waiting {w r : List α} (h : (F.drain w).outcome = .waiting r) :
    F.verdict r = .more := by
  induction w using drain.induct F with
  | case1 w hv =>
    rw [F.drain_more hv] at h
    simp only [Outcome.waiting.injEq] at h
    exact h ▸ hv
  | case2 w hv => rw [F.drain_stop hv] at h; cases h
  | case3 w k hv => rw [F.drain_last hv] at h; cases h
  | case4 w k hv ih =>
    rw [F.drain_frame hv] at h
    exact ih h

/-- What framing waits on is no longer than what it was given. -/
theorem length_le_of_waiting {w r : List α} (h : (F.drain w).outcome = .waiting r) :
    r.length ≤ w.length := by
  induction w using drain.induct F with
  | case1 w hv =>
    rw [F.drain_more hv] at h
    simp only [Outcome.waiting.injEq] at h
    exact h ▸ le_rfl
  | case2 w hv => rw [F.drain_stop hv] at h; cases h
  | case3 w k hv => rw [F.drain_last hv] at h; cases h
  | case4 w k hv ih =>
    rw [F.drain_frame hv] at h
    have := ih h
    simp only [List.length_drop] at this
    omega

/-- Nothing is lost: the frames and what is waited on make up what framing was given. -/
theorem flatten_frames_append {w r : List α} (h : (F.drain w).outcome = .waiting r) :
    (F.drain w).frames.flatten ++ r = w := by
  induction w using drain.induct F with
  | case1 w hv =>
    rw [F.drain_more hv] at h ⊢
    simpa using (Outcome.waiting.inj h).symm
  | case2 w hv => rw [F.drain_stop hv] at h; cases h
  | case3 w k hv => rw [F.drain_last hv] at h; cases h
  | case4 w k hv ih =>
    rw [F.drain_frame hv] at h ⊢
    rw [Emission.after_frames, List.singleton_append, List.flatten_cons, List.append_assoc, ih h,
      List.take_append_drop]

/-- Go on with more symbols from where an emission stands. -/
def resume (e : Emission α) (x : List α) : Emission α :=
  match e.outcome with
  | .ended => e
  | .waiting r => (F.drain (r ++ x)).after e.frames

theorem resume_after (e : Emission α) (fs : List (List α)) (x : List α) :
    F.resume (e.after fs) x = (F.resume e x).after fs := by
  unfold resume
  simp only [Emission.after_outcome, Emission.after_frames]
  cases e.outcome <;> simp

/-- The incremental law: working off a longer stream is working off a beginning of
it and then going on with the remainder. -/
theorem drain_append (w x : List α) : F.drain (w ++ x) = F.resume (F.drain w) x := by
  induction w using drain.induct F with
  | case1 w hv => rw [F.drain_more hv]; simp [resume]
  | case2 w hv =>
    rw [F.drain_stop hv, F.drain_stop (by rw [F.stable x (by simp [hv]), hv])]
    rfl
  | case3 w k hv =>
    rw [F.drain_last hv, F.drain_last (k := k) (by rw [F.stable x (by simp [hv]), hv])]
    rw [List.take_append_of_le_length (F.last_bound hv)]
    rfl
  | case4 w k hv ih =>
    have hk := (F.frame_bounds hv).2
    rw [F.drain_frame hv, F.drain_frame (k := k) (by rw [F.stable x (by simp [hv]), hv])]
    rw [List.take_append_of_le_length hk, List.drop_append_of_le_length hk, ih, resume_after]

/-- Frames that each announce exactly their own length come out one by one. -/
theorem drain_flatten {fs : List (List α)} (h : ∀ f ∈ fs, F.verdict f = .frame f.length)
    (rest : List α) : F.drain (fs.flatten ++ rest) = (F.drain rest).after fs := by
  induction fs with
  | nil => simp
  | cons f fs ih =>
    have hf := h f (List.mem_cons_self ..)
    have hv : F.verdict (f ++ (fs.flatten ++ rest)) = .frame f.length := by
      rw [F.stable _ (by simp [hf]), hf]
    rw [List.flatten_cons, List.append_assoc, F.drain_frame hv]
    simp [ih (fun g hg => h g (List.mem_cons_of_mem f hg))]

/-! ## A bounded buffer -/

/-- The framer with a buffer of `cap` symbols. -/
def capped (cap : ℕ) : Framer α where
  verdict w :=
    match F.verdict (w.take cap) with
    | .more => if cap ≤ w.length then .last cap else .more
    | v => v
  frame_bounds {w k} h := by
    have hb : F.verdict (w.take cap) = .frame k := by
      revert h
      split
      · split <;> simp
      · exact id
    have := F.frame_bounds hb
    simp only [List.length_take] at this
    omega
  last_bound {w k} h := by
    revert h
    split
    · split
      · rename_i hc
        intro hk
        cases hk
        exact hc
      · simp
    · intro hb
      have := F.last_bound hb
      simp only [List.length_take] at this
      omega
  stable {w} x h := by
    have htake : (w ++ x).take cap = w.take cap ++ x.take (cap - w.length) := by
      rw [List.take_append]
    cases hv : F.verdict (w.take cap) with
    | more =>
      have hc : cap ≤ w.length := by
        by_contra hc
        simp [hv, hc] at h
      have hw : (w ++ x).take cap = w.take cap := by
        rw [htake, Nat.sub_eq_zero_of_le hc]
        simp
      have hc' : cap ≤ (w ++ x).length := by simp only [List.length_append]; omega
      simp only [hw, hv, if_pos hc, if_pos hc']
    | frame k => rw [htake, F.stable _ (by simp [hv])]; simp [hv]
    | last k => rw [htake, F.stable _ (by simp [hv])]; simp [hv]
    | stop => rw [htake, F.stable _ (by simp [hv])]; simp [hv]

variable {cap : ℕ} {w : List α}

theorem capped_verdict_frame {k : ℕ} :
    (F.capped cap).verdict w = .frame k ↔ F.verdict (w.take cap) = .frame k := by
  simp only [capped]
  cases F.verdict (w.take cap) with
  | more => simp only [reduceCtorEq, iff_false]; split_ifs <;> simp
  | _ => rfl

theorem capped_verdict_stop :
    (F.capped cap).verdict w = .stop ↔ F.verdict (w.take cap) = .stop := by
  simp only [capped]
  cases F.verdict (w.take cap) with
  | more => simp only [reduceCtorEq, iff_false]; split_ifs <;> simp
  | _ => rfl

theorem capped_verdict_last {k : ℕ} :
    (F.capped cap).verdict w = .last k ↔ F.verdict (w.take cap) = .last k ∨
      (F.verdict (w.take cap) = .more ∧ cap ≤ w.length ∧ k = cap) := by
  simp only [capped]
  cases F.verdict (w.take cap) with
  | more =>
    split_ifs with hc
    · simp [hc, eq_comm]
    · simp [hc]
  | _ => simp

theorem capped_verdict_of_ne_more (hw : w.length ≤ cap) (h : F.verdict w ≠ .more) :
    (F.capped cap).verdict w = F.verdict w := by
  simp only [capped, List.take_of_length_le hw]

theorem capped_verdict_more :
    (F.capped cap).verdict w = .more ↔ F.verdict w = .more ∧ w.length < cap := by
  simp only [capped]
  constructor
  · intro h
    cases hv : F.verdict (w.take cap) with
    | more =>
      simp only [hv] at h
      split_ifs at h with hc
      rw [List.take_of_length_le (by omega)] at hv
      exact ⟨hv, by omega⟩
    | _ => simp [hv] at h
  · rintro ⟨hv, hw⟩
    rw [List.take_of_length_le hw.le, hv]
    exact if_neg (by omega)

theorem capped_verdict_full (hw : w.length = cap) (h : F.verdict w = .more) :
    (F.capped cap).verdict w = .last cap :=
  F.capped_verdict_last.mpr (.inr ⟨by rw [List.take_of_length_le hw.le, h], hw.ge, rfl⟩)

/-- While the buffer holds all there is, the bound does not show: the bounded framer
goes on from where the unbounded one stands. -/
theorem capped_drain_append (hw : w.length ≤ cap) (x : List α) :
    (F.capped cap).drain (w ++ x) = (F.capped cap).resume (F.drain w) x := by
  induction w using drain.induct F with
  | case1 w hv => rw [F.drain_more hv]; simp [resume]
  | case2 w hv =>
    have hc : (F.capped cap).verdict w = .stop := by
      rw [F.capped_verdict_of_ne_more hw (by simp [hv]), hv]
    rw [drain_append, drain_stop _ hc, F.drain_stop hv]
  | case3 w k hv =>
    have hc : (F.capped cap).verdict w = .last k := by
      rw [F.capped_verdict_of_ne_more hw (by simp [hv]), hv]
    rw [drain_append, drain_last _ hc, F.drain_last hv]
  | case4 w k hv ih =>
    have hk := (F.frame_bounds hv).2
    have hc : (F.capped cap).verdict (w ++ x) = .frame k := by
      rw [(F.capped cap).stable x] <;> rw [F.capped_verdict_of_ne_more hw (by simp [hv]), hv]
      simp
    rw [drain_frame _ hc, F.drain_frame hv, List.take_append_of_le_length hk,
      List.drop_append_of_le_length hk, resume_after,
      ih (by simp only [List.length_drop]; omega)]

end Framer

end Xiaoxin.Framing
