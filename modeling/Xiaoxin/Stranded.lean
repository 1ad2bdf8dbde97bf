import Xiaoxin.InfoTransferStation

/-!
# Results left behind in the transfer station

A worker blocks before it looks at the set, and takes one result each time it wakes.
So what can still be processed without another push is as much as there are workers
on their way to the set, and a push adds to that only if it finds a worker to notify.
-/
namespace Xiaoxin
open Transition
namespace InfoTransferStation

variable {s t : InfoTransferStation} {i : ℕ} {v z : StationWorker} {e : Event}

/-- There are results, and all workers are blocked without a notification. -/
def Stranded (s : InfoTransferStation) : Prop :=
  s.dataSet ≠ ∅ ∧ ∀ v ∈ s.workers, v = .waiting

/-- A step of a worker that nobody else has to bring about. -/
def Own : Event → Prop
  | .wait _ => True
  | .wake _ => True
  | .getData _ _ => True
  | .doData _ => True
  | .release _ => True
  | _ => False

/-- The workers alone can come to leave a result behind. -/
def Strands (s : InfoTransferStation) : Prop :=
  ∃ events t, (∀ e ∈ events, Own e) ∧ exec step s events = some t ∧ t.Stranded

/-- The workers that will look at the set before they block again. -/
def pending (s : InfoTransferStation) : ℕ := s.workers.countP StationWorker.pending

/-- A push finds a blocked worker to notify, or more workers on their way than there are
results, or its result in the set already. -/
def Heard (s : InfoTransferStation) (e : Event) : Prop :=
  ∀ d j, e = .push d j → d ∈ s.dataSet ∨ .waiting ∈ s.workers ∨ s.dataSet.card < s.pending

theorem pending_eq (hi : s.workers[i]? = some v) :
    s.pending =
      (if v.pending then 1 else 0) + (s.workers.eraseIdx i).countP StationWorker.pending :=
  Threads.countP_eq hi _

theorem pending_move (hi : s.workers[i]? = some v) (ht : t.workers = s.workers.set i z) :
    t.pending =
      (if z.pending then 1 else 0) + (s.workers.eraseIdx i).countP StationWorker.pending := by
  rw [pending, ht, Threads.countP_set_eq hi]

/-- A worker looks at the set: it takes a result, or there is none. -/
theorem card_le_after_take (hs : s.dataSet.card ≤ s.pending) (hi : s.workers[i]? = some .awake)
    (ht : t.workers = s.workers.set i z) (hz : z.pending = false)
    (hset : s.dataSet.card = 0 ∧ t.dataSet = s.dataSet ∨ t.dataSet.card + 1 = s.dataSet.card) :
    t.dataSet.card ≤ t.pending := by
  have hold := pending_eq hi
  have hnew := pending_move hi ht
  rw [hz, if_neg Bool.false_ne_true] at hnew
  rw [show StationWorker.awake.pending = true from rfl, if_pos rfl] at hold
  rcases hset with ⟨hzero, heq⟩ | hcard
  · rw [heq, hzero]
    exact Nat.zero_le _
  · omega

/-- Other moves leave the set alone and do not take a worker off its way. -/
theorem card_le_after_move (hs : s.dataSet.card ≤ s.pending) (hi : s.workers[i]? = some v)
    (ht : t.workers = s.workers.set i z) (hz : v.pending = true → z.pending = true)
    (hset : t.dataSet = s.dataSet) : t.dataSet.card ≤ t.pending := by
  have hold := pending_eq hi
  have hnew := pending_move hi ht
  rw [hset]
  split_ifs at hold with hv
  · rw [hz hv, if_pos rfl] at hnew
    omega
  · omega

/-- A push that is heard adds a worker to those on their way, or needs none. -/
theorem push_card_le_iff (hs : s.dataSet.card ≤ s.pending) {d j : Option ℕ}
    (h : s.step (.push d j) = some t) : t.dataSet.card ≤ t.pending ↔ s.Heard (.push d j) := by
  have hheard : s.Heard (.push d j) ↔
      d ∈ s.dataSet ∨ .waiting ∈ s.workers ∨ s.dataSet.card < s.pending := by
    constructor
    · exact fun h => h d j rfl
    · rintro h d' j' he
      cases he
      exact h
  rw [hheard]
  cases step_cases h with
  | unheard d hw =>
    have hpend : (s.insertData d).pending = s.pending := rfl
    rw [hpend]
    by_cases hd : d ∈ s.dataSet
    · have hset : (s.insertData d).dataSet = s.dataSet := Finset.insert_eq_of_mem hd
      rw [hset]
      exact iff_of_true hs (.inl hd)
    · have hcard : (s.insertData d).dataSet.card = s.dataSet.card + 1 :=
        Finset.card_insert_of_notMem hd
      rw [hcard]
      simp only [hd, hw, false_or]
      exact Nat.succ_le_iff
  | heard d j hj =>
    have hold := pending_eq hj
    have hnew := pending_move (t := (s.insertData d).move j .notified) hj rfl
    have hle : (insert d s.dataSet).card ≤ s.dataSet.card + 1 := Finset.card_insert_le d _
    refine iff_of_true ?_ (.inr (.inl (List.mem_of_getElem? hj)))
    rw [show StationWorker.waiting.pending = false from rfl, if_neg Bool.false_ne_true] at hold
    rw [show StationWorker.notified.pending = true from rfl, if_pos rfl] at hnew
    show (insert d s.dataSet).card ≤ _
    omega

theorem step_card_le (hs : s.dataSet.card ≤ s.pending) (he : ∀ d j, e ≠ .push d j)
    (h : s.step e = some t) : t.dataSet.card ≤ t.pending := by
  cases step_cases h with
  | gotNull => exact hs
  | got a ha => exact hs
  | unheard d hw => exact absurd rfl (he d none)
  | heard d j hj => exact absurd rfl (he d (some j))
  | waited i hi => exact card_le_after_move hs hi rfl (by simp [StationWorker.pending]) rfl
  | woke i hi => exact card_le_after_move hs hi rfl (by simp [StationWorker.pending]) rfl
  | wokeAlone i hi => exact card_le_after_move hs hi rfl (by simp [StationWorker.pending]) rfl
  | foundEmpty i d hi hd =>
    exact card_le_after_take hs hi rfl rfl (.inl ⟨by rw [hd]; rfl, rfl⟩)
  | skipped i hi hd =>
    exact card_le_after_take hs hi rfl rfl (.inr (Finset.card_erase_add_one hd))
  | taken i a hi hd =>
    exact card_le_after_take hs hi rfl rfl (.inr (Finset.card_erase_add_one hd))
  | did i a hi => exact card_le_after_move hs hi rfl (by simp [StationWorker.pending]) rfl
  | freed i a hi => exact card_le_after_move hs hi rfl (by simp [StationWorker.pending]) rfl

/-- With more results than workers on their way there is a step that uses up one of
each, or brings a worker nearer to its wait. -/
theorem exists_step_nearer (hs : s.pending < s.dataSet.card)
    (hw : ¬ ∀ v ∈ s.workers, v = .waiting) :
    ∃ e t, Own e ∧ s.step e = some t ∧ t.pending < t.dataSet.card ∧
      (t.workers.map StationWorker.rank).sum < (s.workers.map StationWorker.rank).sum := by
  push Not at hw
  obtain ⟨v, hv, hne⟩ := hw
  obtain ⟨i, hi⟩ := List.mem_iff_getElem?.mp hv
  have hold := pending_eq hi
  have hkeep {t : InfoTransferStation} {z : StationWorker} (ht : t.workers = s.workers.set i z)
      (hset : t.dataSet = s.dataSet) (hz : z.pending = v.pending) : t.pending < t.dataSet.card := by
    have hnew := pending_move hi ht
    rw [hset]
    rw [hz] at hnew
    omega
  cases v with
  | waiting => exact absurd rfl hne
  | testing =>
    exact ⟨.wait i, s.move i .waiting, trivial, by simp [step, hi], hkeep rfl rfl rfl,
      Threads.sum_set_lt hi (by decide)⟩
  | notified =>
    exact ⟨.wake i, s.move i .awake, trivial, by simp [step, hi], hkeep rfl rfl rfl,
      Threads.sum_set_lt hi (by decide)⟩
  | took a =>
    exact ⟨.doData i, s.doData i a, trivial, by simp [step, hi], hkeep rfl rfl rfl,
      Threads.sum_set_lt hi (by simp [StationWorker.rank])⟩
  | done a =>
    exact ⟨.release i, s.release i a, trivial, by simp [step, hi], hkeep rfl rfl rfl,
      Threads.sum_set_lt hi (by simp [StationWorker.rank])⟩
  | awake =>
    obtain ⟨d, hd⟩ := Finset.card_pos.mp (Nat.zero_lt_of_lt hs)
    have hcard : s.dataSet.card ≠ 0 := fun h0 => by simp [h0] at hs
    have herase := Finset.card_erase_add_one hd
    have hnew := pending_move (t := { s.move i (d.elim .testing .took) with
      dataSet := s.dataSet.erase d }) hi rfl
    have hz : (d.elim StationWorker.testing .took).pending = false := by cases d <;> rfl
    rw [hz, if_neg Bool.false_ne_true] at hnew
    rw [show StationWorker.awake.pending = true from rfl, if_pos rfl] at hold
    refine ⟨.getData i d, { s.move i (d.elim .testing .took) with dataSet := s.dataSet.erase d },
      trivial, by simp [step, hi, hd, takeData, hcard], ?_, Threads.sum_set_lt hi ?_⟩
    · show _ < (s.dataSet.erase d).card
      omega
    · cases d <;> simp [StationWorker.rank]

theorem Stranded.pending_lt (h : s.Stranded) : s.pending < s.dataSet.card := by
  have hzero : s.pending = 0 := List.countP_eq_zero.mpr fun v hv => by rw [h.2 v hv]; decide
  rw [hzero]
  exact Finset.card_pos.mpr (Finset.nonempty_iff_ne_empty.mpr h.1)

/-- The workers alone can leave a result behind exactly when there are more results
than workers on their way to the set. -/
theorem strands_iff : s.Strands ↔ s.pending < s.dataSet.card := by
  rw [← not_le]
  refine exists_exec_iff_not (P := fun s : InfoTransferStation => s.dataSet.card ≤ s.pending)
    (fun s => (s.workers.map StationWorker.rank).sum) ?_ ?_ ?_
  · intro s e t hs ho hst
    exact step_card_le hs (by rintro d j rfl; exact ho) hst
  · intro s hs hstr
    exact absurd hstr.pending_lt (not_lt.mpr hs)
  · intro s hs hstr
    rw [not_le] at hs
    have hset : s.dataSet ≠ ∅ := by
      rintro h0
      rw [h0] at hs
      cases hs
    obtain ⟨e, t, ho, hst, ht, hlt⟩ := exists_step_nearer hs (fun hw => hstr ⟨hset, hw⟩)
    exact ⟨e, t, ho, hst, not_le.mpr ht, hlt⟩

theorem Stranded.strands (h : s.Stranded) : s.Strands := ⟨[], s, by simp, rfl, h⟩

/-- A step keeps enough workers on their way exactly when it is heard. -/
theorem step_card_le_iff (hs : s.dataSet.card ≤ s.pending) (h : s.step e = some t) :
    t.dataSet.card ≤ t.pending ↔ s.Heard e := by
  by_cases he : ∃ d j, e = .push d j
  · obtain ⟨d, j, rfl⟩ := he
    exact push_card_le_iff hs h
  · push Not at he
    exact iff_of_true (step_card_le hs he h) (fun d j hd => absurd hd (he d j))

/-- In all states of a run every result can still be processed without another push,
exactly when each push is heard; then no state of the run is stranded. -/
theorem noneStranded_iff_heard (n : ℕ) (events : List Event) (s : InfoTransferStation)
    (h : exec step (start n) events = some s) :
    (Always step (fun s => ¬ s.Strands) (start n) events ↔ Along step Heard (start n) events) ∧
    (Along step Heard (start n) events →
      Always step (fun s => ¬ s.Stranded) (start n) events) := by
  refine always_not_iff_along (P := fun s => s.dataSet.card ≤ s.pending) ?_
    (fun s hs => hs.strands) (fun s e t hs hst => step_card_le_iff hs hst) ?_ h
  · intro s
    rw [strands_iff, not_le]
  · simp [start]

/-- Two results for two workers that both wait. -/
theorem noneStranded_iff_heard_two : ∃ s,
    exec step (start 2) [.wait 0, .wait 1, .push (some 1) (some 0), .push (some 2) (some 1),
      .wake 1, .getData 1 (some 1)] = some s ∧
    (Always step (fun s => ¬ s.Strands) (start 2) [.wait 0, .wait 1, .push (some 1) (some 0),
      .push (some 2) (some 1), .wake 1, .getData 1 (some 1)] ↔
    Along step Heard (start 2) [.wait 0, .wait 1, .push (some 1) (some 0),
      .push (some 2) (some 1), .wake 1, .getData 1 (some 1)]) ∧
    (Along step Heard (start 2) [.wait 0, .wait 1, .push (some 1) (some 0),
      .push (some 2) (some 1), .wake 1, .getData 1 (some 1)] →
    Always step (fun s => ¬ s.Stranded) (start 2) [.wait 0, .wait 1, .push (some 1) (some 0),
      .push (some 2) (some 1), .wake 1, .getData 1 (some 1)]) := by
  apply exists_exec (by decide +kernel)
  intro s hs
  exact noneStranded_iff_heard 2 _ s hs

/-- A second result arrives while the only worker is busy with the first. The worker
then waits for a notification that has already been given. -/
theorem push_while_busy_strands : ∃ s,
    exec step (start 1) [.get (some 1), .get (some 2), .wait 0, .push (some 1) (some 0), .wake 0,
      .getData 0 (some 1), .push (some 2) none, .doData 0, .release 0, .wait 0] = some s ∧
    s.dataSet = {some 2} ∧ s.workers = [.waiting] ∧ s.Stranded := by
  have hrun : (exec step (start 1) [.get (some 1), .get (some 2), .wait 0, .push (some 1) (some 0),
      .wake 0, .getData 0 (some 1), .push (some 2) none, .doData 0, .release 0, .wait 0]).map
      (fun s => (s.dataSet, s.workers)) = some ({some 2}, [.waiting]) := by decide +kernel
  obtain ⟨s, hs, hv⟩ := Option.map_eq_some_iff.mp hrun
  obtain ⟨hset, hworkers⟩ : s.dataSet = {some 2} ∧ s.workers = [.waiting] := by simpa using hv
  exact ⟨s, hs, hset, hworkers, by simp [hset], by simp [hworkers]⟩

end InfoTransferStation
end Xiaoxin
