import Xiaoxin.InfoTransferStation

/-!
# Who has an object of the transfer station

The database layer pushes an object that it got at most once before it is released.
Then an object that was pushed and is not released yet is in the set or in the hands
of one worker, never both, and its address means this object only. What the workers
did with the objects so far follows: `DoData` once, and after it `Release` once.
-/
namespace Xiaoxin
open Transition
namespace InfoTransferStation

variable {s t : InfoTransferStation} {i a x : ℕ} {v z : StationWorker} {e : Event}

/-- What is pushed is an object that `Get` returned, that is not released and that was
not pushed before. -/
def PushesOnce (s : InfoTransferStation) (e : Event) : Prop :=
  ∀ d j, e = .push d j → ∃ x, s.objectAt d = some x ∧ x ∉ s.pushed

instance (s : InfoTransferStation) (e : Event) : Decidable (s.PushesOnce e) :=
  match e with
  | .push d _ => decidable_of_iff ((s.objectAt d).any (fun x => decide (x ∉ s.pushed)) = true)
      (by simp [PushesOnce, Option.any_eq_true])
  | .get _ | .wait _ | .wake _ | .spurious _ | .getData _ _ | .doData _ | .release _ =>
    isTrue (by simp [PushesOnce])

/-- The addresses that the workers have in hand. -/
def cells (s : InfoTransferStation) : List ℕ := s.workers.filterMap StationWorker.data

/-- The set and the workers' hands are apart, and hold objects that were pushed. -/
structure Exclusive (s : InfoTransferStation) : Prop where
  noNull : none ∉ s.dataSet
  apart : s.cells.Nodup
  notInSet : ∀ a ∈ s.cells, some a ∉ s.dataSet
  live : ∀ a, some a ∈ s.dataSet ∨ a ∈ s.cells → ∃ x, s.objects a = some x ∧ x ∈ s.pushed
  unique : ∀ a b x, s.objects a = some x → s.objects b = some x → a = b
  old : ∀ a x, s.objects a = some x → x < s.made
  pushedOld : ∀ x ∈ s.pushed, x < s.made

/-- What has been done to the objects. -/
structure History (s : InfoTransferStation) : Prop where
  givenOnce : (s.given.map Prod.fst).Nodup
  given : ∀ g ∈ s.given, g.1 ∈ s.pushed ∧
    (g ∈ s.released ∨ ∃ a, s.objects a = some g.1 ∧ s.workers[g.2]? = some (.done a))
  releasedOnce : (s.released.map Prod.fst).Nodup
  released : ∀ r ∈ s.released, r ∈ s.given ∧ ∀ a, s.objects a ≠ some r.1
  done : ∀ i a, s.workers[i]? = some (.done a) → ∃ x, s.objects a = some x ∧ (x, i) ∈ s.given

theorem start_exclusive (n : ℕ) : (start n).Exclusive := by
  have hcells : (start n).cells = [] := List.filterMap_replicate_of_none rfl
  refine ⟨by simp [start], by simp [hcells], by simp [hcells], fun a ha => ?_, by simp [start],
    by simp [start], by simp [start]⟩
  rw [hcells] at ha
  simp [start] at ha

theorem start_history (n : ℕ) : (start n).History := by
  refine ⟨by simp [start], by simp [start], by simp [start], by simp [start], fun i a hi => ?_⟩
  obtain ⟨-, h⟩ := List.mem_replicate.mp (List.mem_of_getElem? hi)
  cases h

theorem cells_perm (hi : s.workers[i]? = some v) :
    s.cells.Perm (v.data.toList ++ (s.workers.eraseIdx i).filterMap StationWorker.data) :=
  Threads.filterMap_perm hi _

theorem cells_move (hi : s.workers[i]? = some v) (ht : t.workers = s.workers.set i z) :
    t.cells.Perm (z.data.toList ++ (s.workers.eraseIdx i).filterMap StationWorker.data) := by
  rw [cells, ht]
  exact Threads.filterMap_set_perm hi _ z

/-! ## Set and hands -/

theorem Exclusive.congr (hs : s.Exclusive) (hc : t.cells.Perm s.cells)
    (h : t.dataSet = s.dataSet ∧ t.objects = s.objects ∧ t.pushed = s.pushed ∧ t.made = s.made) :
    t.Exclusive := by
  obtain ⟨hset, hobj, hpush, hmade⟩ := h
  refine ⟨by rw [hset]; exact hs.noNull, hc.nodup_iff.mpr hs.apart, fun a ha => ?_, fun a ha => ?_,
    by rw [hobj]; exact hs.unique, by rw [hobj, hmade]; exact hs.old,
    by rw [hpush, hmade]; exact hs.pushedOld⟩
  · rw [hset]
    exact hs.notInSet a (hc.mem_iff.mp ha)
  · rw [hset, hc.mem_iff] at ha
    rw [hobj, hpush]
    exact hs.live a ha

/-- A worker moves and keeps what it has in hand. -/
theorem Exclusive.move (hs : s.Exclusive) (hi : s.workers[i]? = some v) (hd : z.data = v.data) :
    (s.move i z).Exclusive := by
  have hcells : (s.move i z).cells.Perm s.cells := by
    refine (cells_move (z := z) hi rfl).trans ?_
    rw [hd]
    exact (cells_perm hi).symm
  exact hs.congr hcells ⟨rfl, rfl, rfl, rfl⟩

theorem Exclusive.insertData (hs : s.Exclusive) {d : Option ℕ} (hd : s.objectAt d = some x)
    (hx : x ∉ s.pushed) : (s.insertData d).Exclusive := by
  obtain ⟨a, rfl, ha⟩ := Option.bind_eq_some_iff.mp hd
  have hpush : (s.insertData (some a)).pushed = x :: s.pushed := by
    simp [InfoTransferStation.insertData, objectAt, ha]
  have hfresh : a ∉ s.cells := by
    intro hmem
    obtain ⟨y, hy, hyp⟩ := hs.live a (.inr hmem)
    obtain rfl := Option.some.inj (ha.symm.trans hy)
    exact hx hyp
  refine ⟨?_, hs.apart, fun b hb => ?_, fun b hb => ?_, hs.unique, hs.old, ?_⟩
  · simp [InfoTransferStation.insertData, hs.noNull]
  · have hba : b ≠ a := ne_of_mem_of_not_mem hb hfresh
    simpa [InfoTransferStation.insertData, hba] using hs.notInSet b hb
  · rw [hpush]
    by_cases hba : b = a
    · exact ⟨x, hba ▸ ha, List.mem_cons_self ..⟩
    · have hb : some b ∈ s.dataSet ∨ b ∈ s.cells :=
        hb.imp_left fun hb => Finset.mem_of_mem_insert_of_ne hb (by simpa using hba)
      obtain ⟨y, hy, hyp⟩ := hs.live b hb
      exact ⟨y, hy, List.mem_cons_of_mem x hyp⟩
  · rw [hpush]
    exact List.forall_mem_cons.mpr ⟨hs.old a x ha, hs.pushedOld⟩

theorem Exclusive.got (hs : s.Exclusive) (ha : s.objects a = none) : Exclusive
    { s with objects := Function.update s.objects a (some s.made), made := s.made + 1 } := by
  have hne {b y : ℕ} (hb : s.objects b = some y) : b ≠ a := by
    rintro rfl
    cases ha.symm.trans hb
  refine ⟨hs.noNull, hs.apart, hs.notInSet, fun b hb => ?_, fun b c y hb hc => ?_,
    fun b y hb => ?_, fun y hy => Nat.lt_succ_of_lt (hs.pushedOld y hy)⟩
  · obtain ⟨y, hy, hyp⟩ := hs.live b hb
    exact ⟨y, (Function.update_of_ne (hne hy) _ _).trans hy, hyp⟩
  · by_cases hba : b = a
    · by_cases hca : c = a
      · rw [hba, hca]
      · -- the new object is not an old one
        simp only [hba, Function.update_self, Function.update_of_ne hca] at hb hc
        exact absurd (hs.old c y hc) (by rw [← Option.some.inj hb]; exact lt_irrefl _)
    · by_cases hca : c = a
      · simp only [hca, Function.update_self, Function.update_of_ne hba] at hb hc
        exact absurd (hs.old b y hb) (by rw [← Option.some.inj hc]; exact lt_irrefl _)
      · simp only [Function.update_of_ne hba, Function.update_of_ne hca] at hb hc
        exact hs.unique b c y hb hc
  · by_cases hba : b = a
    · simp only [hba, Function.update_self, Option.some.injEq] at hb
      exact hb ▸ Nat.lt_succ_self s.made
    · simp only [Function.update_of_ne hba] at hb
      exact Nat.lt_succ_of_lt (hs.old b y hb)

theorem Exclusive.take (hs : s.Exclusive) (hi : s.workers[i]? = some .awake)
    (ha : some a ∈ s.dataSet) :
    Exclusive { s.move i (.took a) with dataSet := s.dataSet.erase (some a) } := by
  have hold := cells_perm hi
  have hnew : (cells { s.move i (.took a) with dataSet := s.dataSet.erase (some a) }).Perm
      (a :: s.cells) := (cells_move (z := .took a) hi rfl).trans (hold.symm.cons a)
  have hfresh : a ∉ s.cells := fun hmem => hs.notInSet a hmem ha
  refine ⟨fun hn => hs.noNull (Finset.mem_of_mem_erase hn), ?_, fun b hb => ?_, fun b hb => ?_,
    hs.unique, hs.old, hs.pushedOld⟩
  · exact hnew.nodup_iff.mpr (List.nodup_cons.mpr ⟨hfresh, hs.apart⟩)
  · intro hmem
    rcases List.mem_cons.mp (hnew.mem_iff.mp hb) with rfl | hb
    · exact (Finset.mem_erase.mp hmem).1 rfl
    · exact hs.notInSet b hb (Finset.mem_of_mem_erase hmem)
  · rcases hb with hb | hb
    · exact hs.live b (.inl (Finset.mem_of_mem_erase hb))
    · rcases List.mem_cons.mp (hnew.mem_iff.mp hb) with rfl | hb
      · exact hs.live b (.inl ha)
      · exact hs.live b (.inr hb)

/-- `Release` frees one object. -/
theorem release_objects_iff {b y : ℕ} :
    (s.release i a).objects b = some y ↔ b ≠ a ∧ s.objects b = some y := by
  by_cases hba : b = a
  · simp [InfoTransferStation.release, hba]
  · simp [InfoTransferStation.release, hba]

theorem Exclusive.release (hs : s.Exclusive) (hi : s.workers[i]? = some (.done a)) :
    (s.release i a).Exclusive := by
  have hold : s.cells.Perm (a :: (s.workers.eraseIdx i).filterMap StationWorker.data) :=
    cells_perm hi
  have hnew : (s.release i a).cells.Perm ((s.workers.eraseIdx i).filterMap StationWorker.data) :=
    cells_move (z := .testing) hi rfl
  obtain ⟨ha, hrest⟩ := List.nodup_cons.mp (hold.nodup_iff.mp hs.apart)
  have hmem {b : ℕ} (hb : b ∈ (s.release i a).cells) : b ∈ s.cells ∧ b ≠ a :=
    ⟨hold.mem_iff.mpr (List.mem_cons_of_mem a (hnew.mem_iff.mp hb)),
      ne_of_mem_of_not_mem (hnew.mem_iff.mp hb) ha⟩
  refine ⟨hs.noNull, hnew.nodup_iff.mpr hrest, fun b hb => hs.notInSet b (hmem hb).1,
    fun b hb => ?_,
    fun b c y hb hc =>
      hs.unique b c y (release_objects_iff.mp hb).2 (release_objects_iff.mp hc).2,
    fun b y hb => hs.old b y (release_objects_iff.mp hb).2, hs.pushedOld⟩
  have hba : b ≠ a := by
    rcases hb with hb | hb
    · rintro rfl
      exact hs.notInSet b (hold.mem_iff.mpr (List.mem_cons_self ..)) hb
    · exact (hmem hb).2
  obtain ⟨y, hy, hyp⟩ := hs.live b (hb.imp_right fun hb => (hmem hb).1)
  exact ⟨y, release_objects_iff.mpr ⟨hba, hy⟩, hyp⟩

theorem step_exclusive (hs : s.Exclusive) (hc : s.PushesOnce e) (h : s.step e = some t) :
    t.Exclusive := by
  cases step_cases h with
  | gotNull => exact hs
  | got a ha => exact hs.got ha
  | unheard d hw =>
    obtain ⟨x, hx, hnew⟩ := hc d none rfl
    exact hs.insertData hx hnew
  | heard d j hj =>
    obtain ⟨x, hx, hnew⟩ := hc d (some j) rfl
    exact (hs.insertData hx hnew).move (v := .waiting) hj rfl
  | waited i hi => exact hs.move hi rfl
  | woke i hi => exact hs.move hi rfl
  | wokeAlone i hi => exact hs.move hi rfl
  | foundEmpty i d hi hd => exact hs.move hi rfl
  | skipped i hi hd => exact absurd hd hs.noNull
  | taken i a hi hd => exact hs.take hi hd
  | did i a hi =>
    exact (hs.move (z := .done a) hi rfl).congr (List.Perm.refl _) ⟨rfl, rfl, rfl, rfl⟩
  | freed i a hi => exact hs.release hi

/-! ## What was done -/

/-- A worker moves outside the stretch between `DoData` and `Release`. -/
theorem History.move (hs : s.History) (hi : s.workers[i]? = some v) (hv : ∀ a, v ≠ .done a)
    (hz : ∀ a, z ≠ .done a) : (s.move i z).History := by
  have hother {j a : ℕ} :
      (s.move i z).workers[j]? = some (.done a) ↔ s.workers[j]? = some (.done a) := by
    by_cases hji : j = i
    · subst hji
      rw [InfoTransferStation.move, Threads.get_moved hi rfl, hi]
      exact iff_of_false (fun h => hz a (Option.some.inj h)) (fun h => hv a (Option.some.inj h))
    · rw [InfoTransferStation.move, Threads.get_other rfl hji]
  refine ⟨hs.givenOnce, fun g hg => ?_, hs.releasedOnce, hs.released, fun j a hj => ?_⟩
  · obtain ⟨hpush, hg⟩ := hs.given g hg
    refine ⟨hpush, ?_⟩
    simp only [hother]
    exact hg
  · exact hs.done j a (hother.mp hj)

theorem History.setData (hs : s.History) (dataSet : Finset (Option ℕ)) :
    History { s with dataSet := dataSet } :=
  ⟨hs.givenOnce, hs.given, hs.releasedOnce, hs.released, hs.done⟩

theorem History.got (hs : s.History) (he : s.Exclusive) (ha : s.objects a = none) : History
    { s with objects := Function.update s.objects a (some s.made), made := s.made + 1 } := by
  have hkeep {b y : ℕ} (hb : s.objects b = some y) :
      Function.update s.objects a (some s.made) b = some y := by
    rwa [Function.update_of_ne]
    rintro rfl
    cases ha.symm.trans hb
  refine ⟨hs.givenOnce, fun g hg => ?_, hs.releasedOnce, fun r hr => ?_, fun j b hj => ?_⟩
  · obtain ⟨hpush, hg⟩ := hs.given g hg
    exact ⟨hpush, hg.imp_right fun ⟨b, hb, hdone⟩ => ⟨b, hkeep hb, hdone⟩⟩
  · obtain ⟨hgiven, hfree⟩ := hs.released r hr
    refine ⟨hgiven, fun b hb => ?_⟩
    by_cases hba : b = a
    · simp only [hba, Function.update_self, Option.some.injEq] at hb
      exact absurd (he.pushedOld r.1 (hs.given r hgiven).1) (by rw [hb]; exact lt_irrefl _)
    · exact hfree b (by simpa only [Function.update_of_ne hba] using hb)
  · obtain ⟨y, hy, hg⟩ := hs.done j b hj
    exact ⟨y, hkeep hy, hg⟩

theorem mem_cells {j : ℕ} (hj : s.workers[j]? = some v) (hv : v.data = some a) : a ∈ s.cells :=
  List.mem_filterMap.mpr ⟨v, List.mem_of_getElem? hj, hv⟩

/-- No other worker has the same object in hand. -/
theorem Exclusive.not_others (hs : s.Exclusive) (hi : s.workers[i]? = some v)
    (hv : v.data = some a) {j : ℕ} (hj : s.workers[j]? = some z) (hji : j ≠ i) :
    z.data ≠ some a := by
  intro hz
  exact hji (Threads.eq_of_holds hs.apart hi hj hv hz)

theorem History.doData (hs : s.History) (he : s.Exclusive) (hi : s.workers[i]? = some (.took a)) :
    (s.doData i a).History := by
  obtain ⟨x, hx, hpush⟩ := he.live a (.inr (mem_cells hi rfl))
  have hgiven : (s.doData i a).given = s.given ++ [(x, i)] := by
    simp [InfoTransferStation.doData, hx]
  have hworkers : (s.doData i a).workers = s.workers.set i (.done a) := rfl
  have hself := Threads.get_moved hi hworkers
  have hne {j b : ℕ} (hj : s.workers[j]? = some (.done b)) : j ≠ i := by
    rintro rfl
    cases hi.symm.trans hj
  have hnew : x ∉ s.given.map Prod.fst := by
    intro hmem
    obtain ⟨g, hg, rfl⟩ := List.mem_map.mp hmem
    rcases (hs.given g hg).2 with hr | ⟨b, hb, hdone⟩
    · exact (hs.released g hr).2 a hx
    · obtain rfl := he.unique a b g.1 hx hb
      exact he.not_others hi rfl hdone (hne hdone) rfl
  refine ⟨?_, fun g hg => ?_, hs.releasedOnce, fun r hr => ?_, fun j b hj => ?_⟩
  · rw [hgiven, List.map_append]
    refine List.nodup_append.mpr ⟨hs.givenOnce, by simp, fun y hy z hz => ?_⟩
    obtain rfl : z = x := by simpa using hz
    exact ne_of_mem_of_not_mem hy hnew
  · rw [hgiven] at hg
    rcases List.mem_append.mp hg with hg | hg
    · obtain ⟨hp, hg⟩ := hs.given g hg
      exact ⟨hp, hg.imp_right fun ⟨b, hb, hdone⟩ =>
        ⟨b, hb, (Threads.get_other hworkers (hne hdone)).trans hdone⟩⟩
    · obtain rfl := List.mem_singleton.mp hg
      exact ⟨hpush, .inr ⟨a, hx, hself⟩⟩
  · obtain ⟨hg, hfree⟩ := hs.released r hr
    rw [hgiven]
    exact ⟨List.mem_append_left _ hg, hfree⟩
  · rw [hgiven]
    by_cases hji : j = i
    · subst hji
      obtain rfl := StationWorker.done.inj (Option.some.inj (hself.symm.trans hj))
      exact ⟨x, hx, by simp⟩
    · rw [Threads.get_other hworkers hji] at hj
      obtain ⟨y, hy, hg⟩ := hs.done j b hj
      exact ⟨y, hy, List.mem_append_left _ hg⟩

theorem release_released (hx : s.objects a = some x) :
    (s.release i a).released = s.released ++ [(x, i)] := by
  simp [InfoTransferStation.release, hx]

/-- What was given is released, the object that is released now included, or it is
still with its worker. -/
theorem History.release_given (hs : s.History) (hi : s.workers[i]? = some (.done a))
    (hx : s.objects a = some x) (hgiven : (x, i) ∈ s.given) {g : ℕ × ℕ} (hg : g ∈ s.given) :
    g ∈ (s.release i a).released ∨ ∃ b, (s.release i a).objects b = some g.1 ∧
      (s.release i a).workers[g.2]? = some (.done b) := by
  rw [release_released hx]
  rcases (hs.given g hg).2 with hr | ⟨b, hb, hdone⟩
  · exact .inl (List.mem_append_left _ hr)
  · by_cases hba : b = a
    · -- the object that is released now, and it was given once
      subst hba
      obtain rfl := Option.some.inj (hx.symm.trans hb)
      have hgi : g = (g.1, i) := List.inj_on_of_nodup_map hs.givenOnce hg hgiven rfl
      exact .inl (List.mem_append_right _ (List.mem_singleton.mpr hgi))
    · have hji : g.2 ≠ i := by
        intro hgi
        rw [hgi] at hdone
        exact hba (StationWorker.done.inj (Option.some.inj (hdone.symm.trans hi)))
      exact .inr ⟨b, release_objects_iff.mpr ⟨hba, hb⟩, (Threads.get_other rfl hji).trans hdone⟩

theorem History.release (hs : s.History) (he : s.Exclusive) (hi : s.workers[i]? = some (.done a)) :
    (s.release i a).History := by
  obtain ⟨x, hx, hgiven⟩ := hs.done i a hi
  have hworkers : (s.release i a).workers = s.workers.set i .testing := rfl
  refine ⟨hs.givenOnce, fun g hg => ⟨(hs.given g hg).1, hs.release_given hi hx hgiven hg⟩, ?_,
    fun r hr => ?_, fun j b hj => ?_⟩
  · rw [release_released hx, List.map_append]
    refine List.nodup_append.mpr ⟨hs.releasedOnce, by simp, fun y hy z hz => ?_⟩
    obtain ⟨r, hr, rfl⟩ := List.mem_map.mp hy
    obtain rfl : z = x := by simpa using hz
    rintro rfl
    exact (hs.released r hr).2 a hx
  · rw [release_released hx] at hr
    rcases List.mem_append.mp hr with hr | hr
    · obtain ⟨hg, hfree⟩ := hs.released r hr
      exact ⟨hg, fun b hb => hfree b (release_objects_iff.mp hb).2⟩
    · obtain rfl := List.mem_singleton.mp hr
      refine ⟨hgiven, fun b hb => ?_⟩
      obtain ⟨hba, hb⟩ := release_objects_iff.mp hb
      exact hba (he.unique b a x hb hx)
  · have hji : j ≠ i := by
      rintro rfl
      cases (Threads.get_moved hi hworkers).symm.trans hj
    have hdone := (Threads.get_other hworkers hji).symm.trans hj
    have hba : b ≠ a := by
      rintro rfl
      exact he.not_others hi rfl hdone hji rfl
    obtain ⟨y, hy, hg⟩ := hs.done j b hdone
    exact ⟨y, release_objects_iff.mpr ⟨hba, hy⟩, hg⟩

theorem History.insertData (hs : s.History) (d : Option ℕ) : (s.insertData d).History :=
  ⟨hs.givenOnce, fun g hg => ⟨List.mem_append_right _ (hs.given g hg).1, (hs.given g hg).2⟩,
    hs.releasedOnce, hs.released, hs.done⟩

theorem step_history (hs : s.History) (he : s.Exclusive) (h : s.step e = some t) : t.History := by
  cases step_cases h with
  | gotNull => exact hs
  | got a ha => exact hs.got he ha
  | unheard d hw => exact hs.insertData d
  | heard d j hj => exact (hs.insertData d).move (v := .waiting) hj (by simp) (by simp)
  | waited i hi => exact hs.move hi (by simp) (by simp)
  | woke i hi => exact hs.move hi (by simp) (by simp)
  | wokeAlone i hi => exact hs.move hi (by simp) (by simp)
  | foundEmpty i d hi hd => exact hs.move hi (by simp) (by simp)
  | skipped i hi hd => exact (hs.move hi (by simp) (by simp)).setData _
  | taken i a hi hd => exact (hs.move hi (by simp) (by simp)).setData _
  | did i a hi => exact hs.doData he hi
  | freed i a hi => exact hs.release he hi

/-- When the database layer pushes an object at most once before it is released, each
pushed object is given to `DoData` by one worker once, released by that worker once
and not before; and what a worker is about to release is there, is not in the set and
no other worker has it. -/
theorem exclusive_ownership (n : ℕ) (events : List Event) (s : InfoTransferStation)
    (hpush : Along step PushesOnce (start n) events) (h : exec step (start n) events = some s) :
    (s.given.map Prod.fst).Nodup ∧ (∀ g ∈ s.given, g.1 ∈ s.pushed) ∧
    (s.released.map Prod.fst).Nodup ∧ (∀ r ∈ s.released, r ∈ s.given) ∧
    ∀ i a, s.workers[i]? = some (.done a) →
      (∃ x, s.objects a = some x ∧ (x, i) ∈ s.given ∧ (x, i) ∉ s.released) ∧ some a ∉ s.dataSet ∧
      ∀ j v, j ≠ i → s.workers[j]? = some v → v.data ≠ some a := by
  obtain ⟨he, hs⟩ := invariant_of_along (I := fun s => s.Exclusive ∧ s.History)
    (fun s e t hs hc hst => ⟨step_exclusive hs.1 hc hst, step_history hs.2 hs.1 hst⟩)
    ⟨start_exclusive n, start_history n⟩ hpush h
  refine ⟨hs.givenOnce, fun g hg => (hs.given g hg).1, hs.releasedOnce,
    fun r hr => (hs.released r hr).1, fun i a hi => ⟨?_, ?_, fun j v hji hj => ?_⟩⟩
  · obtain ⟨x, hx, hg⟩ := hs.done i a hi
    exact ⟨x, hx, hg, fun hr => (hs.released _ hr).2 a hx⟩
  · exact he.notInSet a (mem_cells hi rfl)
  · exact he.not_others hi rfl hj hji

/-- The address of a released object is given out again and pushed again. -/
theorem exclusive_ownership_reuse : ∃ s,
    exec step (start 2) [.get (some 7), .wait 0, .wait 1, .push (some 7) (some 0), .wake 0,
      .getData 0 (some 7), .doData 0, .release 0, .get (some 7), .push (some 7) (some 1), .wake 1,
      .getData 1 (some 7), .doData 1] = some s ∧
    (s.given.map Prod.fst).Nodup ∧ (∀ g ∈ s.given, g.1 ∈ s.pushed) ∧
    (s.released.map Prod.fst).Nodup ∧ (∀ r ∈ s.released, r ∈ s.given) ∧
    ∀ i a, s.workers[i]? = some (.done a) →
      (∃ x, s.objects a = some x ∧ (x, i) ∈ s.given ∧ (x, i) ∉ s.released) ∧ some a ∉ s.dataSet ∧
      ∀ j v, j ≠ i → s.workers[j]? = some v → v.data ≠ some a := by
  apply exists_exec (by decide +kernel)
  intro s hs
  exact exclusive_ownership 2 _ s (by decide +kernel) hs

end InfoTransferStation
end Xiaoxin
