import Xiaoxin.MessageQueue

/-!
# The message queue loses, repeats and reorders nothing

Copies wait for `_mutex`, lie in the list or are in a worker's hands; no two of them
share an address, and each shows what `Add` was given. The numbers that were
inserted are those that were removed and then those in the list, oldest first. What a
worker removed is what it dispatched and what it is about to dispatch, and what it
dispatched is what it released and what it is about to release.
-/
namespace Xiaoxin
open Transition Threads
namespace QueueWorker

def undispatched : QueueWorker → List ℕ
  | took p => [p.number]
  | _ => []

def unreleased : QueueWorker → List ℕ
  | done p => [p.number]
  | _ => []

end QueueWorker

namespace MessageQueue

variable {bufferSize i : ℕ} {s t : MessageQueue} {v z : QueueWorker}
  {p : PPerHandleData} {e : Event}

/-- The copies that are not released yet. -/
def held (s : MessageQueue) : List PPerHandleData :=
  s.copied ++ (s.handleDataList ++ s.workers.filterMap QueueWorker.data)

/-- What `Add` was given lies in a buffer of the queue's size. -/
def FromBuffer (bufferSize : ℕ) (e : Event) : Prop :=
  ∀ data a past, e = .copy data a past → data.InBuffer bufferSize

/-- The numbers of the calls of `_dispatch_func`, with the workers. -/
def calls (s : MessageQueue) : List (ℕ × ℕ) := s.dispatched.map fun d => (d.number, d.worker)

/-- The copy that the `i`-th worker has not dispatched yet. -/
def undispatched (s : MessageQueue) (i : ℕ) : List ℕ :=
  (s.workers[i]?).elim [] QueueWorker.undispatched

/-- The copy that the `i`-th worker has dispatched and not released yet. -/
def unreleased (s : MessageQueue) (i : ℕ) : List ℕ :=
  (s.workers[i]?).elim [] QueueWorker.unreleased

/-- What a pointer leads to shows what its call of `Add` was given. -/
def ShowsPassed (s : MessageQueue) (handledata : Option PerHandleData) (number : ℕ) : Prop :=
  ∃ h data, handledata = some h ∧ s.passed[number]? = some data ∧ Shows h data

/-- What `p` leads to is there, and neither the list nor another worker than the
`i`-th has its address. -/
def HeldAlone (s : MessageQueue) (i : ℕ) (p : PPerHandleData) : Prop :=
  (s.handles p.address).isSome ∧ (∀ q ∈ s.handleDataList, q.address ≠ p.address) ∧
  ∀ j ≠ i, ∀ v, s.workers[j]? = some v → ∀ q ∈ QueueWorker.data v, q.address ≠ p.address

/-- The copies are apart from each other and intact. -/
structure Intact (s : MessageQueue) : Prop where
  apart : (s.held.map PPerHandleData.address).Nodup
  shows : ∀ p ∈ s.held, s.ShowsPassed (s.handles p.address) p.number
  called : ∀ d ∈ s.dispatched, s.ShowsPassed d.handledata d.number

structure Fifo (s : MessageQueue) : Prop where
  order : s.inserted = s.removed.map Prod.fst ++ s.handleDataList.reverse.map PPerHandleData.number
  once : (s.inserted ++ s.copied.map PPerHandleData.number).Nodup
  known : ∀ x ∈ s.inserted ++ s.copied.map PPerHandleData.number, x < s.passed.length

structure Served (s : MessageQueue) : Prop where
  removed : ∀ i, ofThread s.removed i = ofThread s.calls i ++ s.undispatched i
  dispatched : ∀ i, ofThread s.calls i = ofThread s.released i ++ s.unreleased i

/-! ## The copies -/

theorem ShowsPassed.mono {o : Option PerHandleData} {x : ℕ} (h : s.ShowsPassed o x)
    (hp : s.passed <+: t.passed) : t.ShowsPassed o x := by
  obtain ⟨c, data, hc, hdata, hshows⟩ := h
  obtain ⟨hlt, hget⟩ := List.getElem?_eq_some_iff.mp hdata
  have hlt' : x < t.passed.length := lt_of_lt_of_le hlt hp.length_le
  exact ⟨c, data, hc, by rw [List.getElem?_eq_getElem hlt', ← hp.getElem hlt, hget], hshows⟩

theorem cells_notify (l : List QueueWorker) :
    (l.map QueueWorker.notify).filterMap QueueWorker.data = l.filterMap QueueWorker.data := by
  rw [List.filterMap_map]
  congr 1
  ext v : 1
  exact v.notify_data

theorem Intact.congr (hs : s.Intact) (hp : t.held.Perm s.held)
    (h : t.handles = s.handles ∧ t.passed = s.passed ∧ t.dispatched = s.dispatched) : t.Intact := by
  obtain ⟨hhandles, hpassed, hdisp⟩ := h
  have hpre : s.passed <+: t.passed := by rw [hpassed]
  refine ⟨(hp.map PPerHandleData.address).nodup_iff.mpr hs.apart, fun p hmem => ?_, fun d hd => ?_⟩
  · rw [hhandles]
    exact (hs.shows p (hp.mem_iff.mp hmem)).mono hpre
  · rw [hdisp] at hd
    exact (hs.called d hd).mono hpre

/-- A worker moves and keeps what it has in hand. -/
theorem held_move (hi : s.workers[i]? = some v) (hd : z.data = v.data) :
    (s.move i z).held.Perm s.held := by
  have hcells : ((s.workers.set i z).filterMap QueueWorker.data).Perm
      (s.workers.filterMap QueueWorker.data) := by
    refine (filterMap_set_perm hi _ z).trans ?_
    rw [hd]
    exact (filterMap_perm hi _).symm
  exact (hcells.append_left _).append_left _

theorem Intact.move (hs : s.Intact) (hi : s.workers[i]? = some v) (hd : z.data = v.data) :
    (s.move i z).Intact :=
  hs.congr (held_move hi hd) ⟨rfl, rfl, rfl⟩

theorem Intact.copyData (hs : s.Intact) {a : ℕ} {data : PerHandleData} (past : ℕ → UInt8)
    (ha : s.handles a = none) (hb : data.InBuffer bufferSize) :
    (s.copyData past (SendOrRecvMngBase.fresh bufferSize a data.socket) data).Intact := by
  have hheld : (s.copyData past (SendOrRecvMngBase.fresh bufferSize a data.socket) data).held.Perm
      ((⟨a, s.passed.length⟩ : PPerHandleData) :: s.held) := by
    show ((s.copied ++ [(⟨a, s.passed.length⟩ : PPerHandleData)]) ++ _).Perm _
    rw [List.append_assoc, List.singleton_append]
    exact List.perm_middle
  have hne : ∀ p ∈ s.held, p.address ≠ a := by
    rintro p hp rfl
    obtain ⟨c, data, hc, -⟩ := hs.shows p hp
    cases ha.symm.trans hc
  have hpre : s.passed <+: s.passed ++ [data] := List.prefix_append ..
  refine ⟨(hheld.map PPerHandleData.address).nodup_iff.mpr ?_, fun p hp => ?_,
    fun d hd => (hs.called d hd).mono hpre⟩
  · rw [List.map_cons, List.nodup_cons]
    refine ⟨fun hmem => ?_, hs.apart⟩
    obtain ⟨p, hp, hpa⟩ := List.mem_map.mp hmem
    exact hne p hp hpa
  · rcases List.mem_cons.mp (hheld.mem_iff.mp hp) with rfl | hp
    · exact ⟨_, data, Function.update_self .., List.getElem?_concat_length,
        assign_shows a past hb⟩
    · obtain ⟨c, d, hc, hd⟩ := (hs.shows p hp).mono (t := s.copyData past
        (SendOrRecvMngBase.fresh bufferSize a data.socket) data) hpre
      exact ⟨c, d, (Function.update_of_ne (hne p hp) _ _).trans hc, hd⟩

theorem Intact.pushFront (hs : s.Intact) {k : ℕ} (hk : s.copied[k]? = some p) :
    (s.pushFront k p).Intact := by
  refine hs.congr ?_ ⟨rfl, rfl, rfl⟩
  show ((s.copied.eraseIdx k) ++ ((p :: s.handleDataList) ++
    (s.workers.map QueueWorker.notify).filterMap QueueWorker.data)).Perm _
  rw [cells_notify, List.cons_append]
  refine List.perm_middle.trans ?_
  exact ((perm_others hk).append_right _).symm

theorem Intact.take (hs : s.Intact) {rest : List PPerHandleData}
    (hi : s.workers[i]? = some .looking) (hl : s.handleDataList = rest ++ [p]) :
    (s.take i rest p).Intact := by
  have hnew : ((s.take i rest p).workers.filterMap QueueWorker.data).Perm
      (p :: (s.workers.eraseIdx i).filterMap QueueWorker.data) :=
    filterMap_set_perm hi QueueWorker.data (.took p)
  have hold : (s.workers.filterMap QueueWorker.data).Perm
      ((s.workers.eraseIdx i).filterMap QueueWorker.data) := filterMap_perm hi QueueWorker.data
  refine hs.congr ?_ ⟨rfl, rfl, rfl⟩
  show (s.copied ++ (rest ++ _)).Perm (s.copied ++ (s.handleDataList ++ _))
  rw [hl, List.append_assoc, List.singleton_append]
  exact ((hnew.trans (hold.symm.cons p)).append_left rest).append_left s.copied

theorem mem_held (hi : s.workers[i]? = some v) (hv : v.data = some p) : p ∈ s.held :=
  List.mem_append_right _ (List.mem_append_right _
    (List.mem_filterMap.mpr ⟨v, List.mem_of_getElem? hi, hv⟩))

theorem Intact.dispatchFunc (hs : s.Intact) (hi : s.workers[i]? = some (.took p)) :
    (s.dispatchFunc i p).Intact := by
  have hheld : (s.dispatchFunc i p).held.Perm s.held := held_move (z := .done p) hi rfl
  refine ⟨(hheld.map PPerHandleData.address).nodup_iff.mpr hs.apart,
    fun q hq => hs.shows q (hheld.mem_iff.mp hq), fun d hd => ?_⟩
  rcases List.mem_append.mp hd with hd | hd
  · exact hs.called d hd
  · obtain rfl := List.mem_singleton.mp hd
    exact hs.shows p (mem_held hi rfl)

theorem Intact.releaseMemory (hs : s.Intact) (hi : s.workers[i]? = some (.done p)) :
    (s.releaseMemory i p).Intact := by
  have hnew : ((s.releaseMemory i p).workers.filterMap QueueWorker.data).Perm
      ((s.workers.eraseIdx i).filterMap QueueWorker.data) :=
    filterMap_set_perm hi QueueWorker.data .looking
  have hold : s.held.Perm (p :: (s.releaseMemory i p).held) := by
    refine (((filterMap_perm hi QueueWorker.data).append_left _).append_left _).trans ?_
    refine (List.perm_middle.append_left _).trans (List.perm_middle.trans (List.Perm.cons p ?_))
    exact (hnew.symm.append_left _).append_left _
  have hnodup := (hold.map PPerHandleData.address).nodup_iff.mp hs.apart
  rw [List.map_cons, List.nodup_cons] at hnodup
  refine ⟨hnodup.2, fun q hq => ?_, hs.called⟩
  have hne : q.address ≠ p.address := fun h =>
    hnodup.1 (List.mem_map.mpr ⟨q, hq, h⟩)
  obtain ⟨c, data, hc, hdata⟩ := hs.shows q (hold.mem_iff.mpr (List.mem_cons_of_mem p hq))
  exact ⟨c, data, (Function.update_of_ne hne _ _).trans hc, hdata⟩

theorem step_intact (hs : s.Intact) (hc : FromBuffer bufferSize e)
    (h : s.step bufferSize e = some t) : t.Intact := by
  cases step_cases h with
  | noMemory data past => exact hs
  | copied data a past ha => exact hs.copyData past ha (hc data (some a) past rfl)
  | inserted k p hk => exact hs.pushFront hk
  | foundEmpty i hi hl => exact hs.move hi rfl
  | taken i rest p hi hl => exact hs.take hi hl
  | waited i hi => exact hs.move hi rfl
  | woke i hi => exact hs.move hi rfl
  | wokeAlone i hi => exact hs.move hi rfl
  | did i p hi => exact hs.dispatchFunc hi
  | freed i p hi => exact hs.releaseMemory hi

/-! ## The order -/

theorem Fifo.copyData (hs : s.Fifo) (past : ℕ → UInt8) (tmpData data : PerHandleData) :
    (s.copyData past tmpData data).Fifo := by
  have happ : (s.copyData past tmpData data).inserted ++
      (s.copyData past tmpData data).copied.map PPerHandleData.number =
      (s.inserted ++ s.copied.map PPerHandleData.number) ++ [s.passed.length] := by
    simp [MessageQueue.copyData]
  have hlen : (s.copyData past tmpData data).passed.length = s.passed.length + 1 := by
    simp [MessageQueue.copyData]
  refine ⟨hs.order, ?_, fun x hx => ?_⟩
  · rw [happ]
    refine List.nodup_append.mpr ⟨hs.once, by simp, fun x hx y hy => ?_⟩
    obtain rfl := List.mem_singleton.mp hy
    exact (hs.known x hx).ne
  · rw [happ] at hx
    rw [hlen]
    rcases List.mem_append.mp hx with hx | hx
    · exact Nat.lt_succ_of_lt (hs.known x hx)
    · obtain rfl := List.mem_singleton.mp hx
      exact Nat.lt_succ_self _

theorem Fifo.pushFront (hs : s.Fifo) {k : ℕ} (hk : s.copied[k]? = some p) :
    (s.pushFront k p).Fifo := by
  have hperm : ((s.pushFront k p).inserted ++
      (s.pushFront k p).copied.map PPerHandleData.number).Perm
      (s.inserted ++ s.copied.map PPerHandleData.number) := by
    show ((s.inserted ++ [p.number]) ++ (s.copied.eraseIdx k).map PPerHandleData.number).Perm _
    rw [List.append_assoc, List.singleton_append]
    exact ((perm_others hk).map PPerHandleData.number).symm.append_left _
  refine ⟨?_, hperm.nodup_iff.mpr hs.once, fun x hx => hs.known x (hperm.mem_iff.mp hx)⟩
  show s.inserted ++ [p.number] = _
  rw [hs.order]
  simp [MessageQueue.pushFront]

theorem Fifo.take (hs : s.Fifo) {rest : List PPerHandleData}
    (hl : s.handleDataList = rest ++ [p]) : (s.take i rest p).Fifo := by
  refine ⟨?_, hs.once, hs.known⟩
  show s.inserted = (s.removed ++ [(p.number, i)]).map Prod.fst ++ _
  rw [hs.order, hl]
  simp [MessageQueue.take]

theorem step_fifo (hs : s.Fifo) (h : s.step bufferSize e = some t) : t.Fifo := by
  cases step_cases h with
  | noMemory data past => exact hs
  | copied data a past ha => exact hs.copyData past _ data
  | inserted k p hk => exact hs.pushFront hk
  | foundEmpty i hi hl => exact ⟨hs.order, hs.once, hs.known⟩
  | taken i rest p hi hl => exact hs.take hl
  | waited i hi => exact ⟨hs.order, hs.once, hs.known⟩
  | woke i hi => exact ⟨hs.order, hs.once, hs.known⟩
  | wokeAlone i hi => exact ⟨hs.order, hs.once, hs.known⟩
  | did i p hi => exact ⟨hs.order, hs.once, hs.known⟩
  | freed i p hi => exact ⟨hs.order, hs.once, hs.known⟩

/-! ## What each worker did -/

theorem undispatched_eq (hi : s.workers[i]? = some v) : s.undispatched i = v.undispatched := by
  rw [undispatched, hi]
  rfl

theorem unreleased_eq (hi : s.workers[i]? = some v) : s.unreleased i = v.unreleased := by
  rw [unreleased, hi]
  rfl

/-- It is enough to look at the worker that moves, if only it writes to the logs. -/
theorem Served.move (hs : s.Served) (hi : s.workers[i]? = some v)
    (ht : t.workers = s.workers.set i z)
    (hlogs : ∀ j, j ≠ i → ofThread t.removed j = ofThread s.removed j ∧
      ofThread t.calls j = ofThread s.calls j ∧ ofThread t.released j = ofThread s.released j)
    (hremoved : ofThread t.removed i = ofThread t.calls i ++ z.undispatched)
    (hcalls : ofThread t.calls i = ofThread t.released i ++ z.unreleased) : t.Served := by
  have hz := get_moved hi ht
  refine ⟨fun j => ?_, fun j => ?_⟩
  · by_cases hji : j = i
    · subst hji
      rw [undispatched_eq hz]
      exact hremoved
    · obtain ⟨hr, hc, -⟩ := hlogs j hji
      rw [hr, hc, undispatched, get_other ht hji]
      exact hs.removed j
  · by_cases hji : j = i
    · subst hji
      rw [unreleased_eq hz]
      exact hcalls
    · obtain ⟨-, hc, hr⟩ := hlogs j hji
      rw [hr, hc, unreleased, get_other ht hji]
      exact hs.dispatched j

/-- A worker with empty hands moves and logs nothing. -/
theorem Served.idle (hs : s.Served) (hi : s.workers[i]? = some v) (hv : v.data = none)
    (hz : z.data = none) : (s.move i z).Served := by
  have hempty {v : QueueWorker} (hv : v.data = none) : v.undispatched = [] ∧ v.unreleased = [] := by
    cases v <;> first | exact ⟨rfl, rfl⟩ | cases hv
  have hremoved := hs.removed i
  have hcalls := hs.dispatched i
  rw [undispatched_eq hi, (hempty hv).1] at hremoved
  rw [unreleased_eq hi, (hempty hv).2] at hcalls
  refine hs.move hi rfl (fun j _ => ⟨rfl, rfl, rfl⟩) ?_ ?_
  · rw [(hempty hz).1]
    exact hremoved
  · rw [(hempty hz).2]
    exact hcalls

theorem Served.take (hs : s.Served) {rest : List PPerHandleData}
    (hi : s.workers[i]? = some .looking) : (s.take i rest p).Served := by
  have hremoved := hs.removed i
  have hcalls := hs.dispatched i
  rw [undispatched_eq hi] at hremoved
  rw [unreleased_eq hi] at hcalls
  refine hs.move (z := .took p) hi rfl (fun j hji => ⟨ofThread_append_ne _ _ hji, rfl, rfl⟩) ?_
    hcalls
  show ofThread (s.removed ++ [(p.number, i)]) i = _
  rw [ofThread_append_self, hremoved]
  simp [QueueWorker.undispatched]
  rfl

theorem calls_dispatchFunc : (s.dispatchFunc i p).calls = s.calls ++ [(p.number, i)] := by
  simp [calls, MessageQueue.dispatchFunc]

theorem Served.dispatchFunc (hs : s.Served) (hi : s.workers[i]? = some (.took p)) :
    (s.dispatchFunc i p).Served := by
  have hremoved := hs.removed i
  have hcalls := hs.dispatched i
  rw [undispatched_eq hi] at hremoved
  rw [unreleased_eq hi] at hcalls
  refine hs.move (z := .done p) hi rfl (fun j hji => ⟨rfl, ?_, rfl⟩) ?_ ?_
  · rw [calls_dispatchFunc]
    exact ofThread_append_ne _ _ hji
  · show ofThread s.removed i = _
    rw [calls_dispatchFunc, ofThread_append_self, hremoved]
    simp [QueueWorker.undispatched]
  · rw [calls_dispatchFunc, ofThread_append_self, hcalls]
    simp [QueueWorker.unreleased, MessageQueue.dispatchFunc, MessageQueue.move]

theorem Served.releaseMemory (hs : s.Served) (hi : s.workers[i]? = some (.done p)) :
    (s.releaseMemory i p).Served := by
  have hremoved := hs.removed i
  have hcalls := hs.dispatched i
  rw [undispatched_eq hi] at hremoved
  rw [unreleased_eq hi] at hcalls
  refine hs.move (z := .looking) hi rfl (fun j hji => ⟨rfl, rfl, ofThread_append_ne _ _ hji⟩)
    hremoved ?_
  show ofThread s.calls i = ofThread (s.released ++ [(p.number, i)]) i ++ _
  rw [ofThread_append_self, hcalls]
  simp [QueueWorker.unreleased]

theorem Served.pushFront (hs : s.Served) (k : ℕ) (p : PPerHandleData) :
    (s.pushFront k p).Served := by
  have hget (j : ℕ) : (s.pushFront k p).workers[j]? = (s.workers[j]?).map QueueWorker.notify :=
    List.getElem?_map ..
  refine ⟨fun j => (hs.removed j).trans ?_, fun j => (hs.dispatched j).trans ?_⟩
  · rw [undispatched, undispatched, hget]
    rcases s.workers[j]? with _ | v
    · rfl
    · cases v <;> rfl
  · rw [unreleased, unreleased, hget]
    rcases s.workers[j]? with _ | v
    · rfl
    · cases v <;> rfl

theorem step_served (hs : s.Served) (h : s.step bufferSize e = some t) : t.Served := by
  cases step_cases h with
  | noMemory data past => exact hs
  | copied data a past ha => exact ⟨hs.removed, hs.dispatched⟩
  | inserted k p hk => exact hs.pushFront k p
  | foundEmpty i hi hl => exact hs.idle hi rfl rfl
  | taken i rest p hi hl => exact hs.take hi
  | waited i hi => exact hs.idle hi rfl rfl
  | woke i hi => exact hs.idle hi rfl rfl
  | wokeAlone i hi => exact hs.idle hi rfl rfl
  | did i p hi => exact hs.dispatchFunc hi
  | freed i p hi => exact hs.releaseMemory hi

/-! ## Whole runs -/

theorem start_intact (n : ℕ) : (start n).Intact := by
  have hheld : (start n).held = [] := List.filterMap_replicate_of_none rfl
  refine ⟨by simp [hheld], by simp [hheld], by simp [start]⟩

theorem start_fifo (n : ℕ) : (start n).Fifo := ⟨rfl, List.nodup_nil, by simp [start]⟩

theorem start_served (n : ℕ) : (start n).Served := by
  have hempty (i : ℕ) : (start n).undispatched i = [] ∧ (start n).unreleased i = [] := by
    rcases hv : (start n).workers[i]? with _ | v
    · simp [undispatched, unreleased, hv]
    · obtain ⟨-, rfl⟩ := List.mem_replicate.mp (List.mem_of_getElem? hv)
      rw [undispatched_eq hv, unreleased_eq hv]
      exact ⟨rfl, rfl⟩
  refine ⟨fun i => ?_, fun i => ?_⟩
  · rw [(hempty i).1]
    rfl
  · rw [(hempty i).2]
    rfl

theorem Intact.heldAlone (hs : s.Intact) (hi : s.workers[i]? = some v) (hv : v.data = some p) :
    s.HeldAlone i p := by
  have happ := hs.apart
  simp only [held, List.map_append, List.map_filterMap] at happ
  obtain ⟨-, happ, -⟩ := List.nodup_append.mp happ
  obtain ⟨-, hcells, hdisj⟩ := List.nodup_append.mp happ
  refine ⟨?_, fun q hq => ?_, fun j hji z hj q hz hqp => ?_⟩
  · obtain ⟨c, data, hc, -⟩ := hs.shows p (mem_held hi hv)
    rw [hc]
    rfl
  · refine hdisj _ (List.mem_map_of_mem hq) _ ?_
    exact List.mem_filterMap.mpr ⟨v, List.mem_of_getElem? hi, by rw [hv]; rfl⟩
  · refine hji (eq_of_holds (x := p.address) hcells hi hj ?_ ?_)
    · rw [hv]
      rfl
    · rw [Option.mem_def.mp hz, Option.map_some, hqp]

/-- What was removed is a prefix of what was inserted, and the rest is in the list;
what a worker removed it dispatched and then released, all of it once, except what it
has in hand; each call of `_dispatch_func` shows what its call of `Add` was given; and
what a worker has in hand is there and nobody else has it. -/
theorem exactly_once_fifo (bufferSize n : ℕ) (events : List Event) (s : MessageQueue)
    (hcaller : ∀ e ∈ events, FromBuffer bufferSize e)
    (h : exec (step bufferSize) (start n) events = some s) :
    s.inserted.Nodup ∧
    s.inserted = s.removed.map Prod.fst ++ s.handleDataList.reverse.map PPerHandleData.number ∧
    (s.calls.map Prod.fst).Nodup ∧ (s.released.map Prod.fst).Nodup ∧
    (∀ i, ofThread s.removed i = ofThread s.calls i ++ s.undispatched i ∧
      ofThread s.calls i = ofThread s.released i ++ s.unreleased i) ∧
    (∀ d ∈ s.dispatched, s.ShowsPassed d.handledata d.number) ∧
    ∀ i v, s.workers[i]? = some v → ∀ p ∈ QueueWorker.data v, s.HeldAlone i p := by
  have hintact : s.Intact := invariant_of_along (fun s e t => step_intact) (start_intact n)
    (along_of_forall_mem hcaller _) h
  obtain ⟨hfifo, hserved⟩ := invariant (I := fun s : MessageQueue => s.Fifo ∧ s.Served)
    (fun s e t hs hst => ⟨step_fifo hs.1 hst, step_served hs.2 hst⟩)
    ⟨start_fifo n, start_served n⟩ h
  have hinserted : s.inserted.Nodup := (List.nodup_append.mp hfifo.once).1
  have hremoved : (s.removed.map Prod.fst).Nodup := by
    rw [hfifo.order] at hinserted
    exact (List.nodup_append.mp hinserted).1
  have hcalls : (s.calls.map Prod.fst).Nodup := by
    refine nodup_of_ofThread_sublist hremoved fun i => ?_
    rw [hserved.removed i]
    exact List.sublist_append_left ..
  have hreleased : (s.released.map Prod.fst).Nodup := by
    refine nodup_of_ofThread_sublist hcalls fun i => ?_
    rw [hserved.dispatched i]
    exact List.sublist_append_left ..
  refine ⟨hinserted, hfifo.order, hcalls, hreleased,
    fun i => ⟨hserved.removed i, hserved.dispatched i⟩, hintact.called,
    fun i v hi p hv => hintact.heldAlone hi hv⟩

/-- Two calls of `Add`, of which the second gets `_mutex` first, and two workers. -/
theorem exactly_once_fifo_two : ∃ s,
    exec (step 4) (start 2) [.copy ⟨100, some 5, [1, 2, 3, 4], 1, 4, 2⟩ (some 7) (fun _ => 0),
      .copy ⟨101, some 6, [8, 9, 8, 9], 0, 4, 4⟩ (some 8) (fun _ => 0), .insert 1, .insert 0,
      .look 0, .dispatch 0, .look 1, .release 0, .dispatch 1] = some s ∧
    s.inserted.Nodup ∧
    s.inserted = s.removed.map Prod.fst ++ s.handleDataList.reverse.map PPerHandleData.number ∧
    (s.calls.map Prod.fst).Nodup ∧ (s.released.map Prod.fst).Nodup ∧
    (∀ i, ofThread s.removed i = ofThread s.calls i ++ s.undispatched i ∧
      ofThread s.calls i = ofThread s.released i ++ s.unreleased i) ∧
    (∀ d ∈ s.dispatched, s.ShowsPassed d.handledata d.number) ∧
    ∀ i v, s.workers[i]? = some v → ∀ p ∈ QueueWorker.data v, s.HeldAlone i p := by
  have hone : PerHandleData.InBuffer 4 ⟨100, some 5, [1, 2, 3, 4], 1, 4, 2⟩ :=
    ⟨rfl, rfl, by decide⟩
  have htwo : PerHandleData.InBuffer 4 ⟨101, some 6, [8, 9, 8, 9], 0, 4, 4⟩ :=
    ⟨rfl, rfl, by decide⟩
  apply exists_exec (by decide +kernel)
  intro s hs
  exact exactly_once_fifo 4 2 _ s (by simp [FromBuffer, hone, htwo]) hs

end MessageQueue
end Xiaoxin
