import Xiaoxin.Network
import Xiaoxin.Flow

/-!
# In which order the messages of a connection are started

The last packet of a read goes through the message queue and the packets before it are
given to `DoData` at once, and the queue has several workers. Seen from one connection
this is a `Flow` (`step_flow`), so its messages are started in the order in which its
packets stand in the stream just as long as nothing overtakes: no direct call while
older messages of the connection wait, and no worker that calls the dispatch function
while another one still holds an older message of the connection.
-/
namespace Xiaoxin
open Framing Connection Transition

/-- The handler calls `DoData` itself. -/
def Effect.direct : Effect → Bool
  | .doData _ _ => true
  | _ => false

namespace Network

/-- The numbers of the messages of a socket in a list. -/
def indices (s : Socket) (xs : List Message) : List ℕ :=
  (xs.filter fun x => x.socket = s).map Message.index

section Indices

variable (s : Socket) (xs ys : List Message)

@[simp] theorem indices_nil : indices s [] = [] := rfl

@[simp] theorem indices_append : indices s (xs ++ ys) = indices s xs ++ indices s ys := by
  simp [indices]

theorem indices_cons_self (x : Message) (h : x.socket = s) :
    indices s (x :: xs) = x.index :: indices s xs := by
  simp [indices, h]

theorem indices_cons_ne (x : Message) (h : x.socket ≠ s) :
    indices s (x :: xs) = indices s xs := by
  simp [indices, h]

theorem mem_indices {i : ℕ} : i ∈ indices s xs ↔ ∃ x ∈ xs, x.socket = s ∧ x.index = i := by
  simp [indices, and_assoc]

theorem indices_eq_nil : indices s xs = [] ↔ ∀ x ∈ xs, x.socket ≠ s := by
  simp [indices]

end Indices

/-- The messages of one connection. -/
def flow (n : Network) (s : Socket) : Flow where
  issued := (n.endpoints s).issued.length
  started := indices s n.started
  held := indices s n.held
  queued := indices s n.queue

/-- The calls of `DoData` for the socket so far are those for its first messages, in
their order. -/
def InOrder (s : Socket) (n : Network) : Prop := (n.flow s).InOrder

instance (s : Socket) (n : Network) : Decidable (n.InOrder s) := by
  unfold InOrder
  infer_instance

/-- The step starts no message of the socket before an older one. -/
def KeepsOrder (s : Socket) (n : Network) : Label → Prop
  | .act t i => t = s → ∀ h k c, (n.endpoints t).act i = some (.doData h k, c) →
      (∀ x ∈ n.held, x.socket ≠ s) ∧ ∀ x ∈ n.queue, x.socket ≠ s
  | .start w => ∀ x, n.workers[w]? = some (.holding x) → x.socket = s →
      ∀ y ∈ n.held, y.socket = s → x.index ≤ y.index
  | _ => True

theorem keepsOrder_act (s : Socket) (n : Network) (t : Socket) (i : ℕ) :
    n.KeepsOrder s (.act t i) ↔ (t = s → ∀ p ∈ (n.endpoints t).act i, p.1.direct = true →
      (∀ x ∈ n.held, x.socket ≠ s) ∧ ∀ x ∈ n.queue, x.socket ≠ s) := by
  refine forall_congr' fun _ => ⟨fun hk ⟨e, c⟩ hp he => ?_, fun hk h k c hp => hk _ hp rfl⟩
  cases e with
  | doData h k => exact hk h k c hp
  | _ => cases he

theorem keepsOrder_start (s : Socket) (n : Network) (w : ℕ) :
    n.KeepsOrder s (.start w) ↔ ∀ x ∈ (n.workers[w]?).bind Worker.held?, x.socket = s →
      ∀ y ∈ n.held, y.socket = s → x.index ≤ y.index := by
  refine forall_congr' fun x => imp_congr_left ?_
  cases hw : n.workers[w]? with
  | none => simp
  | some a => cases a <;> simp [Worker.held?, eq_comm]

instance (s : Socket) (n : Network) : ∀ l, Decidable (n.KeepsOrder s l)
  | .act t i => decidable_of_iff' _ (keepsOrder_act s n t i)
  | .start w => decidable_of_iff' _ (keepsOrder_start s n w)
  | .register _ _ => isTrue trivial
  | .complete _ _ => isTrue trivial
  | .take _ => isTrue trivial
  | .finish _ => isTrue trivial

variable {m : ReceiveManager} {address : Socket → ℕ} {n n' : Network} {s : Socket}

/-- What a call's effect does to the messages of its socket. -/
theorem flow_act {i : ℕ} {e : Effect} {c : Endpoint} (hc : (n.endpoints s).act i = some (e, c)) :
    ∃ C, (n.flow s).Move (((n.perform s e).setEndpoint s c).flow s) C ∧
      (C ↔ ∀ h k, e = .doData h k →
        (∀ x ∈ n.held, x.socket ≠ s) ∧ ∀ x ∈ n.queue, x.socket ≠ s) := by
  have hiss := act_issued hc
  have hflow : ((n.perform s e).setEndpoint s c).flow s =
      ⟨c.issued.length, indices s (n.perform s e).started, indices s n.held,
        indices s (n.perform s e).queue⟩ := by
    simp only [flow, setEndpoint_self]
    cases e <;> rfl
  rw [hflow, hiss]
  cases e with
  | doData h k =>
    have hm : indices s (n.started ++ [n.nextMessage s ⟨h, k⟩]) =
        indices s n.started ++ [(n.endpoints s).issued.length] := by
      rw [indices_append, indices_cons_self s [] _ rfl]
      rfl
    refine ⟨(n.flow s).held = [] ∧ (n.flow s).queued = [], ?_, ?_⟩
    · simp only [Effect.delivery?, Option.toList_some, List.length_append, List.length_singleton,
        perform, hm]
      exact .direct
    · simp only [flow, indices_eq_nil, Effect.doData.injEq]
      exact ⟨fun hn _ _ _ => hn, fun hn => hn h k ⟨rfl, rfl⟩⟩
  | pushFront h =>
    have hm : indices s (n.nextMessage s ⟨h, h.offset⟩ :: n.queue) =
        (n.endpoints s).issued.length :: indices s n.queue := indices_cons_self s _ _ rfl
    refine ⟨True, ?_, iff_of_true trivial (by simp)⟩
    simp only [Effect.delivery?, Option.toList_some, List.length_append, List.length_singleton,
      perform, hm]
    exact .enqueue
  | _ =>
    refine ⟨True, ?_, iff_of_true trivial (by simp)⟩
    simp only [Effect.delivery?, Option.toList_none, List.append_nil, perform]
    exact .stay

/-- An effect of another socket's call is not seen. -/
theorem flow_act_ne {t : Socket} (ht : t ≠ s) (e : Effect) (c : Endpoint) :
    ((n.perform t e).setEndpoint t c).flow s = n.flow s := by
  unfold flow
  rw [setEndpoint_ne ht.symm, perform_endpoints]
  cases e with
  | doData h k =>
    simp [perform, setEndpoint, held, indices_cons_ne s [] (n.nextMessage t ⟨h, k⟩) ht]
  | pushFront h =>
    simp [perform, setEndpoint, held, indices_cons_ne s n.queue (n.nextMessage t ⟨h, h.offset⟩) ht]
  | _ => rfl

theorem flow_setEndpoint {t : Socket} {c : Endpoint} (h : c.issued = (n.endpoints t).issued) :
    (n.setEndpoint t c).flow s = n.flow s := by
  unfold flow
  by_cases ht : s = t
  · subst ht
    rw [setEndpoint_self, h]
    rfl
  · rw [setEndpoint_ne ht]
    rfl

/-- A worker takes the oldest message of the queue. -/
theorem flow_take {w : ℕ} {x : Message} (hw : n.workers[w]? = some .idle)
    (hq : n.queue.getLast? = some x) :
    (n.flow s).Move (Network.flow { n with
      workers := n.workers.set w (.holding x), queue := n.queue.dropLast } s) True := by
  obtain ⟨l, r, hl, hset⟩ := held_of_workers (b := .holding x) hw
  obtain ⟨q, hqx⟩ := List.getLast?_eq_some_iff.mp hq
  have hdrop : n.queue.dropLast = q := by rw [hqx, List.dropLast_concat]
  simp only [Worker.held?, Option.toList_none, Option.toList_some, List.append_nil] at hl hset
  have hflow : Network.flow { n with
      workers := n.workers.set w (.holding x), queue := n.queue.dropLast } s =
        ⟨(n.endpoints s).issued.length, indices s n.started, indices s (l ++ [x] ++ r),
          indices s q⟩ := by
    simp only [flow, held, hset, hdrop]
  rw [hflow]
  by_cases hx : x.socket = s
  · have hmove := Flow.Move.take (f := n.flow s) (l := indices s l) (r := indices s r)
      (q := indices s q) (i := x.index) (by simp only [flow, hl, indices_append])
      (by simp only [flow, hqx, indices_append, indices_cons_self s [] x hx, indices_nil])
    simpa [flow, indices_cons_self s _ x hx] using hmove
  · have hstay : n.flow s = ⟨(n.endpoints s).issued.length, indices s n.started,
        indices s (l ++ [x] ++ r), indices s q⟩ := by
      simp [flow, hl, hqx, indices_cons_ne s _ x hx]
    rw [← hstay]
    exact .stay

/-- A worker starts on the message that it holds. -/
theorem flow_start {w : ℕ} {x : Message} (hw : n.workers[w]? = some (.holding x)) :
    ∃ C, (n.flow s).Move (Network.flow { n with
        workers := n.workers.set w (.running x), started := n.started ++ [x] } s) C ∧
      (C ↔ (x.socket = s → ∀ y ∈ n.held, y.socket = s → x.index ≤ y.index)) := by
  obtain ⟨l, r, hl, hset⟩ := held_of_workers (b := .running x) hw
  simp only [Worker.held?, Option.toList_none, Option.toList_some, List.append_nil] at hl hset
  have hflow : Network.flow { n with
      workers := n.workers.set w (.running x), started := n.started ++ [x] } s =
        ⟨(n.endpoints s).issued.length, indices s (n.started ++ [x]), indices s (l ++ r),
          indices s n.queue⟩ := by
    simp only [flow, held, hset]
  rw [hflow]
  by_cases hx : x.socket = s
  · have hmove := Flow.Move.start (f := n.flow s) (l := indices s l) (r := indices s r)
      (i := x.index) (by simp [flow, hl, indices_cons_self s _ x hx])
    refine ⟨_, by simpa [flow, indices_cons_self s _ x hx] using hmove, ?_⟩
    simp only [mem_indices, hx, true_imp_iff]
    constructor
    · exact fun h y hy hys => h y.index ⟨y, hy, hys, rfl⟩
    · rintro h j ⟨y, hy, hys, rfl⟩
      exact h y hy hys
  · refine ⟨True, ?_, iff_of_true trivial fun h => absurd h hx⟩
    have hstay : n.flow s = ⟨(n.endpoints s).issued.length, indices s (n.started ++ [x]),
        indices s (l ++ r), indices s n.queue⟩ := by
      simp [flow, hl, indices_cons_ne s _ x hx]
    rw [← hstay]
    exact .stay

theorem flow_finish {w : ℕ} {x : Message} (hw : n.workers[w]? = some (.running x)) :
    Network.flow { n with workers := n.workers.set w .idle } s = n.flow s := by
  obtain ⟨l, r, hl, hset⟩ := held_of_workers (b := .idle) hw
  simp only [flow, held, hset] at hl ⊢
  rw [hl]
  rfl

/-- What a step does to the messages of a socket. -/
theorem step_flow {l : Label} (h : n.step m address l = some n') :
    ∃ C, (n.flow s).Move (n'.flow s) C ∧ (C ↔ n.KeepsOrder s l) := by
  have stay : n'.flow s = n.flow s → (n.KeepsOrder s l) →
      ∃ C, (n.flow s).Move (n'.flow s) C ∧ (C ↔ n.KeepsOrder s l) := by
    intro he hk
    rw [he]
    exact ⟨True, .stay, iff_of_true trivial hk⟩
  rcases step_cases h with ⟨t, env, rfl, -, -, rfl⟩ | ⟨t, x, c, rfl, hc, rfl⟩ |
    ⟨t, i, e, c, rfl, hc, rfl⟩ | ⟨w, x, rfl, hw, hq, rfl⟩ | ⟨w, x, rfl, hw, rfl⟩ |
    ⟨w, x, rfl, hw, rfl⟩
  · exact stay (flow_setEndpoint (s := s) (t := t) rfl) trivial
  · exact stay (flow_setEndpoint (complete_issued hc)) trivial
  · by_cases ht : t = s
    · subst ht
      obtain ⟨C, hmove, hC⟩ := flow_act hc
      refine ⟨C, hmove, hC.trans ⟨fun hd _ h k c' hc' => ?_, fun hd h k he => ?_⟩⟩
      · exact hd h k (Prod.mk.inj (Option.some.inj (hc.symm.trans hc'))).1
      · exact hd rfl h k c (he ▸ hc)
    · exact stay (flow_act_ne ht e c) fun h => absurd h ht
  · exact ⟨True, flow_take hw hq, iff_of_true trivial trivial⟩
  · obtain ⟨C, hmove, hC⟩ := flow_start (s := s) hw
    refine ⟨C, hmove, hC.trans ⟨fun hd y hy hys => ?_, fun hd hxs => hd x hw hxs⟩⟩
    obtain rfl : x = y := by simpa using hw.symm.trans hy
    exact hd hys
  · exact stay (flow_finish hw) trivial

/-! ## Messages and packets -/

/-- Every message carries the delivery that has its number. -/
def Genuine (n : Network) : Prop :=
  ∀ x ∈ n.messages, (n.endpoints x.socket).issued[x.index]? = some x.delivery

theorem step_genuine {l : Label} (hi : n.Genuine) (h : n.step m address l = some n') :
    n'.Genuine := by
  intro x hx
  rcases step_messages h hx with hold | ⟨i, e, c, d, hc, hd, he, hn'⟩
  · obtain ⟨rest, hrest⟩ := step_issued h x.socket
    have hx := hi x hold
    rw [← hrest, List.getElem?_append_left (List.getElem?_eq_some_iff.mp hx).1]
    exact hx
  · have hidx : x.index = (n.endpoints x.socket).issued.length := congrArg Message.index he
    have hdel : x.delivery = d := congrArg Message.delivery he
    rw [hn', act_issued hc, hd, hidx, hdel]
    simp

section Runs

variable {func : Bool} {streams : Socket → List UInt8} {shut : Socket → Bool} {threadCount : ℕ}
  {ls : List Label}

theorem start_flow_inv (func : Bool) (streams : Socket → List UInt8) (shut : Socket → Bool)
    (threadCount : ℕ) (s : Socket) : ((start func streams shut threadCount).flow s).Inv := by
  have hheld : (start func streams shut threadCount).held = [] := by
    simp [held, start, Worker.held?]
  constructor <;> simp [flow, hheld] <;> simp [start, Endpoint.fresh]

theorem start_genuine (func : Bool) (streams : Socket → List UInt8) (shut : Socket → Bool)
    (threadCount : ℕ) : (start func streams shut threadCount).Genuine := by
  intro x hx
  simp [start_messages] at hx

/-- A message under way carries a piece of the stream of its connection, the one that its
number says. -/
theorem Inv.message_bytes (hi : n.Inv m address streams shut) (hg : n.Genuine) {x : Message}
    (hx : x ∈ n.messages) :
    (deliverable m (streams x.socket))[x.index]? = some x.delivery.bytes ∧
      x.delivery.len = x.delivery.bytes.length := by
  obtain ⟨fs, hc, rest, hrest⟩ := (hi.endpoint x.socket).reached.delivered_prefix
  have hissued : (n.endpoints x.socket).view.delivered[x.index]? = some x.delivery := by
    have := hg x hx
    rw [Endpoint.view, List.getElem?_append_left (List.getElem?_eq_some_iff.mp this).1]
    exact this
  refine ⟨?_, hc.len _ (List.mem_of_getElem? hissued)⟩
  have hfs : fs[x.index]? = some x.delivery.bytes := by
    rw [← hc.bytes, List.getElem?_map, hissued]
    rfl
  rw [← hrest, List.getElem?_append_left (List.getElem?_eq_some_iff.mp hfs).1]
  exact hfs

/-- The messages of a connection are started in the order of its packets in exactly
those runs in which nothing overtakes; and a message stands for the packet that its
number says, or for the close notice behind the last packet. -/
theorem inOrder_iff_keepsOrder (m : ReceiveManager) (address : Socket → ℕ) (func : Bool)
    (streams : Socket → List UInt8) (shut : Socket → Bool) (threadCount : ℕ) (ls : List Label)
    (n : Network) (h : exec (step m address) (start func streams shut threadCount) ls = some n)
    (s : Socket) (packets : List (List UInt8)) (hp : WellFormed m packets)
    (hs : streams s = packets.flatten) :
    (Always (step m address) (InOrder s) (start func streams shut threadCount) ls ↔
      Along (step m address) (KeepsOrder s) (start func streams shut threadCount) ls) ∧
    ∀ x ∈ n.started, x.socket = s →
      (packets ++ [[]])[x.index]? = some x.delivery.bytes ∧
        x.delivery.len = x.delivery.bytes.length := by
  constructor
  · refine always_iff_along (I := fun n => (n.flow s).Inv) (fun n l n' hi hl => ?_)
      (fun n l n' hi ho hl => ?_) (start_flow_inv func streams shut threadCount s) rfl h
    · obtain ⟨C, hmove, -⟩ := step_flow hl
      exact hmove.inv hi
    · obtain ⟨C, hmove, hC⟩ := step_flow hl
      exact (hmove.inOrder_iff hi ho).trans hC
  · intro x hx hxs
    have hg : n.Genuine := invariant (fun _ _ _ => step_genuine)
      (start_genuine func streams shut threadCount) h
    have hm := (run_inv h).message_bytes hg (x := x) (by simp [messages, hx])
    rwa [hxs, hs, deliverable_packets hp] at hm

def threePackets : List (List UInt8) :=
  [[1, 0, 8, 0, 8, 0, 0, 0], [1, 0, 8, 0, 9, 0, 0, 0, 7], [1, 0, 8, 0, 8, 0, 0, 0]]

/-- Two packets in a first read and one in a second. The first packet is given to `DoData` by
the handler; the others are queued, and workers 5 and 2 start on them. -/
def directThenQueued : List Label :=
  let env : Env := ⟨some 1, some 2, true, fun _ => 0⟩
  [.register 0 env, .act 0 0, .act 0 0, .complete 0 ⟨17, env⟩, .act 0 1, .act 0 0, .act 0 1,
    .act 0 1, .take 5, .act 0 1, .act 0 1, .start 5, .complete 0 ⟨8, env⟩, .act 0 2, .act 0 2,
    .take 2, .start 2, .finish 5]

theorem inOrder_iff_keepsOrder_queued :
    ∃ n, exec (step ⟨32, true, by decide⟩ id)
        (start true (fun _ => threePackets.flatten) (fun _ => true) 8) directThenQueued = some n ∧
      Always (step ⟨32, true, by decide⟩ id) (InOrder 0)
        (start true (fun _ => threePackets.flatten) (fun _ => true) 8) directThenQueued ∧
      n.started.map Message.index = [0, 1, 2] ∧
      ∀ x ∈ n.started, x.socket = 0 →
        (threePackets ++ [[]])[x.index]? = some x.delivery.bytes ∧
          x.delivery.len = x.delivery.bytes.length := by
  have hp : WellFormed ⟨32, true, by decide⟩ threePackets := by
    unfold WellFormed
    decide
  apply exists_exec (by decide +kernel)
  intro n hn
  have hindex : (exec (step ⟨32, true, by decide⟩ id)
      (start true (fun _ => threePackets.flatten) (fun _ => true) 8) directThenQueued).map
      (fun n => n.started.map Message.index) = some [0, 1, 2] := by decide +kernel
  rw [hn] at hindex
  obtain ⟨horder, hbytes⟩ := inOrder_iff_keepsOrder _ _ _ _ _ _ _ _ hn 0 _ hp rfl
  exact ⟨horder.mpr (by decide +kernel), Option.some.inj hindex, hbytes⟩

/-- Three packets in two reads. The first is queued; the second is given to `DoData` by
the handler of the second read before any worker has taken the first. -/
theorem direct_call_overtakes :
    ¬ ∀ (m : ReceiveManager) (address : Socket → ℕ) (func : Bool)
      (streams : Socket → List UInt8) (shut : Socket → Bool) (threadCount : ℕ) (ls : List Label)
      (n : Network) (s : Socket) (packets : List (List UInt8)),
      exec (step m address) (start func streams shut threadCount) ls = some n →
      WellFormed m packets → streams s = packets.flatten →
      Always (step m address) (InOrder s) (start func streams shut threadCount) ls := by
  intro h
  have hrun : (exec (step ⟨16, true, by decide⟩ id)
      (start true (fun _ => (List.replicate 3 [1, 0, 8, 0, 8, 0, 0, 0]).flatten)
        (fun _ => true) 8)
      [.register 0 ⟨some 1, some 2, true, fun _ => 0⟩, .act 0 0, .act 0 0,
        .complete 0 ⟨8, some 3, some 4, true, fun _ => 0⟩, .act 0 1, .act 0 1, .act 0 1, .act 0 1,
        .complete 0 ⟨16, some 5, some 6, true, fun _ => 0⟩, .act 0 2]).map
      (fun n => decide (n.InOrder 0)) = some false := by decide +kernel
  obtain ⟨n, hn, ho⟩ := Option.map_eq_some_iff.mp hrun
  have hp : WellFormed ⟨16, true, by decide⟩ (List.replicate 3 [1, 0, 8, 0, 8, 0, 0, 0]) := by
    unfold WellFormed
    decide
  exact of_decide_eq_false ho ((h _ _ _ _ _ _ _ n 0 _ hn hp rfl).last hn)

end Runs

end Network

end Xiaoxin
