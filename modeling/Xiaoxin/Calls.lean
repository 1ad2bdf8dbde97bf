import Xiaoxin.ReceiveManager

/-!
# The shape of a call

Handlers of different sockets, and the end of one handler and the beginning of the next
on the same socket, may run at the same time. Between two calls only the loud effects
matter: freeing memory is not felt elsewhere.

A call hands messages on, and then either posts the next receive or gives the socket
up; behind that nothing loud follows. Every list of effects that `AsynReceive` or
`PostReceive` produces has this shape (`handle_shape`, `postReceive_shape`).
-/
namespace Xiaoxin
open Framing SendOrRecvMngBase

/-- Constructing and destroying handles and `First` are not felt by other calls. -/
def Effect.loud : Effect → Bool
  | .construct _ => false
  | .destroy _ => false
  | .first _ => false
  | _ => true

/-- Behind a posted receive and behind a deletion no loud effect follows. -/
def Effect.final : Effect → Bool
  | .asyncReceive _ => true
  | .closeAndDelete _ _ => true
  | _ => false

/-- What a call does to the socket manager when it gives a socket up. -/
def Effect.ofManager : Effect → Bool
  | .lockedErase _ => true
  | .closeAndDelete _ _ => true
  | _ => false

def Effect.erase? : Effect → Bool
  | .lockedErase _ => true
  | _ => false

/-- The socket an effect is about. -/
def Effect.socket : Effect → Option Socket
  | .construct h => h.socket
  | .doData h _ => h.socket
  | .pushFront h => h.socket
  | .asyncReceive h => h.socket
  | .asyncWriteSome h => h.socket
  | .closeSocket s => some s
  | .lockedErase s => some s
  | .closeAndDelete s _ => some s
  | .first s => some s
  | .destroy h => h.socket

def loud (es : List Effect) : Bool := es.any Effect.loud

def erases (es : List Effect) : Bool := es.any Effect.erase?

def FinalLast : List Effect → Prop
  | [] => True
  | e :: es => (e.final = true → loud es = false) ∧ FinalLast es

@[simp] theorem loud_nil : loud [] = false := rfl
@[simp] theorem loud_cons (e : Effect) (es : List Effect) :
    loud (e :: es) = (e.loud || loud es) := rfl
@[simp] theorem loud_append (es fs : List Effect) : loud (es ++ fs) = (loud es || loud fs) :=
  List.any_append

@[simp] theorem erases_nil : erases [] = false := rfl
@[simp] theorem erases_cons (e : Effect) (es : List Effect) :
    erases (e :: es) = (e.erase? || erases es) := rfl
@[simp] theorem erases_append (es fs : List Effect) :
    erases (es ++ fs) = (erases es || erases fs) := List.any_append

theorem quiet_iff {es : List Effect} : loud es = false ↔ ∀ e ∈ es, e.loud = false := by
  simp [loud]

theorem Effect.delivery?_of_quiet {e : Effect} (h : e.loud = false) : e.delivery? = none := by
  cases e <;> first | rfl | cases h

theorem Effect.post?_of_quiet {e : Effect} (h : e.loud = false) : e.post? = none := by
  cases e <;> first | rfl | cases h

theorem Effect.closes_of_quiet {e : Effect} (h : e.loud = false) : e.closes = false := by
  cases e <;> first | rfl | cases h

theorem Effect.erase?_of_quiet {e : Effect} (h : e.loud = false) : e.erase? = false := by
  cases e <;> first | rfl | cases h

theorem Effect.ofManager_of_quiet {e : Effect} (h : e.loud = false) : e.ofManager = false := by
  cases e <;> first | rfl | cases h

section Quiet

variable {es : List Effect} (h : loud es = false)
include h

theorem deliveries_of_quiet : deliveries es = [] := by
  unfold deliveries
  rw [List.filterMap_eq_nil_iff]
  exact fun e he => Effect.delivery?_of_quiet (quiet_iff.mp h e he)

theorem posts_of_quiet : posts es = [] := by
  unfold posts
  rw [List.filterMap_eq_nil_iff]
  exact fun e he => Effect.post?_of_quiet (quiet_iff.mp h e he)

theorem closes_of_quiet : closes es = false := by
  unfold closes
  rw [List.any_eq_false]
  exact fun e he => Bool.eq_false_iff.mp (Effect.closes_of_quiet (quiet_iff.mp h e he))

theorem erases_of_quiet : erases es = false := by
  unfold erases
  rw [List.any_eq_false]
  exact fun e he => Bool.eq_false_iff.mp (Effect.erase?_of_quiet (quiet_iff.mp h e he))

end Quiet

theorem finalLast_append_quiet {es fs : List Effect} (h : FinalLast es) (hf : loud fs = false) :
    FinalLast (es ++ fs) := by
  induction es with
  | nil =>
    induction fs with
    | nil => trivial
    | cons f fs ih =>
      simp only [loud_cons, Bool.or_eq_false_iff] at hf
      exact ⟨fun _ => hf.2, ih hf.2⟩
  | cons e es ih => exact ⟨fun he => by simp [h.1 he, hf], ih h.2⟩

theorem finalLast_append {es fs : List Effect} (h : ∀ e ∈ es, e.final = false)
    (hf : FinalLast fs) : FinalLast (es ++ fs) := by
  induction es with
  | nil => exact hf
  | cons e es ih =>
    refine ⟨fun he => ?_, ih fun e' he' => h e' (List.mem_cons_of_mem e he')⟩
    rw [h e (List.mem_cons_self ..)] at he
    cases he

/-- What a call for the socket `s` still has to do. -/
structure Shape (m : ReceiveManager) (s : Socket) (es : List Effect) : Prop where
  socket : ∀ e ∈ es, e.socket = some s
  finalLast : FinalLast es
  /-- Only an attached socket manager is called. -/
  managed : ∀ e ∈ es, e.ofManager = true → m.hasSocketManager = true
  /-- A call does not both post a receive and give the socket up. -/
  exclusive : posts es = [] ∨ erases es = false

theorem Shape.tail {m : ReceiveManager} {s : Socket} {e : Effect} {es : List Effect}
    (h : Shape m s (e :: es)) : Shape m s es where
  socket e' he' := h.socket e' (List.mem_cons_of_mem e he')
  finalLast := h.finalLast.2
  managed e' he' := h.managed e' (List.mem_cons_of_mem e he')
  exclusive := by
    have hx := h.exclusive
    simp only [posts_cons, List.append_eq_nil_iff, erases_cons, Bool.or_eq_false_iff] at hx
    exact hx.imp And.right And.right

/-- Effects that neither end a call nor go to the socket manager. -/
def Effect.plain (e : Effect) : Bool := !e.final && !e.ofManager

theorem Shape.nil {m : ReceiveManager} {s : Socket} : Shape m s [] :=
  ⟨by simp, trivial, by simp, .inl rfl⟩

theorem Shape.after_plain {m : ReceiveManager} {s : Socket} {es fs : List Effect}
    (hs : ∀ e ∈ es, e.socket = some s) (hp : ∀ e ∈ es, e.plain = true) (h : Shape m s fs) :
    Shape m s (es ++ fs) := by
  have hpost : posts es = [] := by
    unfold posts
    rw [List.filterMap_eq_nil_iff]
    intro e he
    have := hp e he
    cases e <;> first | rfl | cases this
  have herase : erases es = false := by
    unfold erases
    rw [List.any_eq_false]
    intro e he
    have := hp e he
    cases e <;> first | exact Bool.false_ne_true | cases this
  have hfin : ∀ e ∈ es, e.final = false ∧ e.ofManager = false := by
    intro e he
    simpa [Effect.plain] using hp e he
  constructor
  · intro e he
    exact (List.mem_append.mp he).elim (hs e) (h.socket e)
  · exact finalLast_append (fun e he => (hfin e he).1) h.finalLast
  · intro e he hm
    rcases List.mem_append.mp he with he | he
    · rw [(hfin e he).2] at hm
      cases hm
    · exact h.managed e he hm
  · rw [posts_append, hpost, erases_append, herase]
    exact h.exclusive

theorem Shape.before_quiet {m : ReceiveManager} {s : Socket} {es fs : List Effect}
    (hs : ∀ e ∈ fs, e.socket = some s) (hq : loud fs = false) (h : Shape m s es) :
    Shape m s (es ++ fs) := by
  constructor
  · intro e he
    exact (List.mem_append.mp he).elim (h.socket e) (hs e)
  · exact finalLast_append_quiet h.finalLast hq
  · intro e he hm
    rcases List.mem_append.mp he with he | he
    · exact h.managed e he hm
    · rw [Effect.ofManager_of_quiet (quiet_iff.mp hq e he)] at hm
      cases hm
  · rw [posts_append, posts_of_quiet hq, List.append_nil, erases_append, erases_of_quiet hq,
      Bool.or_false]
    exact h.exclusive

namespace ReceiveManager

variable {m : ReceiveManager} (env : Env) {s : Socket}

theorem closeSocket_shape (s : Socket) : Shape m s (m.closeSocket (some s)) := by
  cases hm : m.hasSocketManager <;>
    constructor <;>
    simp [closeSocket, hm, SocketManager.socketClosed, SocketManager.socketErrorNotify,
      Effect.socket, FinalLast, Effect.final, Effect.loud, Effect.ofManager, Effect.erase?]

@[simp] theorem closeSocket_erases (s : Socket) :
    erases (m.closeSocket (some s)) = m.hasSocketManager := by
  cases hm : m.hasSocketManager <;>
    simp [closeSocket, hm, SocketManager.socketClosed, SocketManager.socketErrorNotify,
      Effect.erase?]

theorem add_plain {h : PerHandleData} (hs : h.socket = some s) :
    (∀ e ∈ m.add env h, e.socket = some s) ∧ ∀ e ∈ m.add env h, e.plain = true := by
  cases ha : env.queueAlloc <;>
    simp [add, ha, getData_none, getData_eq, dispatch, Effect.socket, hs, PerHandleData.assign,
      Effect.plain, Effect.final, Effect.ofManager]

@[simp] theorem add_erases (h : PerHandleData) : erases (m.add env h) = false := by
  cases ha : env.queueAlloc <;>
    simp [add, ha, getData_none, getData_eq, dispatch, Effect.erase?]

theorem asyncReceive_shape {h : PerHandleData} (hs : h.socket = some s) :
    Shape m s [.asyncReceive h] :=
  ⟨by simpa [Effect.socket] using hs, ⟨fun _ => rfl, trivial⟩, by simp [Effect.ofManager],
    .inr rfl⟩

theorem construct_shape {h : PerHandleData} {es : List Effect} (hs : h.socket = some s)
    (he : Shape m s es) : Shape m s (.construct h :: es) := by
  show Shape m s ([.construct h] ++ es)
  apply he.after_plain
  · simpa [Effect.socket] using hs
  · simp [Effect.plain, Effect.final, Effect.ofManager]

theorem postReceive_shape (s : Socket) : Shape m s (m.postReceive env (some s)) := by
  cases ho : env.isOpen with
  | false => simpa [postReceive, ho] using closeSocket_shape s
  | true =>
    cases ha : env.recvAlloc with
    | none => simpa [postReceive, ho, ha, getData_none] using Shape.nil
    | some a =>
      simp only [postReceive, ho, ha, getData_eq, Bool.true_eq_false, if_false]
      exact construct_shape rfl (asyncReceive_shape rfl)

theorem postReceive_erases (s : Socket) : erases (m.postReceive env (some s)) =
    (m.hasSocketManager && closes (m.postReceive env (some s))) := by
  cases ho : env.isOpen <;> cases ha : env.recvAlloc <;>
    simp [postReceive, ho, ha, getData_none, getData_eq, Effect.erase?]

theorem flag4_shape {h : PerHandleData} (hs : h.socket = some s) : Shape m s (m.flag4 env h) := by
  cases ha : env.recvAlloc with
  | none => simpa [flag4, ha, getData_none] using Shape.nil
  | some a =>
    simp only [flag4, ha, getData_eq, hs]
    refine construct_shape rfl ?_
    cases ho : env.isOpen with
    | false => simpa [postReceiveHandle, ho] using closeSocket_shape s
    | true => simpa [postReceiveHandle, ho] using asyncReceive_shape rfl

theorem flag4_erases {h : PerHandleData} (hs : h.socket = some s) : erases (m.flag4 env h) =
    (m.hasSocketManager && closes (m.flag4 env h)) := by
  cases ho : env.isOpen <;> cases ha : env.recvAlloc <;>
    simp [flag4, postReceiveHandle, ho, ha, hs, getData_none, getData_eq, Effect.erase?]

section Loop

variable {h : PerHandleData} (hb : h.InBuffer m.bufferSize) (hs : h.socket = some s)
include hb hs

theorem receiveLoop_shape : Shape m s (m.receiveLoop env h).effects := by
  induction h, hb using loop_induction with
  | more h hb hv =>
    rw [receiveLoop_more env hb hv]
    exact flag4_shape env hs
  | stop h hb hv =>
    rw [receiveLoop_stop env hb hv]
    exact Shape.nil
  | exact h hb hv =>
    rw [receiveLoop_exact env hb hv]
    simpa using Shape.nil.after_plain (add_plain env hs).1 (add_plain env hs).2
  | frame h hb k hv hpos hlt ih =>
    rw [receiveLoop_frame env hb hv (by omega)]
    show Shape m s ([.doData h k] ++ (m.receiveLoop env (h.advance k)).effects)
    apply (ih hs).after_plain
    · simpa [Effect.socket] using hs
    · simp [Effect.plain, Effect.final, Effect.ofManager]

/-- A loop that leaves nothing over has neither posted nor closed. -/
theorem receiveLoop_plain (h0 : 0 < h.offset)
    (ho : (packetFramer.drain h.window).outcome = .waiting []) :
    (∀ e ∈ (m.receiveLoop env h).effects, e.socket = some s) ∧
      ∀ e ∈ (m.receiveLoop env h).effects, e.plain = true := by
  induction h, hb using loop_induction with
  | more h hb hv =>
    rw [packetFramer.drain_more hv] at ho
    have hw := hb.window_length
    rw [Outcome.waiting.inj ho, List.length_nil] at hw
    omega
  | stop h hb hv =>
    rw [packetFramer.drain_stop hv] at ho
    cases ho
  | exact h hb hv =>
    rw [receiveLoop_exact env hb hv]
    exact add_plain env hs
  | frame h hb k hv hpos hlt ih =>
    rw [packetFramer.drain_frame hv, ← h.window_advance] at ho
    obtain ⟨h1, h2⟩ := ih hs (by rw [PerHandleData.advance_offset]; omega) ho
    rw [receiveLoop_frame env hb hv (by omega)]
    exact ⟨List.forall_mem_cons.mpr ⟨hs, h1⟩, List.forall_mem_cons.mpr ⟨rfl, h2⟩⟩

theorem receiveLoop_erases : erases (m.receiveLoop env h).effects =
    (m.hasSocketManager && closes (m.receiveLoop env h).effects) := by
  induction h, hb using loop_induction with
  | more h hb hv =>
    rw [receiveLoop_more env hb hv]
    exact flag4_erases env hs
  | stop h hb hv =>
    rw [receiveLoop_stop env hb hv]
    simp
  | exact h hb hv =>
    rw [receiveLoop_exact env hb hv]
    simp
  | frame h hb k hv hpos hlt ih =>
    rw [receiveLoop_frame env hb hv (by omega)]
    simpa [Effect.erase?] using ih hs

end Loop

section Handle

variable (a : ℕ) (s : Socket) {rest data : List UInt8}

/-- What a handler does has the shape of a call. -/
theorem handle_shape (hfit : rest.length + data.length ≤ m.bufferSize) :
    Shape m s (m.handle env a s rest data) := by
  by_cases hd : data = []
  · subst hd
    have hadd := add_plain (m := m) (h := m.holding a (some s) rest) env rfl
    have hcl : Shape m s (if rest = [] then m.closeSocket (some s) else []) := by
      split_ifs
      · exact closeSocket_shape s
      · exact Shape.nil
    rw [handle_nil env a s (by simpa using hfit), List.append_assoc]
    refine Shape.after_plain hadd.1 hadd.2 (hcl.before_quiet ?_ rfl)
    simp [Effect.socket]
  · have hb : (m.holding a (some s) (rest ++ data)).InBuffer m.bufferSize :=
      holding_inBuffer (by simpa using hfit) a (some s)
    have h0 : 0 < (m.holding a (some s) (rest ++ data)).offset := by
      have := List.length_pos_iff.mpr hd
      rw [holding_offset, List.length_append]
      omega
    have hloop := receiveLoop_shape env hb rfl
    have hplain := receiveLoop_plain env hb rfl h0
    rw [holding_window] at hplain
    obtain ⟨h, hs, he⟩ := handle_of_bytes env a s hfit hd
    rw [he]
    refine Shape.before_quiet (by simpa [Effect.socket] using hs) rfl ?_
    split_ifs with ho
    · exact (postReceive_shape env s).after_plain (hplain ho).1 (hplain ho).2
    · simpa using hloop

/-- A handler that closes its socket has it erased if a socket manager is attached. -/
theorem handle_erases (hfit : rest.length + data.length ≤ m.bufferSize) :
    erases (m.handle env a s rest data) =
      (m.hasSocketManager && closes (m.handle env a s rest data)) := by
  by_cases hd : data = []
  · subst hd
    rw [handle_nil env a s (by simpa using hfit)]
    split_ifs <;> simp [Effect.erase?]
  · have hb : (m.holding a (some s) (rest ++ data)).InBuffer m.bufferSize :=
      holding_inBuffer (by simpa using hfit) a (some s)
    have hloop := receiveLoop_erases env hb (s := s) rfl
    obtain ⟨h, -, he⟩ := handle_of_bytes env a s hfit hd
    rw [he]
    split_ifs
    · simp [hloop, postReceive_erases, Effect.erase?, Bool.and_or_distrib_left]
    · simp [hloop, Effect.erase?]

end Handle

end ReceiveManager

end Xiaoxin
