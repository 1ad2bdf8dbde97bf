import Xiaoxin.Calls
import Xiaoxin.Connection

/-!
# The server's side of a socket, effect by effect

`Connection` runs a handler to its end at once. An endpoint has the calls that run for
a socket taken apart: each has a list of effects still to come, and any of them may be
the next to do something.

At most one receive is posted or about to be posted, and while one is posted no call
has anything loud left to do. Therefore what an endpoint has done together with what
its calls still have to do is a `Connection`, and it moves only when a receive
completes (`act_view`, `complete_view`).
-/
namespace Xiaoxin
open Framing Connection

structure Endpoint where
  /-- The receives posted and not completed. -/
  posted : List PerHandleData
  /-- What each call made for the socket still has to do. -/
  calls : List (List Effect)
  /-- What the peer sends and no receive has taken yet. -/
  unread : List UInt8
  /-- Whether the peer closes behind its stream. -/
  shut : Bool
  /-- What has been handed on, to `DoData` or to the message queue. -/
  issued : List Delivery
  /-- Whether `CloseSocket` has been called. -/
  asked : Bool
  deriving DecidableEq, Repr

namespace Endpoint

/-- A socket on which nothing has been done. -/
def fresh (stream : List UInt8) (shut : Bool) : Endpoint := ⟨[], [], stream, shut, [], false⟩

/-- What an endpoint will have done when its calls have returned. -/
def view (c : Endpoint) : Connection where
  posted := c.posted ++ posts c.calls.flatten
  delivered := c.issued ++ deliveries c.calls.flatten
  closed := c.asked || closes c.calls.flatten
  unread := c.unread
  shut := c.shut

/-- A call is made. -/
def call (c : Endpoint) (es : List Effect) : Endpoint := { c with calls := c.calls ++ [es] }

/-- The posted receive completes and its handler is called. -/
def complete (m : ReceiveManager) (c : Endpoint) (x : Completion) : Option Endpoint :=
  match c.posted with
  | [] => none
  | h :: hs =>
    if c.view.Completes m h x.bytesTransferred then
      let data := c.unread.take x.bytesTransferred
      some (call { c with posted := hs, unread := c.unread.drop x.bytesTransferred }
        (m.asynReceive x.env (h.fill data) x.bytesTransferred))
    else none

/-- What an effect does to the endpoint. -/
def perform (c : Endpoint) : Effect → Endpoint
  | .doData h n => { c with issued := c.issued ++ [⟨h, n⟩] }
  | .pushFront h => { c with issued := c.issued ++ [⟨h, h.offset⟩] }
  | .asyncReceive h => { c with posted := c.posted ++ [h] }
  | .closeSocket _ => { c with asked := true }
  | _ => c

/-- The `i`-th call does the next thing. -/
def act (c : Endpoint) (i : ℕ) : Option (Effect × Endpoint) :=
  match c.calls[i]? with
  | some (e :: es) => some (e, { c with calls := c.calls.set i es }.perform e)
  | _ => none

/-- No call is running. -/
def Idle (c : Endpoint) : Prop := ∀ es ∈ c.calls, es = []

instance (c : Endpoint) : Decidable c.Idle := by
  unfold Idle
  infer_instance

/-- The receives posted, and the calls that may still post one. -/
def tokens (c : Endpoint) : ℕ := c.posted.length + c.calls.countP loud

structure Inv (m : ReceiveManager) (s : Socket) (stream : List UInt8) (c : Endpoint) : Prop where
  tokens : c.tokens ≤ 1
  shape : ∀ es ∈ c.calls, Shape m s es
  reached : c.view.Reached m s stream

variable {m : ReceiveManager} {s : Socket} {stream : List UInt8} {c d : Endpoint}

theorem act_cases {i : ℕ} {e : Effect} (h : c.act i = some (e, d)) :
    ∃ l es r, c.calls = l ++ (e :: es) :: r ∧
      d = { c with calls := l ++ es :: r }.perform e := by
  unfold act at h
  split at h
  · rename_i e' es hi
    obtain ⟨rfl, rfl⟩ := Prod.mk.inj (Option.some.inj h)
    have hlt : i < c.calls.length := (List.getElem?_eq_some_iff.mp hi).1
    have hget : c.calls[i] = e' :: es := (List.getElem?_eq_some_iff.mp hi).2
    obtain ⟨l, r, hl, -, hset⟩ := @List.exists_of_set _ i es _ hlt
    exact ⟨l, es, r, by rw [hl, hget], by rw [hset]⟩
  · cases h

@[simp] theorem perform_posted (e : Effect) :
    (c.perform e).posted = c.posted ++ e.post?.toList := by
  cases e <;> simp [perform]

@[simp] theorem perform_issued (e : Effect) :
    (c.perform e).issued = c.issued ++ e.delivery?.toList := by
  cases e <;> simp [perform]

@[simp] theorem perform_asked (e : Effect) : (c.perform e).asked = (c.asked || e.closes) := by
  cases e <;> simp [perform]

@[simp] theorem perform_calls (e : Effect) : (c.perform e).calls = c.calls := by
  cases e <;> rfl

@[simp] theorem perform_unread (e : Effect) : (c.perform e).unread = c.unread := by
  cases e <;> rfl

@[simp] theorem perform_shut (e : Effect) : (c.perform e).shut = c.shut := by
  cases e <;> rfl

theorem quiet_flatten {l : List (List Effect)} (h : l.countP loud = 0) :
    loud l.flatten = false := by
  rw [quiet_iff]
  intro e he
  obtain ⟨es, hes, he⟩ := List.mem_flatten.mp he
  exact quiet_iff.mp (Bool.eq_false_iff.mpr (List.countP_eq_zero.mp h es hes)) e he

/-- An effect of a call carries over what was still to do into what is done. -/
theorem act_view {i : ℕ} {e : Effect} (ht : c.tokens ≤ 1) (h : c.act i = some (e, d)) :
    d.view = c.view := by
  obtain ⟨l, es, r, hc, rfl⟩ := act_cases h
  by_cases hq : e.loud = false
  · simp [view, hc, -Effect.post?, -Effect.delivery?, -Effect.closes, Effect.post?_of_quiet hq,
      Effect.delivery?_of_quiet hq, Effect.closes_of_quiet hq]
  · have hloud : e.loud = true := by simpa using hq
    -- a loud call holds the only token, so nothing else is posted or still to be done
    simp only [tokens, hc, List.countP_append, List.countP_cons, loud_cons, hloud, Bool.true_or,
      if_true] at ht
    have hp : c.posted = [] := List.length_eq_zero_iff.mp (by omega)
    have hl : loud l.flatten = false := quiet_flatten (by omega)
    have hr : loud r.flatten = false := quiet_flatten (by omega)
    simp [view, hc, hp, posts_of_quiet hl, posts_of_quiet hr, deliveries_of_quiet hl,
      deliveries_of_quiet hr, closes_of_quiet hl, closes_of_quiet hr, Bool.or_assoc]

theorem act_tokens {i : ℕ} {e : Effect} (hi : c.Inv m s stream) (h : c.act i = some (e, d)) :
    d.tokens ≤ c.tokens := by
  obtain ⟨l, es, r, hc, rfl⟩ := act_cases h
  have hshape := (hi.shape (e :: es) (by simp [hc])).finalLast.1
  have hmono : loud es = true → loud (e :: es) = true := fun hl => by simp [hl]
  simp only [tokens, hc, perform_posted, perform_calls, List.length_append, List.countP_append,
    List.countP_cons]
  cases hp : e.post? with
  | none =>
    simp only [Option.toList_none, List.length_nil]
    split_ifs with h1 h2
    all_goals first | omega | exact absurd (hmono h1) h2
  | some g =>
    obtain rfl : e = .asyncReceive g := by cases e <;> simp_all
    have hq : loud es = false := hshape rfl
    simp [hq, Effect.loud]
    omega

theorem act_inv {i : ℕ} {e : Effect} (hi : c.Inv m s stream) (h : c.act i = some (e, d)) :
    d.Inv m s stream := by
  refine ⟨(act_tokens hi h).trans hi.tokens, ?_, act_view hi.tokens h ▸ hi.reached⟩
  obtain ⟨l, es, r, hc, rfl⟩ := act_cases h
  intro es' hes'
  simp only [perform_calls, List.mem_append, List.mem_cons] at hes'
  rcases hes' with hl | rfl | hr
  · exact hi.shape es' (by simp [hc, hl])
  · exact (hi.shape (e :: es') (by simp [hc])).tail
  · exact hi.shape es' (by simp [hc, hr])

theorem act_socket {i : ℕ} {e : Effect} (hi : c.Inv m s stream) (h : c.act i = some (e, d)) :
    e.socket = some s := by
  obtain ⟨l, es, r, hc, -⟩ := act_cases h
  exact (hi.shape (e :: es) (by simp [hc])).socket e (List.mem_cons_self ..)

theorem act_managed {i : ℕ} {e : Effect} (hi : c.Inv m s stream) (h : c.act i = some (e, d)) :
    e.ofManager = true → m.hasSocketManager = true := by
  obtain ⟨l, es, r, hc, -⟩ := act_cases h
  exact (hi.shape (e :: es) (by simp [hc])).managed e (List.mem_cons_self ..)

theorem act_loud {i : ℕ} {e : Effect} (h : c.act i = some (e, d)) (he : e.loud = true) :
    0 < c.tokens := by
  obtain ⟨l, es, r, hc, -⟩ := act_cases h
  simp [tokens, hc, he]

/-- Before a call gives its socket up no receive is posted, and none will be. -/
theorem act_erase {i : ℕ} {e : Effect} (hi : c.Inv m s stream) (h : c.act i = some (e, d))
    (he : e.erase? = true) : c.view.posted = [] := by
  have hloud : e.loud = true := by cases e <;> first | rfl | cases he
  obtain ⟨l, es, r, hc, -⟩ := act_cases h
  have ht := hi.tokens
  simp only [Endpoint.tokens, hc, List.countP_append, List.countP_cons, loud_cons, hloud,
    Bool.true_or, if_true] at ht
  have hp : c.posted = [] := List.length_eq_zero_iff.mp (by omega)
  have hl : loud l.flatten = false := quiet_flatten (by omega)
  have hr : loud r.flatten = false := quiet_flatten (by omega)
  have hes : posts (e :: es) = [] :=
    (hi.shape (e :: es) (by simp [hc])).exclusive.resolve_right (by simp [he])
  simp only [view, hp, hc, List.flatten_append, List.flatten_cons, posts_append,
    posts_of_quiet hl, posts_of_quiet hr, hes, List.append_nil]

/-- Behind a final effect nothing loud is left, unless it has posted a receive. -/
theorem act_final {i : ℕ} {e : Effect} (hi : c.Inv m s stream) (h : c.act i = some (e, d))
    (he : e.final = true) (hp : e.post? = none) : d.tokens = 0 := by
  have hloud : e.loud = true := by cases e <;> first | rfl | cases he
  obtain ⟨l, es, r, hc, rfl⟩ := act_cases h
  have ht := hi.tokens
  have hq := (hi.shape (e :: es) (by simp [hc])).finalLast.1 he
  simp only [Endpoint.tokens, hc, List.countP_append, List.countP_cons, loud_cons, hloud,
    Bool.true_or, if_true] at ht
  simp only [tokens, perform_posted, perform_calls, hp, Option.toList_none, List.append_nil,
    List.countP_append, List.countP_cons, hq, Bool.false_eq_true, if_false]
  omega

/-- The receive that completes is the only one, and no call has anything loud to do. -/
theorem Inv.posted_cons {h : PerHandleData} {hs : List PerHandleData} (hi : c.Inv m s stream)
    (hp : c.posted = h :: hs) : hs = [] ∧ c.calls.countP loud = 0 := by
  have ht := hi.tokens
  simp only [Endpoint.tokens, hp, List.length_cons] at ht
  exact ⟨List.length_eq_zero_iff.mp (by omega), by omega⟩

/-- A posted receive holds what has been received of the next packet. -/
theorem Inv.live {h : PerHandleData} {hs : List PerHandleData} (hi : c.Inv m s stream)
    (hp : c.posted = h :: hs) :
    ∃ ds r a, c.view.Live m s stream ds r ∧ h = m.holding a (some s) r := by
  have hv : c.view.posted = [h] := by
    obtain ⟨rfl, hq⟩ := hi.posted_cons hp
    simp [view, hp, posts_of_quiet (quiet_flatten hq)]
  obtain ⟨ds, r, hl⟩ := hi.reached.live (by simp [hv])
  obtain ⟨a, ha⟩ := hl.posted
  rw [hv] at ha
  exact ⟨ds, r, a, hl, (List.cons.inj ha).1⟩

/-- A completion runs the handler that the connection runs at once. -/
theorem complete_cases {x : Completion} (hi : c.Inv m s stream)
    (h : c.complete m x = some d) :
    ∃ ds r a, c.view.Live m s stream ds r ∧ c.posted = [m.holding a (some s) r] ∧
      c.calls.countP loud = 0 ∧ r.length + x.bytesTransferred ≤ m.bufferSize ∧
      x.bytesTransferred ≤ c.unread.length ∧
      d = call { c with posted := [], unread := c.unread.drop x.bytesTransferred }
        (m.handle x.env a s r (c.unread.take x.bytesTransferred)) := by
  unfold complete at h
  split at h
  · cases h
  · rename_i g gs hp
    obtain ⟨ds, r, a, hl, rfl⟩ := hi.live hp
    obtain ⟨rfl, hq⟩ := hi.posted_cons hp
    split_ifs at h with hc
    have hfits := hl.fits
    have hroom : x.bytesTransferred ≤ m.bufferSize - r.length := hc.1
    have hun : x.bytesTransferred ≤ c.unread.length := hc.2.1
    refine ⟨ds, r, a, hl, hp, hq, by omega, hun, ?_⟩
    rw [← Option.some.inj h, ReceiveManager.handle, List.length_take, Nat.min_eq_left hun]

theorem complete_view {x : Completion} (hi : c.Inv m s stream) (h : c.complete m x = some d) :
    c.view.step m x = some d.view := by
  obtain ⟨ds, r, a, hl, hp, hq, -⟩ := complete_cases hi h
  have hf := quiet_flatten hq
  unfold complete at h
  simp only [hp] at h
  split_ifs at h with hc
  have hv : c.view.posted = [m.holding a (some s) r] := by simp [view, hp, posts_of_quiet hf]
  rw [Connection.step, hv]
  simp only [if_pos hc, ← Option.some.inj h]
  simp [view, call, Connection.apply, hp, posts_of_quiet hf, deliveries_of_quiet hf,
    closes_of_quiet hf]

theorem complete_inv {x : Completion} (hi : c.Inv m s stream) (h : c.complete m x = some d) :
    d.Inv m s stream := by
  refine ⟨?_, ?_, hi.reached.step (complete_view hi h)⟩
  · obtain ⟨ds, r, a, hl, hp, hq, hfit, hun, rfl⟩ := complete_cases hi h
    simp only [tokens, call, List.length_nil, List.countP_append, hq, List.countP_singleton]
    split_ifs <;> omega
  · obtain ⟨ds, r, a, hl, hp, hq, hfit, hun, rfl⟩ := complete_cases hi h
    intro es hes
    simp only [call, List.mem_append, List.mem_singleton] at hes
    rcases hes with hes | rfl
    · exact hi.shape es hes
    · refine ReceiveManager.handle_shape x.env a s ?_
      rw [List.length_take, Nat.min_eq_left hun]
      exact hfit

theorem fresh_inv (m : ReceiveManager) (s : Socket) (stream : List UInt8) (shut : Bool) :
    (fresh stream shut).Inv m s stream where
  tokens := Nat.zero_le 1
  shape := by simp [fresh]
  reached := .inr ⟨rfl, [], framing m stream, Carries.nil, rfl⟩

end Endpoint

end Xiaoxin
