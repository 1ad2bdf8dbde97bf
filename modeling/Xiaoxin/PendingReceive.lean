import Xiaoxin.Network

/-!
# One pending receive at a time

The next receive is posted in two places: by `AsynReceive`, when `Receive` returns true,
and inside `Receive` at `FALG_4`. A call that comes through one of them does not come
through the other, and on either path it has handed on every byte that the new receive
does not hold. A socket that has been registered once therefore has at most one receive
that is posted and has not completed.
-/
namespace Xiaoxin
open Framing Connection Transition

namespace ReceiveManager

/-- The path on which a call of `AsynReceive` posts the receive `p`; `h` is the handle as
`Receive` gets it. -/
inductive PostPath (m : ReceiveManager) (env : Env) (h : PerHandleData) (bytesTransferred : ℕ)
    (p : PerHandleData) : Prop
  /-- `Receive` returned true and has posted nothing itself. -/
  | returned (hr : (m.receive env h bytesTransferred).result = true)
      (hn : posts (m.receive env h bytesTransferred).effects = [])
      (hp : p ∈ posts (m.postReceive env (m.receive env h bytesTransferred).handledata.socket))
  /-- `Receive` ended at `FALG_4`, on the handle `g`, and returned false. -/
  | flag4 (es : List Effect) (g : PerHandleData)
      (hr : m.receive env h bytesTransferred = ⟨es ++ m.flag4 env g, g, false⟩)
      (hn : posts es = []) (hp : p ∈ posts (m.flag4 env g))

variable {m : ReceiveManager} (env : Env)

/-- How the loop ends: with nothing posted, or at `FALG_4` and with the result false. -/
theorem receiveLoop_paths {h : PerHandleData} (hb : h.InBuffer m.bufferSize) :
    posts (m.receiveLoop env h).effects = [] ∨
      ∃ es g, m.receiveLoop env h = ⟨es ++ m.flag4 env g, g, false⟩ ∧ posts es = [] := by
  induction h, hb using loop_induction with
  | more h hb hv => exact .inr ⟨[], h, receiveLoop_more env hb hv, rfl⟩
  | stop h hb hv => exact .inl (by rw [receiveLoop_stop env hb hv]; rfl)
  | exact h hb hv => exact .inl (by rw [receiveLoop_exact env hb hv]; exact add_posts h)
  | frame h hb k hv hpos hlt ih =>
    rw [receiveLoop_frame env hb hv hlt.ne]
    rcases ih with ih | ⟨es, g, he, hes⟩
    · exact .inl (by simpa using ih)
    · refine .inr ⟨.doData h k :: es, g, ?_, by simpa using hes⟩
      rw [he]
      rfl

/-- Whatever a call posts, it posts on one of the two paths. -/
theorem asynReceive_paths {h : PerHandleData} {bytesTransferred : ℕ}
    (hb : { h with offset := u32 (h.offset + bytesTransferred) }.InBuffer m.bufferSize)
    {p : PerHandleData} (hp : p ∈ posts (m.asynReceive env h bytesTransferred)) :
    m.PostPath env { h with offset := u32 (h.offset + bytesTransferred) } bytesTransferred p := by
  have hrel : ∀ g, posts (SendOrRecvMngBase.releaseMemory m.closeSocket g) = [] := by
    intro g
    simp only [SendOrRecvMngBase.releaseMemory]
    split_ifs <;> simp
  simp only [asynReceive, posts_append, hrel, List.append_nil, List.mem_append] at hp
  generalize { h with offset := u32 (h.offset + bytesTransferred) } = g at hb hp ⊢
  by_cases h0 : bytesTransferred = 0
  · simp [receive, h0] at hp
  · have hr : m.receive env g bytesTransferred = m.receiveLoop env g := if_neg h0
    rcases receiveLoop_paths env hb with hn | ⟨es, f, he, hes⟩
    · rw [← hr] at hn
      rw [hn] at hp
      split_ifs at hp with ht
      · exact .returned ht hn (by simpa using hp)
      · simp at hp
    · rw [← hr] at he
      simp only [he, posts_append, hes, List.nil_append, Bool.false_eq_true, if_false, posts_nil,
        List.not_mem_nil, or_false] at hp
      exact .flag4 es f he hes hp

section Handle

variable (a : ℕ) (s : Socket) {rest data : List UInt8}
  (hfit : rest.length + data.length ≤ m.bufferSize)
include hfit

/-- One call posts at most one receive. -/
theorem handle_posts_length : (posts (m.handle env a s rest data)).length ≤ 1 := by
  by_cases hd : data = []
  · subst hd
    rw [handle_nil_posts env a s (by simpa using hfit)]
    exact Nat.zero_le 1
  · rw [handle_posts env a s hfit hd]
    split
    · exact nextReceive_length _ _
    · exact Nat.zero_le 1

/-- What a call has handed on and what the receive it posts holds are all the bytes that
it had. -/
theorem handle_hands_over {p : PerHandleData} (hp : p ∈ posts (m.handle env a s rest data)) :
    p.socket = some s ∧
      ((deliveries (m.handle env a s rest data)).map Delivery.bytes).flatten ++ p.window =
        rest ++ data := by
  by_cases hd : data = []
  · subst hd
    rw [handle_nil_posts env a s (by simpa using hfit)] at hp
    cases hp
  · rw [handle_posts env a s hfit hd] at hp
    cases ho : (packetFramer.drain (rest ++ data)).outcome with
    | ended =>
      rw [ho] at hp
      cases hp
    | waiting r =>
      rw [ho] at hp
      obtain ⟨b, rfl⟩ := mem_nextReceive hp
      rw [(handle_carries env a s hfit hd).bytes, holding_window]
      exact ⟨rfl, packetFramer.flatten_frames_append ho⟩

end Handle

end ReceiveManager

/-- What the call `es` posts, which is made when the receive `g` for the socket `s` has
brought `data`. -/
structure PostsNext (m : ReceiveManager) (s : Socket) (x : Completion) (g : PerHandleData)
    (data : List UInt8) (es : List Effect) : Prop where
  call : es = m.asynReceive x.env (g.fill data) x.bytesTransferred
  once : (posts es).length ≤ 1
  path : ∀ p ∈ posts es, m.PostPath x.env
    { g.fill data with offset := u32 ((g.fill data).offset + x.bytesTransferred) }
    x.bytesTransferred p
  socket : ∀ p ∈ posts es, p.socket = some s
  /-- What was handed on and what the new receive holds are all the bytes there were. -/
  handsOver : ∀ p ∈ posts es,
    ((deliveries es).map Delivery.bytes).flatten ++ p.window = g.window ++ data

theorem handle_postsNext {m : ReceiveManager} {x : Completion} (a : ℕ) (s : Socket)
    {rest data : List UInt8} (hfit : rest.length + data.length ≤ m.bufferSize)
    (hlen : data.length = x.bytesTransferred) :
    PostsNext m s x (m.holding a (some s) rest) data (m.handle x.env a s rest data) where
  call := by rw [ReceiveManager.handle, hlen]
  once := ReceiveManager.handle_posts_length x.env a s hfit
  path p hp := by
    rw [ReceiveManager.handle, hlen] at hp
    refine ReceiveManager.asynReceive_paths x.env ?_ hp
    have hfill := ReceiveManager.holding_fill a (some s) hfit
    rw [hlen] at hfill
    exact hfill ▸ ReceiveManager.holding_inBuffer (by simpa using hfit) a (some s)
  socket p hp := (ReceiveManager.handle_hands_over x.env a s hfit hp).1
  handsOver p hp := by
    rw [ReceiveManager.holding_window]
    exact (ReceiveManager.handle_hands_over x.env a s hfit hp).2

namespace Network

/-- Whatever bytes come and however the threads interleave, a socket that has been
registered once has at most one receive pending; and its completion makes one call, which
posts at most one more, on a path on which it has handed on all other bytes. -/
theorem one_pending_receive (m : ReceiveManager) (address : Socket → ℕ) (func : Bool)
    (streams : Socket → List UInt8) (shut : Socket → Bool) (threadCount : ℕ) (ls : List Label)
    (n : Network)
    (h : exec (step m address) (start func streams shut threadCount) ls = some n) (s : Socket) :
    (n.endpoints s).posted.length ≤ 1 ∧
    ∀ x n', n.step m address (.complete s x) = some n' →
      ∃ g es, (n.endpoints s).posted = [g] ∧ (n'.endpoints s).posted = [] ∧
        (n'.endpoints s).calls = (n.endpoints s).calls ++ [es] ∧
        PostsNext m s x g ((n.endpoints s).unread.take x.bytesTransferred) es := by
  have hi := (run_inv h).endpoint s
  constructor
  · have ht := hi.tokens
    simp only [Endpoint.tokens] at ht
    omega
  · intro x n' hs
    obtain ⟨c, hc, rfl⟩ := Option.map_eq_some_iff.mp hs
    obtain ⟨ds, r, a, hl, hp, -, hfit, hun, rfl⟩ := Endpoint.complete_cases hi hc
    have hlen : ((n.endpoints s).unread.take x.bytesTransferred).length = x.bytesTransferred := by
      rw [List.length_take, Nat.min_eq_left hun]
    refine ⟨_, _, hp, ?_, ?_, handle_postsNext a s (by omega) hlen⟩
    · simp [Endpoint.call]
    · simp [Endpoint.call]

/-- A packet and three bytes of the next one in the first read. -/
theorem one_pending_receive_partial :
    ∃ n, exec (step ⟨16, true, by decide⟩ id)
        (start true (fun _ => [1, 0, 8, 0, 8, 0, 0, 0, 1, 0, 8, 0, 9]) (fun _ => true) 8)
        [.register 0 ⟨some 1, some 2, true, fun _ => 0⟩, .act 0 0, .act 0 0,
          .complete 0 ⟨11, some 3, some 4, true, fun _ => 0⟩, .act 0 0, .act 0 1, .act 0 1,
          .act 0 1] = some n ∧
      (n.endpoints 0).posted.length ≤ 1 ∧
      ∀ x n', n.step ⟨16, true, by decide⟩ id (.complete 0 x) = some n' →
        ∃ g es, (n.endpoints 0).posted = [g] ∧ (n'.endpoints 0).posted = [] ∧
          (n'.endpoints 0).calls = (n.endpoints 0).calls ++ [es] ∧
          PostsNext ⟨16, true, by decide⟩ 0 x g
            ((n.endpoints 0).unread.take x.bytesTransferred) es := by
  apply exists_exec (by decide +kernel)
  intro n hn
  exact one_pending_receive _ _ _ _ _ _ _ _ hn 0

end Network

end Xiaoxin
