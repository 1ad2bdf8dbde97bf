import Xiaoxin.HandlePools

/-!
# No handle is released twice, and which are lost

What the calls do with handles is computed from their effects: all of them pass on only
what they have in hand, and most end with empty hands. Two do not. `FALG_4` makes a
handle for the rest of a packet and gives it to `PostReceive`, which drops it if the
socket is not open; and `PostError` drops its handle if `PostSend` refuses it.
-/
namespace Xiaoxin
open Framing Hands SendOrRecvMngBase Transition

/-! ## What the calls do with handles -/

/-- Effects that leave every hand as it is. -/
def Neutral (es : List Effect) : Prop := spend Effect.deed 0 es = some 0

theorem Neutral.spend {es : List Effect} (h : Neutral es) (u : Multiset ℕ) :
    spend Effect.deed u es = some u := spend_of_zero h u

theorem neutral_nil : Neutral [] := rfl

theorem spend_construct (u : Multiset ℕ) (h : PerHandleData) (es : List Effect) :
    spend Effect.deed u (.construct h :: es) = spend Effect.deed ({h.address} + u) es :=
  spend_make rfl

/-- To make a handle and pass it on. -/
theorem neutral_make {g h : PerHandleData} {e : Effect} (ha : h.address = g.address)
    (he : e.deed = .pass h.address) : Neutral [.construct g, e] := by
  rw [ha] at he
  rw [Neutral, spend_construct, spend_pass he, spend_nil]

/-- To release what is in hand. -/
theorem spend_releaseMemory {closeSocket : Option Socket → List Effect}
    (hc : ∀ s, Neutral (closeSocket s)) (h : PerHandleData) :
    spend Effect.deed {h.address} (releaseMemory closeSocket h) = some 0 := by
  have hn : Neutral (if h.socket ≠ none ∧ h.offset = 0 then closeSocket h.socket else []) := by
    split_ifs
    · exact hc _
    · exact neutral_nil
  rw [releaseMemory, spend_append_of_eq (hn.spend _), ← add_zero ({h.address} : Multiset ℕ)]
  exact spend_pass rfl

namespace ReceiveManager

variable {m : ReceiveManager} (env : Env)

theorem closeSocket_neutral (s : Option Socket) : Neutral (m.closeSocket s) := by
  cases s with
  | none => exact neutral_nil
  | some s =>
    simp only [closeSocket]
    split_ifs <;> rfl

theorem add_neutral (h : PerHandleData) : Neutral (m.add env h) := by
  cases ha : env.queueAlloc with
  | none =>
    rw [add, ha, getData_none]
    rfl
  | some a =>
    rw [add, ha, getData_eq]
    exact neutral_make (h := (m.holding a h.socket []).assign env.past h) rfl rfl

theorem postReceive_neutral (s : Option Socket) : Neutral (m.postReceive env s) := by
  rw [postReceive]
  split_ifs
  · exact closeSocket_neutral s
  · cases ha : env.recvAlloc with
    | none => exact neutral_nil
    | some a => exact neutral_make (h := m.holding a s []) rfl rfl

/-- The handle that a closed socket costs. -/
def lostHandle (env : Env) : Multiset ℕ :=
  if env.isOpen then 0 else env.recvAlloc.elim 0 (fun a => {a})

/-- `FALG_4` gives its new handle to `PostReceive`, which drops it if the socket is not
open. -/
theorem spend_flag4 (h : PerHandleData) :
    spend Effect.deed 0 (m.flag4 env h) = some (lostHandle env) := by
  cases ha : env.recvAlloc with
  | none => simp [flag4, lostHandle, ha, getData_none]
  | some a =>
    simp only [flag4, lostHandle, ha, getData_eq, postReceiveHandle, Option.elim_some]
    cases ho : env.isOpen with
    | false =>
      rw [if_pos rfl, if_neg Bool.false_ne_true, spend_construct, add_zero]
      exact (closeSocket_neutral _).spend _
    | true => exact neutral_make (h := m.holding a h.socket []) rfl rfl

/-- What the loop loses of the bytes `w`. -/
def lostBy (env : Env) (w : List UInt8) : Multiset ℕ :=
  match (packetFramer.drain w).outcome with
  | .waiting r => if r = [] then 0 else lostHandle env
  | .ended => 0

theorem spend_receiveLoop {h : PerHandleData} (hb : h.InBuffer m.bufferSize)
    (h0 : 0 < h.offset) :
    spend Effect.deed 0 (m.receiveLoop env h).effects = some (lostBy env h.window) := by
  induction h, hb using loop_induction with
  | more h hb hv =>
    have hne : h.window ≠ [] := by
      rw [← List.length_pos_iff, hb.window_length]
      exact h0
    rw [receiveLoop_more env hb hv, lostBy, packetFramer.drain_more hv]
    simpa only [if_neg hne] using spend_flag4 env h
  | stop h hb hv =>
    rw [receiveLoop_stop env hb hv, lostBy, packetFramer.drain_stop hv]
    rfl
  | exact h hb hv =>
    rw [receiveLoop_exact env hb hv, lostBy, packetFramer.drain_frame hv, ← hb.window_length,
      List.drop_length, packetFramer.drain_more (w := []) (by rfl)]
    exact add_neutral env h
  | frame h hb k hv hpos hlt ih =>
    rw [receiveLoop_frame env hb hv hlt.ne, lostBy, packetFramer.drain_frame hv,
      ← h.window_advance]
    exact ih (by rw [PerHandleData.advance_offset]; omega)

/-- A call of `AsynReceive` releases the handle that it was called with, and loses at most
the one that it makes for the rest of a packet. -/
theorem spend_handle (a : ℕ) (s : Socket) {rest data : List UInt8}
    (hfit : rest.length + data.length ≤ m.bufferSize) :
    spend Effect.deed {a} (m.handle env a s rest data) =
      some (if data = [] then 0 else lostBy env (rest ++ data)) := by
  have hrel (h : PerHandleData) (ha : h.address = a) (u : Multiset ℕ) :
      spend Effect.deed ({a} + u) (releaseMemory m.closeSocket { h with buffer := 0 }) =
        some u := by
    subst ha
    have hone := spend_add (spend_releaseMemory (closeSocket_neutral (m := m))
      { h with buffer := 0 }) u
    rwa [zero_add] at hone
  have hpost (b : Bool) (t : Option Socket) :
      Neutral (if b = true then m.postReceive env t else []) := by
    split_ifs
    · exact postReceive_neutral env t
    · exact neutral_nil
  rw [handle_eq env a s hfit]
  simp only [receive]
  by_cases hd : data = []
  · subst hd
    simp only [List.length_nil, if_true]
    rw [List.append_assoc, spend_append_of_eq ((add_neutral env _).spend _),
      spend_append_of_eq ((hpost _ _).spend _)]
    exact hrel _ rfl 0
  · have hb : (m.holding a (some s) (rest ++ data)).InBuffer m.bufferSize :=
      holding_inBuffer (by simpa using hfit) a (some s)
    have hlen : data.length ≠ 0 := by simpa using hd
    have h0 : 0 < (m.holding a (some s) (rest ++ data)).offset := by
      rw [holding_offset, List.length_append]
      omega
    obtain ⟨k, -, hk⟩ := receiveLoop_handledata env hb h0
    have hloop := spend_add (spend_receiveLoop env hb h0) {a}
    rw [holding_window, zero_add, add_comm] at hloop
    simp only [if_neg hlen, if_neg hd]
    rw [List.append_assoc, spend_append_of_eq hloop, spend_append_of_eq ((hpost _ _).spend _), hk]
    exact hrel _ rfl _

end ReceiveManager

namespace SendManager

variable {m : SendManager}

/-- `GetData` makes the handle at the address that it finds. -/
theorem getDataSized_address {address : Option ℕ} {socket : Option Socket}
    {category protocol wholePacketSize : ℤ} {packet : EPacketType} {device : EDeviceType}
    {h : PerHandleData}
    (hg : m.getDataSized address socket category protocol wholePacketSize packet device = some h) :
    address = some h.address ∧ h.socket = socket ∧ h.offset = toUnsigned 32 wholePacketSize := by
  simp only [getDataSized, getData, SendOrRecvMngBase.getData, Option.map_map,
    Option.map_eq_some_iff] at hg
  obtain ⟨a, ha, rfl⟩ := hg
  exact ⟨ha, rfl, rfl⟩

/-- `PostError` loses its handle when `PostSend` refuses it. -/
theorem spend_postError (address : Option ℕ) (socket : Option Socket)
    (errorcode category protocol : ℤ) (packet : EPacketType) (device : EDeviceType) :
    spend Effect.deed 0
        (m.postError address socket errorcode category protocol packet device).2 =
      some (if socket ≠ none ∧ messageErrorSize ≤ m.bufferSize then 0
        else address.elim 0 (fun a => {a})) := by
  rw [postError]
  cases hg : m.getDataSized address socket category protocol messageErrorSize packet device with
  | none =>
    have ha : address = none := by
      cases address with
      | none => rfl
      | some a => cases hg
    simp [ha]
  | some d =>
    obtain ⟨rfl, hs, ho⟩ := getDataSized_address hg
    have h16 : toUnsigned 32 (messageErrorSize : ℕ) = messageErrorSize := by decide
    rw [h16] at ho
    simp only [postSend, PerHandleData.poke_socket, PerHandleData.poke_offset, hs, ho,
      Option.elim_some]
    by_cases hn : socket = none
    · rw [if_pos hn, if_neg (fun h => h.1 hn), spend_construct, add_zero, spend_nil]
    · by_cases hle : messageErrorSize ≤ m.bufferSize
      · rw [if_neg hn, if_neg (not_lt.mpr hle), if_pos ⟨hn, hle⟩]
        exact neutral_make (h := d.poke 12 (writeUInt32 (toUnsigned 32 errorcode))) rfl rfl
      · rw [if_neg hn, if_pos (not_le.mp hle), if_neg (fun h => hle h.2), spend_construct,
          add_zero, spend_nil]

/-- `PostError` posts no receive. -/
theorem postError_posts (address : Option ℕ) (socket : Option Socket)
    (errorcode category protocol : ℤ) (packet : EPacketType) (device : EDeviceType) :
    posts (m.postError address socket errorcode category protocol packet device).2 = [] := by
  rw [postError]
  cases m.getDataSized address socket category protocol messageErrorSize packet device with
  | none => rfl
  | some d =>
    simp only [postSend]
    split_ifs <;> simp

end SendManager

namespace HandlePools

variable {m : ReceiveManager} {sm : SendManager} {s t : HandlePools}

/-- A receive as the receive manager posts it. -/
def IsReceive (m : ReceiveManager) (h : PerHandleData) : Prop :=
  ∃ a socket rest, h = m.holding a (some socket) rest ∧ rest.length ≤ m.bufferSize

theorem lostBy_eq_zero {env : Env} {w : List UInt8} : ReceiveManager.lostBy env w = 0 ↔
    (Unfinished w → env.recvAlloc.isSome → env.isOpen = true) := by
  have hlost : ReceiveManager.lostHandle env = 0 ↔
      (env.recvAlloc.isSome → env.isOpen = true) := by
    rw [ReceiveManager.lostHandle]
    cases env.isOpen <;> cases env.recvAlloc <;> simp
  rw [ReceiveManager.lostBy, ← hlost]
  cases ho : (packetFramer.drain w).outcome with
  | ended => simp [Unfinished, ho]
  | waiting r =>
    by_cases hr : r = []
    · simp [Unfinished, ho, hr]
    · simp [Unfinished, ho, hr]

/-! ## Steps -/

/-- A call is made, and has in hand what its caller kept until then. -/
structure Takes (s base : HandlePools) (hand : Multiset ℕ) : Prop where
  same : base.live = s.live ∧ base.made = s.made ∧ base.released = s.released ∧
    base.calls = s.calls
  kept : s.kept = base.kept + hand
  receives : ∀ h ∈ base.receives, h ∈ s.receives

theorem Takes.refl (s : HandlePools) : Takes s s 0 :=
  ⟨⟨rfl, rfl, rfl, rfl⟩, (add_zero _).symm, fun _ hh => hh⟩

/-- What a step can do. -/
inductive Steps (m : ReceiveManager) (sm : SendManager) (s : HandlePools) :
    Event → HandlePools → Prop
  | called (e : Event) (base : HandlePools) (es : List Effect) (hand rest : Multiset ℕ)
    (ht : Takes s base hand) (hs : spend Effect.deed hand es = some rest)
    (hp : ∀ h ∈ posts es, IsReceive m h) (hr : rest = 0 ↔ KeepsHandles sm s e) :
    Steps m sm s e (base.call es hand)
  | given (e : Event) (data : Option PerHandleData) (t : HandlePools)
    (hg : s.give data = some t) (hk : KeepsHandles sm s e) : Steps m sm s e t
  | worked (i : ℕ) (e : Effect) (es : List Effect) (hand : Multiset ℕ)
    (hi : s.calls[i]? = some ⟨e :: es, hand⟩) (hf : s.Free e) :
    Steps m sm s (.act i) (s.work i e es hand)

theorem coe_map_eraseIdx {l : List PerHandleData} {i : ℕ} {h : PerHandleData}
    (hi : l[i]? = some h) : (l.map PerHandleData.address : Multiset ℕ) =
      (l.eraseIdx i).map PerHandleData.address + {h.address} := by
  rw [add_comm, Multiset.singleton_add, Multiset.cons_coe, Multiset.coe_eq_coe]
  exact (Threads.perm_others hi).map PerHandleData.address

theorem takes_receive {i : ℕ} {g : PerHandleData} (hg : s.receives[i]? = some g) :
    Takes s { s with receives := s.receives.eraseIdx i } {g.address} where
  same := ⟨rfl, rfl, rfl, rfl⟩
  kept := by
    simp only [kept, coe_map_eraseIdx hg]
    abel
  receives _ hf := List.mem_of_mem_eraseIdx hf

theorem takes_dispatched {g : PerHandleData} (hg : s.handleDataList.getLast? = some g) :
    Takes s { s with handleDataList := s.handleDataList.dropLast } {g.address} where
  same := ⟨rfl, rfl, rfl, rfl⟩
  kept := by
    obtain ⟨l, hl⟩ := List.getLast?_eq_some_iff.mp hg
    simp only [kept, hl, List.dropLast_concat, List.map_append, List.map_cons, List.map_nil,
      ← Multiset.coe_add, Multiset.coe_singleton]
    abel
  receives _ hf := hf

theorem takes_held {a : ℕ} (ha : a ∈ s.held) :
    Takes s { s with held := s.held.erase a } {a} where
  same := ⟨rfl, rfl, rfl, rfl⟩
  kept := by
    have hperm := Multiset.coe_eq_coe.mpr (List.perm_cons_erase ha)
    simp only [kept]
    rw [hperm, ← Multiset.cons_coe, ← Multiset.singleton_add]
    abel
  receives _ hf := hf

theorem takes_send {i : ℕ} {g : PerHandleData} (hg : s.sends[i]? = some g) :
    Takes s { s with sends := s.sends.eraseIdx i } {g.address} where
  same := ⟨rfl, rfl, rfl, rfl⟩
  kept := by
    simp only [kept, coe_map_eraseIdx hg]
    abel
  receives _ hf := hf

theorem isReceive_of_nextReceive {env : Env} {socket : Socket} {rest : List UInt8}
    (hr : rest.length ≤ m.bufferSize) {h : PerHandleData}
    (hh : h ∈ m.nextReceive env (some socket) rest) : IsReceive m h := by
  obtain ⟨a, ha⟩ := ReceiveManager.mem_nextReceive hh
  exact ⟨a, socket, rest, ha, hr⟩

/-- A call of `AsynReceive` posts receives as the receive manager does. -/
theorem isReceive_of_handle {env : Env} {a : ℕ} {socket : Socket} {rest data : List UInt8}
    (hfit : rest.length + data.length ≤ m.bufferSize) {h : PerHandleData}
    (hh : h ∈ posts (m.handle env a socket rest data)) : IsReceive m h := by
  by_cases hd : data = []
  · subst hd
    rw [ReceiveManager.handle_nil_posts env a socket (by simpa using hfit)] at hh
    cases hh
  · rw [ReceiveManager.handle_posts env a socket hfit hd] at hh
    cases ho : (packetFramer.drain (rest ++ data)).outcome with
    | ended =>
      rw [ho] at hh
      cases hh
    | waiting r =>
      rw [ho] at hh
      have hle := packetFramer.length_le_of_waiting ho
      rw [List.length_append] at hle
      exact isReceive_of_nextReceive (by omega) hh

theorem asynReceive_steps {i : ℕ} {data : List UInt8} {env : Env}
    (hrec : ∀ h ∈ s.receives, IsReceive m h)
    (h : s.step m sm (.asynReceive i data env) = some t) :
    Steps m sm s (.asynReceive i data env) t := by
  simp only [step] at h
  split at h
  · cases h
  · rename_i g hg
    split_ifs at h with hroom
    obtain ⟨a, socket, rest, rfl, hfits⟩ := hrec g (List.mem_of_getElem? hg)
    rw [ReceiveManager.holding_offset] at hroom
    have hfit : rest.length + data.length ≤ m.bufferSize := by omega
    have hspend := ReceiveManager.spend_handle env a socket hfit
    obtain rfl := Option.some.inj h
    refine .called _ _ _ {a} _ (takes_receive hg) hspend
      (fun f hf => isReceive_of_handle hfit hf) ?_
    simp only [KeepsHandles, hg, Option.mem_some_iff, forall_eq', ReceiveManager.holding_window]
    split_ifs with hd
    · simp [hd]
    · rw [lostBy_eq_zero]
      simp [hd]

theorem postSend_steps {data : Option PerHandleData}
    (h : s.step m sm (.postSend data) = some t) : Steps m sm s (.postSend data) t := by
  cases data with
  | none =>
    obtain rfl := Option.some.inj h
    exact .called _ s _ 0 0 (.refl s) neutral_nil (by simp [SendManager.postSend])
      (by simp [KeepsHandles])
  | some data =>
    simp only [step] at h
    split_ifs at h with hheld
    split at h
    · rename_i es hps
      obtain ⟨g, socket, hg, -, -, hps'⟩ :=
        SendManager.postSend_success (m := sm) (d := some data) (by rw [hps])
      obtain rfl := Option.some.inj hg
      obtain rfl := (Prod.mk.inj (hps.symm.trans hps')).2
      obtain rfl := Option.some.inj h
      refine .called _ _ _ {data.address} 0 (takes_held hheld) ?_ (by simp)
        (by simp [KeepsHandles])
      rw [← add_zero ({data.address} : Multiset ℕ)]
      exact spend_pass rfl
    · rename_i es hps
      have hps' := SendManager.postSend_failed (m := sm) (d := some data) (by rw [hps])
      obtain rfl := (Prod.mk.inj (hps.symm.trans hps')).2
      obtain rfl := Option.some.inj h
      exact .called _ s _ 0 0 (.refl s) neutral_nil (by simp) (by simp [KeepsHandles])

theorem step_cases {e : Event} (hrec : ∀ h ∈ s.receives, IsReceive m h)
    (h : s.step m sm e = some t) : Steps m sm s e t := by
  cases e with
  | postReceive socket env =>
    obtain rfl := Option.some.inj h
    refine .called _ s _ 0 0 (.refl s) (ReceiveManager.postReceive_neutral env _) ?_
      (by simp [KeepsHandles])
    intro g hg
    rw [ReceiveManager.postReceive_posts] at hg
    exact isReceive_of_nextReceive (Nat.zero_le _) hg
  | asynReceive i data env => exact asynReceive_steps hrec h
  | dispatch =>
    simp only [step] at h
    split at h
    · cases h
    · rename_i g hg
      obtain rfl := Option.some.inj h
      refine .called _ _ _ {g.address} 0 (takes_dispatched hg) ?_ ?_ (by simp [KeepsHandles])
      · have hd : Neutral (ReceiveManager.dispatch g) := rfl
        rw [spend_append_of_eq (hd.spend _)]
        exact spend_releaseMemory (fun _ => neutral_nil) g
      · intro f hf
        simp [ReceiveManager.dispatch, releaseMemory] at hf
  | getData address socket category protocol => exact .given _ _ t h trivial
  | getDataSized address socket category protocol wholePacketSize packet device =>
    exact .given _ _ t h trivial
  | postSend data => exact postSend_steps h
  | postError address socket errorcode category protocol packet device =>
    obtain rfl := Option.some.inj h
    refine .called _ s _ 0 _ (.refl s) (SendManager.spend_postError ..) ?_ ?_
    · simp [SendManager.postError_posts]
    · simp only [KeepsHandles]
      split_ifs with hc
      · simp [hc]
      · cases address <;> simp [hc]
  | sendComplete i error bytesTransferred =>
    simp only [step] at h
    split at h
    · cases h
    · rename_i g hg
      obtain rfl := Option.some.inj h
      refine .called _ _ _ {g.address} 0 (takes_send hg)
        (spend_releaseMemory (fun _ => neutral_nil) g) ?_ (by simp [KeepsHandles])
      intro f hf
      simp [SendManager.sendComplete, releaseMemory] at hf
  | act i =>
    simp only [step] at h
    split at h
    · rename_i e es hand hi
      split_ifs at h with hf
      exact Option.some.inj h ▸ .worked i e es hand hi hf
    · cases h

/-! ## Invariants -/

structure Inv (m : ReceiveManager) (s : HandlePools) : Prop where
  released : s.ReleasedOnce
  /-- Every handle is kept by somebody or in the hands of a call. -/
  balance : (s.addresses : Multiset ℕ) = s.kept + total s.calls
  sound : ∀ c ∈ s.calls, Sound Effect.deed c
  receives : ∀ h ∈ s.receives, IsReceive m h
  posts : ∀ c ∈ s.calls, ∀ h ∈ posts c.todo, IsReceive m h

/-- No call ends with a handle in hand. -/
def Lossless (s : HandlePools) : Prop := ∀ c ∈ s.calls, Clean Effect.deed c

theorem start_inv (m : ReceiveManager) : start.Inv m where
  released := ⟨by simp [start], by simp [start, addresses]⟩
  balance := by simp [start, addresses, kept]
  sound := by simp [start]
  receives := by simp [start]
  posts := by simp [start]

/-- A handle is made. -/
theorem ReleasedOnce.construct (hs : s.ReleasedOnce) {h : PerHandleData}
    (hf : s.Free (.construct h)) : (s.perform (.construct h)).ReleasedOnce where
  once := by
    have hold := hs.once
    simp only [perform, List.map_cons, List.range_succ, List.map_append, List.map_nil]
    refine List.perm_middle.trans ?_
    exact (hold.cons _).trans (List.perm_append_singleton _ _).symm
  distinct := List.nodup_cons.mpr ⟨hf, hs.distinct⟩

/-- What is released is taken from the handles that are not. -/
theorem release_cases {a : ℕ} (ha : a ∈ s.addresses) :
    ∃ k, s.live.Perm ((a, k) :: (s.release a).live) ∧
      (s.release a).released = s.released ++ [some k] := by
  obtain ⟨l, hl, rfl⟩ := List.mem_map.mp ha
  obtain ⟨x, l₁, l₂, h₁, hx, hlive, herase⟩ :=
    List.exists_of_eraseP (p := fun l' => decide (l'.1 = l.1)) hl (by simp)
  have hfind : s.live.find? (fun l' => decide (l'.1 = l.1)) = some x := by
    rw [hlive, List.find?_append, List.find?_eq_none.mpr h₁]
    simp [hx]
  refine ⟨x.2, ?_, ?_⟩
  · rw [release, herase, ← of_decide_eq_true hx, hlive]
    exact List.perm_middle
  · rw [release, hfind]
    rfl

theorem ReleasedOnce.release (hs : s.ReleasedOnce) {a : ℕ} (ha : a ∈ s.addresses) :
    (s.release a).ReleasedOnce ∧ (s.addresses : Multiset ℕ) = {a} + (s.release a).addresses := by
  obtain ⟨k, hlive, hrel⟩ := release_cases ha
  have haddr := hlive.map Prod.fst
  rw [List.map_cons] at haddr
  refine ⟨⟨?_, (haddr.nodup_iff.mp hs.distinct).of_cons⟩, ?_⟩
  · rw [hrel, List.append_assoc, List.singleton_append]
    exact ((hlive.map _).symm.append_left _).trans hs.once
  · rw [Multiset.singleton_add, Multiset.cons_coe, Multiset.coe_eq_coe]
    exact haddr

theorem Inv.call {base : HandlePools} (hi : s.Inv m) {es : List Effect} {hand rest : Multiset ℕ}
    (ht : Takes s base hand) (hs : spend Effect.deed hand es = some rest)
    (hp : ∀ h ∈ Xiaoxin.posts es, IsReceive m h) : (base.call es hand).Inv m := by
  obtain ⟨hlive, hmade, hrel, hcalls⟩ := ht.same
  have haddr : (base.call es hand).addresses = s.addresses := congrArg (List.map Prod.fst) hlive
  refine ⟨⟨?_, ?_⟩, ?_, ?_, fun h hh => hi.receives h (ht.receives h hh), ?_⟩
  · simpa only [HandlePools.call, hlive, hmade, hrel] using hi.released.once
  · rw [haddr]
    exact hi.released.distinct
  · have hk : (base.call es hand).kept = base.kept := rfl
    rw [haddr, hi.balance, ht.kept, hk, HandlePools.call, hcalls, total_append_singleton]
    abel
  · simp only [HandlePools.call, hcalls, List.forall_mem_append, List.forall_mem_singleton]
    exact ⟨hi.sound, Option.isSome_iff_exists.mpr ⟨rest, hs⟩⟩
  · simp only [HandlePools.call, hcalls, List.forall_mem_append, List.forall_mem_singleton]
    exact ⟨hi.posts, hp⟩

theorem Inv.give (hi : s.Inv m) {data : Option PerHandleData} (h : s.give data = some t) :
    t.Inv m ∧ t.calls = s.calls := by
  cases data with
  | none => exact Option.some.inj h ▸ ⟨hi, rfl⟩
  | some data =>
    simp only [HandlePools.give] at h
    split_ifs at h with hf
    obtain rfl := Option.some.inj h
    have hrel := hi.released.construct hf
    refine ⟨⟨⟨hrel.once, hrel.distinct⟩, ?_, hi.sound, hi.receives, hi.posts⟩, rfl⟩
    have hb := hi.balance
    simp only [addresses, kept, perform, List.map_cons, ← Multiset.cons_coe,
      ← Multiset.singleton_add] at hb ⊢
    rw [hb]
    abel

@[simp] theorem perform_calls (s : HandlePools) (e : Effect) : (s.perform e).calls = s.calls := by
  cases e <;> rfl

theorem perform_receives (s : HandlePools) (e : Effect) :
    (s.perform e).receives = s.receives ++ e.post?.toList := by
  cases e <;> simp [perform, release]

theorem ReleasedOnce.perform {e : Effect} {hand : Multiset ℕ} (hs : s.ReleasedOnce)
    (hf : s.Free e) (ha : e.deed.Allowed hand) (hm : ∀ a ∈ hand, a ∈ s.addresses) :
    (s.perform e).ReleasedOnce := by
  cases e with
  | construct h => exact hs.construct hf
  | destroy h => exact (hs.release (hm _ ha)).1
  | _ => exact ⟨hs.once, hs.distinct⟩

/-- A handle that a call passes on comes to somebody who keeps it, or is released. -/
theorem work_balance {i : ℕ} {e : Effect} {es : List Effect} {hand : Multiset ℕ}
    (hs : s.ReleasedOnce) (hb : (s.addresses : Multiset ℕ) = s.kept + total s.calls)
    (hget : s.calls[i]? = some ⟨e :: es, hand⟩) (ha : e.deed.Allowed hand) :
    ((s.work i e es hand).addresses : Multiset ℕ) =
      (s.work i e es hand).kept + total (s.work i e es hand).calls := by
  simp only [work, perform_calls]
  cases e with
  | construct h =>
    have ht := total_make hget es h.address
    simp only [addresses, kept, perform, Effect.deed, List.map_cons, ← Multiset.cons_coe,
      ← Multiset.singleton_add] at hb ⊢
    rw [ht, hb]
    abel
  | pushFront h =>
    have ht := total_pass hget es ha
    simp only [addresses, kept, perform, Effect.deed, List.map_cons, ← Multiset.cons_coe,
      ← Multiset.singleton_add] at hb ⊢
    rw [hb, ← ht]
    abel
  | asyncReceive h | asyncWriteSome h =>
    have ht := total_pass hget es ha
    simp only [addresses, kept, perform, Effect.deed, List.map_append, List.map_cons, List.map_nil,
      ← Multiset.coe_add, Multiset.coe_singleton] at hb ⊢
    rw [hb, ← ht]
    abel
  | destroy h =>
    have ht := total_pass hget es ha
    have hmem : h.address ∈ s.addresses := by
      rw [← Multiset.mem_coe, hb]
      exact Multiset.mem_add.mpr (.inr (mem_total hget ha))
    have hrel := (hs.release hmem).2
    rw [hb, ← ht] at hrel
    apply add_left_cancel (a := ({h.address} : Multiset ℕ))
    refine Eq.trans ?_ (hrel.symm.trans ?_)
    · rfl
    · change s.kept + _ = _ + (s.kept + _)
      simp only [Effect.deed]
      abel
  | _ => exact hb.trans (congrArg (s.kept + ·) (total_other hget es).symm)

theorem Inv.work {i : ℕ} {e : Effect} {es : List Effect} {hand : Multiset ℕ} (hi : s.Inv m)
    (hget : s.calls[i]? = some ⟨e :: es, hand⟩) (hf : s.Free e) : (s.work i e es hand).Inv m := by
  obtain ⟨ha, hsound, -⟩ := (hi.sound _ (List.mem_of_getElem? hget)).step
  have hposts := hi.posts _ (List.mem_of_getElem? hget)
  rw [posts_cons] at hposts
  have hmem : ∀ a ∈ hand, a ∈ s.addresses := by
    intro a hh
    rw [← Multiset.mem_coe, hi.balance]
    exact Multiset.mem_add.mpr (.inr (mem_total hget hh))
  have hcalls : (s.work i e es hand).calls = s.calls.set i ⟨es, e.deed.after hand⟩ :=
    perform_calls _ e
  refine ⟨?_, work_balance hi.released hi.balance hget ha, ?_, ?_, ?_⟩
  · exact ReleasedOnce.perform (s := { s with calls := _ }) ⟨hi.released.once, hi.released.distinct⟩
      hf ha hmem
  · rw [hcalls, Threads.forall_set_iff hget]
    exact ⟨hsound, ((Threads.forall_iff hget).mp hi.sound).2⟩
  · intro h hh
    rw [HandlePools.work, perform_receives] at hh
    rcases List.mem_append.mp hh with hh | hh
    · exact hi.receives h hh
    · exact hposts h (List.mem_append_left _ hh)
  · rw [hcalls, Threads.forall_set_iff hget]
    exact ⟨fun h hh => hposts h (List.mem_append_right _ hh),
      ((Threads.forall_iff hget).mp hi.posts).2⟩

theorem step_inv {e : Event} (hi : s.Inv m) (h : s.step m sm e = some t) : t.Inv m := by
  cases step_cases hi.receives h with
  | called _ base es hand rest ht hs hp hr => exact hi.call ht hs hp
  | given _ data _ hg hk => exact (hi.give hg).1
  | worked i e es hand hget hf => exact hi.work hget hf

/-- After a step no call will end with a handle in hand exactly when none would have
before it and the step keeps its handles. -/
theorem lossless_step {e : Event} (hi : s.Inv m) (h : s.step m sm e = some t) :
    t.Lossless ↔ s.Lossless ∧ KeepsHandles sm s e := by
  cases step_cases hi.receives h with
  | called _ base es hand rest ht hs hp hr =>
    have hcalls := ht.same.2.2.2
    simp only [Lossless, HandlePools.call, hcalls, List.forall_mem_append,
      List.forall_mem_singleton, ← hr]
    simp only [Clean, hs, Option.some.injEq]
  | given _ data _ hg hk =>
    simp only [Lossless, (hi.give hg).2, hk, and_true]
  | worked i e es hand hget hf =>
    have hstep := ((hi.sound _ (List.mem_of_getElem? hget)).step).2.2
    have hcalls : (s.work i e es hand).calls = s.calls.set i ⟨es, e.deed.after hand⟩ :=
      perform_calls _ e
    simp only [Lossless, KeepsHandles, and_true]
    rw [hcalls, Threads.forall_set_iff hget, Threads.forall_iff hget, hstep]

/-- When no call is running, everything is accounted for exactly if no call has ended
with a handle in hand. -/
theorem Inv.accounted_iff (hi : s.Inv m) (hidle : s.Idle) : s.Accounted ↔ s.Lossless := by
  have hlost : s.Lossless ↔ total s.calls = 0 := by
    rw [total_eq_zero]
    refine forall₂_congr fun c hc => ?_
    have htodo := hidle c hc
    obtain ⟨todo, hand⟩ := c
    obtain rfl : todo = [] := htodo
    exact clean_nil
  rw [hlost, Accounted, hi.balance]
  exact add_eq_left

/-- Each handle is passed to `ReleaseMemory` at most once. When no call is running, the
handles that are not released are those of pending receives, pending sends, queued
messages and callers, exactly if no handle obtained for the rest of a packet has met a
closed socket and none obtained for an error message could not be sent. -/
theorem handles_accounted_iff (m : ReceiveManager) (sm : SendManager) (events : List Event)
    (s : HandlePools) (h : exec (step m sm) start events = some s) :
    s.ReleasedOnce ∧
      (s.Idle → (s.Accounted ↔ Along (step m sm) (KeepsHandles sm) start events)) := by
  have hinv : ∀ s e t, Inv m s → step m sm s e = some t → Inv m t := fun _ _ _ => step_inv
  have hi := invariant hinv (start_inv m) h
  refine ⟨hi.released, fun hidle => ?_⟩
  have hstart : start.Lossless := by simp [Lossless, start]
  rw [hi.accounted_iff hidle, ← always_iff_along hinv
    (fun s e t hi hl hst => by rw [lossless_step hi hst]; simp [hl]) (start_inv m) hstart h]
  refine ⟨always_of_last (C := fun _ _ => True) hinv ?_ (start_inv m)
    (along_of_forall (fun _ _ => trivial) _ _) h, fun hall => hall.last h⟩
  intro s e t hi _ hst hl
  exact ((lossless_step hi hst).mp hl).1

/-- A packet and three bytes of the next in one read; a message, and an error message, to
the peer. -/
theorem handles_accounted_exchange :
    ∃ s, exec (step ⟨64, false, by decide⟩ ⟨64, by decide⟩) start
        [.postReceive 0 ⟨none, some 1, true, fun _ => 0⟩, .act 0, .act 0,
          .asynReceive 0 [1, 0, 8, 0, 8, 0, 0, 0, 1, 0, 8] ⟨some 2, some 3, true, fun _ => 0⟩,
          .act 1, .act 1, .act 1, .act 1, .getDataSized (some 4) (some 0) 1 2 20 .middle .pc,
          .postSend (some ⟨4, some 0, List.replicate 64 0, 0, 64, 20⟩), .act 2,
          .sendComplete 0 false 20, .act 3, .postError (some 5) (some 0) 7 1 2 .middle .pc,
          .act 4, .act 4] = some s ∧
      s.ReleasedOnce ∧ (s.Idle → (s.Accounted ↔
        Along (step ⟨64, false, by decide⟩ ⟨64, by decide⟩) (KeepsHandles ⟨64, by decide⟩) start
          [.postReceive 0 ⟨none, some 1, true, fun _ => 0⟩, .act 0, .act 0,
            .asynReceive 0 [1, 0, 8, 0, 8, 0, 0, 0, 1, 0, 8] ⟨some 2, some 3, true, fun _ => 0⟩,
            .act 1, .act 1, .act 1, .act 1, .getDataSized (some 4) (some 0) 1 2 20 .middle .pc,
            .postSend (some ⟨4, some 0, List.replicate 64 0, 0, 64, 20⟩), .act 2,
            .sendComplete 0 false 20, .act 3, .postError (some 5) (some 0) 7 1 2 .middle .pc,
            .act 4, .act 4])) := by
  apply exists_exec (by decide +kernel)
  intro s hs
  exact handles_accounted_iff _ _ _ s hs

/-- Three bytes come, and the socket has been closed when `FALG_4` wants to receive more:
the handle with the three bytes is lost. -/
theorem closed_socket_loses_handle :
    ¬ ∀ (m : ReceiveManager) (sm : SendManager) (events : List Event) (s : HandlePools),
      exec (step m sm) start events = some s → s.ReleasedOnce ∧ (s.Idle → s.Accounted) := by
  intro h
  have hrun : (exec (step ⟨64, false, by decide⟩ ⟨64, by decide⟩) start
      [.postReceive 0 ⟨none, some 1, true, fun _ => 0⟩, .act 0, .act 0,
        .asynReceive 0 [1, 0, 8] ⟨some 2, some 3, false, fun _ => 0⟩, .act 1, .act 1, .act 1]).map
      (fun s => (s.calls.map Hand.todo, s.addresses, decide (s.kept = 0))) =
      some ([[], []], [3], true) := by decide +kernel
  obtain ⟨s, hs, hv⟩ := Option.map_eq_some_iff.mp hrun
  obtain ⟨htodo, hv⟩ := Prod.mk.inj hv
  obtain ⟨haddr, hkept⟩ := Prod.mk.inj hv
  have hidle : s.Idle := by
    intro c hc
    have hmem := List.mem_map_of_mem (f := Hand.todo) hc
    rw [htodo] at hmem
    simpa using hmem
  have hacc := (h _ _ _ s hs).2 hidle
  rw [Accounted, haddr, of_decide_eq_true hkept] at hacc
  exact absurd hacc (by decide)

end HandlePools

end Xiaoxin
