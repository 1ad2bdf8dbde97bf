import Xiaoxin.Outbox
import Xiaoxin.SendManager
import Xiaoxin.Transition

/-!
# What reaches the peer

The transport works off the write operations of a socket in the order in which they
were posted. An `async_write_some` ends when it has written some of its bytes, at
least one if there are any, and its completion handler then runs on some thread.
`SendComplete` does not look at how many bytes were written, so nobody writes the
others.
-/
namespace Xiaoxin
open Transition

structure Sending where
  /-- For each socket the handles for which `PostSend` returned `SUCCESS`, the
  operations that have not ended, and what was written to it. -/
  outboxes : Socket → Outbox PerHandleData UInt8
  /-- The operations that have ended and whose `SendComplete` has not run, with the
  number of bytes each has written. -/
  ended : List (PerHandleData × ℕ)

namespace Sending

inductive Label
  | postSend (data : Option PerHandleData)
  /-- The oldest operation of a socket ends. -/
  | write (s : Socket) (bytesTransferred : ℕ)
  /-- A thread runs the completion handler of an operation that has ended. -/
  | sendComplete (i : ℕ)

/-- The socket that a label is about. -/
def Label.socket : Label → Option Socket
  | .postSend (some h) => h.socket
  | .write s _ => some s
  | _ => none

/-- Nothing has been sent. -/
def start : Sending := ⟨fun _ => .empty, []⟩

/-- Change the outbox of a socket. -/
def update (c : Sending) (s : Option Socket)
    (f : Outbox PerHandleData UInt8 → Outbox PerHandleData UInt8) : Sending :=
  match s with
  | none => c
  | some s => { c with outboxes := Function.update c.outboxes s (f (c.outboxes s)) }

/-- What an effect does on the send side. -/
def perform (c : Sending) : Effect → Sending
  | .asyncWriteSome h => c.update h.socket fun o => { o with pending := o.pending ++ [h] }
  | _ => c

/-- Note the handles that `PostSend` has accepted. -/
def note (c : Sending) : Option PerHandleData → Err → Sending
  | some h, .success => c.update h.socket fun o => { o with accepted := o.accepted ++ [h] }
  | _, _ => c

/-- The bytes that are to be sent; `past` is what lies behind the block of a handle. -/
def toSend (past : PerHandleData → ℕ → UInt8) (h : PerHandleData) : List UInt8 :=
  h.bytes (past h) h.offset

def step (m : SendManager) (past : PerHandleData → ℕ → UInt8) (c : Sending) :
    Label → Option Sending
  | .postSend data =>
    let r := m.postSend data
    some (r.2.foldl perform (c.note data r.1))
  | .write s k =>
    match (c.outboxes s).pending with
    | [] => none
    | h :: hs =>
      if k ≤ h.offset ∧ (k = 0 → h.offset = 0) then
        let c := c.update (some s) fun o => o.write (toSend past) h hs k
        some { c with ended := c.ended ++ [(h, k)] }
      else none
  | .sendComplete i =>
    match c.ended[i]? with
    | none => none
    | some x => some ((SendManager.sendComplete x.1 false x.2).foldl perform
        { c with ended := c.ended.eraseIdx i })

/-- Every operation has ended and every `SendComplete` has run. -/
structure Quiet (c : Sending) : Prop where
  pending : ∀ s, (c.outboxes s).pending = []
  ended : c.ended = []

/-- Each socket was sent the accepted buffers one after another. -/
def Concatenated (past : PerHandleData → ℕ → UInt8) (c : Sending) : Prop :=
  ∀ s, (c.outboxes s).written = (c.outboxes s).accepted.flatMap (toSend past)

/-- An operation that ends has written its whole buffer. -/
def FullWrite (c : Sending) : Label → Prop
  | .write s k => ∀ h ∈ (c.outboxes s).pending.head?, k = h.offset
  | _ => True

variable {m : SendManager} {past : PerHandleData → ℕ → UInt8} {c d : Sending}

@[simp] theorem toSend_length (h : PerHandleData) : (toSend past h).length = h.offset :=
  PerHandleData.bytes_length _

/-- `SendComplete` gives the handle back and does nothing else. -/
theorem foldl_sendComplete (h : PerHandleData) (error : Bool) (k : ℕ) :
    (SendManager.sendComplete h error k).foldl perform c = c := by
  simp only [SendManager.sendComplete, SendOrRecvMngBase.releaseMemory, ite_self,
    List.nil_append]
  rfl

/-- What a step does to the outbox of a socket. -/
inductive Moves (past : PerHandleData → ℕ → UInt8) (c d : Sending) (t : Socket) : Label → Prop
  | same (l : Label) (hl : ∀ k, l ≠ .write t k) (ho : d.outboxes t = c.outboxes t) :
      Moves past c d t l
  | accept (h : PerHandleData) (hs : h.socket = some t)
      (ho : d.outboxes t = (c.outboxes t).accept h) : Moves past c d t (.postSend (some h))
  | write (h : PerHandleData) (hs : List PerHandleData) (k : ℕ) (hk : k ≤ h.offset)
      (hp : (c.outboxes t).pending = h :: hs)
      (ho : d.outboxes t = (c.outboxes t).write (toSend past) h hs k) :
      Moves past c d t (.write t k)

theorem step_moves {l : Label} (hstep : c.step m past l = some d) (t : Socket) :
    Moves past c d t l := by
  cases l with
  | postSend data =>
    obtain rfl := Option.some.inj hstep
    cases hr : (m.postSend data).1 with
    | failed =>
      have hn : c.note data .failed = c := by cases data <;> rfl
      rw [SendManager.postSend_failed hr, hn]
      exact .same _ (by simp) rfl
    | success =>
      obtain ⟨h, s, rfl, hs, -, hpost⟩ := SendManager.postSend_success hr
      rw [hpost]
      simp only [note, List.foldl_cons, List.foldl_nil, perform, hs, update,
        Function.update_self, Function.update_idem]
      by_cases hst : t = s
      · subst hst
        exact .accept h hs (Function.update_self ..)
      · exact .same _ (by simp) (Function.update_of_ne hst _ _)
  | write s k =>
    simp only [step] at hstep
    cases hp : (c.outboxes s).pending with
    | nil => simp [hp] at hstep
    | cons h hs =>
      simp only [hp] at hstep
      split_ifs at hstep with hk
      obtain rfl := Option.some.inj hstep
      by_cases hst : t = s
      · subst hst
        exact .write h hs k hk.1 hp (Function.update_self ..)
      · exact .same _ (by simpa using fun h => hst h.symm) (Function.update_of_ne hst _ _)
  | sendComplete i =>
    simp only [step] at hstep
    cases hx : c.ended[i]? with
    | none => simp [hx] at hstep
    | some x =>
      simp only [hx, foldl_sendComplete] at hstep
      obtain rfl := Option.some.inj hstep
      exact .same _ (by simp) rfl

/-- A step leaves the outboxes of other sockets alone. -/
theorem outboxes_step {l : Label} {t : Socket} (hl : l.socket ≠ some t)
    (hstep : c.step m past l = some d) : d.outboxes t = c.outboxes t := by
  cases step_moves hstep t with
  | same _ _ ho => exact ho
  | accept h hs _ => exact absurd hs hl
  | write h hs k hk hp ho => exact absurd rfl hl

/-- What a partial write is, with the operation that it ends in view. -/
theorem fullWrite_iff {s : Socket} {k : ℕ} {h : PerHandleData} {hs : List PerHandleData}
    (hp : (c.outboxes s).pending = h :: hs) : FullWrite c (.write s k) ↔ k = h.offset := by
  simp only [FullWrite, hp, List.head?_cons, Option.mem_some_iff, forall_eq']

theorem bounded_step (s : Socket) {l : Label} (hi : (c.outboxes s).Bounded (toSend past))
    (hstep : c.step m past l = some d) : (d.outboxes s).Bounded (toSend past) := by
  cases step_moves hstep s with
  | same _ hl ho => rwa [ho]
  | accept h hs ho =>
    rw [ho]
    exact Outbox.accept_bounded hi
  | write h hs k hk hp ho =>
    rw [ho]
    exact Outbox.write_bounded hp hi

/-- A step keeps the balance of all outboxes exactly when it is no partial write. -/
theorem balanced_step {l : Label} (hb : ∀ s, (c.outboxes s).Balanced (toSend past))
    (hstep : c.step m past l = some d) :
    (∀ s, (d.outboxes s).Balanced (toSend past)) ↔ FullWrite c l := by
  constructor
  · intro hd
    cases l with
    | write s k =>
      have hds := hd s
      cases step_moves hstep s with
      | same _ hl ho => exact absurd rfl (hl k)
      | write h hs _ hk hp ho =>
        rw [ho, Outbox.write_balanced hp (hb s) (by rwa [toSend_length]), toSend_length] at hds
        exact (fullWrite_iff hp).mpr hds
    | _ => trivial
  · intro hf t
    cases step_moves hstep t with
    | same _ hl ho =>
      rw [ho]
      exact hb t
    | accept h hs ho =>
      rw [ho, Outbox.accept_balanced]
      exact hb t
    | write h hs k hk hp ho =>
      rw [ho, Outbox.write_balanced hp (hb t) (by rwa [toSend_length]), toSend_length]
      exact (fullWrite_iff hp).mp hf

/-- The balance of an outbox does not come back. -/
theorem balanced_back {l : Label} (hi : ∀ s, (c.outboxes s).Bounded (toSend past))
    (hstep : c.step m past l = some d) (hd : ∀ s, (d.outboxes s).Balanced (toSend past)) :
    ∀ s, (c.outboxes s).Balanced (toSend past) := by
  intro s
  have hds := hd s
  cases step_moves hstep s with
  | same _ hl ho => rwa [ho] at hds
  | accept h hs ho => rwa [ho, Outbox.accept_balanced] at hds
  | write h hs k hk hp ho =>
    rw [ho] at hds
    exact Outbox.balanced_of_write hp (hi s) hds

section Runs

variable {ls : List Label}

/-- A run that is not about a socket leaves its outbox alone. -/
theorem outboxes_run {t : Socket} (hl : ∀ l ∈ ls, l.socket ≠ some t)
    (hrun : exec (step m past) c ls = some d) : d.outboxes t = c.outboxes t :=
  invariant_of_along (I := fun d => d.outboxes t = c.outboxes t)
    (C := fun _ l => l.socket ≠ some t) (fun _ _ _ hi hl hstep => (outboxes_step hl hstep).trans hi)
    rfl (along_of_forall_mem hl c) hrun

/-- A run about a single socket has come to rest when that socket has. -/
theorem quiet_of_one_socket (s : Socket) (hl : ∀ l ∈ ls, l.socket = none ∨ l.socket = some s)
    (hrun : exec (step m past) start ls = some c) (hp : (c.outboxes s).pending = [])
    (he : c.ended = []) : c.Quiet where
  pending t := by
    by_cases hts : t = s
    · rw [hts, hp]
    · have hother : ∀ l ∈ ls, l.socket ≠ some t := by
        intro l hm heq
        rcases hl l hm with hn | hs
        · rw [hn] at heq
          cases heq
        · exact hts (Option.some.inj (heq.symm.trans hs))
      rw [outboxes_run hother hrun]
      rfl
  ended := he

/-- In a run all outboxes stay balanced exactly as long as every write is a full one. -/
theorem always_balanced_iff (hrun : exec (step m past) start ls = some c) :
    Always (step m past) (fun c => ∀ s, (c.outboxes s).Balanced (toSend past)) start ls ↔
      Along (step m past) FullWrite start ls :=
  always_iff_along (I := fun _ => True) (fun _ _ _ _ _ => trivial)
    (fun _ _ _ _ hb hstep => balanced_step hb hstep) trivial
    (fun _ => Outbox.empty_balanced _) hrun

/-- Balance at the end of a run is balance throughout. -/
theorem always_balanced_of_last (hrun : exec (step m past) start ls = some c)
    (hb : ∀ s, (c.outboxes s).Balanced (toSend past)) :
    Always (step m past) (fun c => ∀ s, (c.outboxes s).Balanced (toSend past)) start ls :=
  always_of_last (I := fun c => ∀ s, (c.outboxes s).Bounded (toSend past))
    (C := fun _ _ => True) (fun _ _ _ hi hstep s => bounded_step s (hi s) hstep)
    (fun _ _ _ hi _ hstep => balanced_back hi hstep) (fun _ => Outbox.empty_bounded _)
    (along_of_forall (fun _ _ => trivial) _ _) hrun hb

/-- At rest, balance means that everything accepted has been written. -/
theorem Quiet.concatenated_iff (hq : c.Quiet) :
    c.Concatenated past ↔ ∀ s, (c.outboxes s).Balanced (toSend past) :=
  forall_congr' fun s => (Outbox.balanced_of_done (hq.pending s)).symm

/-- When a run has come to rest, each socket was sent exactly the accepted buffers one
after another if and only if no operation wrote only a part of its buffer. -/
theorem concatenated_iff_fullWrite (m : SendManager) (past : PerHandleData → ℕ → UInt8)
    (ls : List Label) (c : Sending) (hrun : exec (step m past) start ls = some c)
    (hq : c.Quiet) : c.Concatenated past ↔ Along (step m past) FullWrite start ls := by
  rw [hq.concatenated_iff, ← always_balanced_iff hrun]
  exact ⟨always_balanced_of_last hrun, fun h => h.last hrun⟩

/-- Two packets of 9 and 12 bytes on one socket; the first write ends after `k` bytes. -/
def twoPackets (k : ℕ) : List Label :=
  [.postSend (some ⟨0, some 0, List.replicate 16 7, 0, 16, 9⟩),
    .postSend (some ⟨1, some 0, List.replicate 16 8, 0, 16, 12⟩),
    .write 0 k, .sendComplete 0, .write 0 12, .sendComplete 0]

theorem concatenated_iff_fullWrite_two_packets :
    ∃ c, exec (step ⟨16, by decide⟩ (fun _ _ => 0)) start (twoPackets 9) = some c ∧
      (c.Concatenated (fun _ _ => 0) ↔
        Along (step ⟨16, by decide⟩ (fun _ _ => 0)) FullWrite start (twoPackets 9)) := by
  have hrun : (exec (step ⟨16, by decide⟩ (fun _ _ => 0)) start (twoPackets 9)).map
      (fun c => ((c.outboxes 0).pending, c.ended)) = some ([], []) := by decide +kernel
  obtain ⟨c, hc, hv⟩ := Option.map_eq_some_iff.mp hrun
  obtain ⟨hp, he⟩ := Prod.mk.inj hv
  exact ⟨c, hc, concatenated_iff_fullWrite _ _ _ c hc
    (quiet_of_one_socket 0 (by decide) hc hp he)⟩

/-- The first packet is cut off after three bytes, and the second one follows it. -/
theorem short_write_shifts_stream :
    ¬ ∀ (m : SendManager) (past : PerHandleData → ℕ → UInt8) (ls : List Label) (c : Sending),
      exec (step m past) start ls = some c → c.Quiet → c.Concatenated past := by
  intro h
  have hrun : (exec (step ⟨16, by decide⟩ (fun _ _ => 0)) start (twoPackets 3)).map
      (fun c => (((c.outboxes 0).pending, c.ended),
        decide ((c.outboxes 0).written = (c.outboxes 0).accepted.flatMap (toSend fun _ _ => 0)))) =
      some (([], []), false) := by decide +kernel
  obtain ⟨c, hc, hv⟩ := Option.map_eq_some_iff.mp hrun
  obtain ⟨hpe, hw⟩ := Prod.mk.inj hv
  obtain ⟨hp, he⟩ := Prod.mk.inj hpe
  exact of_decide_eq_false hw
    (h _ _ _ c hc (quiet_of_one_socket 0 (by decide) hc hp he) 0)

end Runs

end Sending

end Xiaoxin
