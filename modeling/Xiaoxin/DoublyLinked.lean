import Mathlib.Data.List.Nodup
import Mathlib.Tactic

/-!
# Doubly linked lists in a heap

A heap maps an address to the node stored there, or to nothing when the address
is free. `IsList h x l` says that from the head pointer `x` the addresses `l` form
a NULL-terminated doubly linked list: each `next` is the address after, each
`prev` the address before, and all of them are allocated. Such a list is acyclic,
since the chain of `next` pointers determines the rest of it.

Two operations rewire the links: `pushFront` puts a node before the head, and
`unlink` takes a node out from wherever it stands. Both leave the nodes of every
other list, and the value of every node, as they are.
-/
namespace Xiaoxin.DoublyLinked

variable {ι α : Type*}

structure Node (ι α : Type*) where
  value : α
  next : Option ι
  prev : Option ι
  deriving DecidableEq, Repr

abbrev Heap (ι α : Type*) := ι → Option (Node ι α)

namespace Node

def setNext (n : Node ι α) (x : Option ι) : Node ι α := { n with next := x }

def setPrev (n : Node ι α) (x : Option ι) : Node ι α := { n with prev := x }

@[simp] theorem setNext_value (n : Node ι α) (x : Option ι) : (n.setNext x).value = n.value := rfl

@[simp] theorem setNext_next (n : Node ι α) (x : Option ι) : (n.setNext x).next = x := rfl

@[simp] theorem setNext_prev (n : Node ι α) (x : Option ι) : (n.setNext x).prev = n.prev := rfl

@[simp] theorem setPrev_value (n : Node ι α) (x : Option ι) : (n.setPrev x).value = n.value := rfl

@[simp] theorem setPrev_next (n : Node ι α) (x : Option ι) : (n.setPrev x).next = n.next := rfl

@[simp] theorem setPrev_prev (n : Node ι α) (x : Option ι) : (n.setPrev x).prev = x := rfl

end Node

/-! ## Linked addresses -/

/-- The addresses `l` are linked one to the next, after `p` and before `t`. -/
def Linked (h : Heap ι α) : Option ι → List ι → Option ι → Prop
  | _, [], _ => True
  | p, a :: l, t => ∃ n, h a = some n ∧ n.prev = p ∧ n.next = l.head?.or t ∧ Linked h (some a) l t

/-- The list that starts at the pointer `x`. -/
def IsList (h : Heap ι α) (x : Option ι) (l : List ι) : Prop :=
  x = l.head? ∧ Linked h none l none

variable {h g : Heap ι α} {p p' q t u x : Option ι} {a b : ι} {l m : List ι}

@[simp] theorem linked_nil : Linked h p [] t := trivial

theorem linked_cons : Linked h p (a :: l) t ↔
    ∃ n, h a = some n ∧ n.prev = p ∧ n.next = l.head?.or t ∧ Linked h (some a) l t := Iff.rfl

theorem linked_append :
    Linked h p (l ++ m) t ↔ Linked h p l (m.head?.or t) ∧ Linked h (l.getLast?.or p) m t := by
  induction l generalizing p with
  | nil => simp
  | cons a l ih =>
    simp only [List.cons_append, linked_cons, ih, List.head?_append, Option.or_assoc,
      List.getLast?_cons, Option.some_or]
    have hl : (some (l.getLast?.getD a)) = l.getLast?.or (some a) := by cases l.getLast? <;> rfl
    rw [hl]
    constructor
    · rintro ⟨n, hn, hp, ht, hl, hm⟩
      exact ⟨⟨n, hn, hp, ht, hl⟩, hm⟩
    · rintro ⟨⟨n, hn, hp, ht, hl⟩, hm⟩
      exact ⟨n, hn, hp, ht, hl, hm⟩

/-- Only the nodes of the list matter. -/
theorem Linked.congr (hl : Linked h p l t) (hh : ∀ a ∈ l, g a = h a) : Linked g p l t := by
  induction l generalizing p with
  | nil => trivial
  | cons a l ih =>
    obtain ⟨n, hn, hp, ht, hl⟩ := hl
    exact ⟨n, (hh a (List.mem_cons_self ..)).trans hn, hp, ht,
      ih hl (fun b hb => hh b (List.mem_cons_of_mem a hb))⟩

theorem Linked.isSome (hl : Linked h p l t) (ha : a ∈ l) : (h a).isSome := by
  induction l generalizing p with
  | nil => cases ha
  | cons b l ih =>
    obtain ⟨n, hn, -, -, hl⟩ := hl
    rcases List.mem_cons.mp ha with rfl | ha
    · simp [hn]
    · exact ih hl ha

/-- The head determines the rest of a list that ends in NULL. -/
theorem Linked.unique (hl : Linked h p l none) (hm : Linked h p' m none)
    (he : l.head? = m.head?) : l = m := by
  induction l generalizing p p' m with
  | nil => exact (List.head?_eq_none_iff.mp he.symm).symm
  | cons a l ih =>
    cases m with
    | nil => cases he
    | cons b m =>
      obtain rfl : a = b := Option.some.inj he
      obtain ⟨n, hn, -, hnext, hl⟩ := hl
      obtain ⟨n', hn', -, hnext', hm⟩ := hm
      obtain rfl : n = n' := Option.some.inj (hn.symm.trans hn')
      rw [ih hl hm (by simpa using hnext.symm.trans hnext')]

/-- A list that ends in NULL does not come back to a node. -/
theorem Linked.nodup (hl : Linked h p l none) : l.Nodup := by
  induction l generalizing p with
  | nil => exact List.nodup_nil
  | cons a l ih =>
    have htail := hl.choose_spec.2.2.2
    refine List.nodup_cons.mpr ⟨fun ha => ?_, ih htail⟩
    -- the part that starts at the second occurrence would be as long as the whole
    obtain ⟨l₁, l₂, rfl⟩ := List.append_of_mem ha
    have hsuffix := (linked_append.mp htail).2
    have heq := hl.unique hsuffix rfl
    have hlen := congrArg List.length heq
    simp only [List.length_cons, List.length_append] at hlen
    omega

theorem IsList.unique (hl : IsList h x l) (hm : IsList h x m) : l = m :=
  hl.2.unique hm.2 (hl.1.symm.trans hm.1)

theorem IsList.nodup (hl : IsList h x l) : l.Nodup := hl.2.nodup

theorem IsList.isSome (hl : IsList h x l) (ha : a ∈ l) : (h a).isSome := hl.2.isSome ha

theorem IsList.congr (hl : IsList h x l) (hh : ∀ a ∈ l, g a = h a) : IsList g x l :=
  ⟨hl.1, hl.2.congr hh⟩

@[simp] theorem isList_nil : IsList h x [] ↔ x = none :=
  ⟨fun hl => hl.1, fun hx => ⟨hx, trivial⟩⟩

/-- What the links of a node in the middle of a list are. -/
theorem IsList.links (hl : IsList h x (l ++ a :: m)) :
    ∃ n, h a = some n ∧ n.prev = l.getLast? ∧ n.next = m.head? := by
  obtain ⟨n, hn, hp, ht, -⟩ := (linked_append.mp hl.2).2
  exact ⟨n, hn, by simpa using hp, by simpa using ht⟩

/-! ## Writing links -/

variable [DecidableEq ι]

/-- Rewrite the node at an address; nothing happens where no node is stored. -/
def modify (h : Heap ι α) (a : ι) (f : Node ι α → Node ι α) : Heap ι α :=
  Function.update h a ((h a).map f)

/-- Rewrite the node that a pointer points to, if it points to one. -/
def modify? (h : Heap ι α) (x : Option ι) (f : Node ι α → Node ι α) : Heap ι α :=
  x.elim h (fun a => modify h a f)

@[simp] theorem modify_self (f : Node ι α → Node ι α) : modify h a f a = (h a).map f := by
  simp [modify]

@[simp] theorem modify_of_ne {f : Node ι α → Node ι α} (hab : b ≠ a) : modify h a f b = h b := by
  simp [modify, hab]

@[simp] theorem modify?_none (f : Node ι α → Node ι α) : modify? h none f = h := rfl

@[simp] theorem modify?_some (f : Node ι α → Node ι α) : modify? h (some a) f = modify h a f := rfl

@[simp] theorem modify?_of_ne {f : Node ι α → Node ι α} (hx : x ≠ some b) :
    modify? h x f b = h b := by
  cases x with
  | none => rfl
  | some a => exact modify_of_ne (fun hab => hx (hab ▸ rfl))

/-- A write that keeps values keeps them everywhere. -/
theorem modify?_value {f : Node ι α → Node ι α} (hf : ∀ n, (f n).value = n.value) :
    (modify? h x f b).map Node.value = (h b).map Node.value := by
  cases x with
  | none => rfl
  | some a =>
    by_cases hab : b = a
    · subst hab
      cases hb : h b <;> simp [hb, hf]
    · rw [modify?_some, modify_of_ne hab]

@[simp] theorem modify_isSome {f : Node ι α → Node ι α} :
    (modify h a f b).isSome = (h b).isSome := by
  by_cases hab : b = a
  · subst hab
    simp
  · rw [modify_of_ne hab]

theorem modify_modify (f g : Node ι α → Node ι α) :
    modify (modify h a f) a g = modify h a (fun n => g (f n)) := by
  funext b
  by_cases hab : b = a
  · subst hab
    simp [Function.comp_def]
  · simp only [modify_of_ne hab]

theorem modify_eq_self {f : Node ι α → Node ι α} (hf : (h a).map f = h a) : modify h a f = h := by
  rw [modify, hf, Function.update_eq_self]

/-- A write through a pointer, which faults where no node is stored. -/
def write (h : Heap ι α) (a : ι) (f : Node ι α → Node ι α) : Option (Heap ι α) :=
  (h a).map (fun n => Function.update h a (some (f n)))

theorem write_eq {f : Node ι α → Node ι α} (ha : (h a).isSome) :
    write h a f = some (modify h a f) := by
  obtain ⟨n, hn⟩ := Option.isSome_iff_exists.mp ha
  simp [write, modify, hn]

/-- Relink the last node of a list. -/
theorem Linked.setNext_last (hl : Linked h p l t) (hd : l.Nodup) :
    Linked (modify? h l.getLast? (fun n => n.setNext u)) p l u := by
  induction l generalizing p with
  | nil => trivial
  | cons a l ih =>
    obtain ⟨n, hn, hp, ht, hl⟩ := hl
    obtain ⟨ha, hd⟩ := List.nodup_cons.mp hd
    cases l with
    | nil => exact ⟨n.setNext u, by simp [hn], hp, rfl, trivial⟩
    | cons b l =>
      have hlast : (b :: l).getLast? ≠ some a := fun he => ha (List.mem_of_getLast? he)
      rw [show (a :: b :: l).getLast? = (b :: l).getLast? by simp [List.getLast?_cons]]
      exact ⟨n, by rw [modify?_of_ne hlast, hn], hp, ht, ih hl hd⟩

/-- Relink the first node of a list. -/
theorem Linked.setPrev_head (hl : Linked h p l t) (hd : l.Nodup) :
    Linked (modify? h l.head? (fun n => n.setPrev q)) q l t := by
  cases l with
  | nil => trivial
  | cons a l =>
    obtain ⟨n, hn, -, ht, hl⟩ := hl
    refine ⟨n.setPrev q, by simp [hn], rfl, ht, hl.congr fun b hb => ?_⟩
    exact modify_of_ne (fun hab => (List.nodup_cons.mp hd).1 (hab ▸ hb))

/-! ## The two operations -/

/-- Put the node at `a` before the head `x`. -/
def pushFront (h : Heap ι α) (x : Option ι) (a : ι) : Heap ι α :=
  modify (modify? h x (fun n => n.setPrev (some a))) a (fun n => (n.setPrev none).setNext x)

/-- Take the node at `a` out of its list and clear its links. -/
def unlink (h : Heap ι α) (a : ι) : Heap ι α :=
  (h a).elim h fun n =>
    modify
      (modify? (modify? h n.prev (fun b => b.setNext n.next)) n.next (fun c => c.setPrev n.prev))
      a (fun n => (n.setPrev none).setNext none)

theorem pushFront_value : (pushFront h x a b).map Node.value = (h b).map Node.value := by
  rw [pushFront, ← modify?_some, modify?_value, modify?_value]
  · exact fun n => rfl
  · exact fun n => rfl

theorem unlink_value : (unlink h a b).map Node.value = (h b).map Node.value := by
  unfold unlink
  cases h a with
  | none => rfl
  | some n =>
    rw [Option.elim_some, ← modify?_some, modify?_value, modify?_value, modify?_value]
    · exact fun n => rfl
    · exact fun n => rfl
    · exact fun n => rfl

/-- Nodes outside the list are left as they are. -/
theorem pushFront_of_not_mem (hl : IsList h x l) (hb : b ∉ a :: l) : pushFront h x a b = h b := by
  obtain ⟨hba, hb⟩ := not_or.mp (fun hc => hb (List.mem_cons.mpr hc))
  rw [pushFront, modify_of_ne hba, modify?_of_ne]
  rintro rfl
  exact hb (List.mem_of_head? hl.1.symm)

theorem IsList.pushFront (hl : IsList h x l) (ha : (h a).isSome) (hal : a ∉ l) :
    IsList (pushFront h x a) (some a) (a :: l) := by
  obtain ⟨n, hn⟩ := Option.isSome_iff_exists.mp ha
  obtain ⟨rfl, hl⟩ := hl
  have hhead : l.head? ≠ some a := fun he => hal (List.mem_of_head? he)
  refine ⟨rfl, (n.setPrev none).setNext l.head?, ?_, rfl, by simp, ?_⟩
  · rw [DoublyLinked.pushFront, modify_self, modify?_of_ne hhead, hn, Option.map_some]
  · refine (hl.setPrev_head hl.nodup).congr fun b hb => modify_of_ne ?_
    rintro rfl
    exact hal hb

/-- Nodes outside the list are left as they are. -/
theorem unlink_of_not_mem (hl : IsList h x (l ++ a :: m)) (hb : b ∉ l ++ a :: m) :
    unlink h a b = h b := by
  obtain ⟨n, hn, hp, ht⟩ := hl.links
  obtain ⟨hbl, hb⟩ := not_or.mp (fun hc => hb (List.mem_append.mpr hc))
  obtain ⟨hba, hbm⟩ := not_or.mp (fun hc => hb (List.mem_cons.mpr hc))
  rw [unlink, hn, Option.elim_some, modify_of_ne hba, modify?_of_ne, modify?_of_ne]
  · rw [hp]
    exact fun he => hbl (List.mem_of_getLast? he)
  · rw [ht]
    exact fun he => hbm (List.mem_of_head? he)

/-- Taking out the node at any position leaves the other nodes linked. -/
theorem IsList.unlink (hl : IsList h x (l ++ a :: m)) :
    IsList (unlink h a) (l ++ m).head? (l ++ m) := by
  obtain ⟨n, hn, hp, ht⟩ := hl.links
  obtain ⟨hdl, hdm, hdisj⟩ := List.nodup_append.mp hl.nodup
  obtain ⟨ham, hdm⟩ := List.nodup_cons.mp hdm
  obtain ⟨hll, hlm⟩ := linked_append.mp hl.2
  have hlm : Linked h (some a) m none := hlm.choose_spec.2.2.2
  refine ⟨rfl, ?_⟩
  rw [DoublyLinked.unlink, hn, Option.elim_some, hp, ht]
  -- first the node before `a`, then the node after it, then `a` itself
  have h₁l := hll.setNext_last (u := m.head?) hdl
  have h₁m := hlm.congr (g := modify? h l.getLast? (fun n => n.setNext m.head?)) fun b hb =>
    modify?_of_ne fun he => hdisj b (List.mem_of_getLast? he) b (List.mem_cons_of_mem a hb) rfl
  have h₂m := h₁m.setPrev_head (q := l.getLast?) hdm
  have h₂l := h₁l.congr (g := modify? (modify? h l.getLast? (fun n => n.setNext m.head?)) m.head?
    (fun n => n.setPrev l.getLast?)) fun b hb =>
      modify?_of_ne fun he => hdisj b hb b (List.mem_cons_of_mem a (List.mem_of_head? he)) rfl
  refine linked_append.mpr ⟨?_, ?_⟩
  · rw [Option.or_none]
    refine h₂l.congr fun b hb => modify_of_ne ?_
    rintro rfl
    exact hdisj b hb b (List.mem_cons_self ..) rfl
  · rw [Option.or_none]
    refine h₂m.congr fun b hb => modify_of_ne ?_
    rintro rfl
    exact ham hb

/-- The node that was taken out has no links. -/
theorem unlink_self {n : Node ι α} (hl : IsList h x (l ++ a :: m)) (hn : h a = some n) :
    unlink h a a = some ⟨n.value, none, none⟩ := by
  obtain ⟨n', hn', hp, ht⟩ := hl.links
  obtain rfl : n = n' := Option.some.inj (hn.symm.trans hn')
  obtain ⟨-, hdm, hdisj⟩ := List.nodup_append.mp hl.nodup
  rw [unlink, hn, Option.elim_some, modify_self, modify?_of_ne, modify?_of_ne, hn]
  · rfl
  · rw [hp]
    exact fun he => hdisj a (List.mem_of_getLast? he) a (List.mem_cons_self ..) rfl
  · rw [ht]
    exact fun he => (List.nodup_cons.mp hdm).1 (List.mem_of_head? he)

/-- Freeing a node that is in no list. -/
theorem IsList.free (hl : IsList h x l) (ha : a ∉ l) : IsList (Function.update h a none) x l := by
  exact hl.congr fun b hb => Function.update_of_ne (ne_of_mem_of_not_mem hb ha) _ _

/-! ## Two lists in one heap -/

/-- Two disjoint lists, and perhaps a node on its way from one to the other, make up
the heap. -/
structure Split (h : Heap ι α) (x y : Option ι) (l m : List ι) (c : Option ι) : Prop where
  first : IsList h x l
  second : IsList h y m
  disjoint : l.Disjoint m
  loose : ∀ a ∈ c, a ∉ l ∧ a ∉ m ∧ ∃ v, h a = some ⟨v, none, none⟩
  covers : ∀ a, (h a).isSome ↔ a ∈ l ∨ a ∈ m ∨ a ∈ c

namespace Split

variable {y c : Option ι} {k j : List ι}

omit [DecidableEq ι] in
theorem swap (hs : Split h x y l m c) : Split h y x m l c :=
  ⟨hs.second, hs.first, hs.disjoint.symm, fun a ha => ⟨(hs.loose a ha).2.1, (hs.loose a ha).1,
    (hs.loose a ha).2.2⟩, fun a => by rw [hs.covers, or_left_comm]⟩

theorem attach (hs : Split h x y l m (some a)) :
    Split (pushFront h x a) (some a) y (a :: l) m none := by
  obtain ⟨hal, ham, v, hv⟩ := hs.loose a rfl
  have hsome : (h a).isSome := by simp [hv]
  refine ⟨hs.first.pushFront hsome hal, hs.second.congr fun b hb => ?_, ?_, by simp, fun b => ?_⟩
  · refine pushFront_of_not_mem hs.first ?_
    rintro (_ | ⟨_, hbl⟩)
    · exact ham hb
    · exact hs.disjoint hbl hb
  · exact List.disjoint_cons_left.mpr ⟨ham, hs.disjoint⟩
  · rw [← Option.isSome_map, pushFront_value, Option.isSome_map, hs.covers]
    simp only [List.mem_cons, Option.mem_def, Option.some.injEq, reduceCtorEq]
    grind

theorem detach (hs : Split h x y (k ++ a :: j) m none) :
    Split (unlink h a) (k ++ j).head? y (k ++ j) m (some a) := by
  obtain ⟨n, hn, -, -⟩ := hs.first.links
  have hd := hs.first.nodup
  refine ⟨hs.first.unlink, hs.second.congr fun b hb => ?_, fun b hb hbm => ?_, ?_, fun b => ?_⟩
  · exact unlink_of_not_mem hs.first (fun hbl => hs.disjoint hbl hb)
  · refine hs.disjoint (List.mem_append.mpr ?_) hbm
    exact (List.mem_append.mp hb).imp_right (List.mem_cons_of_mem a)
  · rintro b ⟨rfl⟩
    refine ⟨?_, hs.disjoint (by simp), n.value, unlink_self hs.first hn⟩
    rw [List.nodup_middle] at hd
    exact (List.nodup_cons.mp hd).1
  · rw [← Option.isSome_map, unlink_value, Option.isSome_map, hs.covers]
    simp only [List.mem_append, List.mem_cons, Option.mem_def, Option.some.injEq, reduceCtorEq]
    grind

theorem free (hs : Split h x y l m (some a)) : Split (Function.update h a none) x y l m none := by
  obtain ⟨hal, ham, -⟩ := hs.loose a rfl
  refine ⟨hs.first.free hal, hs.second.free ham, hs.disjoint, by simp, fun b => ?_⟩
  by_cases hba : b = a
  · subst hba
    simp [hal, ham]
  · rw [Function.update_of_ne hba, hs.covers]
    simp [Ne.symm hba]

theorem make (hs : Split h x y l m none) (ha : h a = none) (v : α) :
    Split (Function.update h a (some ⟨v, none, none⟩)) x y l m (some a) := by
  have hcov : a ∉ l ∧ a ∉ m := by
    have := (hs.covers a).not.mp (by simp [ha])
    grind
  refine ⟨hs.first.congr fun b hb => ?_, hs.second.congr fun b hb => ?_,
    hs.disjoint, ?_, fun b => ?_⟩
  · exact Function.update_of_ne (ne_of_mem_of_not_mem hb hcov.1) _ _
  · exact Function.update_of_ne (ne_of_mem_of_not_mem hb hcov.2) _ _
  · rintro b ⟨rfl⟩
    exact ⟨hcov.1, hcov.2, v, Function.update_self ..⟩
  · by_cases hba : b = a
    · subst hba
      simp
    · rw [Function.update_of_ne hba, hs.covers]
      simp [Ne.symm hba]

end Split
end Xiaoxin.DoublyLinked
