import Xiaoxin.ChildServerManager
import Xiaoxin.Messages

/-!
# What the registry of child servers answers

`_client_map` holds pointers to objects of `sChildServerData`, and the methods read and
write the objects through them. `GetDatabase` finds an entry by its id; what comes of an
id that is not there is decided by each method for itself: some return, some throw. A
null pointer that a subclass has inserted is dereferenced, and `strcpy_s` ends the process
when there is no end of the string in `_ip`: a call that does not come back has no result
here. Assertions are compiled out.

As long as no two ids share an object, what the calls with one id are answered does not
depend on the calls with other ids, nor on the order in which the map holds its entries.
-/
namespace Xiaoxin
open Transition

namespace ClientMap

variable {δ : Type} {m : ClientMap δ} {id j : ℤ} {p q : Option δ}

/-- The pointer in the entry with an id. -/
def find (m : ClientMap δ) (id : ℤ) : Option (Option δ) :=
  (m.entries.find? fun e => e.1 = id).map Prod.snd

theorem find_eq_some : m.find id = some p ↔ (id, p) ∈ m.entries := by
  rw [find, Option.map_eq_some_iff]
  constructor
  · rintro ⟨e, he, rfl⟩
    have hid : e.1 = id := by have h := List.find?_some he; simpa using h
    exact hid ▸ List.mem_of_find?_eq_some he
  · intro hmem
    have hsome : (m.entries.find? fun e => e.1 = id).isSome :=
      List.find?_isSome.mpr ⟨(id, p), hmem, decide_eq_true (rfl : id = id)⟩
    obtain ⟨e, he⟩ := Option.isSome_iff_exists.mp hsome
    have hid : e.1 = id := by have h := List.find?_some he; simpa using h
    refine ⟨e, he, ?_⟩
    have hsame := List.inj_on_of_nodup_map m.nodup (List.mem_of_find?_eq_some he) hmem hid
    rw [hsame]

/-- The entries decide what is found, and their order does not matter. -/
theorem find_congr {m' : ClientMap δ} (h : ∀ e, e ∈ m.entries ↔ e ∈ m'.entries) (id : ℤ) :
    m.find id = m'.find id := by
  ext p
  simp only [find_eq_some, h]

theorem find_reorder [DecidableEq δ] {m' : ClientMap δ} {order : List (ℤ × Option δ)}
    (h : m.reorder order = some m') (id : ℤ) : m'.find id = m.find id := by
  simp only [reorder] at h
  split_ifs at h with hperm
  obtain rfl := Option.some.inj h
  exact find_congr (fun e => hperm.mem_iff) id

theorem mem_keys : id ∈ m.entries.map Prod.fst ↔ m.find id ≠ none := by
  rw [Option.ne_none_iff_exists']
  simp [find_eq_some]

/-- A new entry in front. -/
theorem find_of_cons {m' : ClientMap δ} (h : m'.entries = (id, p) :: m.entries) (j : ℤ) :
    m'.find j = if j = id then some p else m.find j := by
  rw [find, h, List.find?_cons]
  by_cases hj : j = id
  · simp [hj]
  · simp [hj, Ne.symm hj, find]

theorem find_insert (m : ClientMap δ) (id : ℤ) (p : Option δ) (j : ℤ) :
    (m.insert id p).find j = if j = id ∧ m.find id = none then some p else m.find j := by
  by_cases hid : id ∈ m.entries.map Prod.fst
  · have hsame : m.insert id p = m := dif_pos hid
    rw [hsame, if_neg fun h => mem_keys.mp hid h.2]
  · have hnone : m.find id = none := by simpa using mt mem_keys.mpr hid
    rw [find_of_cons (m := m) (by rw [insert, dif_neg hid]) j]
    simp only [hnone, and_true]

theorem find_assign (m : ClientMap δ) (id : ℤ) (p : Option δ) (j : ℤ) :
    (m.assign id p).find j = if j = id then some p else m.find j := by
  by_cases hid : id ∈ m.entries.map Prod.fst
  · obtain ⟨q, hq⟩ := Option.ne_none_iff_exists'.mp (mem_keys.mp hid)
    have hmap : (m.assign id p).entries =
        m.entries.map fun e => if e.1 = id then (id, p) else e := by rw [assign, dif_pos hid]
    ext r
    rw [find_eq_some, hmap, List.mem_map]
    by_cases hj : j = id
    · rw [if_pos hj, hj, Option.some.injEq]
      constructor
      · rintro ⟨e, -, he⟩
        split_ifs at he with h
        · exact (Prod.mk.inj he).2
        · exact absurd (congrArg Prod.fst he) h
      · rintro rfl
        exact ⟨(id, q), find_eq_some.mp hq, if_pos rfl⟩
    · rw [if_neg hj, find_eq_some]
      constructor
      · rintro ⟨e, he, heq⟩
        split_ifs at heq with h
        · exact absurd (congrArg Prod.fst heq).symm hj
        · exact heq ▸ he
      · exact fun h => ⟨(j, r), h, if_neg hj⟩
  · exact find_of_cons (by rw [assign, dif_neg hid]) j

/-- The entry is taken out and the others stay. -/
theorem mem_releaseChildServer {e : ℤ × Option δ} :
    e ∈ (m.releaseChildServer id).entries ↔ e ∈ m.entries ∧ e.1 ≠ id := by
  rw [releaseChildServer]
  split_ifs with h0
  · simp [List.length_eq_zero_iff.mp h0]
  · cases hf : m.entries.find? fun e => e.1 = id with
    | none =>
      have habsent := List.find?_eq_none.mp hf
      exact ⟨fun he => ⟨he, by simpa using habsent e he⟩, And.left⟩
    | some x =>
      obtain ⟨a, l, r, hl, ha, heq, herase⟩ :=
        List.exists_of_eraseP (List.mem_of_find?_eq_some hf) (List.find?_some hf)
      have haid : a.1 = id := of_decide_eq_true ha
      -- the keys in front differ by the search, those behind because no key is there twice
      have hfront : ∀ b ∈ l, b.1 ≠ id := fun b hb => by simpa using hl b hb
      have hbehind : ∀ b ∈ r, b.1 ≠ id := by
        intro b hb hbid
        have hkeys := heq ▸ m.nodup
        rw [List.map_append, List.map_cons] at hkeys
        exact (List.nodup_cons.mp hkeys.of_append_right).1
          (haid ▸ hbid ▸ List.mem_map_of_mem (f := Prod.fst) hb)
      show e ∈ m.entries.eraseP _ ↔ _
      rw [herase, heq, List.mem_append, List.mem_append, List.mem_cons]
      constructor
      · rintro (he | he)
        · exact ⟨.inl he, hfront e he⟩
        · exact ⟨.inr (.inr he), hbehind e he⟩
      · rintro ⟨he | rfl | he, hne⟩
        · exact .inl he
        · exact absurd haid hne
        · exact .inr he

theorem find_releaseChildServer (m : ClientMap δ) (id j : ℤ) :
    (m.releaseChildServer id).find j = if j = id then none else m.find j := by
  ext p
  rw [find_eq_some, mem_releaseChildServer]
  by_cases hj : j = id
  · simp [hj]
  · simp [hj, find_eq_some]

end ClientMap

/-! ## The methods -/

/-- `eCSS_none`. -/
def eCSSNone : BitVec 32 := 0

/-- The map and the objects that its pointers lead to. -/
structure ServerRegistry where
  clientMap : ClientMap ℕ
  objects : ℕ → SChildServerData

namespace ServerRegistry

/-- What a method gives back. -/
inductive Reply
  | void
  | threw
  | bool (b : Bool)
  | number (n : BitVec 32)
  | ipAndPort (found : Option (BitVec 16 × List (BitVec 8)))
  deriving DecidableEq, Repr

/-- The calls. An insertion brings an object of its own, or a null pointer, and leaves the
entries in some order. -/
inductive Call
  | insert (id : ℤ) (data : Option (ℕ × SChildServerData)) (order : List (ℤ × Option ℕ))
  | assign (id : ℤ) (data : Option (ℕ × SChildServerData)) (order : List (ℤ × Option ℕ))
  | releaseChildServer (id : ℤ)
  | getChildServerStatus (id : ℤ)
  | getChildSvrIpAndPort (id : ℤ)
  | getChildSvrDbId (socketID : ℤ)
  | updateChildServerStatus (id : ℤ) (status : BitVec 32)
  | updateChildSvrPeopleCount (id : ℤ) (pc : BitVec 32)
  | updateChildSvrUserCount (id : ℤ) (userCount : BitVec 64)

def Call.id : Call → ℤ
  | .insert id _ _ | .assign id _ _ | .releaseChildServer id | .getChildServerStatus id
  | .getChildSvrIpAndPort id | .getChildSvrDbId id | .updateChildServerStatus id _
  | .updateChildSvrPeopleCount id _ | .updateChildSvrUserCount id _ => id

def start (objects : ℕ → SChildServerData) : ServerRegistry := ⟨.empty, objects⟩

/-- `GetDatabase`. -/
def getDatabase (r : ServerRegistry) (id : ℤ) : Option (Option ℕ) :=
  if 0 < r.clientMap.entries.length then r.clientMap.find id else none

/-- Write into an object. -/
def modify (r : ServerRegistry) (a : ℕ) (f : SChildServerData → SChildServerData) :
    ServerRegistry :=
  { r with objects := Function.update r.objects a (f (r.objects a)) }

/-- A new object, if there is one. -/
def construct (r : ServerRegistry) : Option (ℕ × SChildServerData) → ServerRegistry
  | none => r
  | some (a, data) => r.modify a fun _ => data

/-- What a method reads in the object of an id. -/
def readData (r : ServerRegistry) (id : ℤ) (found : SChildServerData → Option Reply)
    (missing : Reply) : Option (ServerRegistry × Reply) :=
  match r.getDatabase id with
  | some (some a) => (found (r.objects a)).map fun reply => (r, reply)
  | some none => none
  | none => some (r, missing)

/-- What a method writes into the object of an id. -/
def writeData (r : ServerRegistry) (id : ℤ) (f : SChildServerData → SChildServerData)
    (found missing : Reply) : Option (ServerRegistry × Reply) :=
  match r.getDatabase id with
  | some (some a) => some (r.modify a f, found)
  | some none => none
  | none => some (r, missing)

/-- `UpdateChildServerStatus`. -/
def updateChildServerStatus (r : ServerRegistry) (id : ℤ) (status : BitVec 32) :
    Option (ServerRegistry × Reply) :=
  if status = eCSSNone then some (r, .threw)
  else r.writeData id (fun d => { d with status := status }) (.bool true) (.bool false)

/-- `UpdateChildSvrPeopleCount`. -/
def updateChildSvrPeopleCount (r : ServerRegistry) (id : ℤ) (pc : BitVec 32) :
    Option (ServerRegistry × Reply) :=
  r.writeData id (fun d => { d with peopleCount := pc }) .void .void

/-- `UpdateChildSvrUserCount`. -/
def updateChildSvrUserCount (r : ServerRegistry) (id : ℤ) (userCount : BitVec 64) :
    Option (ServerRegistry × Reply) :=
  r.writeData id (fun d => { d with userCount := userCount }) .void .void

/-- `GetChildSvrDbId`. -/
def getChildSvrDbId (r : ServerRegistry) (socketID : ℤ) : Option (ServerRegistry × Reply) :=
  r.readData socketID (fun d => some (.number d.databaseData.dbId)) .threw

/-- `GetChildServerStatus`. -/
def getChildServerStatus (r : ServerRegistry) (id : ℤ) : Option (ServerRegistry × Reply) :=
  r.readData id (fun d => some (.number d.status)) .threw

/-- The string in `_ip`, as `strcpy_s` copies it into a buffer of the same length. -/
def ipString (d : SChildServerData) : Option (List (BitVec 8)) :=
  if 0 ∈ d.ip.toList then some (d.ip.toList.takeWhile (· ≠ 0)) else none

/-- The port is an `unsigned __int32` that is stored through a pointer to an
`unsigned __int16`. -/
def ipAndPort (d : SChildServerData) : Option Reply :=
  (ipString d).map fun ip => .ipAndPort (some (d.port.setWidth 16, ip))

/-- `GetChildSvrIpAndPort`. -/
def getChildSvrIpAndPort (r : ServerRegistry) (id : ℤ) : Option (ServerRegistry × Reply) :=
  r.readData id ipAndPort (.ipAndPort none)

/-- A call, with what it gives back. -/
def call (r : ServerRegistry) : Call → Option (ServerRegistry × Reply)
  | .insert id data order =>
    ((r.clientMap.insert id (data.map Prod.fst)).reorder order).map fun m =>
      ({ r.construct data with clientMap := m }, .void)
  | .assign id data order =>
    ((r.clientMap.assign id (data.map Prod.fst)).reorder order).map fun m =>
      ({ r.construct data with clientMap := m }, .void)
  | .releaseChildServer id =>
    some ({ r with clientMap := r.clientMap.releaseChildServer id }, .void)
  | .getChildServerStatus id => r.getChildServerStatus id
  | .getChildSvrIpAndPort id => r.getChildSvrIpAndPort id
  | .getChildSvrDbId socketID => r.getChildSvrDbId socketID
  | .updateChildServerStatus id status => r.updateChildServerStatus id status
  | .updateChildSvrPeopleCount id pc => r.updateChildSvrPeopleCount id pc
  | .updateChildSvrUserCount id userCount => r.updateChildSvrUserCount id userCount

/-! ## One child server by itself -/

/-- What the registry knows of an id: nothing, a null pointer, or data. -/
def record (r : ServerRegistry) (id : ℤ) : Option (Option SChildServerData) :=
  (r.clientMap.find id).map (Option.map r.objects)

/-- Read what is known. -/
def readKnown (known : Option (Option SChildServerData))
    (found : SChildServerData → Option Reply) (missing : Reply) :
    Option (Option (Option SChildServerData) × Reply) :=
  match known with
  | some d => (d.bind found).map fun reply => (known, reply)
  | none => some (none, missing)

/-- Write what is known. -/
def writeKnown (known : Option (Option SChildServerData))
    (f : SChildServerData → SChildServerData) (found missing : Reply) :
    Option (Option (Option SChildServerData) × Reply) :=
  match known with
  | some d => d.map fun d => (some (some (f d)), found)
  | none => some (none, missing)

/-- What the calls with one id do to what is known of it, and what they give back. -/
def alone (known : Option (Option SChildServerData)) :
    Call → Option (Option (Option SChildServerData) × Reply)
  | .insert _ data _ => some (if known = none then some (data.map Prod.snd) else known, .void)
  | .assign _ data _ => some (some (data.map Prod.snd), .void)
  | .releaseChildServer _ => some (none, .void)
  | .getChildServerStatus _ => readKnown known (fun d => some (.number d.status)) .threw
  | .getChildSvrIpAndPort _ => readKnown known ipAndPort (.ipAndPort none)
  | .getChildSvrDbId _ =>
    readKnown known (fun d => some (.number d.databaseData.dbId)) .threw
  | .updateChildServerStatus _ status =>
    if status = eCSSNone then some (known, .threw)
    else writeKnown known (fun d => { d with status := status }) (.bool true) (.bool false)
  | .updateChildSvrPeopleCount _ pc =>
    writeKnown known (fun d => { d with peopleCount := pc }) .void .void
  | .updateChildSvrUserCount _ userCount =>
    writeKnown known (fun d => { d with userCount := userCount }) .void .void

/-- No two ids share an object. -/
def Apart (r : ServerRegistry) : Prop :=
  ∀ i j a, r.clientMap.find i = some (some a) → r.clientMap.find j = some (some a) → i = j

/-- The object that a subclass inserts is in no entry yet. -/
def BringsOwn (r : ServerRegistry) : Call → Prop
  | .insert _ data _ | .assign _ data _ =>
    ∀ x ∈ data, ∀ e ∈ r.clientMap.entries, e.2 ≠ some x.1
  | _ => True

variable {r s : ServerRegistry} {id j : ℤ} {a : ℕ} {c : Call} {reply : Reply}

/-- An empty map needs no case of its own. -/
theorem getDatabase_eq (r : ServerRegistry) (id : ℤ) : r.getDatabase id = r.clientMap.find id := by
  rw [getDatabase]
  split_ifs with h
  · rfl
  · have hnil : r.clientMap.entries = [] := List.length_eq_zero_iff.mp (by omega)
    rw [ClientMap.find, hnil]
    rfl

theorem record_of_find {p : Option ℕ} (h : r.clientMap.find id = some p) :
    r.record id = some (p.map r.objects) := by
  rw [record, h, Option.map_some]

theorem record_of_none (h : r.clientMap.find id = none) : r.record id = none := by
  rw [record, h, Option.map_none]

@[simp] theorem modify_objects (f : SChildServerData → SChildServerData) :
    (r.modify a f).objects = Function.update r.objects a (f (r.objects a)) := rfl

/-- A write into the object of one id does not show elsewhere. -/
theorem record_modify (hap : r.Apart) (hid : r.clientMap.find id = some (some a))
    (f : SChildServerData → SChildServerData) (j : ℤ) :
    (r.modify a f).record j =
      if j = id then some (some (f (r.objects a))) else r.record j := by
  split_ifs with hj
  · rw [hj, record_of_find (r := r.modify a f) hid, Option.map_some, modify_objects,
      Function.update_self]
  · cases hf : r.clientMap.find j with
    | none => rw [record_of_none (r := r.modify a f) hf, record_of_none hf]
    | some p =>
      rw [record_of_find (r := r.modify a f) hf, record_of_find hf]
      cases p with
      | none => rfl
      | some b =>
        have hne : b ≠ a := by
          rintro rfl
          exact hj (hap j id b hf hid)
        rw [Option.map_some, Option.map_some, modify_objects, Function.update_of_ne hne]

section Construct

variable {data : Option (ℕ × SChildServerData)} {m : ClientMap ℕ} {taken : Prop}
  [Decidable taken] {p : Option ℕ}

theorem construct_new (r : ServerRegistry) (data : Option (ℕ × SChildServerData)) :
    (data.map Prod.fst).map (r.construct data).objects = data.map Prod.snd := by
  cases data with
  | none => rfl
  | some x => rw [Option.map_some, Option.map_some, construct, modify_objects, Function.update_self,
      Option.map_some]

variable (hown : ∀ x ∈ data, ∀ e ∈ r.clientMap.entries, e.2 ≠ some x.1)
include hown

theorem construct_old (hf : r.clientMap.find j = some p) :
    p.map (r.construct data).objects = p.map r.objects := by
  cases p with
  | none => rfl
  | some b =>
    cases data with
    | none => rfl
    | some x =>
      have hne : b ≠ x.1 := fun h =>
        hown x rfl (j, some b) (ClientMap.find_eq_some.mp hf) (congrArg some h)
      rw [Option.map_some, Option.map_some, construct, modify_objects, Function.update_of_ne hne]

variable (hm : ∀ j, m.find j =
  if j = id ∧ taken then some (data.map Prod.fst) else r.clientMap.find j)
include hm

/-- A new object shows in the entry it is put in and nowhere else. -/
theorem record_construct (j : ℤ) : record { r.construct data with clientMap := m } j =
    if j = id ∧ taken then some (data.map Prod.snd) else r.record j := by
  simp only [record, hm]
  split_ifs with h
  · rw [Option.map_some, construct_new]
  · cases hf : r.clientMap.find j with
    | none => rfl
    | some p => rw [Option.map_some, Option.map_some, construct_old hown hf]

theorem apart_construct (hap : r.Apart) :
    Apart { r.construct data with clientMap := m } := by
  -- the address of a new object is found under its id alone
  have hnew : ∀ b, data.map Prod.fst = some b → ∀ j, r.clientMap.find j ≠ some (some b) := by
    intro b hb j hf
    obtain ⟨x, hx, rfl⟩ := Option.map_eq_some_iff.mp hb
    exact hown x hx (j, some x.1) (ClientMap.find_eq_some.mp hf) rfl
  intro i j b hi hj
  simp only [hm] at hi hj
  split_ifs at hi hj with h h' h'
  · exact h.1.trans h'.1.symm
  · exact absurd hj (hnew b (Option.some.inj hi) j)
  · exact absurd hi (hnew b (Option.some.inj hj) i)
  · exact hap i j b hi hj

end Construct

/-- What a call does where its id is and elsewhere. -/
structure Answers (r : ServerRegistry) (c : Call) (s : ServerRegistry) (reply : Reply) :
    Prop where
  here : alone (r.record c.id) c = some (s.record c.id, reply)
  elsewhere : ∀ j ≠ c.id, s.record j = r.record j
  apart : s.Apart

section Calls

variable (hap : r.Apart)
include hap

theorem answers_same (h : alone (r.record c.id) c = some (r.record c.id, reply)) :
    Answers r c r reply :=
  ⟨h, fun _ _ => rfl, hap⟩

theorem readData_answers {found : SChildServerData → Option Reply} {missing : Reply}
    (halone : ∀ known, alone known c = readKnown known found missing)
    (h : r.readData c.id found missing = some (s, reply)) : Answers r c s reply := by
  rw [readData, getDatabase_eq] at h
  cases hf : r.clientMap.find c.id with
  | none =>
    rw [hf] at h
    obtain ⟨rfl, rfl⟩ := Prod.mk.inj (Option.some.inj h)
    exact answers_same hap (by rw [record_of_none hf, halone]; rfl)
  | some p =>
    rw [hf] at h
    cases p with
    | none => cases h
    | some a =>
      obtain ⟨x, hx, heq⟩ := Option.map_eq_some_iff.mp h
      obtain ⟨rfl, rfl⟩ := Prod.mk.inj heq
      refine answers_same hap ?_
      rw [record_of_find hf, halone]
      exact congrArg (Option.map _) hx

theorem writeData_answers {f : SChildServerData → SChildServerData} {found missing : Reply}
    (halone : ∀ known, alone known c = writeKnown known f found missing)
    (h : r.writeData c.id f found missing = some (s, reply)) : Answers r c s reply := by
  rw [writeData, getDatabase_eq] at h
  cases hf : r.clientMap.find c.id with
  | none =>
    rw [hf] at h
    obtain ⟨rfl, rfl⟩ := Prod.mk.inj (Option.some.inj h)
    exact answers_same hap (by rw [record_of_none hf, halone]; rfl)
  | some p =>
    rw [hf] at h
    cases p with
    | none => cases h
    | some a =>
      obtain ⟨rfl, rfl⟩ := Prod.mk.inj (Option.some.inj h)
      refine ⟨?_, fun j hj => by rw [record_modify hap hf, if_neg hj], hap⟩
      rw [record_of_find hf, halone, record_modify hap hf, if_pos rfl]
      rfl

theorem insert_answers {data : Option (ℕ × SChildServerData)} {order : List (ℤ × Option ℕ)}
    (hown : r.BringsOwn (.insert id data order))
    (h : r.call (.insert id data order) = some (s, reply)) :
    Answers r (.insert id data order) s reply := by
  obtain ⟨m, hm, heq⟩ := Option.map_eq_some_iff.mp h
  obtain ⟨rfl, rfl⟩ := Prod.mk.inj heq
  have hfind : ∀ j, m.find j = if j = id ∧ r.clientMap.find id = none then
      some (data.map Prod.fst) else r.clientMap.find j := fun j => by
    rw [ClientMap.find_reorder hm, ClientMap.find_insert]
  refine ⟨?_, fun j hj => ?_, apart_construct hown hfind hap⟩
  · rw [record_construct hown hfind]
    show some (if r.record id = none then _ else r.record id, Reply.void) = _
    simp only [Call.id, true_and, record, Option.map_eq_none_iff]
  · rw [record_construct hown hfind, if_neg fun hc => hj hc.1]

theorem assign_answers {data : Option (ℕ × SChildServerData)} {order : List (ℤ × Option ℕ)}
    (hown : r.BringsOwn (.assign id data order))
    (h : r.call (.assign id data order) = some (s, reply)) :
    Answers r (.assign id data order) s reply := by
  obtain ⟨m, hm, heq⟩ := Option.map_eq_some_iff.mp h
  obtain ⟨rfl, rfl⟩ := Prod.mk.inj heq
  have hfind : ∀ j, m.find j = if j = id ∧ True then
      some (data.map Prod.fst) else r.clientMap.find j := fun j => by
    rw [ClientMap.find_reorder hm, ClientMap.find_assign]
    simp only [and_true]
  refine ⟨?_, fun j hj => ?_, apart_construct hown hfind hap⟩
  · rw [record_construct hown hfind, if_pos ⟨rfl, trivial⟩]
    rfl
  · rw [record_construct hown hfind, if_neg fun hc => hj hc.1]

theorem releaseChildServer_answers (h : r.call (.releaseChildServer id) = some (s, reply)) :
    Answers r (.releaseChildServer id) s reply := by
  obtain ⟨rfl, rfl⟩ := Prod.mk.inj (Option.some.inj h)
  refine ⟨?_, fun j hj => ?_, fun i j a hi hj => ?_⟩
  · simp only [record, Call.id, ClientMap.find_releaseChildServer, if_pos]
    rfl
  · have hj' : j ≠ id := hj
    simp only [record, ClientMap.find_releaseChildServer, if_neg hj']
  · rw [ClientMap.find_releaseChildServer] at hi hj
    split_ifs at hi hj
    exact hap i j a hi hj

/-- A call that comes back has done to its own id what the call does to one child server
by itself, and to the others nothing. -/
theorem call_answers (hown : r.BringsOwn c) (h : r.call c = some (s, reply)) :
    Answers r c s reply := by
  cases c with
  | insert id data order => exact insert_answers hap hown h
  | assign id data order => exact assign_answers hap hown h
  | releaseChildServer id => exact releaseChildServer_answers hap h
  | getChildServerStatus id => exact readData_answers hap (fun _ => rfl) h
  | getChildSvrIpAndPort id => exact readData_answers hap (fun _ => rfl) h
  | getChildSvrDbId socketID => exact readData_answers hap (fun _ => rfl) h
  | updateChildServerStatus id status =>
    by_cases hnone : status = eCSSNone
    · rw [call, updateChildServerStatus, if_pos hnone] at h
      obtain ⟨rfl, rfl⟩ := Prod.mk.inj (Option.some.inj h)
      exact answers_same hap (by rw [alone, if_pos hnone])
    · rw [call, updateChildServerStatus, if_neg hnone] at h
      exact writeData_answers hap (fun _ => by rw [alone, if_neg hnone]) h
  | updateChildSvrPeopleCount id pc => exact writeData_answers hap (fun _ => rfl) h
  | updateChildSvrUserCount id userCount => exact writeData_answers hap (fun _ => rfl) h

end Calls

/-! ## Runs -/

/-- A registry with the calls that have come back, each with its id and its reply. -/
abbrev Served := ServerRegistry × List (ℤ × Reply)

def step (x : Served) (c : Call) : Option Served :=
  (x.1.call c).map fun y => (y.1, x.2 ++ [(c.id, y.2)])

/-- What is known of one child server, with the replies. -/
abbrev ServedAlone := Option (Option SChildServerData) × List Reply

def stepAlone (x : ServedAlone) (c : Call) : Option ServedAlone :=
  (alone x.1 c).map fun y => (y.1, x.2 ++ [y.2])

/-- The part of a registry that is about one id. -/
def part (id : ℤ) (x : Served) : ServedAlone :=
  (x.1.record id, (x.2.filter fun y => y.1 = id).map Prod.snd)

theorem start_apart (objects : ℕ → SChildServerData) : (start objects).Apart := by
  intro i j a hi
  cases hi

/-- In every run in which no object is inserted twice, what the calls with one id were
answered, and what is known of it in the end, is what these calls by themselves make of
one child server. -/
theorem answers_alone {objects : ℕ → SChildServerData} {cs : List Call} {x : Served}
    (hrun : exec step (start objects, []) cs = some x)
    (hown : Along step (fun x c => x.1.BringsOwn c) (start objects, []) cs) (id : ℤ) :
    exec stepAlone (none, []) (cs.filter fun c => c.id = id) = some (part id x) := by
  have hmoves : ∀ (x : Served) c y, x.1.Apart → x.1.BringsOwn c → step x c = some y →
      ∃ reply, Answers x.1 c y.1 reply ∧ y.2 = x.2 ++ [(c.id, reply)] := by
    intro x c y hap hown h
    obtain ⟨z, hz, rfl⟩ := Option.map_eq_some_iff.mp h
    exact ⟨z.2, call_answers hap hown hz, rfl⟩
  refine exec_part (f := part id) (I := fun x : Served => x.1.Apart)
    (C := fun x c => x.1.BringsOwn c) ?_ ?_ ?_ (start_apart objects) hown hrun
  · intro x c y hap hown h
    obtain ⟨reply, ha, -⟩ := hmoves x c y hap hown h
    exact ha.apart
  · rintro x c y hap hown h rfl
    obtain ⟨reply, ha, hlog⟩ := hmoves x c y hap hown h
    rw [stepAlone, part, ha.here, part, hlog, List.filter_append, List.map_append]
    simp
  · intro x c y hap hown h hne
    obtain ⟨reply, ha, hlog⟩ := hmoves x c y hap hown h
    rw [part, part, ha.elsewhere id (Ne.symm hne), hlog, List.filter_append]
    simp [hne]

instance (r : ServerRegistry) : ∀ c, Decidable (r.BringsOwn c)
  | .insert _ data _ | .assign _ data _ =>
    inferInstanceAs (Decidable (∀ x ∈ data, ∀ e ∈ r.clientMap.entries, e.2 ≠ some x.1))
  | .releaseChildServer _ | .getChildServerStatus _ | .getChildSvrIpAndPort _
  | .getChildSvrDbId _ | .updateChildServerStatus _ _ | .updateChildSvrPeopleCount _ _
  | .updateChildSvrUserCount _ _ => isTrue trivial

/-- Two child servers. The second is inserted in front of the first and released again,
and a port beyond sixteen bits is cut. -/
def twoServers : List Call :=
  let data := { (SChildServerData.init .child).2 with port := 65537 }
  [.insert 7 (some (0, data)) [(7, some 0)],
    .insert 9 (some (1, data)) [(9, some 1), (7, some 0)],
    .updateChildServerStatus 7 2, .getChildSvrIpAndPort 9, .updateChildServerStatus 9 0,
    .updateChildSvrUserCount 9 400, .releaseChildServer 9, .getChildSvrDbId 9,
    .getChildServerStatus 7]

theorem answers_alone_two_servers :
    ∃ x, exec step (start fun _ => (SChildServerData.init .child).2, []) twoServers = some x ∧
      exec stepAlone (none, []) (twoServers.filter fun c => c.id = 9) = some (part 9 x) := by
  apply exists_exec (by decide +kernel)
  intro x hx
  exact answers_alone hx (by decide +kernel) 9

example : (exec step (start fun _ => (SChildServerData.init .child).2, []) twoServers).map
    Prod.snd = some [(7, .void), (9, .void), (7, .bool true), (9, .ipAndPort (some (1, []))),
      (9, .threw), (9, .void), (9, .void), (9, .threw), (7, .number 2)] := by decide +kernel

end ServerRegistry

end Xiaoxin
