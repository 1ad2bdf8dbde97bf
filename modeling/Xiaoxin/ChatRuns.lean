import Mathlib.Data.List.DropRight
import Xiaoxin.Procedures

/-!
# The chat over runs of calls

What the tables of friends, shields and offline messages hold after any run of
calls that do not overlap, told from the calls alone.
-/
namespace Xiaoxin.Sql
open Relational Sessions Prog Transition

variable {L : Collation} {d e : Database}

/-! ## Friends -/

def Befriends (a b : ℤ) (c : Call) : Prop :=
  c = .addFriend (some a) (some b) ∨ c = .addFriend (some b) (some a)

/-- One of the two strikes the other off his list. -/
def Unfriends (a b : ℤ) (c : Call) : Prop :=
  c = .deleteFriend (some a) (some b) ∨ c = .deleteFriend (some b) (some a)

/-- Each of the two has the other in his list. -/
def Database.BothFriends (d : Database) (a b : ℤ) : Prop :=
  d.hasFriend (some a) (some b) = true ∧ d.hasFriend (some b) (some a) = true

theorem hasFriend_eq_true {x y : Option ℤ} : d.hasFriend x y = true ↔
    ∃ r ∈ d.mcFriendRel.rows, x = some r.val.userID ∧ y = some r.val.friendID := by
  simp [Database.hasFriend, Table.any_eq_true, ofFriend]

theorem befriend_seed (x y : Option ℤ) :
    ((befriend x y).run d).1.mcFriendRel.seed ≤ d.mcFriendRel.seed + 1 := by
  simp only [befriend, read_bind, run_stmt, id]
  split
  · exact (lt_add_one _).le
  · exact Table.seed_insert_le _

theorem hasFriend_befriend (hroom : d.mcFriendRel.HasRoom) {a b : ℤ} (ha : IsInt a) (hb : IsInt b)
    (x y : Option ℤ) : ((befriend x y).run d).1.hasFriend (some a) (some b) = true ↔
      d.hasFriend (some a) (some b) = true ∨ x = some a ∧ y = some b := by
  simp only [befriend, read_bind, run_stmt, id]
  by_cases hthere : d.hasFriend x y = true
  · simp only [hthere, if_true, pure_eq, run_done]
    constructor
    · exact Or.inl
    · rintro (h | ⟨rfl, rfl⟩)
      · exact h
      · exact hthere
  · simp only [hthere, write, run_stmt, run_done, Bool.false_eq_true, if_false]
    rw [Database.hasFriend, Table.any_insert]
    refine or_congr Iff.rfl ⟨?_, ?_⟩
    · rintro ⟨-, v, hv, hp⟩
      obtain ⟨rfl, rfl⟩ : a = v.userID ∧ b = v.friendID := by simpa [ofFriend] using hp
      cases x <;> cases y <;> simp [friendRow] at hv ⊢
      obtain ⟨-, rfl⟩ := hv
      exact ⟨rfl, rfl⟩
    · rintro ⟨rfl, rfl⟩
      exact ⟨hroom, ⟨a, b⟩, by simp [friendRow, ha, hb], by simp [ofFriend]⟩

theorem addFriend_run (x y : Option ℤ) : ((gpAddFriend x y).run d).1 =
    ((befriend y x).run ((befriend x y).run d).1).1 := by
  simp [gpAddFriend, run_bind]

theorem bothFriends_addFriend (hroom : d.mcFriendRel.seed + 1 ≤ intMax) {a b : ℤ} (ha : IsInt a)
    (hb : IsInt b) (x y : Option ℤ) : ((gpAddFriend x y).run d).1.BothFriends a b ↔
      Befriends a b (.addFriend x y) ∨ d.BothFriends a b := by
  have hfirst : d.mcFriendRel.HasRoom := by unfold Table.HasRoom; omega
  have hsecond : ((befriend x y).run d).1.mcFriendRel.HasRoom := (befriend_seed x y).trans hroom
  rw [addFriend_run]
  simp only [Database.BothFriends, hasFriend_befriend hsecond ha hb,
    hasFriend_befriend hsecond hb ha, hasFriend_befriend hfirst ha hb,
    hasFriend_befriend hfirst hb ha, Befriends, Call.addFriend.injEq]
  tauto

theorem hasFriend_deleteFriend (a b : ℤ) (x y : Option ℤ) :
    ((gpDeleteFriend x y).run d).1.hasFriend (some a) (some b) = true ↔
      d.hasFriend (some a) (some b) = true ∧ ¬ (x = some a ∧ y = some b) := by
  rw [hasFriend_eq_true, hasFriend_eq_true]
  constructor
  · rintro ⟨r, hr, hra, hrb⟩
    obtain ⟨hmem, hkept⟩ := List.mem_filter.mp hr
    simp only [Option.some.injEq] at hra hrb
    refine ⟨⟨r, hmem, by rw [hra], by rw [hrb]⟩, ?_⟩
    rintro ⟨rfl, rfl⟩
    simp [ofFriend, hra, hrb] at hkept
  · rintro ⟨⟨r, hr, hra, hrb⟩, hne⟩
    refine ⟨r, List.mem_filter.mpr ⟨hr, ?_⟩, hra, hrb⟩
    by_contra hgone
    rw [hra, hrb] at hne
    exact hne (by simpa [ofFriend] using hgone)

theorem bothFriends_deleteFriend (a b : ℤ) (x y : Option ℤ) :
    ((gpDeleteFriend x y).run d).1.BothFriends a b ↔
      ¬ Unfriends a b (.deleteFriend x y) ∧ d.BothFriends a b := by
  simp only [Database.BothFriends, hasFriend_deleteFriend, Unfriends, Call.deleteFriend.injEq]
  tauto

/-- What one call does to the friendship of two users. -/
theorem bothFriends_step (hroom : d.mcFriendRel.seed + 1 ≤ intMax) {a b : ℤ} (ha : IsInt a)
    (hb : IsInt b) {c : Call} (h : step L d c = some e) :
    e.BothFriends a b ↔ Befriends a b c ∨ ¬ Unfriends a b c ∧ d.BothFriends a b := by
  by_cases harea : c.area = some .friends
  · obtain rfl : ((program L c).run d).1 = e := by simpa [step] using h
    cases c <;> simp only [Call.area, reduceCtorEq, Option.some.injEq] at harea
    case addFriend x y =>
      have := bothFriends_addFriend hroom ha hb x y
      simpa [program, run_bind, Unfriends] using this
    case deleteFriend x y =>
      have := bothFriends_deleteFriend (d := d) a b x y
      simpa [program, run_bind, Befriends] using this
  · have hleft := step_other spares_mcFriendRel harea h
    have hnot : ¬ Befriends a b c ∧ ¬ Unfriends a b c := by
      constructor <;> rintro (rfl | rfl) <;> exact harea rfl
    simp [Database.BothFriends, Database.hasFriend, hleft, hnot]

/-- A call uses up two numbers of `mc_friend_rel` at most. -/
theorem friendSeed_step {c : Call} (h : step L d c = some e) :
    e.mcFriendRel.seed ≤ d.mcFriendRel.seed + 2 := by
  by_cases harea : c.area = some .friends
  · obtain rfl : ((program L c).run d).1 = e := by simpa [step] using h
    cases c <;> simp only [Call.area, reduceCtorEq, Option.some.injEq] at harea
    case addFriend x y =>
      simp only [program, run_bind, pure_eq, run_done, addFriend_run]
      have hfirst := befriend_seed (d := d) x y
      have hsecond := befriend_seed (d := ((befriend x y).run d).1) y x
      omega
    case deleteFriend x y =>
      simp [program, gpDeleteFriend, write]
  · rw [step_other spares_mcFriendRel harea h]
    omega

theorem checkIsBothFriend_reply (a b : Option ℤ) :
    reply L d (.checkIsBothFriend a b) = .ret 1 ↔
      d.hasFriend a b = true ∧ d.hasFriend b a = true := by
  simp only [reply, program, gpCheckIsBothFriend, read_bind, run_stmt, pure_eq, run_done]
  split <;> simp_all

/-- `GP_CHECKISBOTHFRIEND` answers 1 exactly if the last `GP_ADDFRIEND` for the two
users has no `GP_DeleteFriend` between them behind it, whichever of the two it was
that asked, was asked, or deleted. -/
theorem bothFriends_iff (L : Collation) (d e : Database) (calls : List Call) (a b : ℤ)
    (ha : IsInt a) (hb : IsInt b) (hroom : d.mcFriendRel.seed + 2 * calls.length ≤ intMax)
    (h : exec (step L) d calls = some e) :
    reply L e (.checkIsBothFriend (some a) (some b)) = .ret 1 ↔
      Since (Befriends a b) (Unfriends a b) calls ∨ (∀ c ∈ calls, ¬ Unfriends a b c) ∧
        reply L d (.checkIsBothFriend (some a) (some b)) = .ret 1 := by
  rw [checkIsBothFriend_reply, checkIsBothFriend_reply]
  refine since_of_step (I := fun n d => d.mcFriendRel.seed + 2 * n ≤ intMax)
    (P := fun d => d.BothFriends a b) ?_ ?_ hroom h
  · intro n s c t hs hst
    have := friendSeed_step hst
    push_cast at hs
    omega
  · intro n s c t hs hst
    push_cast at hs
    exact bothFriends_step (by omega) ha hb hst

theorem bothFriends_iff_created : ∃ e,
    exec (step binary) created [.addFriend (some 2) (some 1), .deleteFriend (some 1) (some 2),
      .addFriend (some 1) (some 2)] = some e ∧
    (reply binary e (.checkIsBothFriend (some 1) (some 2)) = .ret 1 ↔
      Since (Befriends 1 2) (Unfriends 1 2) [.addFriend (some 2) (some 1),
        .deleteFriend (some 1) (some 2), .addFriend (some 1) (some 2)] ∨
      (∀ c ∈ [Call.addFriend (some 2) (some 1), .deleteFriend (some 1) (some 2),
        .addFriend (some 1) (some 2)], ¬ Unfriends 1 2 c) ∧
      reply binary created (.checkIsBothFriend (some 1) (some 2)) = .ret 1) := by
  apply exists_exec (exec_isSome _ _)
  intro e he
  exact bothFriends_iff binary created e _ 1 2 (by decide) (by decide) (by decide) he

/-! ## Offline messages -/

/-- The message to this user that the call would store. -/
def messageTo (u : ℤ) : Call → Option McOfflineMes
  | .insertOffLineMessage senderIdx receiverIdx messageType contentType contentLen content headUrl
      now =>
    if receiverIdx = some u then messageType.map fun m =>
      ⟨m, none, receiverIdx, senderIdx, contentType, content, contentLen, headUrl, now⟩
    else none
  | .insertOffLineMessagenew senderIdx receiverIdx messageType messageid contentType contentLen
      content headUrl now =>
    if receiverIdx = some u then messageType.map fun m =>
      ⟨m, messageid, receiverIdx, senderIdx, contentType, content, contentLen, headUrl, now⟩
    else none
  | _ => none

def clears (u : ℤ) (c : Call) : Bool := c == .delOffLineMsg (some u)

/-- What waits for the user, oldest first. -/
def Database.box (d : Database) (u : ℤ) : List McOfflineMes :=
  (d.mcOfflineMes.select (forUser (some u))).map Row.val

/-- What the call does to the box of the user. -/
def deliver (u : ℤ) (box : List McOfflineMes) (c : Call) : List McOfflineMes :=
  if clears u c then []
  else if maxOffline ≤ box.length then box else box ++ (messageTo u c).toList

theorem box_length (u : ℤ) : (d.box u).length = d.mcOfflineMes.count (forUser (some u)) := by
  simp [Database.box, Table.length_select]

theorem insertOffline_box (hroom : d.mcOfflineMes.HasRoom) (u : ℤ) (receiverIdx : Option ℤ)
    (row : Option McOfflineMes) (hrow : ∀ m ∈ row, m.acceptUid = receiverIdx) :
    ((insertOffline receiverIdx row).run d).1.box u =
      if receiverIdx = some u ∧ (d.box u).length < maxOffline then d.box u ++ row.toList
      else d.box u := by
  have hfilter : (row.toList.map (⟨d.mcOfflineMes.seed, ·⟩)).filter (forUser (some u)) =
      if receiverIdx = some u then row.toList.map (⟨d.mcOfflineMes.seed, ·⟩) else [] := by
    cases row with
    | none => simp
    | some m =>
      have hm := hrow m rfl
      cases receiverIdx with
      | none => simp [forUser, hm]
      | some r => by_cases hr : r = u <;> simp [forUser, hm, hr]
  simp only [insertOffline, read_bind, run_stmt, id]
  by_cases hfull : maxOffline ≤ d.mcOfflineMes.count (forUser receiverIdx)
  · simp only [hfull, if_true, pure_eq, run_done]
    split
    · rename_i h
      obtain ⟨rfl, hlt⟩ := h
      rw [box_length] at hlt
      omega
    · rfl
  · simp only [hfull, if_false, write, run_stmt, run_done, Database.box, Table.select_insert, hroom,
      if_true, hfilter, List.map_append]
    by_cases hr : receiverIdx = some u
    · have hlt : ((d.mcOfflineMes.select (forUser (some u))).map Row.val).length < maxOffline := by
        rw [← hr, List.length_map, Table.length_select]
        omega
      simp only [hr, hlt, and_self, if_true, List.map_map]
      congr 1
      exact List.map_id _
    · simp [hr]

theorem insertOffline_deliver (hroom : d.mcOfflineMes.HasRoom) (u : ℤ) (receiverIdx : Option ℤ)
    (row : Option McOfflineMes) (hrow : ∀ m ∈ row, m.acceptUid = receiverIdx) {c : Call}
    (hclears : clears u c = false)
    (hc : messageTo u c = if receiverIdx = some u then row else none) :
    ((insertOffline receiverIdx row).run d).1.box u = deliver u (d.box u) c := by
  rw [insertOffline_box hroom u receiverIdx row hrow]
  by_cases hr : receiverIdx = some u
  · by_cases hlt : (d.box u).length < maxOffline
    · simp [deliver, hclears, hc, hr, hlt]
    · simp [deliver, hclears, hc, hr, hlt]
  · simp [deliver, hclears, hc, hr]

theorem delOffLineMsg_box (u : ℤ) (x : Option ℤ) :
    ((gpDelOffLineMsg x).run d).1.box u = if x = some u then [] else d.box u := by
  simp only [gpDelOffLineMsg, write, run_stmt, run_done, Database.box, Table.select_delete]
  by_cases hx : x = some u
  · subst hx
    simp
  · rw [if_neg hx, Table.select]
    congr 1
    refine List.filter_congr fun r _ => ?_
    cases hr : forUser (some u) r with
    | false => rfl
    | true =>
      have hother : forUser x r = false := compares_of_ne (Ne.symm hx) hr
      simp [hother]

/-- What one call does to the box of a user. -/
theorem box_step (hroom : d.mcOfflineMes.HasRoom) (u : ℤ) {c : Call} (h : step L d c = some e) :
    e.box u = deliver u (d.box u) c := by
  by_cases harea : c.area = some .offline
  · obtain rfl : ((program L c).run d).1 = e := by simpa [step] using h
    cases c <;> simp only [Call.area, reduceCtorEq, Option.some.injEq] at harea
    case insertOffLineMessage s r m t l c h now =>
      simp only [program, run_bind, pure_eq, run_done, gpInsertOffLineMessage]
      exact insertOffline_deliver hroom u r _ (by simp) (by simp [clears]) rfl
    case insertOffLineMessagenew s r m i t l c h now =>
      simp only [program, run_bind, pure_eq, run_done, gpInsertOffLineMessagenew]
      exact insertOffline_deliver hroom u r _ (by simp) (by simp [clears]) rfl
    case delOffLineMsg x =>
      simp only [program, run_bind, pure_eq, run_done, delOffLineMsg_box]
      by_cases hx : x = some u
      · simp [deliver, clears, hx]
      · simp [deliver, clears, messageTo, hx]
  · have hnone : clears u c = false ∧ messageTo u c = none := by
      cases c <;> first | exact absurd rfl harea | exact ⟨by simp [clears], rfl⟩
    simp [deliver, Database.box, step_other spares_mcOfflineMes harea h, hnone]

theorem offlineSeed_step {c : Call} (h : step L d c = some e) :
    e.mcOfflineMes.seed ≤ d.mcOfflineMes.seed + 1 := by
  have hinsert : ∀ (r : Option ℤ) (row : Option McOfflineMes),
      ((insertOffline r row).run d).1.mcOfflineMes.seed ≤ d.mcOfflineMes.seed + 1 := by
    intro r row
    simp only [insertOffline, read_bind, run_stmt, id]
    split
    · exact (lt_add_one _).le
    · exact Table.seed_insert_le _
  by_cases harea : c.area = some .offline
  · obtain rfl : ((program L c).run d).1 = e := by simpa [step] using h
    cases c <;> simp only [Call.area, reduceCtorEq, Option.some.injEq] at harea
    case insertOffLineMessage =>
      simp only [program, run_bind, pure_eq, run_done, gpInsertOffLineMessage]
      exact hinsert _ _
    case insertOffLineMessagenew =>
      simp only [program, run_bind, pure_eq, run_done, gpInsertOffLineMessagenew]
      exact hinsert _ _
    case delOffLineMsg =>
      simp [program, gpDelOffLineMsg, write]
  · rw [step_other spares_mcOfflineMes harea h]
    omega

/-- A box that starts empty has the first messages sent since it was last cleared. -/
theorem foldl_deliver (u : ℤ) (calls : List Call) : calls.foldl (deliver u) [] =
    ((calls.rtakeWhile (fun c => !clears u c)).filterMap (messageTo u)).take maxOffline := by
  induction calls using List.reverseRecOn with
  | nil => rfl
  | append_singleton calls c ih =>
    rw [List.foldl_append, List.foldl_cons, List.foldl_nil, ih, List.rtakeWhile_concat]
    cases hc : clears u c with
    | true => simp [deliver, hc]
    | false =>
      have hlast : [c].filterMap (messageTo u) = (messageTo u c).toList := by
        cases hm : messageTo u c <;> simp [hm]
      simp only [deliver, hc, Bool.not_false, if_true, Bool.false_eq_true, if_false,
        List.filterMap_append, hlast]
      generalize (calls.rtakeWhile fun c => !clears u c).filterMap (messageTo u) = sent
      have hlength : (messageTo u c).toList.length ≤ 1 := by cases messageTo u c <;> simp
      by_cases hfull : maxOffline ≤ sent.length
      · rw [if_pos (by simpa using hfull), List.take_append_of_le_length hfull]
      · rw [if_neg (by simpa using hfull), List.take_of_length_le (by omega),
          List.take_of_length_le (by rw [List.length_append]; omega)]

theorem getOfflineMsg_reply (u : ℤ) :
    reply L d (.getOfflineMsg (some u)) = .messages ((d.box u).map McOfflineMes.out) := by
  simp [reply, program, gpGetOfflineMsg, Database.box]

/-- `GP_GetOfflineMsg` returns the first five hundred messages that were sent to the
user since his messages were last deleted, in the order in which they were sent. -/
theorem offlineMsg_eq (L : Collation) (d e : Database) (calls : List Call) (u : ℤ)
    (hempty : d.mcOfflineMes.any (forUser (some u)) = false)
    (hroom : d.mcOfflineMes.seed + calls.length ≤ intMax + 1) (h : exec (step L) d calls = some e) :
    reply L e (.getOfflineMsg (some u)) =
      .messages ((((calls.rtakeWhile (fun c => !clears u c)).filterMap (messageTo u)).take
        maxOffline).map McOfflineMes.out) := by
  have hbox : ∀ (cs : List Call) (d : Database), d.mcOfflineMes.seed + cs.length ≤ intMax + 1 →
      exec (step L) d cs = some e → e.box u = cs.foldl (deliver u) (d.box u) := by
    intro cs
    induction cs with
    | nil =>
      intro d _ h
      cases h
      rfl
    | cons c cs ih =>
      intro d hroom h
      obtain ⟨m, hm, h⟩ := exec_cons_eq_some.mp h
      have hseed := offlineSeed_step hm
      push_cast [List.length_cons] at hroom
      rw [ih m (by omega) h, box_step (by unfold Table.HasRoom; omega) u hm]
      rfl
  have hnil : d.box u = [] := by
    rw [← List.length_eq_zero_iff, box_length, Table.count_eq_zero]
    exact hempty
  rw [getOfflineMsg_reply, hbox calls d hroom h, hnil, foldl_deliver]

theorem offlineMsg_eq_created : ∃ e,
    exec (step binary) created [
      .insertOffLineMessage (some 2) (some 1) (some 3) none none none none 0,
      .delOffLineMsg (some 1),
      .insertOffLineMessagenew (some 2) (some 1) (some 3) (some 7) none none none none 5] = some e ∧
    reply binary e (.getOfflineMsg (some 1)) =
      .messages [⟨none, 3, 7, none, some 2, none, none, 5⟩] := by
  apply exists_exec (exec_isSome _ _)
  intro e he
  exact offlineMsg_eq binary created e _ 1 (by decide) (by decide) he

end Xiaoxin.Sql
