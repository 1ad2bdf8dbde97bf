import Xiaoxin.Schema

/-!
# Friends, shields and offline messages

The procedures behind the chat. A friendship is two rows of `mc_friend_rel`, one
for each direction. What is sent to a user who is not there waits in
`mc_offlineMes`.
-/
namespace Xiaoxin.Sql
open Relational Sessions Prog

/-- The row says that the second user is in the list of the first. -/
def ofFriend (userID friendID : Option ℤ) (r : Row McFriendRel) : Bool :=
  userID == some r.val.userID && friendID == some r.val.friendID

def Database.hasFriend (d : Database) (userID friendID : Option ℤ) : Bool :=
  d.mcFriendRel.any (ofFriend userID friendID)

/-- The parameters are of type `bigint`, the columns of type `int` and not NULL. -/
def friendRow (userID friendID : Option ℤ) : Option McFriendRel := do
  let u ← userID
  let f ← friendID
  if IsInt u ∧ IsInt f then some ⟨u, f⟩ else none

/-- Each of the two blocks of `GP_ADDFRIEND`. Whether the insert succeeds is not
looked at. -/
def befriend (userID friendID : Option ℤ) : Procedure Unit := do
  let there ← read fun d => d.hasFriend userID friendID
  if there then pure ()
  else write fun d =>
    ({ d with mcFriendRel := (d.mcFriendRel.insert (friendRow userID friendID)).1 }, ())

/-- The result is `@retvalue`. -/
def gpAddFriend (ownidx reqidx : Option ℤ) : Procedure ℤ := do
  befriend ownidx reqidx
  befriend reqidx ownidx
  pure 0

/-- The result is `@ret`. Only the list of `idx` changes. -/
def gpDeleteFriend (idx targetIdx : Option ℤ) : Procedure ℤ :=
  write fun d => ({ d with mcFriendRel := d.mcFriendRel.delete (ofFriend idx targetIdx) }, 0)

/-- The result is `@retvalue`. -/
def gpCheckIsBothFriend (useidx targetidx : Option ℤ) : Procedure ℤ :=
  read fun d => if d.hasFriend useidx targetidx && d.hasFriend targetidx useidx then 1 else 0

/-- Both columns allow NULL. -/
def ofShield (userIdx groupIdx : Option ℤ) (r : Row McGroupShield) : Bool :=
  compares (· == ·) r.val.userID userIdx && compares (· == ·) r.val.classID groupIdx

/-- The result is `@ret`. -/
def gpShieldGroup (userIdx groupIdx operator : Option ℤ) : Procedure ℤ :=
  if operator = some 2 then
    write fun d =>
      ({ d with mcGroupShield := d.mcGroupShield.delete (ofShield userIdx groupIdx) }, 0)
  else if operator = some 1 then do
    let there ← read fun d => d.mcGroupShield.any (ofShield userIdx groupIdx)
    if there then pure 0
    else write fun d =>
      ({ d with mcGroupShield := (d.mcGroupShield.insert (some ⟨userIdx, groupIdx⟩)).1 }, 0)
  else pure 1

/-- The message waits for this user. -/
def forUser (userIdx : Option ℤ) (r : Row McOfflineMes) : Bool :=
  compares (· == ·) r.val.acceptUid userIdx

def maxOffline : ℕ := 500

/-- What `GP_InsertOffLineMessage` and `GP_InsertOffLineMessagenew` have in common;
`mesType` is the only column that may not be NULL. The result is `@ret`. -/
def insertOffline (receiverIdx : Option ℤ) (row : Option McOfflineMes) : Procedure ℤ := do
  let tmpMaxCount ← read fun d => d.mcOfflineMes.count (forUser receiverIdx)
  if maxOffline ≤ tmpMaxCount then pure 2
  else write fun d => ({ d with mcOfflineMes := (d.mcOfflineMes.insert row).1 }, 0)

def gpInsertOffLineMessage (senderIdx receiverIdx messageType contentType contentLen : Option ℤ)
    (content headUrl : Option String) (now : ℤ) : Procedure ℤ :=
  insertOffline receiverIdx (messageType.map fun m =>
    ⟨m, none, receiverIdx, senderIdx, contentType, content, contentLen, headUrl, now⟩)

/-- `@messageid` carries the group. -/
def gpInsertOffLineMessagenew
    (senderIdx receiverIdx messageType messageid contentType contentLen : Option ℤ)
    (content headUrl : Option String) (now : ℤ) : Procedure ℤ :=
  insertOffline receiverIdx (messageType.map fun m =>
    ⟨m, messageid, receiverIdx, senderIdx, contentType, content, contentLen, headUrl, now⟩)

/-- A row of the result of `GP_GetOfflineMsg`. -/
structure OfflineMsg where
  conLength : Option ℤ
  mesType : ℤ
  msID : ℤ
  url : Option String
  sendUid : Option ℤ
  contentType : Option ℤ
  offContent : Option String
  sendDate : ℤ
  deriving DecidableEq, Repr

def McOfflineMes.out (m : McOfflineMes) : OfflineMsg :=
  ⟨m.conLength, m.mesType, m.msID.getD 0, m.url, m.sendUid, m.contentType, m.offContent, m.sendDate⟩

def gpGetOfflineMsg (userIdx : Option ℤ) : Procedure (List OfflineMsg) :=
  read fun d => (d.mcOfflineMes.select (forUser userIdx)).map (·.val.out)

def gpDelOffLineMsg (userIdx : Option ℤ) : Procedure Unit :=
  write fun d => ({ d with mcOfflineMes := d.mcOfflineMes.delete (forUser userIdx) }, ())

/-! ## What the procedures leave alone -/

section
variable {τ : Type} {π : Database → τ}

theorem befriend_leaves (h : ∀ d t, π { d with mcFriendRel := t } = π d)
    (userID friendID : Option ℤ) : (befriend userID friendID).Leaves π := by
  simp [befriend, h]

theorem gpAddFriend_leaves (h : ∀ d t, π { d with mcFriendRel := t } = π d)
    (ownidx reqidx : Option ℤ) : (gpAddFriend ownidx reqidx).Leaves π :=
  (befriend_leaves h _ _).bind fun _ => (befriend_leaves h _ _).bind fun _ => trivial

theorem gpDeleteFriend_leaves (h : ∀ d t, π { d with mcFriendRel := t } = π d)
    (idx targetIdx : Option ℤ) : (gpDeleteFriend idx targetIdx).Leaves π := by
  simp [gpDeleteFriend, h]

theorem gpShieldGroup_leaves (h : ∀ d t, π { d with mcGroupShield := t } = π d)
    (userIdx groupIdx operator : Option ℤ) :
    (gpShieldGroup userIdx groupIdx operator).Leaves π := by
  simp [gpShieldGroup, h]

theorem insertOffline_leaves (h : ∀ d t, π { d with mcOfflineMes := t } = π d)
    (receiverIdx : Option ℤ) (row : Option McOfflineMes) :
    (insertOffline receiverIdx row).Leaves π := by
  simp [insertOffline, h]

theorem gpDelOffLineMsg_leaves (h : ∀ d t, π { d with mcOfflineMes := t } = π d)
    (userIdx : Option ℤ) : (gpDelOffLineMsg userIdx).Leaves π := by
  simp [gpDelOffLineMsg, h]

end

end Xiaoxin.Sql
