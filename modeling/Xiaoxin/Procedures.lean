import Xiaoxin.Channels
import Xiaoxin.Friends
import Xiaoxin.Accounts
import Xiaoxin.Teaching
import Xiaoxin.Visits

/-!
# Calls of the stored procedures

A call comes with its parameters, and with what `GETDATE` answers where the
procedure stores it. `program` is what a session executes for a call, `step` the
whole of it with no other session in between.
-/
namespace Xiaoxin.Sql
open Relational Sessions Prog Transition

inductive Call
  | matrixCreate (maxServer maxChannel : Option ℤ)
  | matrixSelect
  | channelCheck (serverNum : Option ℤ) (serverName serverDesc : Option String)
      (channelNum : Option ℤ) (inetNum : Option String) (ipv4 port : Option ℤ)
  | channelUpdate (serverNum channelNum status : Option ℤ)
  | serverDown (serverNum channelNum : Option ℤ)
  | addFriend (ownidx reqidx : Option ℤ)
  | deleteFriend (idx targetIdx : Option ℤ)
  | checkIsBothFriend (useidx targetidx : Option ℤ)
  | shieldGroup (userIdx groupIdx operator : Option ℤ)
  | insertOffLineMessage (senderIdx receiverIdx messageType contentType contentLen : Option ℤ)
      (content headUrl : Option String) (now : ℤ)
  | insertOffLineMessagenew
      (senderIdx receiverIdx messageType messageid contentType contentLen : Option ℤ)
      (content headUrl : Option String) (now : ℤ)
  | getOfflineMsg (userIdx : Option ℤ)
  | delOffLineMsg (userIdx : Option ℤ)
  | login (userid password ip : Option String)
  | concurrentUser (serverIdx : Option ℤ)
  | userVerify (type : Option ℤ) (password tel email name : Option String)
      (addr1 addr2 cls : Option ℤ)
  | changePassword (useridx : Option ℤ) (password vercode : Option String)
  | changeMailAddr (useridx : Option ℤ) (mailaddr vercode : Option String) (retvalue : ℤ)
  | getMailAddr (phone vercode : Option String)
  | userUpdatePhotoUrl (idx : Option ℤ) (photoUrl : Option String)
  | modifyName (userIdx userType : Option ℤ) (userNewName : Option String)
  | modifyTeacherClass (userIndex userType c1 c2 c3 c4 c5 : Option ℤ)
  | delOrAddTeacherClass (useridx classidx sign : Option ℤ)
  | modifyCourse (userIdx userType c1 c2 c3 c4 c5 : Option ℤ)
  | modifyParentChildRelationship (userIdx childIdx : Option ℤ) (relationship : Option String)
  | modifyChildClass (userIdx childIdx newClassId oldClassId : Option ℤ)
  | countOnlineUsers (userIdx : Option ℤ) (now now' : ℤ)
  | chatVerify (userIdx userType : Option ℤ) (tel : Option String) (now now' : ℤ)
  | checkNewsTrends (maxNewsIdx : Option ℤ)
  | checkClassTrends (maxLargeTrendIdx : Option ℤ)
  | userInsertClasstrend (idx msgType : Option ℤ) (classIdx : Option String)
      (contentLen : Option ℤ) (content : Option String) (now : ℤ)
  deriving DecidableEq, Repr

/-- Output parameters and result sets. -/
inductive Reply
  | none
  | ret (n : ℤ)
  | count (n : ℕ)
  | matrix (maxServer maxChannel : Option ℤ)
  | channel (c : ChannelCheck)
  | login (l : Login)
  | mail (email : Option String) (ret : ℤ)
  | oldClass (classid : Option ℤ) (ret : ℤ)
  | messages (rows : List OfflineMsg)
  | areas (ret : ℤ) (rows : Option (List (Option ℤ × Option ℤ)))
  | news (ret : ℤ) (rows : List (Row McNews))
  | trends (ret : ℤ) (rows : List (Row McMessage))
  deriving DecidableEq, Repr

variable (L : Collation)

def program : Call → Procedure Reply
  | .matrixCreate a b => do let n ← gpMatrixCreate a b; pure (n.elim .none .ret)
  | .matrixSelect => do let m ← gpMatrixSelect; pure (.matrix m.1 m.2)
  | .channelCheck s a b c i v p => do let r ← gpChannelCheck L s a b c i v p; pure (.channel r)
  | .channelUpdate s c st => do let n ← gpChannelUpdate s c st; pure (.ret n)
  | .serverDown s c => do gpServerDown s c; pure .none
  | .addFriend a b => do let n ← gpAddFriend a b; pure (.ret n)
  | .deleteFriend a b => do let n ← gpDeleteFriend a b; pure (.ret n)
  | .checkIsBothFriend a b => do let n ← gpCheckIsBothFriend a b; pure (.ret n)
  | .shieldGroup u g o => do let n ← gpShieldGroup u g o; pure (.ret n)
  | .insertOffLineMessage s r m t l c h now => do
    let n ← gpInsertOffLineMessage s r m t l c h now; pure (.ret n)
  | .insertOffLineMessagenew s r m i t l c h now => do
    let n ← gpInsertOffLineMessagenew s r m i t l c h now; pure (.ret n)
  | .getOfflineMsg u => do let l ← gpGetOfflineMsg u; pure (.messages l)
  | .delOffLineMsg u => do gpDelOffLineMsg u; pure .none
  | .login u p i => do let l ← gpLogin L u p i; pure (.login l)
  | .concurrentUser s => do let n ← gpConcurrentUser s; pure (.count n)
  | .userVerify ty p t e n a b c => do let r ← gpUserVerify L ty p t e n a b c; pure (.ret r)
  | .changePassword u p v => do let r ← gpChangePassword L u p v; pure (.mail r.1 r.2)
  | .changeMailAddr u m v r => do let n ← gpChangeMailAddr L u m v r; pure (.ret n)
  | .getMailAddr p v => do let r ← gpGetMailAddr L p v; pure (.mail r.1 r.2)
  | .userUpdatePhotoUrl u p => do let n ← gpUserUpdatePhotoUrl L u p; pure (.ret n)
  | .modifyName u t n => do let r ← gpModifyName u t n; pure (.ret r)
  | .modifyTeacherClass u t a b c d e => do
    let n ← gpModifyTeacherClass u t a b c d e; pure (.ret n)
  | .delOrAddTeacherClass u c s => do let n ← gpDelOrAddTeacherClass u c s; pure (.ret n)
  | .modifyCourse u t a b c d e => do let n ← gpModifyCourse u t a b c d e; pure (.ret n)
  | .modifyParentChildRelationship u c r => do
    let n ← gpModifyParentChildRelationship u c r; pure (.ret n)
  | .modifyChildClass u c n o => do
    let r ← gpModifyChildClass u c n o; pure (.oldClass r.1 r.2)
  | .countOnlineUsers u now now' => do gpCountOnlineUsers u now now'; pure .none
  | .chatVerify u t tel now now' => do
    let r ← gpChatVerify L u t tel now now'; pure (.areas r.1 r.2)
  | .checkNewsTrends m => do let r ← gpCheckNewsTrends m; pure (.news r.1 r.2)
  | .checkClassTrends m => do let r ← gpCheckClassTrends m; pure (.trends r.1 r.2)
  | .userInsertClasstrend u m c l t now => do
    let n ← gpUserInsertClasstrend u m c l t now; pure (.ret n)

def step (d : Database) (c : Call) : Option Database := some ((program L c).run d).1

def reply (d : Database) (c : Call) : Reply := ((program L c).run d).2

/-- The tables that a call may change, by what they are about. -/
inductive Area
  | matrix | channels | friends | shields | offline | logins | users | classes | courses
  | children | visits | messages
  deriving DecidableEq, Repr

def Call.area : Call → Option Area
  | .matrixCreate .. => some .matrix
  | .channelCheck .. | .channelUpdate .. | .serverDown .. => some .channels
  | .addFriend .. | .deleteFriend .. => some .friends
  | .shieldGroup .. => some .shields
  | .insertOffLineMessage .. | .insertOffLineMessagenew .. | .delOffLineMsg .. => some .offline
  | .login .. => some .logins
  | .userVerify .. | .changePassword .. | .changeMailAddr .. | .getMailAddr ..
  | .userUpdatePhotoUrl .. | .modifyName .. | .modifyChildClass .. => some .users
  | .modifyTeacherClass .. | .delOrAddTeacherClass .. => some .classes
  | .modifyCourse .. => some .courses
  | .modifyParentChildRelationship .. => some .children
  | .countOnlineUsers .. | .chatVerify .. => some .visits
  | .userInsertClasstrend .. => some .messages
  | _ => none

/-- The part `π` of the database is none of the tables of the area. -/
def Area.Spares {τ : Type} (π : Database → τ) : Area → Prop
  | .matrix => ∀ d t, π { d with tbMatrix := t } = π d
  | .channels => ∀ d t, π { d with tbChannel := t } = π d
  | .friends => ∀ d t, π { d with mcFriendRel := t } = π d
  | .shields => ∀ d t, π { d with mcGroupShield := t } = π d
  | .offline => ∀ d t, π { d with mcOfflineMes := t } = π d
  | .logins => ∀ d t, π { d with tbLogin := t } = π d
  | .users => ∀ d t, π { d with mcUser := t } = π d
  | .classes => ∀ d t, π { d with mcTeacherClassRel := t } = π d
  | .courses => ∀ d t, π { d with mcSubTeacherRel := t } = π d
  | .children => ∀ d t, π { d with mcParentStudentRel := t } = π d
  | .visits => ∀ d t, π { d with mcCountOnlineUsers := t } = π d
  | .messages => ∀ d t, π { d with mcMessage := t } = π d

/-- A call changes only the table of its area. -/
theorem program_leaves {τ : Type} {π : Database → τ} (c : Call)
    (h : ∀ a ∈ c.area, a.Spares π) : (program L c).Leaves π := by
  have hmap : ∀ {α : Type} {p : Procedure α} {g : α → Reply}, p.Leaves π →
      (p >>= fun a => done (g a)).Leaves π := fun hp => hp.bind fun _ => trivial
  cases c with
  | matrixCreate => exact hmap (gpMatrixCreate_leaves (h _ rfl) _ _)
  | matrixSelect => exact hmap (leaves_read _ _)
  | channelCheck => exact hmap (gpChannelCheck_leaves L (h _ rfl) _ _ _ _ _ _ _)
  | channelUpdate => exact hmap (gpChannelUpdate_leaves (h _ rfl) _ _ _)
  | serverDown => exact hmap (gpServerDown_leaves (h _ rfl) _ _)
  | addFriend => exact hmap (gpAddFriend_leaves (h _ rfl) _ _)
  | deleteFriend => exact hmap (gpDeleteFriend_leaves (h _ rfl) _ _)
  | checkIsBothFriend => exact hmap (leaves_read _ _)
  | shieldGroup => exact hmap (gpShieldGroup_leaves (h _ rfl) _ _ _)
  | insertOffLineMessage => exact hmap (insertOffline_leaves (h _ rfl) _ _)
  | insertOffLineMessagenew => exact hmap (insertOffline_leaves (h _ rfl) _ _)
  | getOfflineMsg => exact hmap (leaves_read _ _)
  | delOffLineMsg => exact hmap (gpDelOffLineMsg_leaves (h _ rfl) _)
  | login => exact hmap (gpLogin_leaves L (h _ rfl) _ _ _)
  | concurrentUser => exact hmap (leaves_read _ _)
  | userVerify => exact hmap (gpUserVerify_leaves L (h _ rfl) _ _ _ _ _ _ _ _)
  | changePassword => exact hmap (gpChangePassword_leaves L (h _ rfl) _ _ _)
  | changeMailAddr => exact hmap (gpChangeMailAddr_leaves L (h _ rfl) _ _ _ _)
  | getMailAddr => exact hmap (gpGetMailAddr_leaves L (h _ rfl) _ _)
  | userUpdatePhotoUrl => exact hmap (gpUserUpdatePhotoUrl_leaves L (h _ rfl) _ _)
  | modifyName => exact hmap (gpModifyName_leaves (h _ rfl) _ _ _)
  | modifyTeacherClass => exact hmap (gpModifyTeacherClass_leaves (h _ rfl) _ _ _ _ _ _ _)
  | delOrAddTeacherClass => exact hmap (gpDelOrAddTeacherClass_leaves (h _ rfl) _ _ _)
  | modifyCourse => exact hmap (gpModifyCourse_leaves (h _ rfl) _ _ _ _ _ _ _)
  | modifyParentChildRelationship =>
    exact hmap (gpModifyParentChildRelationship_leaves (h _ rfl) _ _ _)
  | modifyChildClass => exact hmap (gpModifyChildClass_leaves (h _ rfl) _ _ _ _)
  | countOnlineUsers => exact hmap (gpCountOnlineUsers_leaves (h _ rfl) _ _ _)
  | chatVerify => exact hmap (gpChatVerify_leaves L (h _ rfl) _ _ _ _ _)
  | checkNewsTrends => exact hmap (gpCheckNewsTrends_leaves _)
  | checkClassTrends => exact hmap (gpCheckClassTrends_leaves _)
  | userInsertClasstrend => exact hmap (gpUserInsertClasstrend_leaves (h _ rfl) _ _ _ _ _ _)

variable {L}

/-- Every call has an end. -/
theorem exec_isSome (d : Database) (calls : List Call) : (exec (step L) d calls).isSome := by
  induction calls generalizing d with
  | nil => rfl
  | cons c cs ih => exact ih _

/-- A step leaves what its call's area does not hold. -/
theorem step_leaves {τ : Type} {π : Database → τ} {d e : Database} {c : Call}
    (h : ∀ a ∈ c.area, a.Spares π) (hstep : step L d c = some e) : π e = π d := by
  cases hstep
  exact (program_leaves L c h).run d

/-- A table that belongs to one area is left alone by the calls of the others. -/
theorem step_other {τ : Type} {π : Database → τ} {d e : Database} {c : Call} {a : Area}
    (hπ : ∀ b, b ≠ a → b.Spares π) (hc : c.area ≠ some a) (hstep : step L d c = some e) :
    π e = π d :=
  step_leaves (fun b hb => hπ b fun hba => hc (hba ▸ hb)) hstep

theorem spares_mcFriendRel (b : Area) (hb : b ≠ .friends) : b.Spares Database.mcFriendRel := by
  cases b <;> first | contradiction | exact fun _ _ => rfl

theorem spares_mcOfflineMes (b : Area) (hb : b ≠ .offline) : b.Spares Database.mcOfflineMes := by
  cases b <;> first | contradiction | exact fun _ _ => rfl

theorem spares_tbMatrix (b : Area) (hb : b ≠ .matrix) : b.Spares Database.tbMatrix := by
  cases b <;> first | contradiction | exact fun _ _ => rfl

theorem spares_tbChannel (b : Area) (hb : b ≠ .channels) : b.Spares Database.tbChannel := by
  cases b <;> first | contradiction | exact fun _ _ => rfl

theorem spares_tbLogin (b : Area) (hb : b ≠ .logins) : b.Spares Database.tbLogin := by
  cases b <;> first | contradiction | exact fun _ _ => rfl

/-- A program leaves a table that does not belong to the area of its call. -/
theorem program_other {τ : Type} {π : Database → τ} {c : Call} {a : Area}
    (hπ : ∀ b, b ≠ a → b.Spares π) (hc : c.area ≠ some a) : (program L c).Leaves π :=
  program_leaves L c fun b hb => hπ b fun hba => hc (hba ▸ hb)

end Xiaoxin.Sql
