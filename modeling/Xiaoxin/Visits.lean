import Xiaoxin.Accounts

/-!
# What a user meets on the main server

The check of a user who connects, the count of his visits, and what he is told of
new messages. A time is in seconds, a day is a number of seconds divided by those
of one day.
-/
namespace Xiaoxin.Sql
open Relational Sessions Prog

def day (time : ℤ) : ℤ := time / 86400

def ofVisitor (userIdx : Option ℤ) (r : McCountOnlineUsers) : Bool := userIdx == some r.userIdx

/-- An insert into `mc_CountOnlineUsers`; the key may not be NULL. -/
def insertVisitor (rows : List McCountOnlineUsers)
    (key userIdx lastOnlineTime onlineCount : Option ℤ) : List McCountOnlineUsers :=
  match key, userIdx with
  | some k, some u =>
    if rows.any (fun r => r.countOnlineUsers == k) then rows
    else rows ++ [⟨k, u, lastOnlineTime, onlineCount⟩]
  | _, _ => rows

/-- A sum that is NULL where a term is, and fails where it is too large. -/
def addOne : Option ℤ → Option (Option ℤ)
  | none => some none
  | some n => if n + 1 ≤ intMax then some (some (n + 1)) else none

/-- The branch under `FLAG_SECOND_DAY_INSERT`; the insert leaves the key out. -/
def secondDayInsert (userIdx : Option ℤ) (now : ℤ) : Procedure Unit :=
  write fun d =>
    let rows := insertVisitor d.mcCountOnlineUsers none userIdx (some now) (some 1)
    ({ d with mcCountOnlineUsers := rows }, ())

/-- `now` is `GETDATE()` at the comparison, `now'` at the insert or the update. -/
def gpCountOnlineUsers (userIdx : Option ℤ) (now now' : ℤ) : Procedure Unit := do
  let visitor ← read fun d => (d.mcCountOnlineUsers.filter (ofVisitor userIdx)).getLast?
  let tmpOnlineTime := visitor.bind (·.lastOnlineTime)
  let tmpOnlineCount := (visitor.map (·.onlineCount)).getD (some 0)
  -- `@tmpOnlineTime = null` is never true
  if compares (· == ·) tmpOnlineTime none then secondDayInsert userIdx now'
  else if compares (· == ·) (tmpOnlineTime.map day) (some (day now)) then
    write fun d =>
      match addOne tmpOnlineCount with
      | none => (d, ())
      | some n =>
        let rows := d.mcCountOnlineUsers.map fun r =>
          if ofVisitor userIdx r then { r with onlineCount := n, lastOnlineTime := some now' }
          else r
        ({ d with mcCountOnlineUsers := rows }, ())
  else secondDayInsert userIdx now'

/-- The join for a parent: area and class of each child. -/
def Database.childAreas (d : Database) (userIdx : Option ℤ) : List (Option ℤ × Option ℤ) :=
  d.mcUser.rows.flatMap fun u => d.mcSchool.rows.flatMap fun s =>
    d.mcParentStudentRel.rows.flatMap fun ps => (d.mcClass.rows.filter fun c =>
      compares (· == ·) ps.val.parentID userIdx && u.id == ps.val.studentID &&
      u.val.classid == some c.id && c.val.schoolID == s.id).map
        fun c => (some s.val.areaID, some c.id)

/-- The join for a teacher: area and number of each class. -/
def Database.teacherAreas (d : Database) (userIdx : Option ℤ) : List (Option ℤ × Option ℤ) :=
  d.mcUser.rows.flatMap fun u => d.mcSchool.rows.flatMap fun s =>
    d.mcTeacherClassRel.rows.flatMap fun tc => (d.mcClass.rows.filter fun c =>
      userIdx == some u.id && tc.val.teacherID == some u.id && tc.val.classID == some c.id &&
      c.val.schoolID == s.id).map fun c => (some s.val.areaID, some c.id)

/-- The condition of `GP_ChatVerify`. -/
def verified (L : Collation) (userIdx userType : Option ℤ) (tel : Option String) (r : Row McUser) :
    Bool :=
  userIdx == some r.id && userType == some r.val.roleType && hasLogin L tel r && r.val.status == 2

/-- `@ret` and the result set, if there is one. -/
def gpChatVerify (L : Collation) (userIdx userType : Option ℤ) (tel : Option String)
    (now now' : ℤ) : Procedure (ℤ × Option (List (Option ℤ × Option ℤ))) := do
  let matching ← read fun d => d.mcUser.any (verified L userIdx userType tel)
  if matching then
    if userType = some 2 then do
      let areas ← read fun d => d.childAreas userIdx
      gpCountOnlineUsers userIdx now now'
      pure (0, some areas)
    else if userType = some 1 then do
      let areas ← read fun d => d.teacherAreas userIdx
      gpCountOnlineUsers userIdx now now'
      pure (0, some areas)
    else pure (1, some [(none, none)])
  else pure (0, none)

/-- A `top` with a number that is NULL is an error. -/
def topRows {ρ : Type} (n : Option ℤ) (rows : List ρ) : List ρ :=
  match n with
  | none => []
  | some n => rows.take n.toNat

/-- A difference that is NULL where a term is. Where it does not fit the variable
keeps the NULL it was declared with. -/
def difference (a b : Option ℤ) : Option ℤ := do
  let a ← a
  let b ← b
  if IsInt (a - b) then some (a - b) else none

/-- `@ret` and the result set. -/
def gpCheckNewsTrends (maxNewsIdx : Option ℤ) : Procedure (ℤ × List (Row McNews)) := do
  let there ← read fun d => d.mcNews.any fun _ => true
  if there then do
    let tmpSqlNewsIdx ← read fun d => (d.mcNews.rows.map Row.id).max?
    let tmpCount := difference tmpSqlNewsIdx maxNewsIdx
    if compares (· ≤ ·) tmpCount (some 0) then pure (1, [])
    else do
      let tmpCount := if compares (· > ·) tmpCount (some 30) then some 30 else tmpCount
      let rows ← read fun d => topRows tmpCount d.mcNews.rows.reverse
      pure (0, rows)
  else pure (1, [])

/-- The message is published and no news. -/
def published (r : Row McMessage) : Bool := r.val.msType != 1 && r.val.status == 2

/-- `@ret` and the result set. -/
def gpCheckClassTrends (maxLargeTrendIdx : Option ℤ) : Procedure (ℤ × List (Row McMessage)) := do
  let largest ← read fun d => ((d.mcMessage.select published).map Row.id).max?
  if largest.isNone || compares (· == ·) largest maxLargeTrendIdx then pure (1, [])
  else do
    let tmpCount := difference largest maxLargeTrendIdx
    let tmpCount := if compares (· < ·) tmpCount (some 0) then some 0 else tmpCount
    let rows ← read fun d => topRows tmpCount (d.mcMessage.select published).reverse
    pure (0, rows)

/-- The result is `@RETVALUE`. Only a teacher may publish. -/
def gpUserInsertClasstrend (idx msgType : Option ℤ) (classIdx : Option String)
    (contentLen : Option ℤ) (content : Option String) (now : ℤ) : Procedure ℤ := do
  let teacher ← read fun d => d.mcUser.any fun r => idx == some r.id && r.val.roleType == 1
  if teacher then
    write fun d =>
      let row : Option McMessage := do
        let u ← idx
        let m ← msgType
        let c ← classIdx
        let t ← content
        some ⟨m, u, c, some 1, t, contentLen, 2, u, now⟩
      let r := d.mcMessage.insert row
      ({ d with mcMessage := r.1 }, if r.2 then 0 else 1)
  else pure 1

/-! ## What the procedures leave alone -/

section
variable {τ : Type} {π : Database → τ}

theorem gpCountOnlineUsers_leaves (h : ∀ d t, π { d with mcCountOnlineUsers := t } = π d)
    (userIdx : Option ℤ) (now now' : ℤ) : (gpCountOnlineUsers userIdx now now').Leaves π := by
  have hsecond : (secondDayInsert userIdx now').Leaves π := by simp [secondDayInsert, h]
  simp only [gpCountOnlineUsers, read_bind, leaves_stmt, leaves_ite, leaves_write]
  refine fun d => ⟨rfl, fun _ => hsecond, fun _ => ⟨fun _ d => ?_, fun _ => hsecond⟩⟩
  split <;> simp [h]

theorem gpChatVerify_leaves (L : Collation) (h : ∀ d t, π { d with mcCountOnlineUsers := t } = π d)
    (userIdx userType : Option ℤ) (tel : Option String) (now now' : ℤ) :
    (gpChatVerify L userIdx userType tel now now').Leaves π := by
  have hcount := fun r : ℤ × Option (List (Option ℤ × Option ℤ)) =>
    (gpCountOnlineUsers_leaves h userIdx now now').bind (k := fun _ => done r) fun _ => trivial
  simp [gpChatVerify, hcount]

theorem gpCheckNewsTrends_leaves (maxNewsIdx : Option ℤ) :
    (gpCheckNewsTrends maxNewsIdx).Leaves π := by
  simp [gpCheckNewsTrends]

theorem gpCheckClassTrends_leaves (maxLargeTrendIdx : Option ℤ) :
    (gpCheckClassTrends maxLargeTrendIdx).Leaves π := by
  simp [gpCheckClassTrends]

theorem gpUserInsertClasstrend_leaves (h : ∀ d t, π { d with mcMessage := t } = π d)
    (idx msgType : Option ℤ) (classIdx : Option String) (contentLen : Option ℤ)
    (content : Option String) (now : ℤ) :
    (gpUserInsertClasstrend idx msgType classIdx contentLen content now).Leaves π := by
  simp [gpUserInsertClasstrend, h]

end

end Xiaoxin.Sql
