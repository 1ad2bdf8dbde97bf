import Xiaoxin.Schema

/-!
# Users and logins

A user is registered by `GP_UserVerify` if the tables of the classes know him, and
logs in with his telephone number and password; `TB_LOGIN` has who is logged in.
The texts `loginID`, `password` and `email` are compared as the server does.
-/
namespace Xiaoxin.Sql
open Relational Sessions Prog

variable (L : Collation)

/-- The bytes that the column `password` holds. `@password` has room for 25. -/
def passwordSize : ℕ := 20

def hasLogin (loginID : Option String) (r : Row McUser) : Bool :=
  compares L.same (some r.val.loginID) loginID

/-- The condition of `GP_Login`. -/
def mayLogin (userid password : Option String) (r : Row McUser) : Bool :=
  hasLogin L userid r && compares L.same (some r.val.password) password && r.val.status == 2

/-- The output parameters of `GP_Login`, NULL where they are not set. -/
structure Login where
  svrIP : Option String
  userType : Option ℤ
  userIdx : Option ℤ
  loginIdx : Option ℤ
  ret : ℤ
  deriving DecidableEq, Repr

def ofCharacter (userIdx : Option ℤ) (r : Row TbLogin) : Bool := userIdx == some r.val.characterIdx

def loginRow (userIdx : Option ℤ) (ip : Option String) : Option TbLogin := do
  let u ← userIdx
  let i ← ip
  some ⟨14601, 1, u, i⟩

/-- The row of an earlier login goes. -/
def dropLogin (userIdx : Option ℤ) : Procedure Unit := do
  let old ← read fun d => d.tbLogin.any (ofCharacter userIdx)
  if old then write fun d => ({ d with tbLogin := d.tbLogin.delete (ofCharacter userIdx) }, ())
  else pure ()

def insertLogin (userIdx : Option ℤ) (ip : Option String) : Procedure Unit :=
  write fun d => ({ d with tbLogin := (d.tbLogin.insert (loginRow userIdx ip)).1 }, ())

/-- A variable that is selected from several rows has the value of the last. -/
def gpLogin (userid password ip : Option String) : Procedure Login := do
  let there ← read fun d => d.mcUser.any (mayLogin L userid password)
  if there then do
    let user ← read fun d => (d.mcUser.select (mayLogin L userid password)).getLast?
    let userIdx := user.map Row.id
    dropLogin userIdx
    insertLogin userIdx ip
    let loginIdx ← read fun d => (d.tbLogin.select (ofCharacter userIdx)).getLast?.map Row.id
    let svrIP ← read fun d => d.tbServer.rows.getLast?.map (·.val.ipAddress)
    pure ⟨svrIP, user.map (·.val.roleType), userIdx, loginIdx, 0⟩
  else pure ⟨none, none, none, none, 1⟩

/-- `@VALUE`. -/
def gpConcurrentUser (serverIdx : Option ℤ) : Procedure ℕ :=
  read fun d => d.tbLogin.count fun r => serverIdx == some r.val.serverNum

/-- The join of `GP_UserVerify` for a teacher. -/
def Database.knowsTeacher (d : Database) (tel name : Option String) (cls : Option ℤ) : Bool :=
  d.mcUser.any fun u => d.mcTeacherClassRel.any fun r => d.mcClass.any fun c =>
    d.mcSchool.any fun s =>
      r.val.teacherID == some u.id && r.val.classID == some c.id && c.val.schoolID == s.id &&
      hasLogin L tel u && compares L.same (some u.val.name) name && cls == some c.id

/-- The join for a parent, over the child `u` with the class and the address. -/
def Database.knowsParent (d : Database) (tel name : Option String) (addr1 addr2 cls : Option ℤ) :
    Bool :=
  d.mcUser.any fun u => d.mcParentStudentRel.any fun r => d.mcClass.any fun c =>
    d.mcUser.any fun par => d.mcSchool.any fun s => d.mcArea.any fun a =>
      r.val.studentID == u.id && u.val.classid == some c.id && r.val.parentID == some par.id &&
      c.val.schoolID == s.id && s.val.areaID == a.id && hasLogin L tel par &&
      compares L.same (some u.val.name) name && cls == some c.id && addr2 == some a.id &&
      compares (· == ·) a.val.fareaid addr1

/-- The update that registers, of every row with the number. It fails where the
password does not fit. -/
def registerUsers (password tel email : Option String) : Procedure Unit :=
  write fun d =>
    match password with
    | none => (d, ())
    | some pw =>
      if passwordSize < L.size pw then (d, ())
      else ({ d with mcUser := d.mcUser.update (hasLogin L tel) fun u =>
        { u with status := 2, password := pw, email := email } }, ())

/-- The result is `@ret`. -/
def gpUserVerify (type : Option ℤ) (password tel email name : Option String)
    (addr1 addr2 cls : Option ℤ) : Procedure ℤ := do
  let registered ← read fun d => d.mcUser.any fun r => hasLogin L tel r && r.val.status == 2
  if registered then pure 1
  else do
    let used ← read fun d => d.mcUser.any fun r => compares L.same r.val.email email
    if used then pure 2
    else if type = some 1 then do
      let known ← read fun d => d.knowsTeacher L tel name cls
      if known then do registerUsers L password tel email; pure 0
      else pure 1
    else if type = some 2 then do
      let known ← read fun d => d.knowsParent L tel name addr1 addr2 cls
      if known then do registerUsers L password tel email; pure 0
      else pure 1
    else pure 1

def ofUser (useridx : Option ℤ) (r : Row McUser) : Bool := useridx == some r.id

/-- `@email` and `@retvalue`. The update of `remark` has no condition. -/
def gpChangePassword (useridx : Option ℤ) (password vercode : Option String) :
    Procedure (Option String × ℤ) := do
  let ishave ← read fun d => d.mcUser.count (ofUser useridx)
  if ishave = 0 then pure (none, 1)
  else do
    let ishave1 ← read fun d => d.mcUser.count fun r =>
      compares L.same (some r.val.password) password && ofUser useridx r
    if ishave1 = 0 then pure (none, 2)
    else do
      write fun d =>
        let t := d.mcUser.update (fun _ => true) fun u => { u with remark := vercode }
        ({ d with mcUser := t }, ())
      let email ← read fun d => ((d.mcUser.select (ofUser useridx)).head?).bind (·.val.email)
      pure (email, 0)

/-- The result is `@retvalue`, which keeps its value where the address is not found
again. -/
def gpChangeMailAddr (useridx : Option ℤ) (mailaddr vercode : Option String) (retvalue : ℤ) :
    Procedure ℤ := do
  write fun d => ({ d with mcUser := d.mcUser.update (ofUser useridx) fun u =>
    { u with email := mailaddr, remark := vercode } }, ())
  let ishave ← read fun d => d.mcUser.count fun r =>
    compares L.same r.val.email mailaddr && ofUser useridx r
  pure (if ishave = 1 then 0 else retvalue)

/-- `@email` and `@retvalue`. The subquery for the address fails where the number
has several rows. -/
def gpGetMailAddr (phone vercode : Option String) : Procedure (Option String × ℤ) := do
  let ishave ← read fun d => d.mcUser.count (hasLogin L phone)
  if ishave = 0 then pure (none, -1)
  else do
    write fun d => ({ d with mcUser := d.mcUser.update (hasLogin L phone) fun u =>
      { u with remark := vercode } }, ())
    let email ← read fun d =>
      match d.mcUser.select (hasLogin L phone) with
      | [r] => r.val.email
      | _ => none
    pure (email, 0)

/-- The result is `@RETVALUE`. The column `url` holds 100 bytes, `@PHOTO_URL` 100
characters. -/
def gpUserUpdatePhotoUrl (idx : Option ℤ) (photoUrl : Option String) : Procedure ℤ :=
  write fun d =>
    if (photoUrl.map L.size).any (fun n => 100 < n) then (d, 1)
    else ({ d with mcUser := d.mcUser.update (ofUser idx) fun u => { u with url := photoUrl } },
      if d.mcUser.count (ofUser idx) = 1 then 0 else 1)

/-- The result is `@ret`, also where the name is NULL and the update fails. -/
def gpModifyName (userIdx userType : Option ℤ) (userNewName : Option String) : Procedure ℤ :=
  write fun d =>
    let p : Row McUser → Bool := fun r => ofUser userIdx r && userType == some r.val.roleType
    match userNewName with
    | none => (d, 0)
    | some name => ({ d with mcUser := d.mcUser.update p fun u => { u with name := name } }, 0)

/-! ## What the procedures leave alone -/

section
variable {τ : Type} {π : Database → τ}

theorem gpLogin_leaves (h : ∀ d t, π { d with tbLogin := t } = π d)
    (userid password ip : Option String) : (gpLogin L userid password ip).Leaves π := by
  have hdrop : ∀ u, (dropLogin u).Leaves π := fun u => by simp [dropLogin, h]
  have hinsert : ∀ u, (insertLogin u ip).Leaves π := fun u => by simp [insertLogin, h]
  simp only [gpLogin, read_bind, leaves_stmt, leaves_ite]
  refine fun d => ⟨rfl, fun _ d => ⟨rfl, (hdrop _).bind fun _ => (hinsert _).bind fun _ => ?_⟩,
    fun _ => trivial⟩
  simp

theorem registerUsers_leaves (h : ∀ d t, π { d with mcUser := t } = π d)
    (password tel email : Option String) : (registerUsers L password tel email).Leaves π := by
  cases password with
  | none => simp [registerUsers]
  | some pw =>
    simp only [registerUsers, leaves_write]
    intro d
    split <;> simp [h]

theorem gpUserVerify_leaves (h : ∀ d t, π { d with mcUser := t } = π d) (type : Option ℤ)
    (password tel email name : Option String) (addr1 addr2 cls : Option ℤ) :
    (gpUserVerify L type password tel email name addr1 addr2 cls).Leaves π := by
  have hregister := (registerUsers_leaves L h password tel email).bind (k := fun _ => done (0 : ℤ))
    fun _ => trivial
  simp [gpUserVerify, hregister]

theorem gpChangePassword_leaves (h : ∀ d t, π { d with mcUser := t } = π d)
    (useridx : Option ℤ) (password vercode : Option String) :
    (gpChangePassword L useridx password vercode).Leaves π := by
  simp [gpChangePassword, h]

theorem gpChangeMailAddr_leaves (h : ∀ d t, π { d with mcUser := t } = π d)
    (useridx : Option ℤ) (mailaddr vercode : Option String) (retvalue : ℤ) :
    (gpChangeMailAddr L useridx mailaddr vercode retvalue).Leaves π := by
  simp [gpChangeMailAddr, h]

theorem gpGetMailAddr_leaves (h : ∀ d t, π { d with mcUser := t } = π d)
    (phone vercode : Option String) : (gpGetMailAddr L phone vercode).Leaves π := by
  simp [gpGetMailAddr, h]

theorem gpUserUpdatePhotoUrl_leaves (h : ∀ d t, π { d with mcUser := t } = π d)
    (idx : Option ℤ) (photoUrl : Option String) :
    (gpUserUpdatePhotoUrl L idx photoUrl).Leaves π := by
  simp only [gpUserUpdatePhotoUrl, leaves_write]
  intro d
  split <;> simp [h]

theorem gpModifyName_leaves (h : ∀ d t, π { d with mcUser := t } = π d)
    (userIdx userType : Option ℤ) (userNewName : Option String) :
    (gpModifyName userIdx userType userNewName).Leaves π := by
  cases userNewName <;> simp [gpModifyName, h]

end

end Xiaoxin.Sql
