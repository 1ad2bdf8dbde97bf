import Xiaoxin.Schema

/-!
# Classes, courses and children

Who teaches which class and which course, and whose child is whose. The tables
refer to users, classes and subjects by foreign keys. `GP_MODIFY_TEACHER_CLASS` is
a transaction, which the other sessions do not see the middle of: one statement
here. `GP_ModifyCourse` is not.
-/
namespace Xiaoxin.Sql
open Relational Sessions Prog

/-- A foreign key into a table; a NULL refers to nothing. -/
def refers {ρ : Type} (t : Table ρ) (key : Option ℤ) : Bool :=
  key.all fun k => t.any fun r => r.id == k

/-- The constraints on a row of `mc_teacher_class_rel`. -/
def Database.teacherClassRow (d : Database) (teacherID classID addUID : Option ℤ) :
    Option McTeacherClassRel :=
  if refers d.mcUser teacherID && refers d.mcClass classID then some ⟨teacherID, classID, addUID⟩
  else none

def ofTeacher (teacherID : Option ℤ) (r : Row McTeacherClassRel) : Bool :=
  compares (· == ·) r.val.teacherID teacherID

/-- Each of the five blocks of `GP_MODIFY_TEACHER_CLASS`, up to the first that goes
to `ROLLBACK_TRAN`. -/
def addClasses (d : Database) (userIndex : Option ℤ) :
    List (Option ℤ) → Table McTeacherClassRel → Table McTeacherClassRel × Bool
  | [], t => (t, true)
  | c :: cs, t =>
    if compares (· > ·) c (some 0) then
      let r := t.insert (d.teacherClassRow userIndex c userIndex)
      if r.2 then addClasses d userIndex cs r.1 else r
    else addClasses d userIndex cs t

def ofRole (userID roleType : Option ℤ) (r : Row McUser) : Bool :=
  userID == some r.id && roleType == some r.val.roleType

/-- The result is `@RETVALUE`. -/
def gpModifyTeacherClass (userIndex userType c1 c2 c3 c4 c5 : Option ℤ) : Procedure ℤ :=
  write fun d =>
    if d.mcUser.any (ofRole userIndex userType) then
      let r := addClasses d userIndex [c1, c2, c3, c4, c5]
        (d.mcTeacherClassRel.delete (ofTeacher userIndex))
      if r.2 then ({ d with mcTeacherClassRel := r.1 }, 0)
      else ({ d with mcTeacherClassRel := d.mcTeacherClassRel.rollback r.1 }, 1)
    else (d, 1)

def ofTeacherClass (teacherID classID : Option ℤ) (r : Row McTeacherClassRel) : Bool :=
  compares (· == ·) r.val.teacherID teacherID && compares (· == ·) r.val.classID classID

/-- The result is `@retvalue`. -/
def gpDelOrAddTeacherClass (useridx classidx sign : Option ℤ) : Procedure ℤ := do
  let ishave ← read fun d => d.mcTeacherClassRel.count (ofTeacherClass useridx classidx)
  if sign = some 1 then
    if 0 < ishave then
      write fun d =>
        let t := d.mcTeacherClassRel.delete (ofTeacherClass useridx classidx)
        ({ d with mcTeacherClassRel := t }, 0)
    else pure 0
  else if sign = some 2 then
    if ishave = 0 then
      write fun d =>
        let r := d.mcTeacherClassRel.insert (d.teacherClassRow useridx classidx none)
        ({ d with mcTeacherClassRel := r.1 }, 0)
    else pure 0
  else pure 0

/-- The constraints on a row of `mc_sub_teacher_rel`. -/
def Database.subTeacherRow (d : Database) (subID teacherID : Option ℤ)
    (subTeacher : Option String) : Option McSubTeacherRel := do
  let s ← subID
  if refers d.mcSubject subID && refers d.mcUser teacherID then some ⟨s, teacherID, subTeacher⟩
  else none

def Database.subName (d : Database) (subID : Option ℤ) : Option String :=
  ((d.mcSubject.select fun r => subID == some r.id).getLast?).map (·.val.subName)

def ofCourses (teacherID : Option ℤ) (r : Row McSubTeacherRel) : Bool :=
  compares (· == ·) r.val.teacherID teacherID

/-- Each of the five blocks of `GP_ModifyCourse`, with the variable `@tmpSubject`
before and after. -/
def addCourse (userIdx newCourseId : Option ℤ) (tmpSubject : Option String) :
    Procedure (Option String) :=
  if compares (· > ·) newCourseId (some 0) then do
    let name ← read fun d => d.subName newCourseId
    let tmpSubject := (name.map (· ++ "老师")).or tmpSubject
    write fun d =>
      let r := d.mcSubTeacherRel.insert (d.subTeacherRow newCourseId userIdx tmpSubject)
      ({ d with mcSubTeacherRel := r.1 }, tmpSubject)
  else pure tmpSubject

def addCourses (userIdx : Option ℤ) : List (Option ℤ) → Option String → Procedure Unit
  | [], _ => pure ()
  | c :: cs, tmpSubject => do
    let tmpSubject ← addCourse userIdx c tmpSubject
    addCourses userIdx cs tmpSubject

/-- The result is `@ret`. -/
def gpModifyCourse (userIdx userType c1 c2 c3 c4 c5 : Option ℤ) : Procedure ℤ := do
  let there ← read fun d => d.mcUser.any (ofRole userIdx userType)
  if there then do
    write fun d =>
      let t := d.mcSubTeacherRel.delete (ofCourses userIdx)
      ({ d with mcSubTeacherRel := t }, ())
    addCourses userIdx [c1, c2, c3, c4, c5] none
    pure 0
  else pure 1

def ofParent (parentID studentID : Option ℤ) (r : Row McParentStudentRel) : Bool :=
  compares (· == ·) r.val.parentID parentID && studentID == some r.val.studentID

/-- The constraints on a row of `mc_parent_student_rel`. -/
def Database.parentRow (d : Database) (parentID studentID : Option ℤ)
    (stdParent : Option String) : Option McParentStudentRel := do
  let s ← studentID
  let p ← stdParent
  if refers d.mcUser parentID && refers d.mcUser studentID then some ⟨parentID, s, p⟩ else none

/-- The result is `@ret`. -/
def gpModifyParentChildRelationship (userIdx childIdx : Option ℤ) (relationship : Option String) :
    Procedure ℤ := do
  let ishave ← read fun d => d.mcParentStudentRel.count (ofParent userIdx childIdx)
  if 0 < ishave then
    write fun d =>
      match relationship with
      | none => (d, 0)
      | some p =>
        let t := d.mcParentStudentRel.update (ofParent userIdx childIdx)
          fun r => { r with stdParent := p }
        ({ d with mcParentStudentRel := t }, 0)
  else
    write fun d =>
      let r := d.mcParentStudentRel.insert (d.parentRow userIdx childIdx relationship)
      ({ d with mcParentStudentRel := r.1 }, 0)

/-- `@oldClassId` and `@ret`. The child that is asked for counts only where the
parent has none. -/
def gpModifyChildClass (userIdx childIdx newClassId oldClassId : Option ℤ) :
    Procedure (Option ℤ × ℤ) := do
  let child ← read fun d => (d.mcParentStudentRel.select fun r =>
    compares (· == ·) r.val.parentID userIdx).getLast?.map (·.val.studentID)
  let childIdx := child.or childIdx
  if compares (· > ·) childIdx (some 0) then do
    let old ← read fun d =>
      (d.mcUser.select fun r => childIdx == some r.id).getLast?.map (·.val.classid)
    write fun d =>
      let t := d.mcUser.update (fun r => childIdx == some r.id)
        fun u => { u with classid := newClassId }
      ({ d with mcUser := t }, ())
    pure (old.getD oldClassId, 0)
  else pure (oldClassId, 1)

/-! ## What the procedures leave alone -/

section
variable {τ : Type} {π : Database → τ}

theorem gpModifyTeacherClass_leaves (h : ∀ d t, π { d with mcTeacherClassRel := t } = π d)
    (userIndex userType c1 c2 c3 c4 c5 : Option ℤ) :
    (gpModifyTeacherClass userIndex userType c1 c2 c3 c4 c5).Leaves π := by
  simp only [gpModifyTeacherClass, leaves_write]
  intro d
  split
  · split <;> simp [h]
  · rfl

theorem gpDelOrAddTeacherClass_leaves (h : ∀ d t, π { d with mcTeacherClassRel := t } = π d)
    (useridx classidx sign : Option ℤ) :
    (gpDelOrAddTeacherClass useridx classidx sign).Leaves π := by
  simp [gpDelOrAddTeacherClass, h]

theorem addCourses_leaves (h : ∀ d t, π { d with mcSubTeacherRel := t } = π d)
    (userIdx : Option ℤ) (courses : List (Option ℤ)) (tmpSubject : Option String) :
    (addCourses userIdx courses tmpSubject).Leaves π := by
  induction courses generalizing tmpSubject with
  | nil => trivial
  | cons c cs ih =>
    refine Leaves.bind ?_ ih
    simp [addCourse, h]

theorem gpModifyCourse_leaves (h : ∀ d t, π { d with mcSubTeacherRel := t } = π d)
    (userIdx userType c1 c2 c3 c4 c5 : Option ℤ) :
    (gpModifyCourse userIdx userType c1 c2 c3 c4 c5).Leaves π := by
  have hcourses := (addCourses_leaves h userIdx [c1, c2, c3, c4, c5] none).bind
    (k := fun _ => done (0 : ℤ)) fun _ => trivial
  simp [gpModifyCourse, h, hcourses]

theorem gpModifyParentChildRelationship_leaves
    (h : ∀ d t, π { d with mcParentStudentRel := t } = π d) (userIdx childIdx : Option ℤ)
    (relationship : Option String) :
    (gpModifyParentChildRelationship userIdx childIdx relationship).Leaves π := by
  cases relationship <;> simp [gpModifyParentChildRelationship, h]

theorem gpModifyChildClass_leaves (h : ∀ d t, π { d with mcUser := t } = π d)
    (userIdx childIdx newClassId oldClassId : Option ℤ) :
    (gpModifyChildClass userIdx childIdx newClassId oldClassId).Leaves π := by
  simp [gpModifyChildClass, h]

end

end Xiaoxin.Sql
