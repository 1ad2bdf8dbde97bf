import Xiaoxin.Relational
import Xiaoxin.Sessions

/-!
# The database `xiaoxin`

The tables that the stored procedures read and change, with the columns that they
use or that may not be left out of a row. A column that allows NULL is an
`Option`. The key of a table is its identity column, the number of the row.
-/
namespace Xiaoxin.Sql
open Relational Sessions

/-- How the server compares two texts, how many bytes one takes, and what becomes of a
Unicode text in a `varchar` of so many bytes. -/
structure Collation where
  same : String → String → Bool
  equivalence : Equivalence (fun a b => same a b = true)
  size : String → ℕ
  varchar : ℕ → String → String

structure TbServer where
  name : String
  description : Option String
  status : ℤ
  apply : ℤ
  ipAddress : String
  servicer : ℤ
  deriving DecidableEq, Repr

structure TbMatrix where
  serverNum : ℤ
  channelNum : ℤ
  deriving DecidableEq, Repr

structure TbLogin where
  serverNum : ℤ
  channelNum : ℤ
  characterIdx : ℤ
  inetNum : String
  deriving DecidableEq, Repr

structure TbChannel where
  serverNum : ℤ
  channelNum : ℤ
  inetNum : String
  ipv4 : Option ℤ
  port : ℤ
  status : ℤ
  deriving DecidableEq, Repr

/-- The number of a row is `userID`. -/
structure McUser where
  loginID : String
  password : String
  name : String
  roleType : ℤ
  classid : Option ℤ
  status : ℤ
  email : Option String
  url : Option String
  remark : Option String
  deriving DecidableEq, Repr

structure McOfflineMes where
  mesType : ℤ
  msID : Option ℤ
  acceptUid : Option ℤ
  sendUid : Option ℤ
  contentType : Option ℤ
  offContent : Option String
  conLength : Option ℤ
  url : Option String
  sendDate : ℤ
  deriving DecidableEq, Repr

structure McFriendRel where
  userID : ℤ
  friendID : ℤ
  deriving DecidableEq, Repr

structure McGroupShield where
  userID : Option ℤ
  classID : Option ℤ
  deriving DecidableEq, Repr

/-- The number of a row is `classID`. -/
structure McClass where
  className : String
  schoolID : ℤ
  deriving DecidableEq, Repr

structure McTeacherClassRel where
  teacherID : Option ℤ
  classID : Option ℤ
  addUID : Option ℤ
  deriving DecidableEq, Repr

/-- The number of a row is `subID`. -/
structure McSubject where
  subName : String
  deriving DecidableEq, Repr

structure McSubTeacherRel where
  subID : ℤ
  teacherID : Option ℤ
  subTeacher : Option String
  deriving DecidableEq, Repr

structure McParentStudentRel where
  parentID : Option ℤ
  studentID : ℤ
  stdParent : String
  deriving DecidableEq, Repr

/-- The number of a row is `schoolID`. -/
structure McSchool where
  areaID : ℤ
  deriving DecidableEq, Repr

/-- The number of a row is `areaID`. -/
structure McArea where
  fareaid : Option ℤ
  deriving DecidableEq, Repr

/-- The number of a row is `newsId`. -/
structure McNews where
  title : String
  areaID : Option ℤ
  titlePicUrl : Option String
  createDate : ℤ
  fNewsid : ℤ
  deriving DecidableEq, Repr

/-- The number of a row is `id`. -/
structure McMessage where
  msType : ℤ
  userID : ℤ
  classIDs : String
  contentType : Option ℤ
  content : String
  conLength : Option ℤ
  status : ℤ
  addUID : ℤ
  addDate : ℤ
  deriving DecidableEq, Repr

/-- The key `CountOnlineUsers` is not an identity column and has no default. -/
structure McCountOnlineUsers where
  countOnlineUsers : ℤ
  userIdx : ℤ
  lastOnlineTime : Option ℤ
  onlineCount : Option ℤ
  deriving DecidableEq, Repr

structure Database where
  tbServer : Table TbServer
  tbMatrix : Table TbMatrix
  tbLogin : Table TbLogin
  tbChannel : Table TbChannel
  mcUser : Table McUser
  mcOfflineMes : Table McOfflineMes
  mcFriendRel : Table McFriendRel
  mcGroupShield : Table McGroupShield
  mcClass : Table McClass
  mcTeacherClassRel : Table McTeacherClassRel
  mcSubject : Table McSubject
  mcSubTeacherRel : Table McSubTeacherRel
  mcParentStudentRel : Table McParentStudentRel
  mcSchool : Table McSchool
  mcArea : Table McArea
  mcNews : Table McNews
  mcMessage : Table McMessage
  mcCountOnlineUsers : List McCountOnlineUsers

/-- The characters in front that take no more than `n` bytes together. -/
def fitting : ℕ → List Char → List Char
  | _, [] => []
  | n, c :: cs => if c.utf8Size ≤ n then c :: fitting (n - c.utf8Size) cs else []

/-- The comparison of a binary collation, and texts in UTF-8. -/
def binary : Collation where
  same a b := a == b
  equivalence := by simpa using eq_equivalence
  size := String.utf8ByteSize
  varchar n s := String.ofList (fitting n s.toList)

/-- The database as the script leaves it. -/
def created : Database :=
  ⟨.empty, .empty, .empty, .empty, .empty, .empty, .empty, .empty, .empty, .empty, .empty, .empty,
    .empty, .empty, .empty, .empty, .empty, []⟩

abbrev Procedure (α : Type) := Prog Database α

end Xiaoxin.Sql
