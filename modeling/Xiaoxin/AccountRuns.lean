import Xiaoxin.Procedures

/-!
# Registrations and logins over runs of calls

A registration that took effect stays for good, and `TB_LOGIN` has one row for each
user who has logged in, that of his last login.
-/
namespace Xiaoxin.Sql
open Relational Sessions Prog Transition

variable {L : Collation} {d e : Database}

/-! ## Registration -/

/-- What a call may do to `mc_user`. -/
inductive UserChange (L : Collation) (d e : Database) : Prop
  | same (h : e.mcUser = d.mcUser)
  /-- The number, the password, the status and the role of every user stay. -/
  | edit (q : Row McUser → Bool) (f : McUser → McUser) (h : e.mcUser = d.mcUser.update q f)
      (hf : ∀ u, (f u).loginID = u.loginID ∧ (f u).password = u.password ∧
        (f u).status = u.status ∧ (f u).roleType = u.roleType)
  | register (tel email : Option String) (pw : String)
      (h : e.mcUser = d.mcUser.update (hasLogin L tel) fun u =>
        { u with status := 2, password := pw, email := email })
      (hnew : d.mcUser.any (fun r => hasLogin L tel r && r.val.status == 2) = false)

theorem registerUsers_user (password tel email : Option String)
    (hnew : d.mcUser.any (fun r => hasLogin L tel r && r.val.status == 2) = false) :
    UserChange L d ((registerUsers L password tel email).run d).1 := by
  simp only [registerUsers, write, run_stmt, run_done]
  cases password with
  | none => exact .same rfl
  | some pw =>
    by_cases hlong : passwordSize < L.size pw
    · simp only [hlong, if_true]
      exact .same rfl
    · simp only [hlong, if_false]
      exact .register tel email pw rfl hnew

theorem gpUserVerify_user (type : Option ℤ) (password tel email name : Option String)
    (addr1 addr2 cls : Option ℤ) :
    UserChange L d ((gpUserVerify L type password tel email name addr1 addr2 cls).run d).1 := by
  simp only [gpUserVerify, read_bind, run_stmt, id]
  cases hnew : d.mcUser.any (fun r => hasLogin L tel r && r.val.status == 2) with
  | true => exact .same rfl
  | false =>
    have hregister := registerUsers_user password tel email hnew
    simp only [Bool.false_eq_true, if_false, run_stmt, id]
    split
    · exact .same rfl
    split
    · simp only [run_stmt, id]
      split
      · simpa only [run_bind, pure_eq, run_done] using hregister
      · exact .same rfl
    split
    · simp only [run_stmt, id]
      split
      · simpa only [run_bind, pure_eq, run_done] using hregister
      · exact .same rfl
    · exact .same rfl

theorem spares_mcUser (b : Area) (hb : b ≠ .users) : b.Spares Database.mcUser := by
  cases b <;> first | contradiction | exact fun _ _ => rfl

theorem user_step {c : Call} (h : step L d c = some e) : UserChange L d e := by
  by_cases harea : c.area = some .users
  · obtain rfl : ((program L c).run d).1 = e := by simpa [step] using h
    cases c <;> simp only [Call.area, reduceCtorEq, Option.some.injEq] at harea
    case userVerify =>
      simp only [program, run_bind, pure_eq, run_done]
      exact gpUserVerify_user _ _ _ _ _ _ _ _
    case changePassword x p v =>
      simp only [program, run_bind, pure_eq, run_done, gpChangePassword, read_bind, run_stmt, id]
      split
      · exact .same rfl
      simp only [run_stmt, id]
      split
      · exact .same rfl
      · exact .edit _ (fun u => { u with remark := v }) rfl fun u => ⟨rfl, rfl, rfl, rfl⟩
    case changeMailAddr x m v r =>
      exact .edit _ (fun u => { u with email := m, remark := v }) rfl fun u => ⟨rfl, rfl, rfl, rfl⟩
    case getMailAddr x v =>
      simp only [program, run_bind, pure_eq, run_done, gpGetMailAddr, read_bind, run_stmt, id]
      split
      · exact .same rfl
      · exact .edit _ (fun u => { u with remark := v }) rfl fun u => ⟨rfl, rfl, rfl, rfl⟩
    case userUpdatePhotoUrl x p =>
      simp only [program, run_bind, pure_eq, run_done, gpUserUpdatePhotoUrl, write, run_stmt]
      split
      · exact .same rfl
      · exact .edit _ (fun u => { u with url := p }) rfl fun u => ⟨rfl, rfl, rfl, rfl⟩
    case modifyName x ty n =>
      cases n with
      | none => exact .same rfl
      | some n => exact .edit _ (fun u => { u with name := n }) rfl fun u => ⟨rfl, rfl, rfl, rfl⟩
    case modifyChildClass x ch n o =>
      simp only [program, run_bind, pure_eq, run_done, gpModifyChildClass, read_bind, run_stmt, id]
      split
      · exact .edit _ (fun u => { u with classid := n }) rfl fun u => ⟨rfl, rfl, rfl, rfl⟩
      · exact .same rfl
  · exact .same (step_other spares_mcUser harea h)

/-- A user who may log in is not registered again. -/
theorem mayLogin_step {tel pw : Option String} {c : Call}
    (hd : d.mcUser.any (mayLogin L tel pw) = true) (h : step L d c = some e) :
    e.mcUser.any (mayLogin L tel pw) = true := by
  cases user_step h with
  | same h => rwa [h]
  | edit q f h hf =>
    rw [h, ← Table.count_pos, Table.count_update, Table.count_pos]
    · exact hd
    · intro r _
      obtain ⟨hlogin, hpassword, hstatus, -⟩ := hf r.val
      simp only [mayLogin, hasLogin, hlogin, hpassword, hstatus]
  | register tel' email pw' h hnew =>
    obtain ⟨r, hr, hmay⟩ := Table.any_eq_true.mp hd
    have hstatus : r.val.status = 2 := by
      simp only [mayLogin, Bool.and_eq_true, beq_iff_eq] at hmay
      exact hmay.2
    have hother : hasLogin L tel' r = false := by
      have := Table.any_eq_false.mp hnew r hr
      simpa [hstatus] using this
    rw [h]
    exact Table.any_eq_true.mpr ⟨r, List.mem_map.mpr ⟨r, hr, by simp [hother]⟩, hmay⟩

theorem login_reply (userid password ip : Option String) :
    (∃ l, reply L d (.login userid password ip) = .login l ∧ l.ret = 0) ↔
      d.mcUser.any (mayLogin L userid password) = true := by
  simp only [reply, program, gpLogin, read_bind, stmt_bind, run_stmt, id]
  split
  · rename_i hmay
    simp [hmay, run_bind]
  · rename_i hmay
    simp [hmay]

theorem knowsTeacher_hasLogin {tel name : Option String} {cls : Option ℤ}
    (h : d.knowsTeacher L tel name cls = true) : d.mcUser.any (hasLogin L tel) = true := by
  obtain ⟨u, hu, h⟩ := Table.any_eq_true.mp h
  obtain ⟨_, _, h⟩ := Table.any_eq_true.mp h
  obtain ⟨_, _, h⟩ := Table.any_eq_true.mp h
  obtain ⟨_, _, h⟩ := Table.any_eq_true.mp h
  simp only [Bool.and_eq_true] at h
  exact Table.any_eq_true.mpr ⟨u, hu, h.1.1.2⟩

theorem knowsParent_hasLogin {tel name : Option String} {addr1 addr2 cls : Option ℤ}
    (h : d.knowsParent L tel name addr1 addr2 cls = true) :
    d.mcUser.any (hasLogin L tel) = true := by
  obtain ⟨_, _, h⟩ := Table.any_eq_true.mp h
  obtain ⟨_, _, h⟩ := Table.any_eq_true.mp h
  obtain ⟨_, _, h⟩ := Table.any_eq_true.mp h
  obtain ⟨par, hpar, h⟩ := Table.any_eq_true.mp h
  obtain ⟨_, _, h⟩ := Table.any_eq_true.mp h
  obtain ⟨_, _, h⟩ := Table.any_eq_true.mp h
  simp only [Bool.and_eq_true] at h
  exact Table.any_eq_true.mpr ⟨par, hpar, h.1.1.1.1.2⟩

/-- What the answer 0 of `GP_UserVerify` says: the number is that of a user and of no
registered one, and the registration has been tried. -/
theorem userVerify_reply {type : Option ℤ} {password tel email name : Option String}
    {addr1 addr2 cls : Option ℤ}
    (h : reply L d (.userVerify type password tel email name addr1 addr2 cls) = .ret 0) :
    d.mcUser.any (hasLogin L tel) = true ∧
    d.mcUser.any (fun r => hasLogin L tel r && r.val.status == 2) = false ∧
    step L d (.userVerify type password tel email name addr1 addr2 cls) =
      some ((registerUsers L password tel email).run d).1 := by
  simp only [reply, step, program, gpUserVerify, read_bind, stmt_bind, run_stmt, id] at h ⊢
  cases hnew : d.mcUser.any (fun r => hasLogin L tel r && r.val.status == 2) with
  | true => simp [hnew] at h
  | false =>
    simp only [hnew, Bool.false_eq_true, if_false, stmt_bind, run_stmt, id] at h ⊢
    cases hused : d.mcUser.any (fun r => compares L.same r.val.email email) with
    | true => simp [hused] at h
    | false =>
      simp only [hused, Bool.false_eq_true, if_false] at h ⊢
      by_cases hteacher : type = some 1
      · simp only [hteacher, if_true, stmt_bind, run_stmt, id] at h ⊢
        cases hknown : d.knowsTeacher L tel name cls with
        | true => exact ⟨knowsTeacher_hasLogin hknown, trivial, by simp [run_bind]⟩
        | false => simp [hknown] at h
      · simp only [hteacher, if_false] at h ⊢
        by_cases hparent : type = some 2
        · simp only [hparent, if_true, stmt_bind, run_stmt, id] at h ⊢
          cases hknown : d.knowsParent L tel name addr1 addr2 cls with
          | true => exact ⟨knowsParent_hasLogin hknown, trivial, by simp [run_bind]⟩
          | false => simp [hknown] at h
        · simp [hparent] at h

theorem registerUsers_mayLogin {tel pw : String} (email : Option String)
    (hknown : d.mcUser.any (hasLogin L (some tel)) = true) (hfits : L.size pw ≤ passwordSize) :
    ((registerUsers L (some pw) (some tel) email).run d).1.mcUser.any
      (mayLogin L (some tel) (some pw)) = true := by
  obtain ⟨r, hr, hlogin⟩ := Table.any_eq_true.mp hknown
  have hnot : ¬ passwordSize < L.size pw := by omega
  simp only [registerUsers, write, run_stmt, run_done, hnot, if_false]
  refine Table.any_eq_true.mpr ⟨⟨r.id, { r.val with status := 2, password := pw, email := email }⟩,
    List.mem_map.mpr ⟨r, hr, by simp [hlogin]⟩, ?_⟩
  have hself := L.equivalence.refl pw
  simp only [mayLogin, hasLogin, compares_some, hself, Bool.and_true, beq_self_eq_true] at hlogin ⊢
  exact hlogin

/-- A user to whom `GP_UserVerify` has answered 0 can log in with his password from
then on, whatever is called in between, if the password fits into its column. If not,
he has had the same answer and no more. -/
theorem verify_login (L : Collation) (d e : Database) (calls : List Call) (type : Option ℤ)
    (password tel : String) (email name : Option String) (addr1 addr2 cls : Option ℤ)
    (ip : Option String)
    (hreply : reply L d (.userVerify type (some password) (some tel) email name addr1 addr2 cls) =
      .ret 0)
    (h : exec (step L) d
      (.userVerify type (some password) (some tel) email name addr1 addr2 cls :: calls) = some e) :
    (L.size password ≤ passwordSize →
      ∃ l, reply L e (.login (some tel) (some password) ip) = .login l ∧ l.ret = 0) ∧
    (passwordSize < L.size password → calls = [] →
      e = d ∧
        reply L e (.login (some tel) (some password) ip) = .login ⟨none, none, none, none, 1⟩) := by
  obtain ⟨hknown, hnew, hstep⟩ := userVerify_reply hreply
  obtain ⟨m, hm, h⟩ := exec_cons_eq_some.mp h
  rw [hstep, Option.some.injEq] at hm
  subst hm
  constructor
  · intro hfits
    rw [login_reply]
    exact invariant (I := fun d => d.mcUser.any (mayLogin L (some tel) (some password)) = true)
      (fun _ _ _ => mayLogin_step) (registerUsers_mayLogin email hknown hfits) h
  · rintro hlong rfl
    cases h
    have hsame : ((registerUsers L (some password) (some tel) email).run d).1 = d := by
      simp [registerUsers, write, hlong]
    rw [hsame]
    refine ⟨rfl, ?_⟩
    have hnone : d.mcUser.any (mayLogin L (some tel) (some password)) = false := by
      rw [Table.any_eq_false] at hnew ⊢
      intro r hr
      have := hnew r hr
      simp only [mayLogin]
      grind
    simp [reply, program, gpLogin, hnone]

theorem verify_login_teacher : ∃ d e,
    exec (step binary) d [.userVerify (some 1) (some "p") (some "1") (some "e") (some "n") none none
      (some 1), .modifyName (some 1) (some 1) (some "m")] = some e ∧
    ∃ l, reply binary e (.login (some "1") (some "p") none) = .login l ∧ l.ret = 0 := by
  refine ⟨{ created with
    mcUser := Table.empty.append ⟨"1", "", "n", 1, none, 1, none, none, none⟩
    mcClass := Table.empty.append ⟨"", 1⟩
    mcSchool := Table.empty.append ⟨1⟩
    mcTeacherClassRel := Table.empty.append ⟨some 1, some 1, none⟩ }, ?_⟩
  apply exists_exec (exec_isSome _ _)
  intro e he
  exact (verify_login binary _ e _ (some 1) "p" "1" (some "e") (some "n") none none (some 1) none
    (by decide +kernel) he).1 (by decide +kernel)

/-! ## Who is logged in -/

/-- The answers to the calls of a run. -/
def replies (L : Collation) : Database → List Call → List Reply
  | _, [] => []
  | d, c :: cs => reply L d c :: replies L ((program L c).run d).1 cs

/-- The user and the number of the login, where the answer is to a login that
succeeded. -/
def loginEntry : Reply → Option (ℤ × ℤ)
  | .login l => if l.ret = 0 then l.userIdx.bind fun u => l.loginIdx.map fun i => (u, i) else none
  | _ => none

/-- A login takes the place of the earlier one of the same user. -/
def enter (logins : List (ℤ × ℤ)) (entry : ℤ × ℤ) : List (ℤ × ℤ) :=
  logins.filter (fun p => p.1 != entry.1) ++ [entry]

theorem mem_foldl_enter (entries : List (ℤ × ℤ)) (u i : ℤ) : (u, i) ∈ entries.foldl enter [] ↔
    ((entries.filter (·.1 == u)).getLast?).map Prod.snd = some i := by
  induction entries using List.reverseRecOn with
  | nil => simp
  | append_singleton entries entry ih =>
    rw [List.foldl_append, List.foldl_cons, List.foldl_nil, enter, List.mem_append, List.mem_filter,
      ih, List.filter_append]
    obtain ⟨v, j⟩ := entry
    by_cases huv : v = u
    · subst huv
      simp [eq_comm]
    · have hvu : ¬ u = v := fun h => huv h.symm
      simp [huv, hvu]

theorem nodup_foldl_enter (entries : List (ℤ × ℤ)) :
    ((entries.foldl enter []).map Prod.fst).Nodup := by
  induction entries using List.reverseRecOn with
  | nil => simp
  | append_singleton entries entry ih =>
    rw [List.foldl_append, List.foldl_cons, List.foldl_nil, enter, List.map_append]
    refine List.nodup_append.mpr
      ⟨ih.sublist (List.filter_sublist.map _), List.nodup_singleton _, ?_⟩
    rintro u hu v hv rfl
    obtain ⟨p, hp, rfl⟩ := List.mem_map.mp hu
    have hne := (List.mem_filter.mp hp).2
    simp_all

theorem length_foldl_enter (entries : List (ℤ × ℤ)) :
    (entries.foldl enter []).length = (entries.map Prod.fst).dedup.length := by
  have hperm : ((entries.foldl enter []).map Prod.fst).Perm (entries.map Prod.fst).dedup := by
    refine (List.perm_ext_iff_of_nodup (nodup_foldl_enter entries)
      (List.nodup_dedup _)).mpr fun u => ?_
    rw [List.mem_dedup]
    constructor
    · intro hu
      obtain ⟨⟨v, i⟩, hp, rfl⟩ := List.mem_map.mp hu
      obtain ⟨p, hlast, -⟩ := Option.map_eq_some_iff.mp ((mem_foldl_enter entries v i).mp hp)
      have hmem := List.mem_filter.mp (List.mem_of_getLast? hlast)
      exact List.mem_map.mpr ⟨p, hmem.1, eq_of_beq hmem.2⟩
    · intro hu
      obtain ⟨p, hp, rfl⟩ := List.mem_map.mp hu
      have hne : entries.filter (·.1 == p.1) ≠ [] :=
        List.ne_nil_of_mem (List.mem_filter.mpr ⟨hp, by simp⟩)
      obtain ⟨q, hq⟩ := Option.isSome_iff_exists.mp (List.getLast?_isSome.mpr hne)
      refine List.mem_map.mpr ⟨(p.1, q.2), (mem_foldl_enter entries _ _).mpr ?_, rfl⟩
      rw [hq]
      rfl
  rw [← hperm.length_eq, List.length_map]

/-- Who is logged in, and under which number. -/
def Database.logins (d : Database) : List (ℤ × ℤ) :=
  d.tbLogin.rows.map fun r => (r.val.characterIdx, r.id)

theorem dropLogin_run (u : Option ℤ) :
    ((dropLogin u).run d).1.tbLogin = d.tbLogin.delete (ofCharacter u) := by
  simp only [dropLogin, read_bind, run_stmt, id]
  split
  · rfl
  · rename_i hnone
    have hall : ∀ r ∈ d.tbLogin.rows, ofCharacter u r = false :=
      Table.any_eq_false.mp (by simpa using hnone)
    have hrows : d.tbLogin.rows.filter (fun r => !ofCharacter u r) = d.tbLogin.rows :=
      List.filter_eq_self.mpr fun r hr => by simp [hall r hr]
    simp only [Table.delete, hrows, pure_eq, run_done]

theorem delete_logins (u : ℤ) :
    ((d.tbLogin.delete (ofCharacter (some u))).rows.map fun r => (r.val.characterIdx, r.id)) =
      d.logins.filter fun p => p.1 != u := by
  rw [Table.rows_delete, Database.logins, List.filter_map]
  congr 1
  refine List.filter_congr fun r _ => ?_
  simp only [ofCharacter, Function.comp_apply, bne]
  congr 1
  rw [Bool.eq_iff_iff, beq_iff_eq, beq_iff_eq, Option.some.injEq]
  exact eq_comm

/-- What a login does and answers if the row can be inserted. -/
theorem gpLogin_run (userid password : Option String) (ip : String) (hroom : d.tbLogin.HasRoom) :
    ((gpLogin L userid password (some ip)).run d).1.logins =
      (loginEntry (.login ((gpLogin L userid password (some ip)).run d).2)).toList.foldl enter
        d.logins := by
  simp only [gpLogin, read_bind, run_stmt, id]
  cases hmay : d.mcUser.any (mayLogin L userid password) with
  | false => simp [loginEntry]
  | true =>
    obtain ⟨r, hr, hp⟩ := Table.any_eq_true.mp hmay
    obtain ⟨user, huser⟩ := Option.isSome_iff_exists.mp (List.getLast?_isSome.mpr
      (List.ne_nil_of_mem (List.mem_filter.mpr ⟨hr, hp⟩)))
    have hselect : (d.mcUser.select (mayLogin L userid password)).getLast? = some user := huser
    have hdrop := dropLogin_run (d := d) (some user.id)
    simp only [if_true, run_stmt, id, hselect, Option.map_some, run_bind]
    generalize ((dropLogin (some user.id)).run d).1 = m at hdrop
    have hins := Table.insert_some (t := m.tbLogin) (by rw [hdrop]; exact hroom)
      ⟨14601, 1, user.id, ip⟩
    have hlast : ((m.tbLogin.append ⟨14601, 1, user.id, ip⟩).select
        (ofCharacter (some user.id))).getLast?.map Row.id = some d.tbLogin.seed := by
      simp [Table.select, Table.append, ofCharacter, hdrop]
    simp only [insertLogin, write, run_stmt, run_done, loginRow, Option.bind_eq_bind,
      Option.bind_some, hins, hlast, loginEntry, if_true, Option.map_some, Option.toList_some,
      List.foldl_cons, List.foldl_nil, pure_eq]
    simp only [Database.logins, Table.append, enter, hdrop, List.map_append, List.map_cons,
      List.map_nil, Table.seed_delete]
    exact congrArg (· ++ [(user.id, d.tbLogin.seed)]) (delete_logins user.id)

/-- Only a login is answered as one. -/
theorem loginEntry_reply {c : Call} (harea : c.area ≠ some .logins) :
    loginEntry (reply L d c) = none := by
  cases c
  case login => exact absurd rfl harea
  case matrixCreate a b =>
    simp only [reply, program, run_bind, pure_eq, run_done]
    cases ((gpMatrixCreate a b).run d).2 <;> rfl
  all_goals simp only [reply, program, run_bind, pure_eq, run_done, loginEntry]

theorem logins_step {c : Call} (hip : ∀ u p, c ≠ .login u p none) (hroom : d.tbLogin.HasRoom)
    (h : step L d c = some e) :
    e.logins = (loginEntry (reply L d c)).toList.foldl enter d.logins := by
  by_cases harea : c.area = some .logins
  · obtain rfl : ((program L c).run d).1 = e := by simpa [step] using h
    cases c <;> simp only [Call.area, reduceCtorEq, Option.some.injEq] at harea
    case login u p ip =>
      cases ip with
      | none => exact absurd rfl (hip u p)
      | some ip =>
        simp only [reply, program, run_bind, pure_eq, run_done]
        exact gpLogin_run u p ip hroom
  · simp [Database.logins, step_other spares_tbLogin harea h, loginEntry_reply harea]

theorem gpLogin_table (userid password ip : Option String) :
    ((gpLogin L userid password ip).run d).1.tbLogin = d.tbLogin ∨
    ∃ u, ((gpLogin L userid password ip).run d).1.tbLogin =
      ((d.tbLogin.delete (ofCharacter u)).insert (loginRow u ip)).1 := by
  simp only [gpLogin, read_bind, run_stmt, id]
  split
  · refine Or.inr ⟨((d.mcUser.select (mayLogin L userid password)).getLast?).map Row.id, ?_⟩
    simp only [run_stmt, id, run_bind, insertLogin, write, run_done, pure_eq, dropLogin_run]
  · exact Or.inl rfl

/-- Every row is for the server 14601, and there are numbers for `n` more. -/
structure Database.LoginTable (d : Database) (n : ℕ) : Prop where
  server : ∀ r ∈ d.tbLogin.rows, r.val.serverNum = 14601
  room : d.tbLogin.seed + n ≤ intMax + 1

theorem loginTable_step {n : ℕ} {c : Call} (hd : d.LoginTable (n + 1)) (h : step L d c = some e) :
    e.LoginTable n := by
  have hroom := hd.room
  push_cast at hroom
  by_cases harea : c.area = some .logins
  · obtain rfl : ((program L c).run d).1 = e := by simpa [step] using h
    cases c <;> simp only [Call.area, reduceCtorEq, Option.some.injEq] at harea
    case login userid password ip =>
      simp only [program, run_bind, pure_eq, run_done]
      obtain hsame | ⟨u, hnew⟩ := gpLogin_table (L := L) (d := d) userid password ip
      · exact ⟨hsame ▸ hd.server, by rw [hsame]; omega⟩
      · constructor
        · rw [hnew]
          intro r hr
          obtain hr | ⟨-, v, hv, rfl⟩ := Table.mem_insert.mp hr
          · exact hd.server r (List.mem_of_mem_filter hr)
          · cases u <;> cases ip <;> simp [loginRow] at hv
            rw [← hv]
        · rw [hnew]
          have := Table.seed_insert_le (t := d.tbLogin.delete (ofCharacter u)) (loginRow u ip)
          rw [Table.seed_delete] at this
          omega
  · have hsame := step_other spares_tbLogin harea h
    exact ⟨hsame ▸ hd.server, by rw [hsame]; omega⟩

theorem logins_run {calls : List Call} (hd : d.LoginTable calls.length)
    (hip : ∀ c ∈ calls, ∀ u p, c ≠ .login u p none) (h : exec (step L) d calls = some e) :
    e.LoginTable 0 ∧
      e.logins = ((replies L d calls).filterMap loginEntry).foldl enter d.logins := by
  induction calls generalizing d with
  | nil =>
    cases h
    exact ⟨hd, rfl⟩
  | cons c cs ih =>
    obtain ⟨m, hm, h⟩ := exec_cons_eq_some.mp h
    obtain rfl : ((program L c).run d).1 = m := by simpa [step] using hm
    have hroom : d.tbLogin.HasRoom := by
      have := hd.room
      push_cast [List.length_cons] at this
      unfold Table.HasRoom
      omega
    obtain ⟨he, hlogins⟩ :=
      ih (loginTable_step hd hm) (fun c hc => hip c (List.mem_cons_of_mem _ hc)) h
    refine ⟨he, ?_⟩
    rw [hlogins, logins_step (hip c (List.mem_cons_self ..)) hroom hm, replies, ← List.foldl_append]
    congr 1
    cases hentry : loginEntry (reply L d c) <;> simp [hentry]

/-- A user is logged in exactly under the number that his last login was answered, and
`GP_CONCURRENT_USER` counts the different users among those whose login succeeded. -/
theorem concurrentUser_eq (L : Collation) (d e : Database) (calls : List Call)
    (hempty : d.tbLogin.rows = []) (hip : ∀ c ∈ calls, ∀ u p, c ≠ .login u p none)
    (hroom : d.tbLogin.seed + calls.length ≤ intMax + 1) (h : exec (step L) d calls = some e) :
    (∀ u i, (∃ r ∈ e.tbLogin.rows, r.val.characterIdx = u ∧ r.id = i) ↔
      ((((replies L d calls).filterMap loginEntry).filter (·.1 == u)).getLast?).map Prod.snd =
        some i) ∧
    reply L e (.concurrentUser (some 14601)) =
      .count (((replies L d calls).filterMap loginEntry).map Prod.fst).dedup.length := by
  obtain ⟨he, hlogins⟩ := logins_run ⟨by simp [hempty], hroom⟩ hip h
  have hnil : d.logins = [] := by simp [Database.logins, hempty]
  rw [hnil] at hlogins
  constructor
  · intro u i
    rw [← mem_foldl_enter, ← hlogins, Database.logins, List.mem_map]
    simp only [Prod.mk.injEq]
  · have hcount :
        e.tbLogin.count (fun r => some 14601 == some r.val.serverNum) = e.logins.length := by
      rw [Table.count, Database.logins, List.length_map, List.countP_eq_length]
      intro r hr
      simp [he.server r hr]
    simp only [reply, program, gpConcurrentUser, read_bind, run_stmt, pure_eq, run_done, hcount]
    rw [hlogins, length_foldl_enter]

theorem concurrentUser_eq_two : ∃ d e,
    exec (step binary) d [.login (some "1") (some "p") (some "a"),
      .login (some "2") (some "p") (some "b"), .login (some "1") (some "p") (some "c")] = some e ∧
    reply binary e (.concurrentUser (some 14601)) = .count (((replies binary d
      [.login (some "1") (some "p") (some "a"), .login (some "2") (some "p") (some "b"),
        .login (some "1") (some "p") (some "c")]).filterMap loginEntry).map
          Prod.fst).dedup.length := by
  let users : Table McUser :=
    (Table.empty.append ⟨"1", "p", "", 1, none, 2, none, none, none⟩).append
      ⟨"2", "p", "", 1, none, 2, none, none, none⟩
  refine ⟨{ created with mcUser := users }, ?_⟩
  apply exists_exec (exec_isSome _ _)
  intro e he
  exact (concurrentUser_eq binary _ e _ rfl (by simp) (by decide) he).2

end Xiaoxin.Sql
