import Xiaoxin.AccountRuns

/-!
# Classes and courses over runs of calls

What a teacher teaches after any run of calls, told from the calls and the tables of
users, classes and subjects, which stay as they are. An unknown class undoes the
whole call, an unknown subject is left out.
-/
namespace Xiaoxin.Sql
open Relational Sessions Prog Transition

variable {L : Collation} {d e : Database}

/-! ## The tables that are referred to -/

/-- The parts of the two databases that the constraints look at are the same. -/
structure SameStaff (d e : Database) : Prop where
  role : ∀ u t, e.mcUser.any (ofRole u t) = d.mcUser.any (ofRole u t)
  user : ∀ u, refers e.mcUser u = refers d.mcUser u
  classes : e.mcClass = d.mcClass
  subjects : e.mcSubject = d.mcSubject

theorem SameStaff.refl (d : Database) : SameStaff d d := ⟨fun _ _ => rfl, fun _ => rfl, rfl, rfl⟩

theorem SameStaff.trans {d m e : Database} (h : SameStaff d m) (h' : SameStaff m e) :
    SameStaff d e where
  role u t := (h'.role u t).trans (h.role u t)
  user u := (h'.user u).trans (h.user u)
  classes := h'.classes.trans h.classes
  subjects := h'.subjects.trans h.subjects

theorem any_update {t : Table McUser} {p q : Row McUser → Bool} {f : McUser → McUser}
    (h : ∀ r, p ⟨r.id, f r.val⟩ = p r) : (t.update q f).any p = t.any p := by
  rw [Bool.eq_iff_iff, ← Table.count_pos, ← Table.count_pos, Table.count_update fun r _ => h r]

theorem sameStaff_step {c : Call} (h : step L d c = some e) : SameStaff d e := by
  have hclasses : e.mcClass = d.mcClass :=
    step_leaves (fun a _ => by cases a <;> exact fun _ _ => rfl) h
  have hsubjects : e.mcSubject = d.mcSubject :=
    step_leaves (fun a _ => by cases a <;> exact fun _ _ => rfl) h
  have hkeep : ∀ {q : Row McUser → Bool} {f : McUser → McUser}, e.mcUser = d.mcUser.update q f →
      (∀ u, (f u).roleType = u.roleType) → SameStaff d e := by
    intro q f hupdate hf
    refine ⟨fun u t => ?_, fun u => ?_, hclasses, hsubjects⟩
    · rw [hupdate, any_update fun r => by simp [ofRole, hf]]
    · unfold refers
      rw [hupdate]
      congr 1
      funext k
      exact any_update fun r => rfl
  cases user_step h with
  | same h => exact ⟨fun _ _ => by rw [h], fun _ => by rw [h], hclasses, hsubjects⟩
  | edit q f h hf => exact hkeep h fun u => (hf u).2.2.2
  | register tel email pw h hnew => exact hkeep h fun u => rfl

/-! ## Classes -/

/-- The classes of a teacher, in the order in which they were added. -/
def classesOf (t : Table McTeacherClassRel) (u : ℤ) : List (Option ℤ) :=
  (t.select (ofTeacher (some u))).map (·.val.classID)

def Database.classes (d : Database) (u : ℤ) : List (Option ℤ) := classesOf d.mcTeacherClassRel u

/-- The numbers among the parameters of a call that stand for something. -/
def wanted (cs : List (Option ℤ)) : List (Option ℤ) :=
  cs.filter fun c => compares (· > ·) c (some 0)

theorem wanted_cons_of_pos {c : Option ℤ} (h : compares (· > ·) c (some 0) = true)
    (cs : List (Option ℤ)) : wanted (c :: cs) = c :: wanted cs := List.filter_cons_of_pos h

theorem wanted_cons_of_neg {c : Option ℤ} (h : ¬ compares (· > ·) c (some 0) = true)
    (cs : List (Option ℤ)) : wanted (c :: cs) = wanted cs := List.filter_cons_of_neg h

/-- What the call makes of the classes `cs` of the user. -/
def assign (d : Database) (u : ℤ) (cs : List (Option ℤ)) : Call → List (Option ℤ)
  | .modifyTeacherClass x ty c1 c2 c3 c4 c5 =>
    if x = some u ∧ d.mcUser.any (ofRole x ty) = true ∧
        ∀ c ∈ wanted [c1, c2, c3, c4, c5], refers d.mcClass c = true then
      wanted [c1, c2, c3, c4, c5]
    else cs
  | .delOrAddTeacherClass x c sign =>
    if x = some u then
      if sign = some 1 then cs.filter fun c' => !compares (· == ·) c' c
      else if sign = some 2 ∧ (c = none ∨ c ∉ cs) ∧ refers d.mcUser x = true ∧
          refers d.mcClass c = true then
        cs ++ [c]
      else cs
    else cs
  | _ => cs

theorem classesOf_delete (t : Table McTeacherClassRel) (x : Option ℤ) (u : ℤ) :
    classesOf (t.delete (ofTeacher x)) u = if x = some u then [] else classesOf t u := by
  rw [classesOf, Table.select_delete]
  by_cases hx : x = some u
  · subst hx
    simp
  · rw [if_neg hx, classesOf, Table.select]
    congr 1
    refine List.filter_congr fun r _ => ?_
    cases hr : ofTeacher (some u) r with
    | false => rfl
    | true =>
      have hother : ofTeacher x r = false := compares_of_ne (Ne.symm hx) hr
      simp [hother]

theorem classesOf_insert {t : Table McTeacherClassRel} (hroom : t.HasRoom) (x c a : Option ℤ)
    (u : ℤ) :
    classesOf (t.insert (some ⟨x, c, a⟩)).1 u =
      classesOf t u ++ if x = some u then [c] else [] := by
  rw [classesOf, Table.select_insert, if_pos hroom, List.map_append]
  congr 1
  cases x with
  | none => simp [ofTeacher]
  | some v => by_cases hv : v = u <;> simp [ofTeacher, hv]

theorem addClasses_seed (d : Database) (x : Option ℤ) (cs : List (Option ℤ))
    (t : Table McTeacherClassRel) : (addClasses d x cs t).1.seed ≤ t.seed + cs.length := by
  induction cs generalizing t with
  | nil => simp [addClasses]
  | cons c cs ih =>
    have hinsert := Table.seed_insert_le (t := t) (d.teacherClassRow x c x)
    simp only [addClasses, List.length_cons]
    push_cast
    split
    · split
      · have := ih (t.insert (d.teacherClassRow x c x)).1
        omega
      · omega
    · have := ih t
      omega

/-- The blocks add all the wanted classes or end early. -/
theorem addClasses_run {d : Database} {x : Option ℤ} (huser : refers d.mcUser x = true)
    (cs : List (Option ℤ)) (t : Table McTeacherClassRel) (hroom : t.seed + cs.length ≤ intMax + 1) :
    ((addClasses d x cs t).2 = true ↔ ∀ c ∈ wanted cs, refers d.mcClass c = true) ∧
    ((addClasses d x cs t).2 = true → ∀ u, classesOf (addClasses d x cs t).1 u =
      classesOf t u ++ if x = some u then wanted cs else []) := by
  induction cs generalizing t with
  | nil => simp [addClasses, wanted]
  | cons c cs ih =>
    push_cast [List.length_cons] at hroom
    by_cases hpos : compares (· > ·) c (some 0) = true
    · rw [wanted_cons_of_pos hpos, List.forall_mem_cons]
      simp only [addClasses, hpos, if_true]
      cases hclass : refers d.mcClass c with
      | false =>
        have hrow : d.teacherClassRow x c x = none := by simp [Database.teacherClassRow, hclass]
        have hfails : (t.insert (d.teacherClassRow x c x)).2 = false := by
          rw [← Bool.not_eq_true, Table.insert_snd, hrow]
          simp
        simp [hfails]
      | true =>
        have hrow : d.teacherClassRow x c x = some ⟨x, c, x⟩ := by
          simp [Database.teacherClassRow, hclass, huser]
        have hhas : t.HasRoom := by unfold Table.HasRoom; omega
        have hins := Table.insert_some hhas (⟨x, c, x⟩ : McTeacherClassRel)
        obtain ⟨hiff, hrows⟩ := ih (t.insert (some ⟨x, c, x⟩)).1 (by
          have := Table.seed_insert_le (t := t) (some (⟨x, c, x⟩ : McTeacherClassRel))
          omega)
        have hdone : (t.insert (some (⟨x, c, x⟩ : McTeacherClassRel))).2 = true := by rw [hins]
        simp only [hrow, hdone, if_true, true_and]
        refine ⟨hiff, fun h u => ?_⟩
        rw [hrows h u, classesOf_insert hhas, List.append_assoc]
        congr 1
        split <;> rfl
    · rw [wanted_cons_of_neg hpos]
      simp only [addClasses, hpos, Bool.false_eq_true, if_false]
      exact ih t (by omega)

theorem refers_of_role {d : Database} {x ty : Option ℤ} (h : d.mcUser.any (ofRole x ty) = true) :
    refers d.mcUser x = true := by
  obtain ⟨r, hr, hp⟩ := Table.any_eq_true.mp h
  simp only [ofRole, Bool.and_eq_true, beq_iff_eq] at hp
  rw [hp.1, refers, Option.all_some]
  exact Table.any_eq_true.mpr ⟨r, hr, beq_self_eq_true _⟩

theorem modifyTeacherClass_classes {x ty c1 c2 c3 c4 c5 : Option ℤ}
    (hroom : d.mcTeacherClassRel.seed + 5 ≤ intMax + 1) (u : ℤ) :
    ((gpModifyTeacherClass x ty c1 c2 c3 c4 c5).run d).1.classes u =
      assign d u (d.classes u) (.modifyTeacherClass x ty c1 c2 c3 c4 c5) := by
  simp only [gpModifyTeacherClass, write, run_stmt, run_done]
  cases hrole : d.mcUser.any (ofRole x ty) with
  | false => simp [assign, hrole]
  | true =>
    obtain ⟨hiff, hrows⟩ := addClasses_run (refers_of_role hrole) [c1, c2, c3, c4, c5]
      (d.mcTeacherClassRel.delete (ofTeacher x)) (by simpa using hroom)
    simp only [if_true, assign, hrole, true_and]
    by_cases hdone : (addClasses d x [c1, c2, c3, c4, c5]
        (d.mcTeacherClassRel.delete (ofTeacher x))).2 = true
    · have hall := hiff.mp hdone
      simp only [hdone, if_true, Database.classes, hrows hdone u, classesOf_delete]
      by_cases hx : x = some u
      · rw [if_pos hx, if_pos hx, if_pos ⟨hx, hall⟩, List.nil_append]
      · rw [if_neg hx, if_neg hx, if_neg fun h => hx h.1, List.append_nil]
    · have hnot : ¬ ∀ c ∈ wanted [c1, c2, c3, c4, c5], refers d.mcClass c = true :=
        fun h => hdone (hiff.mpr h)
      simp only [hdone, Bool.false_eq_true, if_false]
      rw [if_neg fun h => hnot h.2]
      rfl

theorem count_teacherClass (t : Table McTeacherClassRel) (u : ℤ) (c : Option ℤ) :
    t.count (ofTeacherClass (some u) c) =
      (classesOf t u).countP fun c' => compares (· == ·) c' c := by
  rw [Table.count, classesOf, List.countP_map, Table.select, List.countP_filter]
  refine List.countP_congr fun r _ => ?_
  simp only [ofTeacherClass, ofTeacher, Function.comp_apply, Bool.and_eq_true]
  exact and_comm

theorem classesOf_deleteClass (t : Table McTeacherClassRel) (x c : Option ℤ) (u : ℤ) :
    classesOf (t.delete (ofTeacherClass x c)) u =
      if x = some u then (classesOf t u).filter fun c' => !compares (· == ·) c' c
      else classesOf t u := by
  rw [classesOf, Table.select_delete]
  by_cases hx : x = some u
  · subst hx
    rw [if_pos rfl, classesOf, List.filter_map, Table.select, List.filter_filter]
    congr 1
    refine List.filter_congr fun r _ => ?_
    simp only [ofTeacherClass, ofTeacher, Function.comp_apply]
    cases compares (· == ·) r.val.teacherID (some u) <;> simp
  · rw [if_neg hx, classesOf, Table.select]
    congr 1
    refine List.filter_congr fun r _ => ?_
    cases hr : ofTeacher (some u) r with
    | false => rfl
    | true =>
      have hother : compares (· == ·) r.val.teacherID x = false := compares_of_ne (Ne.symm hx) hr
      simp [ofTeacherClass, hother]

theorem classesOf_insertRow (hroom : d.mcTeacherClassRel.HasRoom) (x c : Option ℤ) (u : ℤ) :
    classesOf (d.mcTeacherClassRel.insert (d.teacherClassRow x c none)).1 u =
      if x = some u ∧ refers d.mcUser x = true ∧ refers d.mcClass c = true then d.classes u ++ [c]
      else d.classes u := by
  by_cases hrefers : refers d.mcUser x = true ∧ refers d.mcClass c = true
  · have hrow : d.teacherClassRow x c none = some ⟨x, c, none⟩ := by
      simp [Database.teacherClassRow, hrefers]
    rw [hrow, classesOf_insert hroom]
    by_cases hx : x = some u
    · rw [if_pos hx, if_pos ⟨hx, hrefers⟩]
      rfl
    · rw [if_neg hx, if_neg fun h => hx h.1, List.append_nil]
      rfl
  · have hrow : d.teacherClassRow x c none = none := by
      rw [Database.teacherClassRow, if_neg]
      simpa using hrefers
    rw [hrow, if_neg fun h => hrefers h.2, classesOf, Table.select_insert]
    simp [Database.classes, classesOf]

theorem delOrAddTeacherClass_classes (hroom : d.mcTeacherClassRel.HasRoom) (x c sign : Option ℤ)
    (u : ℤ) : ((gpDelOrAddTeacherClass x c sign).run d).1.classes u =
      assign d u (d.classes u) (.delOrAddTeacherClass x c sign) := by
  have hcount := count_teacherClass d.mcTeacherClassRel u c
  simp only [gpDelOrAddTeacherClass, read_bind, run_stmt, id, assign]
  by_cases hdel : sign = some 1
  · simp only [hdel, if_true]
    by_cases hhave : 0 < d.mcTeacherClassRel.count (ofTeacherClass x c)
    · simp only [hhave, if_true, write, run_stmt, run_done, Database.classes, classesOf_deleteClass]
    · -- there is nothing to delete
      simp only [hhave, if_false, pure_eq, run_done]
      split
      · rename_i hx
        subst hx
        rw [hcount, List.countP_pos_iff] at hhave
        push Not at hhave
        refine (List.filter_eq_self.mpr fun c' hc' => ?_).symm
        simpa using hhave c' hc'
      · rfl
  · simp only [hdel, if_false]
    by_cases hadd : sign = some 2
    · simp only [hadd, if_true, true_and]
      by_cases hhave : d.mcTeacherClassRel.count (ofTeacherClass x c) = 0
      · simp only [hhave, if_true, write, run_stmt, run_done]
        refine (classesOf_insertRow hroom x c u).trans ?_
        by_cases hx : x = some u
        · subst hx
          have hfresh : c = none ∨ c ∉ d.classes u := by
            rw [hcount, List.countP_eq_zero] at hhave
            by_contra h
            push Not at h
            obtain ⟨hsome, hin⟩ := h
            obtain ⟨n, rfl⟩ := Option.ne_none_iff_exists'.mp hsome
            exact hhave _ hin (by simp)
          simp [hfresh]
        · simp [hx]
      · simp only [hhave, if_false, pure_eq, run_done]
        by_cases hx : x = some u
        · subst hx
          have hthere : ¬ (c = none ∨ c ∉ d.classes u) := by
            rw [hcount, List.countP_eq_zero] at hhave
            push Not at hhave ⊢
            obtain ⟨c', hc', h⟩ := hhave
            obtain ⟨n, rfl, rfl⟩ := compares_beq.mp h
            exact ⟨by simp, hc'⟩
          simp [hthere]
        · simp [hx]
    · simp [hadd]

theorem spares_mcTeacherClassRel (b : Area) (hb : b ≠ .classes) :
    b.Spares Database.mcTeacherClassRel := by
  cases b <;> first | contradiction | exact fun _ _ => rfl

theorem classes_step (hroom : d.mcTeacherClassRel.seed + 5 ≤ intMax + 1) (u : ℤ) {c : Call}
    (h : step L d c = some e) : e.classes u = assign d u (d.classes u) c := by
  by_cases harea : c.area = some .classes
  · obtain rfl : ((program L c).run d).1 = e := by simpa [step] using h
    cases c <;> simp only [Call.area, reduceCtorEq, Option.some.injEq] at harea
    case modifyTeacherClass =>
      simp only [program, run_bind, pure_eq, run_done]
      exact modifyTeacherClass_classes hroom u
    case delOrAddTeacherClass =>
      simp only [program, run_bind, pure_eq, run_done]
      exact delOrAddTeacherClass_classes (by unfold Table.HasRoom; omega) _ _ _ u
  · have hnone : assign d u (d.classes u) c = d.classes u := by
      cases c <;> first | exact absurd rfl harea | rfl
    rw [hnone, Database.classes, step_other spares_mcTeacherClassRel harea h]
    rfl

theorem classesSeed_step {c : Call} (h : step L d c = some e) :
    e.mcTeacherClassRel.seed ≤ d.mcTeacherClassRel.seed + 5 := by
  by_cases harea : c.area = some .classes
  · obtain rfl : ((program L c).run d).1 = e := by simpa [step] using h
    cases c <;> simp only [Call.area, reduceCtorEq, Option.some.injEq] at harea
    case modifyTeacherClass x ty c1 c2 c3 c4 c5 =>
      have hseed := addClasses_seed d x [c1, c2, c3, c4, c5]
        (d.mcTeacherClassRel.delete (ofTeacher x))
      rw [Table.seed_delete] at hseed
      simp only [program, run_bind, pure_eq, run_done, gpModifyTeacherClass, write, run_stmt]
      split
      · split
        · exact hseed
        · exact max_le (by omega) hseed
      · simp only
        omega
    case delOrAddTeacherClass x c sign =>
      simp only [program, run_bind, pure_eq, run_done, gpDelOrAddTeacherClass, read_bind, run_stmt,
        id]
      split
      · split <;> simp [write]
      split
      · split
        · have := Table.seed_insert_le (t := d.mcTeacherClassRel) (d.teacherClassRow x c none)
          simp only [write, run_stmt, run_done]
          omega
        · simp
      · simp
  · rw [step_other spares_mcTeacherClassRel harea h]
    omega

theorem assign_congr (h : SameStaff d e) (u : ℤ) (cs : List (Option ℤ)) (c : Call) :
    assign e u cs c = assign d u cs c := by
  cases c <;> simp only [assign, h.role, h.user, h.classes]

/-- After any run of calls a teacher has the classes that the calls assign to him one
after the other: all that a `GP_MODIFY_TEACHER_CLASS` names if all of them exist, and
what he had before if one of them does not. -/
theorem classes_eq (L : Collation) (d e : Database) (calls : List Call) (u : ℤ)
    (hroom : d.mcTeacherClassRel.seed + 5 * calls.length ≤ intMax + 1)
    (h : exec (step L) d calls = some e) :
    (e.mcTeacherClassRel.select (ofTeacher (some u))).map (·.val.classID) =
      calls.foldl (assign d u)
        ((d.mcTeacherClassRel.select (ofTeacher (some u))).map (·.val.classID)) := by
  have hrun : ∀ (cs : List Call) (m : Database), SameStaff d m →
      m.mcTeacherClassRel.seed + 5 * cs.length ≤ intMax + 1 → exec (step L) m cs = some e →
      e.classes u = cs.foldl (assign d u) (m.classes u) := by
    intro cs
    induction cs with
    | nil =>
      intro m _ _ h
      cases h
      rfl
    | cons c cs ih =>
      intro m hsame hroom h
      obtain ⟨n, hn, h⟩ := exec_cons_eq_some.mp h
      have hseed := classesSeed_step hn
      push_cast [List.length_cons] at hroom
      rw [ih n (hsame.trans (sameStaff_step hn)) (by omega) h, classes_step (by omega) u hn,
        assign_congr hsame]
      rfl
  exact hrun calls d (.refl d) hroom h

theorem classes_eq_rollback : ∃ d e,
    exec (step binary) d [
      .modifyTeacherClass (some 1) (some 1) (some 2) (some 0) none none (some 1),
      .modifyTeacherClass (some 1) (some 1) (some 1) (some 9) none none none,
      .delOrAddTeacherClass (some 1) (some 2) (some 1)] = some e ∧
    (e.mcTeacherClassRel.select (ofTeacher (some 1))).map (·.val.classID) = [some 1] := by
  refine ⟨{ created with
    mcUser := Table.empty.append ⟨"", "", "", 1, none, 2, none, none, none⟩
    mcClass := (Table.empty.append ⟨"", 1⟩).append ⟨"", 1⟩ }, ?_⟩
  apply exists_exec (exec_isSome _ _)
  intro e he
  exact (classes_eq binary _ e _ 1 (by decide) he).trans (by decide)

/-! ## Courses -/

/-- The table of subjects is `subjects`, and each course has the name of its own. -/
structure Labelled (subjects : Table McSubject) (d : Database) : Prop where
  same : d.mcSubject = subjects
  label : ∀ r ∈ d.mcSubTeacherRel.rows, ∃ s ∈ subjects.rows, s.id = r.val.subID ∧
    r.val.subTeacher = some (s.val.subName ++ "老师")

theorem subName_eq {n : ℤ} {s : Row McSubject} (hs : s ∈ d.mcSubject.rows) (hid : s.id = n) :
    d.subName (some n) = some s.val.subName := by
  have hmem : s ∈ d.mcSubject.select fun r => some n == some r.id :=
    List.mem_filter.mpr ⟨hs, by simp [hid]⟩
  obtain ⟨r, hr⟩ := Option.isSome_iff_exists.mp (List.getLast?_isSome.mpr (List.ne_nil_of_mem hmem))
  obtain ⟨hrows, hrid⟩ := List.mem_filter.mp (List.mem_of_getLast? hr)
  have hsame : r = s := d.mcSubject.eq_of_id hrows hs (by
    rw [hid]
    simpa using (eq_of_beq hrid).symm)
  rw [Database.subName, hr, hsame]
  rfl

/-- A variable that still has the name of the subject before goes with a row that the
foreign key refuses. -/
theorem addCourse_keeps (subjects : Table McSubject) (userIdx newCourseId : Option ℤ)
    (tmpSubject : Option String) :
    (addCourse userIdx newCourseId tmpSubject).Keeps (Labelled subjects) := by
  refine Keeps.ite (fun _ => ?_) fun _ => trivial
  refine keeps_read fun s hs => keeps_write fun d hd => ?_
  refine ⟨hd.same, fun r hr => ?_⟩
  obtain hr | ⟨-, v, hv, rfl⟩ := Table.mem_insert.mp hr
  · exact hd.label r hr
  · cases newCourseId with
    | none => simp [Database.subTeacherRow] at hv
    | some n =>
      simp only [Database.subTeacherRow, Option.bind_eq_bind, Option.bind_some] at hv
      split at hv
      · rename_i hrefers
        simp only [Bool.and_eq_true, refers, Option.all_some] at hrefers
        obtain ⟨sub, hsub, hid⟩ := Table.any_eq_true.mp hrefers.1
        have hid : sub.id = n := eq_of_beq hid
        have hname := subName_eq (d := s) (by rw [hs.same, ← hd.same]; exact hsub) hid
        simp only [Option.mem_def, Option.some.injEq] at hv
        refine ⟨sub, hd.same ▸ hsub, ?_⟩
        rw [← hv]
        exact ⟨hid, by rw [hname]; rfl⟩
      · simp at hv

theorem addCourses_keeps (subjects : Table McSubject) (userIdx : Option ℤ) (cs : List (Option ℤ))
    (tmpSubject : Option String) :
    (addCourses userIdx cs tmpSubject).Keeps (Labelled subjects) := by
  induction cs generalizing tmpSubject with
  | nil => trivial
  | cons c cs ih => exact (addCourse_keeps subjects userIdx c tmpSubject).bind ih

theorem spares_courses (b : Area) (hb : b ≠ .courses) :
    b.Spares fun d => (d.mcSubject, d.mcSubTeacherRel) := by
  cases b <;> first | contradiction | exact fun _ _ => rfl

theorem program_keeps (subjects : Table McSubject) (c : Call) :
    (program L c).Keeps (Labelled subjects) := by
  by_cases harea : c.area = some .courses
  · cases c <;> simp only [Call.area, reduceCtorEq, Option.some.injEq] at harea
    case modifyCourse x ty c1 c2 c3 c4 c5 =>
      refine Keeps.bind ?_ fun _ => trivial
      refine keeps_read fun s _ => Keeps.ite (fun _ => ?_) fun _ => trivial
      refine Keeps.bind (keeps_write fun d hd => ?_) fun _ =>
        (addCourses_keeps subjects x _ none).bind fun _ => trivial
      exact ⟨hd.same, fun r hr => hd.label r (List.mem_of_mem_filter hr)⟩
  · refine (program_other spares_courses harea).keeps fun s t hst hs => ?_
    obtain ⟨hsubjects, hrel⟩ := Prod.mk.inj hst
    exact ⟨hsubjects.trans hs.same, fun r hr => hs.label r (hrel ▸ hr)⟩

/-- However the calls of any number of sessions overlap, no course carries the name of
another subject. -/
theorem course_labels (L : Collation) (d : Database) (k : ℕ) (moves : List (Move Call k))
    (t : System Database Reply k)
    (hlabel : ∀ r ∈ d.mcSubTeacherRel.rows, ∃ s ∈ d.mcSubject.rows, s.id = r.val.subID ∧
      r.val.subTeacher = some (s.val.subName ++ "老师"))
    (h : exec (Sessions.step (program L)) (idle d .none) moves = some t) :
    ∀ r ∈ t.state.mcSubTeacherRel.rows, ∃ s ∈ d.mcSubject.rows, s.id = r.val.subID ∧
      r.val.subTeacher = some (s.val.subName ++ "老师") :=
  (keeps_invariant (C := fun _ => True) (fun c _ => program_keeps d.mcSubject c) ⟨rfl, hlabel⟩ .none
    moves (fun _ _ _ => trivial) t h).label

theorem course_labels_overlap : ∃ d t,
    exec (Sessions.step (program binary)) (idle d .none : System Database Reply 2)
      [.call 0 (.modifyCourse (some 1) (some 1) (some 1) (some 9) none none none),
        .call 1 (.modifyCourse (some 1) (some 1) (some 2) none none none none),
        .step 0, .step 1, .step 0, .step 1, .step 0, .step 1, .step 0, .step 1, .step 0,
        .step 0] = some t ∧
    ∀ r ∈ t.state.mcSubTeacherRel.rows, ∃ s ∈ d.mcSubject.rows, s.id = r.val.subID ∧
      r.val.subTeacher = some (s.val.subName ++ "老师") := by
  refine ⟨{ created with
    mcUser := Table.empty.append ⟨"", "", "", 1, none, 2, none, none, none⟩
    mcSubject := (Table.empty.append ⟨"a"⟩).append ⟨"b"⟩ }, ?_⟩
  apply exists_exec (by decide +kernel)
  intro t ht
  exact course_labels binary _ 2 _ t (by simp [created]) ht

/-- The courses of a teacher, in the order in which they were added. -/
def Database.courses (d : Database) (u : ℤ) : List ℤ :=
  (d.mcSubTeacherRel.select (ofCourses (some u))).map (·.val.subID)

/-- The wanted numbers that are those of subjects. -/
def taught (d : Database) (cs : List (Option ℤ)) : List ℤ :=
  (wanted cs).filterMap fun c => if refers d.mcSubject c then c else none

/-- What the call makes of the courses `cs` of the user. -/
def enroll (d : Database) (u : ℤ) (cs : List ℤ) : Call → List ℤ
  | .modifyCourse x ty c1 c2 c3 c4 c5 =>
    if x = some u ∧ d.mcUser.any (ofRole x ty) = true then taught d [c1, c2, c3, c4, c5] else cs
  | _ => cs

theorem addCourse_run (x c : Option ℤ) (tmp : Option String)
    (hpos : compares (· > ·) c (some 0) = true) :
    ∃ name, ((addCourse x c tmp).run d).1 =
      { d with mcSubTeacherRel := (d.mcSubTeacherRel.insert (d.subTeacherRow c x name)).1 } := by
  refine ⟨((d.subName c).map (· ++ "老师")).or tmp, ?_⟩
  simp only [addCourse, hpos, if_true, read_bind, run_stmt, id, write, run_done]

theorem courses_insert (hroom : d.mcSubTeacherRel.HasRoom) {x c : Option ℤ}
    (huser : refers d.mcUser x = true) (name : Option String) (u : ℤ) :
    Database.courses { d with
      mcSubTeacherRel := (d.mcSubTeacherRel.insert (d.subTeacherRow c x name)).1 } u =
    d.courses u ++
      if x = some u then (if refers d.mcSubject c then c else none).toList else [] := by
  rw [Database.courses, Table.select_insert, if_pos hroom, List.map_append]
  congr 1
  cases c with
  | none => simp [Database.subTeacherRow]
  | some n =>
    cases hsub : refers d.mcSubject (some n) with
    | false => simp [Database.subTeacherRow, hsub]
    | true =>
      cases x with
      | none => simp [Database.subTeacherRow, hsub, huser, ofCourses]
      | some v =>
        have hrow : d.subTeacherRow (some n) (some v) name = some ⟨n, some v, name⟩ := by
          simp [Database.subTeacherRow, hsub, huser]
        rw [hrow]
        by_cases hv : v = u <;> simp [ofCourses, hv]

theorem addCourses_run {x : Option ℤ} (cs : List (Option ℤ)) (tmp : Option String) (d : Database)
    (huser : refers d.mcUser x = true) (hroom : d.mcSubTeacherRel.seed + cs.length ≤ intMax + 1) :
    ((addCourses x cs tmp).run d).1.mcSubTeacherRel.seed ≤ d.mcSubTeacherRel.seed + cs.length ∧
    ∀ u, ((addCourses x cs tmp).run d).1.courses u =
      d.courses u ++ if x = some u then taught d cs else [] := by
  induction cs generalizing tmp d with
  | nil => simp [addCourses, taught, wanted]
  | cons c cs ih =>
    push_cast [List.length_cons] at hroom ⊢
    rw [addCourses, run_bind]
    by_cases hpos : compares (· > ·) c (some 0) = true
    · obtain ⟨name, hrun⟩ := addCourse_run (d := d) x c tmp hpos
      have hseed := Table.seed_insert_le (t := d.mcSubTeacherRel) (d.subTeacherRow c x name)
      rw [hrun]
      obtain ⟨hle, hcourses⟩ := ih ((addCourse x c tmp).run d).2
        { d with mcSubTeacherRel := (d.mcSubTeacherRel.insert (d.subTeacherRow c x name)).1 } huser
        (by simp only; omega)
      refine ⟨by simp only at hle; omega, fun u => ?_⟩
      have htaught : taught d (c :: cs) =
          (if refers d.mcSubject c then c else none).toList ++ taught d cs := by
        rw [taught, wanted_cons_of_pos hpos, List.filterMap_cons]
        cases (if refers d.mcSubject c then c else none) <;> rfl
      rw [hcourses, courses_insert (by unfold Table.HasRoom; omega) huser, htaught,
        List.append_assoc]
      congr 1
      split <;> rfl
    · have hskip : ((addCourse x c tmp).run d).1 = d := by simp [addCourse, hpos]
      have htaught : taught d (c :: cs) = taught d cs := by
        rw [taught, wanted_cons_of_neg hpos]
        rfl
      obtain ⟨hle, hcourses⟩ := ih ((addCourse x c tmp).run d).2 d huser (by omega)
      rw [hskip, htaught]
      exact ⟨by omega, hcourses⟩

theorem courses_delete (x : Option ℤ) (u : ℤ) :
    Database.courses { d with mcSubTeacherRel := d.mcSubTeacherRel.delete (ofCourses x) } u =
      if x = some u then [] else d.courses u := by
  rw [Database.courses, Table.select_delete]
  by_cases hx : x = some u
  · subst hx
    simp
  · rw [if_neg hx, Database.courses, Table.select]
    congr 1
    refine List.filter_congr fun r _ => ?_
    cases hr : ofCourses (some u) r with
    | false => rfl
    | true =>
      have hother : ofCourses x r = false := compares_of_ne (Ne.symm hx) hr
      simp [hother]

theorem gpModifyCourse_run (hroom : d.mcSubTeacherRel.seed + 5 ≤ intMax + 1)
    (x ty c1 c2 c3 c4 c5 : Option ℤ) :
    ((gpModifyCourse x ty c1 c2 c3 c4 c5).run d).1.mcSubTeacherRel.seed ≤
      d.mcSubTeacherRel.seed + 5 ∧
    ∀ u, ((gpModifyCourse x ty c1 c2 c3 c4 c5).run d).1.courses u =
      enroll d u (d.courses u) (.modifyCourse x ty c1 c2 c3 c4 c5) := by
  simp only [gpModifyCourse, read_bind, run_stmt, id]
  cases hrole : d.mcUser.any (ofRole x ty) with
  | false => simp [enroll, hrole]
  | true =>
    obtain ⟨hle, hcourses⟩ := addCourses_run [c1, c2, c3, c4, c5] none
      { d with mcSubTeacherRel := d.mcSubTeacherRel.delete (ofCourses x) } (refers_of_role hrole)
      (by simpa using hroom)
    simp only [if_true, write_bind, run_stmt, run_bind, pure_eq, run_done]
    refine ⟨by simpa using hle, fun u => ?_⟩
    rw [hcourses, courses_delete, enroll]
    by_cases hx : x = some u
    · rw [if_pos hx, if_pos hx, if_pos ⟨hx, hrole⟩, List.nil_append]
      rfl
    · rw [if_neg hx, if_neg hx, if_neg fun h => hx h.1, List.append_nil]

theorem courses_step (hroom : d.mcSubTeacherRel.seed + 5 ≤ intMax + 1) {c : Call}
    (h : step L d c = some e) : e.mcSubTeacherRel.seed ≤ d.mcSubTeacherRel.seed + 5 ∧
      ∀ u, e.courses u = enroll d u (d.courses u) c := by
  by_cases harea : c.area = some .courses
  · obtain rfl : ((program L c).run d).1 = e := by simpa [step] using h
    cases c <;> simp only [Call.area, reduceCtorEq, Option.some.injEq] at harea
    case modifyCourse =>
      simp only [program, run_bind, pure_eq, run_done]
      exact gpModifyCourse_run hroom _ _ _ _ _ _ _
  · have hsame : e.mcSubTeacherRel = d.mcSubTeacherRel :=
      step_other (fun b hb => by cases b <;> first | contradiction | exact fun _ _ => rfl) harea h
    have hnone : ∀ u, enroll d u (d.courses u) c = d.courses u := by
      intro u
      cases c <;> first | exact absurd rfl harea | rfl
    refine ⟨by rw [hsame]; omega, fun u => ?_⟩
    rw [hnone, Database.courses, hsame]
    rfl

theorem enroll_congr (h : SameStaff d e) (u : ℤ) (cs : List ℤ) (c : Call) :
    enroll e u cs c = enroll d u cs c := by
  cases c <;> simp only [enroll, taught, h.role, h.subjects]

/-- After any run of calls a teacher has the courses of the last `GP_ModifyCourse` for
him, without those that are no subject. -/
theorem courses_eq (L : Collation) (d e : Database) (calls : List Call) (u : ℤ)
    (hroom : d.mcSubTeacherRel.seed + 5 * calls.length ≤ intMax + 1)
    (h : exec (step L) d calls = some e) :
    (e.mcSubTeacherRel.select (ofCourses (some u))).map (·.val.subID) =
      calls.foldl (enroll d u)
        ((d.mcSubTeacherRel.select (ofCourses (some u))).map (·.val.subID)) := by
  have hrun : ∀ (cs : List Call) (m : Database), SameStaff d m →
      m.mcSubTeacherRel.seed + 5 * cs.length ≤ intMax + 1 → exec (step L) m cs = some e →
      e.courses u = cs.foldl (enroll d u) (m.courses u) := by
    intro cs
    induction cs with
    | nil =>
      intro m _ _ h
      cases h
      rfl
    | cons c cs ih =>
      intro m hsame hroom h
      obtain ⟨n, hn, h⟩ := exec_cons_eq_some.mp h
      push_cast [List.length_cons] at hroom
      obtain ⟨hseed, hcourses⟩ := courses_step (by omega) hn
      rw [ih n (hsame.trans (sameStaff_step hn)) (by omega) h, hcourses, enroll_congr hsame]
      rfl
  exact hrun calls d (.refl d) hroom h

theorem courses_eq_unknown : ∃ d e,
    exec (step binary) d [.modifyCourse (some 1) (some 1) (some 1) (some 9) none none (some 1)] =
      some e ∧
    (e.mcSubTeacherRel.select (ofCourses (some 1))).map (·.val.subID) = [1, 1] := by
  refine ⟨{ created with
    mcUser := Table.empty.append ⟨"", "", "", 1, none, 2, none, none, none⟩
    mcSubject := Table.empty.append ⟨"a"⟩ }, ?_⟩
  apply exists_exec (exec_isSome _ _)
  intro e he
  exact (courses_eq binary _ e _ 1 (by decide) he).trans (by decide)

end Xiaoxin.Sql
