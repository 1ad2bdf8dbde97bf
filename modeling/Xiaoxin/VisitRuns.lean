import Xiaoxin.Procedures

/-!
# Visits and messages while sessions run

The table of the visits is one that no call adds to, and a poll for new messages
reads the largest number and the messages in two statements.
-/
namespace Xiaoxin.Sql
open Relational Sessions Prog Transition

variable {L : Collation} {d : Database} {k : ℕ}

/-! ## Visits -/

/-- For each row its key, its user and the day of his last visit. -/
def visitDays (rows : List McCountOnlineUsers) : List (ℤ × ℤ × Option ℤ) :=
  rows.map fun r => (r.countOnlineUsers, r.userIdx, r.lastOnlineTime.map day)

def visitors (rows : List McCountOnlineUsers) : List (ℤ × ℤ) :=
  rows.map fun r => (r.countOnlineUsers, r.userIdx)

/-- `GETDATE` does not pass midnight between the comparison and the update. -/
def SameDay : Call → Prop
  | .countOnlineUsers _ now now' => day now = day now'
  | .chatVerify _ _ _ now now' => day now = day now'
  | _ => True

/-- The insert leaves the key out and fails. -/
theorem secondDayInsert_leaves {τ : Type} (π : Database → τ) (userIdx : Option ℤ) (now : ℤ) :
    (secondDayInsert userIdx now).Leaves π := by
  simp [secondDayInsert, insertVisitor]

theorem gpCountOnlineUsers_keeps {I : Database → Prop} (userIdx : Option ℤ) (now now' : ℤ)
    (h : ∀ s v, I s → v ∈ s.mcCountOnlineUsers → ofVisitor userIdx v = true →
      v.lastOnlineTime.map day = some (day now) → ∀ d n, I d → I { d with
        mcCountOnlineUsers := d.mcCountOnlineUsers.map fun r =>
          if ofVisitor userIdx r then { r with onlineCount := n, lastOnlineTime := some now' }
          else r }) :
    (gpCountOnlineUsers userIdx now now').Keeps I := by
  have hsecond : (secondDayInsert userIdx now').Keeps I :=
    (secondDayInsert_leaves (fun d => d) userIdx now').keeps fun s t hst hs => by rwa [hst]
  refine keeps_read fun s hs => Keeps.ite (fun _ => hsecond) fun _ => ?_
  refine Keeps.ite (fun hday => ?_) fun _ => hsecond
  obtain ⟨x, hx, hnow⟩ := compares_beq.mp hday
  cases hv : (s.mcCountOnlineUsers.filter (ofVisitor userIdx)).getLast? with
  | none => simp [hv] at hx
  | some v =>
    obtain ⟨hmem, hof⟩ := List.mem_filter.mp (List.mem_of_getLast? hv)
    have hlast : v.lastOnlineTime.map day = some (day now) := by
      rw [hv, Option.bind_some] at hx
      rw [hx, hnow]
    refine keeps_write fun d hd => ?_
    cases addOne ((some v).map (·.onlineCount) |>.getD (some 0)) with
    | none => exact hd
    | some n => exact h s v hs hmem hof hlast d n hd

/-- A user whose rows are his own keeps the day of his last visit. -/
theorem visitDays_update {s d : Database} {v : McCountOnlineUsers} {userIdx n : Option ℤ}
    {now now' : ℤ} (hday : day now = day now')
    (hsame : visitDays d.mcCountOnlineUsers = visitDays s.mcCountOnlineUsers)
    (hunique : (s.mcCountOnlineUsers.map (·.userIdx)).Nodup) (hv : v ∈ s.mcCountOnlineUsers)
    (hof : ofVisitor userIdx v = true) (hlast : v.lastOnlineTime.map day = some (day now)) :
    visitDays (d.mcCountOnlineUsers.map fun r =>
      if ofVisitor userIdx r then { r with onlineCount := n, lastOnlineTime := some now' } else r) =
        visitDays d.mcCountOnlineUsers := by
  simp only [visitDays, List.map_map]
  refine List.map_congr_left fun r hr => ?_
  by_cases hr' : ofVisitor userIdx r = true
  · have huser : r.userIdx = v.userIdx := by
      have h₁ : userIdx = some r.userIdx := eq_of_beq hr'
      have h₂ : userIdx = some v.userIdx := eq_of_beq hof
      exact Option.some.inj (h₁.symm.trans h₂)
    -- in `s` there is only one row for this user
    have hmem : (r.countOnlineUsers, r.userIdx, r.lastOnlineTime.map day) ∈
        visitDays s.mcCountOnlineUsers := hsame ▸ List.mem_map.mpr ⟨r, hr, rfl⟩
    obtain ⟨w, hw, hwr⟩ := List.mem_map.mp hmem
    simp only [Prod.mk.injEq] at hwr
    obtain rfl : w = v := List.inj_on_of_nodup_map hunique hw hv (hwr.2.1.trans huser)
    simp [hr', ← hwr.2.2, hlast, hday]
  · simp [hr']

theorem gpChatVerify_keeps {I : Database → Prop} (userIdx userType : Option ℤ) (tel : Option String)
    (now now' : ℤ) (h : (gpCountOnlineUsers userIdx now now').Keeps I) :
    (gpChatVerify L userIdx userType tel now now').Keeps I := by
  refine keeps_read fun _ _ => Keeps.ite (fun _ => ?_) fun _ => trivial
  refine Keeps.ite (fun _ => keeps_read fun _ _ => h.bind fun _ => trivial) fun _ => ?_
  exact Keeps.ite (fun _ => keeps_read fun _ _ => h.bind fun _ => trivial) fun _ => trivial

theorem spares_mcCountOnlineUsers (b : Area) (hb : b ≠ .visits) :
    b.Spares Database.mcCountOnlineUsers := by
  cases b <;> first | contradiction | exact fun _ _ => rfl

/-- What a counted visit keeps. -/
theorem program_visits {I : Database → Prop}
    (hI : ∀ s t : Database, t.mcCountOnlineUsers = s.mcCountOnlineUsers → I s → I t) (c : Call)
    (h : ∀ u now now', (SameDay c → day now = day now') → (gpCountOnlineUsers u now now').Keeps I) :
    (program L c).Keeps I := by
  by_cases harea : c.area = some .visits
  · cases c <;> simp only [Call.area, reduceCtorEq, Option.some.injEq] at harea
    case countOnlineUsers u now now' =>
      exact (h u now now' fun hday => hday).bind fun _ => trivial
    case chatVerify u ty tel now now' =>
      exact (gpChatVerify_keeps u ty tel now now' (h u now now' fun hday => hday)).bind
        fun _ => trivial
  · exact (program_other spares_mcCountOnlineUsers harea).keeps hI

theorem program_visitors (rows : List (ℤ × ℤ)) (c : Call) :
    (program L c).Keeps fun d => visitors d.mcCountOnlineUsers = rows := by
  refine program_visits (fun s t hst hs => by rwa [hst]) c fun u now now' _ => ?_
  refine gpCountOnlineUsers_keeps u now now' fun s v _ _ _ _ d n hd => ?_
  rw [← hd, visitors, visitors, List.map_map]
  refine List.map_congr_left fun r _ => ?_
  simp only [Function.comp_apply]
  split <;> rfl

theorem program_visitDays {rows : List (ℤ × ℤ × Option ℤ)} (hunique : (rows.map (·.2.1)).Nodup)
    (c : Call) (hday : SameDay c) :
    (program L c).Keeps fun d => visitDays d.mcCountOnlineUsers = rows := by
  refine program_visits (fun s t hst hs => by rwa [hst]) c fun u now now' hsame => ?_
  refine gpCountOnlineUsers_keeps u now now' fun s v hs hv hof hlast d n hd => ?_
  refine (visitDays_update (hsame hday) (hd.trans hs.symm) ?_ hv hof hlast).trans hd
  rw [← hs, visitDays, List.map_map] at hunique
  exact hunique

/-- Nobody is ever added to the visitors, however the calls overlap, and as long as none
of them runs into midnight each of the visitors keeps the day of his last visit: what
he does on another day is not counted. -/
theorem visits_frozen (L : Collation) (d : Database) (k : ℕ) (moves : List (Move Call k))
    (t : System Database Reply k)
    (h : exec (Sessions.step (program L)) (idle d .none) moves = some t) :
    visitors t.state.mcCountOnlineUsers = visitors d.mcCountOnlineUsers ∧
    ((d.mcCountOnlineUsers.map (·.userIdx)).Nodup →
      (∀ i c, Move.call i c ∈ moves → SameDay c) →
        visitDays t.state.mcCountOnlineUsers = visitDays d.mcCountOnlineUsers) := by
  constructor
  · exact keeps_invariant (C := fun _ => True)
      (fun c _ => program_visitors (visitors d.mcCountOnlineUsers) c) rfl .none moves
      (fun _ _ _ => trivial) t h
  · intro hunique hmoves
    refine keeps_invariant (fun c hc => program_visitDays ?_ c hc) rfl .none moves hmoves t h
    rwa [visitDays, List.map_map]

theorem visits_frozen_overlap : ∃ d t,
    exec (Sessions.step (program binary)) (idle d .none : System Database Reply 2)
      [.call 0 (.countOnlineUsers (some 1) 5 6), .call 1 (.countOnlineUsers (some 1) 7 8),
        .step 0, .step 1, .step 0, .step 1, .call 0 (.countOnlineUsers (some 1) 100000 100000),
        .step 0, .step 0] = some t ∧
    visitDays t.state.mcCountOnlineUsers = [(1, 1, some 0)] := by
  refine ⟨{ created with mcCountOnlineUsers := [⟨1, 1, some 0, some 1⟩] }, ?_⟩
  apply exists_exec (by decide +kernel)
  intro t ht
  exact (visits_frozen binary _ 2 _ t ht).2 (by decide) (by
    intro i c hc
    simp only [List.mem_cons, Move.call.injEq, reduceCtorEq, false_or, or_false,
      List.not_mem_nil] at hc
    rcases hc with ⟨-, rfl⟩ | ⟨-, rfl⟩ | ⟨-, rfl⟩ <;> rfl)

/-! ## New messages -/

/-- What the second statement of a poll returns after the first has met the largest
number `n`. -/
theorem checkClassTrends_reads {m n : ℤ}
    (hlargest : ((d.mcMessage.select published).map Row.id).max? = some n) (hmn : m < n)
    (hint : IsInt (n - m)) :
    ∃ next, program L (.checkClassTrends (some m)) = stmt id next ∧ next d = stmt id fun e =>
      done (.trends 0 ((e.mcMessage.select published).reverse.take (n - m).toNat)) := by
  simp only [program, gpCheckClassTrends, read_bind, stmt_bind]
  refine ⟨_, rfl, ?_⟩
  have hne : ¬ n = m := by omega
  have hpos : ¬ n - m < 0 := by omega
  simp [hlargest, hne, hpos, difference, hint, topRows]

theorem step_stmt {program : Call → Procedure Reply} {s t : System Database Reply k} {i : Fin k}
    {f : Database → Database} {next : Database → Procedure Reply} (hi : s.progs i = stmt f next)
    (h : Sessions.step program s (.step i) = some t) :
    t.state = f s.state ∧ t.progs i = next s.state := by
  simp only [Sessions.step, hi, Option.some.injEq] at h
  subst h
  simp

/-- A session that polls for messages newer than `m` misses none of those that there are
in the end exactly if they are no more than the numbers that were new to it when it
read the largest one. With no other session in between it misses none. -/
theorem trends_poll (L : Collation) (s t : System Database Reply k) (i : Fin k) (m n : ℤ)
    (others : List (Move Call k)) (hi : s.progs i = program L (.checkClassTrends (some m)))
    (hlargest : ((s.state.mcMessage.select published).map Row.id).max? = some n) (hmn : m < n)
    (hint : IsInt (n - m)) (hothers : ∀ mv ∈ others, mv.session ≠ i)
    (h : exec (Sessions.step (program L)) s (.step i :: others ++ [.step i]) = some t) :
    ∃ rows, t.progs i = .done (.trends 0 rows) ∧
      ((∀ r ∈ t.state.mcMessage.rows, published r = true → m < r.id → r ∈ rows) ↔
        (t.state.mcMessage.count fun r => published r && decide (m < r.id)) ≤ (n - m).toNat) ∧
      (others = [] → ∀ r ∈ t.state.mcMessage.rows, published r = true → m < r.id → r ∈ rows) := by
  obtain ⟨next, hprogram, hnext⟩ := checkClassTrends_reads (L := L) hlargest hmn hint
  rw [hprogram] at hi
  rw [exec_append, exec_cons] at h
  obtain ⟨v, hv, hlast⟩ := Option.bind_eq_some_iff.mp h
  obtain ⟨u, hu, hmid⟩ := Option.bind_eq_some_iff.mp hv
  obtain ⟨hustate, huprog⟩ := step_stmt hi hu
  rw [hnext] at huprog
  have hvprog := (exec_others hothers hmid).trans huprog
  obtain ⟨w, hw, hwt⟩ := exec_cons_eq_some.mp hlast
  cases hwt
  obtain ⟨hstate, hprog⟩ := step_stmt hvprog hw
  have hiff := Table.newest_iff (t := t.state.mcMessage) (p := published) m (n - m).toNat
  rw [hstate] at hiff ⊢
  refine ⟨_, hprog, hiff, ?_⟩
  rintro rfl
  obtain rfl : u = v := by simpa using hmid
  -- no number is larger than `n`
  have hmax : ∀ r ∈ u.state.mcMessage.rows, published r = true → r.id ≤ n := fun r hr hp => by
    rw [hustate] at hr
    exact (List.max?_eq_some_iff.mp hlargest).2 r.id
      (List.mem_map.mpr ⟨r, List.mem_filter.mpr ⟨hr, hp⟩, rfl⟩)
  refine hiff.mpr ?_
  have := Table.count_le_of_between (t := u.state.mcMessage)
    (p := fun r => published r && decide (m < r.id)) hmn.le fun r hr hp => by
      simp only [Bool.and_eq_true, decide_eq_true_eq] at hp
      exact ⟨hp.2, hmax r hr hp.1⟩
  simp only [id]
  omega

theorem trends_poll_late : ∃ (s t : System Database Reply 2),
    s.progs 0 = program binary (.checkClassTrends (some 0)) ∧
    exec (Sessions.step (program binary)) s (.step 0 ::
      [.call 1 (.userInsertClasstrend (some 1) (some 2) (some "") none (some "") 0),
        .step 1, .step 1] ++ [.step 0]) = some t ∧
    ∃ rows, t.progs 0 = .done (.trends 0 rows) ∧
      ((∀ r ∈ t.state.mcMessage.rows, published r = true → 0 < r.id → r ∈ rows) ↔
        (t.state.mcMessage.count fun r => published r && decide (0 < r.id)) ≤ 1) := by
  let s : System Database Reply 2 := ⟨{ created with
    mcUser := Table.empty.append ⟨"", "", "", 1, none, 2, none, none, none⟩
    mcMessage := Table.empty.append ⟨2, 1, "", none, "", none, 2, 1, 0⟩ },
    fun i => if i = 0 then program binary (.checkClassTrends (some 0)) else .done .none⟩
  refine ⟨s, _, rfl, rfl, ?_⟩
  obtain ⟨rows, hrows, hiff, -⟩ := trends_poll binary s _ 0 0 1
    [.call 1 (.userInsertClasstrend (some 1) (some 2) (some "") none (some "") 0), .step 1, .step 1]
    rfl (by decide) (by decide) (by decide) (by decide) rfl
  exact ⟨rows, hrows, hiff⟩

end Xiaoxin.Sql
