import Xiaoxin.ChatRuns

/-!
# Calls that overlap

The procedures hold no lock from one statement to the next. A limit that a
procedure tests before it inserts can therefore be passed when several sessions
run at once, by less than their number. Where the insert comes after the test in
every session, the limit is passed by exactly that much.
-/
namespace Xiaoxin.Sql
open Relational Sessions Prog Transition

variable {L : Collation} {d : Database} {k : ℕ}

/-! ## Offline messages -/

def waiting (u : ℤ) (d : Database) : ℕ := d.mcOfflineMes.count (forUser (some u))

theorem insertOffline_guarded (u : ℤ) (receiverIdx : Option ℤ) (row : Option McOfflineMes)
    (hrow : ∀ m ∈ row, m.acceptUid = receiverIdx) :
    (insertOffline receiverIdx row).Guarded (waiting u) 499 false := by
  refine guarded_test fun d => ?_
  by_cases hr : receiverIdx = some u
  · by_cases hfull : maxOffline ≤ d.mcOfflineMes.count (forUser receiverIdx)
    · simp [hfull]
    · refine Or.inr ⟨?_, ?_⟩
      · rw [hr] at hfull
        unfold waiting maxOffline at *
        omega
      · rw [if_neg hfull]
        exact guarded_add fun s => Table.count_insert_le row
  · refine Or.inl (Guarded.ite (fun _ => guarded_done _) fun _ => guarded_write fun s => ?_)
    refine (Table.count_insert_of_not fun m hm => ?_).le
    rw [forUser, hrow m hm]
    cases receiverIdx with
    | none => rfl
    | some r =>
      have hne : r ≠ u := fun h => hr (by rw [h])
      simpa using hne

theorem program_waiting (u : ℤ) (c : Call) : (program L c).Guarded (waiting u) 499 false := by
  by_cases harea : c.area = some .offline
  · cases c <;> simp only [Call.area, reduceCtorEq, Option.some.injEq] at harea
    case insertOffLineMessage =>
      exact (insertOffline_guarded u _ _ (by simp)).bind fun _ => guarded_done _
    case insertOffLineMessagenew =>
      exact (insertOffline_guarded u _ _ (by simp)).bind fun _ => guarded_done _
    case delOffLineMsg x =>
      exact (guarded_write fun s => Table.count_delete_le).bind fun _ => guarded_done _
  · have hother := program_other (L := L) spares_mcOfflineMes harea
    exact (hother.comp fun t => t.count (forUser (some u))).guarded

/-- `k` sessions that all stand before the same insert. -/
theorem iterate_table {ρ : Type} {π : Database → Table ρ} {f : Database → Database} {v : ρ}
    (hf : ∀ d, π (f d) = ((π d).insert (some v)).1) (n : ℕ) :
    π (f^[n] d) = (fun t : Table ρ => (t.insert (some v)).1)^[n] (π d) := by
  have hsemi : Function.Semiconj π f fun t : Table ρ => (t.insert (some v)).1 := hf
  exact hsemi.iterate_right n d

theorem insertOffLineMessage_reads (u m now : ℤ) (h : waiting u d = 499) :
    ∃ (f : Database → Database) (next : Database → Procedure Reply),
      (program L (.insertOffLineMessage none (some u) (some m) none none none none now)).Reads d 1
        (stmt f next) ∧
      ∀ d, (f d).mcOfflineMes = (d.mcOfflineMes.insert
        (some ⟨m, none, some u, none, none, none, none, none, now⟩)).1 := by
  refine ⟨fun d => { d with mcOfflineMes := (d.mcOfflineMes.insert
    (some ⟨m, none, some u, none, none, none, none, none, now⟩)).1 }, fun _ => done (.ret 0),
    ?_, fun d => rfl⟩
  have hfree : ¬ maxOffline ≤ d.mcOfflineMes.count (forUser (some u)) := by
    unfold waiting at h
    unfold maxOffline
    omega
  simp only [program, gpInsertOffLineMessage, insertOffline, read_bind, stmt_bind]
  refine Reads.succ rfl ?_
  rw [if_neg hfree]
  exact Reads.zero _

/-- While `k` sessions call whatever procedures they like, statement by statement in
any order, no user has more than 499 + `k` messages waiting, and there is an order in
which he comes to have as many. -/
theorem waiting_le (L : Collation) (d : Database) (k : ℕ) (u : ℤ) :
    (∀ (moves : List (Move Call k)) (t : System Database Reply k),
      exec (Sessions.step (program L)) (idle d .none) moves = some t →
        t.state.mcOfflineMes.count (forUser (some u)) ≤
          max (d.mcOfflineMes.count (forUser (some u))) (499 + k)) ∧
    (d.mcOfflineMes.count (forUser (some u)) = 499 → d.mcOfflineMes.seed + k ≤ intMax + 1 →
      ∃ (moves : List (Move Call k)) (t : System Database Reply k),
        exec (Sessions.step (program L)) (idle d .none) moves = some t ∧
        t.state.mcOfflineMes.count (forUser (some u)) = 499 + k) := by
  refine ⟨bounded (program_waiting u) d .none, fun hfull hroom => ?_⟩
  obtain ⟨f, next, hreads, hf⟩ := insertOffLineMessage_reads (L := L) u 2 0 hfull
  obtain ⟨moves, t, ht, hstate⟩ := attains hreads .none k
  refine ⟨moves, t, ht, ?_⟩
  rw [hstate, iterate_table hf, Table.count_iterate_insert (by simp [forUser]) k hroom, hfull]

theorem waiting_le_full : ∃ d : Database, d.mcOfflineMes.count (forUser (some 1)) = 499 ∧
    ∃ (moves : List (Move Call 2)) (t : System Database Reply 2),
      exec (Sessions.step (program binary)) (idle d .none) moves = some t ∧
      t.state.mcOfflineMes.count (forUser (some 1)) = 501 := by
  obtain ⟨box, hcount, hseed⟩ : ∃ box : Table McOfflineMes,
      box.count (forUser (some 1)) = 499 ∧ box.seed = 500 := by
    refine ⟨(fun t : Table McOfflineMes =>
      (t.insert (some ⟨2, none, some 1, none, none, none, none, none, 0⟩)).1)^[499] .empty, ?_, ?_⟩
    · rw [Table.count_iterate_insert (by simp [forUser]) 499 (by decide), Table.count_empty]
    · rw [Table.seed_iterate_insert _ 499 (by decide)]
      rfl
  exact ⟨{ created with mcOfflineMes := box }, hcount,
    (waiting_le binary { created with mcOfflineMes := box } 2 1).2 hcount (by
      simp only [hseed]
      decide)⟩

/-! ## Channels -/

def registrations (s c : ℤ) (d : Database) : ℕ := d.tbChannel.count (ofChannel (some s) (some c))

theorem registrations_eq_zero {s c : ℤ} (h : d.hasChannel (some s) (some c) = false) :
    registrations s c d = 0 :=
  Table.count_eq_zero.mpr h

/-- The insert counts for the channel it is for, and only after a test. -/
theorem insertChannel_guarded (s c : ℤ) {reply : ChannelCheck} {serverNum : Option ℤ}
    (inetNum : Option String) (ipv4 port : Option ℤ) {b : Bool}
    (hb : serverNum = some s ∧ reply.channelNum = some c → b = true) :
    (insertChannel reply serverNum inetNum ipv4 port).Guarded (registrations s c) 0 b := by
  refine Guarded.bind ?_ fun _ => guarded_done _
  by_cases hsame : serverNum = some s ∧ reply.channelNum = some c
  · obtain rfl := hb hsame
    exact guarded_add fun d => Table.count_insert_le _
  · refine guarded_write fun d => (Table.count_insert_of_not fun r hr => ?_).le
    obtain ⟨hs, hc⟩ := channelRow_eq_some hr
    rw [Bool.eq_false_iff]
    intro h
    obtain ⟨rfl, rfl⟩ : s = r.serverNum ∧ c = r.channelNum := by simpa [ofChannel] using h
    exact hsame ⟨hs, hc⟩

theorem gpChannelCheck_guarded (L : Collation) (s c : ℤ) (serverNum : Option ℤ)
    (serverName serverDesc : Option String) (channelNum : Option ℤ) (inetNum : Option String)
    (ipv4 port : Option ℤ) :
    (gpChannelCheck L serverNum serverName serverDesc channelNum inetNum ipv4 port).Guarded
      (registrations s c) 0 false := by
  refine guarded_read fun d => ?_
  cases (d.tbServer.select fun r => serverNum == some r.id).head? with
  | none => exact guarded_done _
  | some r =>
    refine Guarded.ite (fun _ => ?_) fun hzero => ?_
    · refine guarded_test fun d => ?_
      by_cases hsame : serverNum = some s ∧ channelNum = some c
      · obtain ⟨rfl, rfl⟩ := hsame
        cases hused : d.hasChannel (some s) (some c) with
        | true => exact Or.inl (guarded_done _)
        | false =>
          refine Or.inr ⟨(registrations_eq_zero hused).le, ?_⟩
          exact insertChannel_guarded s c inetNum ipv4 port fun _ => rfl
      · refine Or.inl (Guarded.ite (fun _ => guarded_done _) fun _ => ?_)
        exact insertChannel_guarded s c inetNum ipv4 port fun h => absurd h hsame
    · refine guarded_test fun d => ?_
      by_cases hsame : serverNum = some s ∧ (d.freeChannel serverNum).or channelNum = some c
      · obtain ⟨rfl, hc⟩ := hsame
        cases hfree : d.freeChannel (some s) with
        | none =>
          -- the caller's channel is 0
          rw [hfree, Option.none_or] at hc
          subst hc
          have hc : c = 0 := by simpa using hzero
          subst hc
          exact Or.inl (guarded_done _)
        | some c' =>
          rw [hfree, Option.some_or, Option.some.injEq] at hc
          subst hc
          have hnot := (freeChannel_eq_some.mp hfree).1.2
          refine Or.inr ⟨(registrations_eq_zero hnot).le, ?_⟩
          refine Guarded.ite (fun _ => guarded_done _) fun _ => ?_
          exact insertChannel_guarded s c' inetNum ipv4 port fun _ => rfl
      · refine Or.inl (Guarded.ite (fun _ => guarded_done _) fun _ => ?_)
        exact insertChannel_guarded s c inetNum ipv4 port fun h => absurd h hsame

theorem program_registrations (s c : ℤ) (call : Call) :
    (program L call).Guarded (registrations s c) 0 false := by
  by_cases harea : call.area = some .channels
  · cases call <;> simp only [Call.area, reduceCtorEq, Option.some.injEq] at harea
    case channelCheck =>
      exact (gpChannelCheck_guarded L s c _ _ _ _ _ _ _).bind fun _ => guarded_done _
    case channelUpdate x y st =>
      refine (guarded_write fun d => ?_).bind fun _ => guarded_done _
      cases st with
      | none => exact le_refl _
      | some st => exact (Table.count_update fun r _ => rfl).le
    case serverDown =>
      exact (guarded_write fun d => Table.count_delete_le).bind fun _ => guarded_done _
  · exact ((program_other spares_tbChannel harea).comp
      fun t => t.count (ofChannel (some s) (some c))).guarded

theorem channelCheck_reads (s c port : ℤ) (inetNum : String)
    (hs : d.tbServer.any (·.id == s) = true) (hc : c ≠ 0) (hfree : registrations s c d = 0) :
    ∃ (f : Database → Database) (next : Database → Procedure Reply),
      (program L (.channelCheck (some s) none none (some c) (some inetNum) none (some port))).Reads
        d 2 (stmt f next) ∧
      ∀ d, (f d).tbChannel = (d.tbChannel.insert (some ⟨s, c, inetNum, none, port, 0⟩)).1 := by
  obtain ⟨r, hr⟩ : ∃ r, (d.tbServer.select fun r => some s == some r.id).head? = some r := by
    obtain ⟨r, hr, hid⟩ := Table.any_eq_true.mp hs
    refine Option.isSome_iff_exists.mp (List.isSome_head?.mpr (List.ne_nil_of_mem (a := r) ?_))
    exact List.mem_filter.mpr ⟨hr, by simp [eq_of_beq hid]⟩
  have hnot : d.hasChannel (some s) (some c) = false := Table.count_eq_zero.mp hfree
  refine ⟨fun d => { d with tbChannel :=
    (d.tbChannel.insert (some ⟨s, c, inetNum, none, port, 0⟩)).1 },
    fun d => done (.channel ⟨some (L.varchar 50 r.val.name),
      r.val.description.map (L.varchar 200), some c,
      if (d.tbChannel.insert (some ⟨s, c, inetNum, none, port, 0⟩)).2 then 0 else 4⟩), ?_,
    fun d => rfl⟩
  simp only [program, gpChannelCheck, read_bind, stmt_bind]
  refine Reads.succ rfl ?_
  rw [hr]
  have hne : compares (· != ·) (some c) (some 0) = true := by simpa using hc
  simp only [hne, if_true, stmt_bind]
  refine Reads.succ rfl ?_
  rw [hnot]
  exact Reads.zero _

/-- No channel of a server is registered more often than there are sessions, and
that many game servers can register the same channel, all with success. -/
theorem registrations_le (L : Collation) (d : Database) (k : ℕ) (s c : ℤ) :
    (∀ (moves : List (Move Call k)) (t : System Database Reply k),
      exec (Sessions.step (program L)) (idle d .none) moves = some t →
        t.state.tbChannel.count (ofChannel (some s) (some c)) ≤
          max (d.tbChannel.count (ofChannel (some s) (some c))) k) ∧
    (d.tbServer.any (·.id == s) = true → c ≠ 0 →
      d.tbChannel.count (ofChannel (some s) (some c)) = 0 → d.tbChannel.seed + k ≤ intMax + 1 →
      ∃ (moves : List (Move Call k)) (t : System Database Reply k),
        exec (Sessions.step (program L)) (idle d .none) moves = some t ∧
        t.state.tbChannel.count (ofChannel (some s) (some c)) = k) := by
  refine ⟨fun moves t h => ?_, fun hs hc hfree hroom => ?_⟩
  · have := bounded (program_registrations s c) d .none moves t h
    rwa [Nat.zero_add] at this
  · obtain ⟨f, next, hreads, hf⟩ := channelCheck_reads (L := L) s c 0 "" hs hc hfree
    obtain ⟨moves, t, ht, hstate⟩ := attains hreads .none k
    refine ⟨moves, t, ht, ?_⟩
    rw [hstate, iterate_table hf, Table.count_iterate_insert (by simp [ofChannel]) k hroom, hfree]
    omega

theorem registrations_le_created : ∃ d : Database, d.tbChannel.rows = [] ∧
    ∃ (moves : List (Move Call 2)) (t : System Database Reply 2),
      exec (Sessions.step (program binary)) (idle d .none) moves = some t ∧
      t.state.tbChannel.count (ofChannel (some 1) (some 3)) = 2 := by
  refine ⟨{ created with tbServer := Table.empty.append ⟨"", none, 0, 0, "", 0⟩ }, rfl, ?_⟩
  exact (registrations_le binary _ 2 1 3).2 (by decide) (by decide) (by decide) (by decide)

/-! ## Logins -/

def loggedIn (u : ℤ) (d : Database) : ℕ := d.tbLogin.count (ofCharacter (some u))

theorem loginRow_eq_some {userIdx : Option ℤ} {ip : Option String} {r : TbLogin}
    (h : loginRow userIdx ip = some r) : userIdx = some r.characterIdx := by
  cases userIdx <;> cases ip <;> simp [loginRow] at h ⊢
  subst h
  rfl

theorem insertLogin_guarded (u : ℤ) {userIdx : Option ℤ} (ip : Option String) {b : Bool}
    (hb : userIdx = some u → b = true) : (insertLogin userIdx ip).Guarded (loggedIn u) 0 b := by
  by_cases hsame : userIdx = some u
  · obtain rfl := hb hsame
    exact guarded_add fun d => Table.count_insert_le _
  · refine guarded_write fun d => (Table.count_insert_of_not fun r hr => ?_).le
    rw [Bool.eq_false_iff]
    intro h
    obtain rfl : u = r.characterIdx := by simpa [ofCharacter] using h
    exact hsame (loginRow_eq_some hr)

/-- After `dropLogin` the user has no row. -/
theorem dropLogin_guarded {α : Type} (u : ℤ) (userIdx : Option ℤ) {p : Unit → Procedure α}
    (hp : ∀ b, (userIdx = some u → b = true) → (p ()).Guarded (loggedIn u) 0 b) :
    (dropLogin userIdx >>= p).Guarded (loggedIn u) 0 false := by
  by_cases hsame : userIdx = some u
  · subst hsame
    simp only [dropLogin, read_bind, stmt_bind]
    refine fun d => ⟨le_refl _, ?_⟩
    beta_reduce
    cases hold : d.tbLogin.any (ofCharacter (some u)) with
    | true =>
      refine Or.inl ?_
      simp only [if_true, write_bind]
      exact fun d => ⟨Table.count_delete_le,
        Or.inr ⟨Table.count_delete_self.le, hp true fun _ => rfl⟩⟩
    | false => exact Or.inr ⟨(Table.count_eq_zero.mpr hold).le, hp true fun _ => rfl⟩
  · refine Guarded.bind ?_ fun _ => hp false fun h => absurd h hsame
    exact guarded_read fun d =>
      Guarded.ite (fun _ => guarded_write fun d => Table.count_delete_le) fun _ => guarded_done _

theorem gpLogin_guarded (u : ℤ) (userid password ip : Option String) :
    (gpLogin L userid password ip).Guarded (loggedIn u) 0 false := by
  refine guarded_read fun d => Guarded.ite (fun _ => ?_) fun _ => guarded_done _
  refine guarded_read fun d => dropLogin_guarded u _ fun b hb => ?_
  refine (insertLogin_guarded u ip hb).bind fun _ => ?_
  exact guarded_read fun d => guarded_read fun d => guarded_done _

theorem program_loggedIn (u : ℤ) (c : Call) : (program L c).Guarded (loggedIn u) 0 false := by
  by_cases harea : c.area = some .logins
  · cases c <;> simp only [Call.area, reduceCtorEq, Option.some.injEq] at harea
    case login userid password ip => exact (gpLogin_guarded u _ _ _).bind fun _ => guarded_done _
  · have hother := program_other (L := L) spares_tbLogin harea
    exact (hother.comp fun t => t.count (ofCharacter (some u))).guarded

/-- The user is the last row that the name and the password match, and has no row in
`TB_LOGIN`. -/
theorem login_reads (userid password ip : String) {r : Row McUser}
    (hr : (d.mcUser.select (mayLogin L (some userid) (some password))).getLast? = some r)
    (hnone : loggedIn r.id d = 0) :
    ∃ (f : Database → Database) (next : Database → Procedure Reply),
      (program L (.login (some userid) (some password) (some ip))).Reads d 3 (stmt f next) ∧
      ∀ d, (f d).tbLogin = (d.tbLogin.insert (some ⟨14601, 1, r.id, ip⟩)).1 := by
  have hany : d.mcUser.any (mayLogin L (some userid) (some password)) = true := by
    have hmem := List.mem_of_getLast? hr
    exact Table.any_eq_true.mpr ⟨r, List.mem_of_mem_filter hmem, (List.mem_filter.mp hmem).2⟩
  have hold : d.tbLogin.any (ofCharacter (some r.id)) = false := Table.count_eq_zero.mp hnone
  refine ⟨fun d => { d with tbLogin := (d.tbLogin.insert (some ⟨14601, 1, r.id, ip⟩)).1 },
    fun d => stmt id fun d' => stmt id fun d'' => done (.login
      ⟨d''.tbServer.rows.getLast?.map (·.val.ipAddress), some r.val.roleType, some r.id,
        (d'.tbLogin.select (ofCharacter (some r.id))).getLast?.map Row.id, 0⟩), ?_, fun d => rfl⟩
  simp only [program, gpLogin, read_bind, stmt_bind]
  refine Reads.succ rfl ?_
  rw [hany]
  refine Reads.succ rfl ?_
  beta_reduce
  rw [hr]
  refine Reads.succ rfl ?_
  beta_reduce
  simp only [Option.map_some, hold]
  exact Reads.zero _

/-- No user has more rows in `TB_LOGIN` than there are sessions, and a user whose
logins come together gets that many. -/
theorem loggedIn_le (L : Collation) (d : Database) (k : ℕ) (u : ℤ) :
    (∀ (moves : List (Move Call k)) (t : System Database Reply k),
      exec (Sessions.step (program L)) (idle d .none) moves = some t →
        t.state.tbLogin.count (ofCharacter (some u)) ≤
          max (d.tbLogin.count (ofCharacter (some u))) k) ∧
    (∀ (userid password : String) (r : Row McUser),
      (d.mcUser.select (mayLogin L (some userid) (some password))).getLast? = some r → r.id = u →
      d.tbLogin.count (ofCharacter (some u)) = 0 → d.tbLogin.seed + k ≤ intMax + 1 →
      ∃ (moves : List (Move Call k)) (t : System Database Reply k),
        exec (Sessions.step (program L)) (idle d .none) moves = some t ∧
        t.state.tbLogin.count (ofCharacter (some u)) = k) := by
  refine ⟨fun moves t h => ?_, fun userid password r hr hid hnone hroom => ?_⟩
  · have := bounded (program_loggedIn u) d .none moves t h
    rwa [Nat.zero_add] at this
  · subst hid
    obtain ⟨f, next, hreads, hf⟩ := login_reads userid password "" hr hnone
    obtain ⟨moves, t, ht, hstate⟩ := attains hreads .none k
    refine ⟨moves, t, ht, ?_⟩
    rw [hstate, iterate_table hf, Table.count_iterate_insert (by simp [ofCharacter]) k hroom, hnone]
    omega

theorem loggedIn_le_created : ∃ d : Database, d.tbLogin.rows = [] ∧
    ∃ (moves : List (Move Call 2)) (t : System Database Reply 2),
      exec (Sessions.step (program binary)) (idle d .none) moves = some t ∧
      t.state.tbLogin.count (ofCharacter (some 1)) = 2 := by
  refine ⟨{ created with
    mcUser := Table.empty.append ⟨"1", "2", "", 1, none, 2, none, none, none⟩ }, rfl, ?_⟩
  exact (loggedIn_le binary _ 2 1).2 "1" "2" ⟨1, "1", "2", "", 1, none, 2, none, none, none⟩
    (by decide +kernel) rfl (by decide) (by decide)

/-! ## Friends -/

def friendships (a b : ℤ) (d : Database) : ℕ := d.mcFriendRel.count (ofFriend (some a) (some b))

theorem befriend_guarded (a b : ℤ) (x y : Option ℤ) :
    (befriend x y).Guarded (friendships a b) 0 false := by
  refine guarded_test fun d => ?_
  by_cases hsame : x = some a ∧ y = some b
  · obtain ⟨rfl, rfl⟩ := hsame
    cases hthere : d.hasFriend (some a) (some b) with
    | true => exact Or.inl (guarded_done _)
    | false =>
      exact Or.inr ⟨(Table.count_eq_zero.mpr hthere).le,
        guarded_add fun d => Table.count_insert_le _⟩
  · refine Or.inl (Guarded.ite (fun _ => guarded_done _) fun _ => guarded_write fun d => ?_)
    refine (Table.count_insert_of_not fun r hr => ?_).le
    rw [Bool.eq_false_iff]
    intro h
    obtain ⟨rfl, rfl⟩ : a = r.userID ∧ b = r.friendID := by simpa [ofFriend] using h
    cases x <;> cases y <;> simp [friendRow] at hr
    obtain ⟨-, rfl⟩ := hr
    exact hsame ⟨rfl, rfl⟩

theorem program_friendships (a b : ℤ) (c : Call) :
    (program L c).Guarded (friendships a b) 0 false := by
  by_cases harea : c.area = some .friends
  · cases c <;> simp only [Call.area, reduceCtorEq, Option.some.injEq] at harea
    case addFriend x y =>
      refine Guarded.bind ?_ fun _ => guarded_done _
      exact (befriend_guarded a b x y).bind fun _ =>
        (befriend_guarded a b y x).bind fun _ => guarded_done _
    case deleteFriend =>
      exact (guarded_write fun d => Table.count_delete_le).bind fun _ => guarded_done _
  · exact ((program_other spares_mcFriendRel harea).comp
      fun t => t.count (ofFriend (some a) (some b))).guarded

theorem addFriend_reads {a b : ℤ} (ha : IsInt a) (hb : IsInt b) (hnone : friendships a b d = 0) :
    ∃ (f : Database → Database) (next : Database → Procedure Reply),
      (program L (.addFriend (some a) (some b))).Reads d 1 (stmt f next) ∧
      ∀ d, (f d).mcFriendRel = (d.mcFriendRel.insert (some ⟨a, b⟩)).1 := by
  have hthere : d.hasFriend (some a) (some b) = false := Table.count_eq_zero.mp hnone
  have hrow : friendRow (some a) (some b) = some ⟨a, b⟩ := by simp [friendRow, ha, hb]
  refine ⟨fun d => { d with mcFriendRel := (d.mcFriendRel.insert (some ⟨a, b⟩)).1 },
    fun _ => (do befriend (some b) (some a); pure 0) >>= fun n => done (.ret n), ?_, fun d => rfl⟩
  have hfirst : (befriend (some a) (some b) : Procedure Unit) = stmt id fun d =>
      if d.hasFriend (some a) (some b) then done ()
      else write fun d =>
        ({ d with mcFriendRel := (d.mcFriendRel.insert (some ⟨a, b⟩)).1 }, ()) := by
    rw [← hrow]
    rfl
  simp only [program, gpAddFriend, hfirst, stmt_bind]
  refine Reads.succ rfl ?_
  rw [hthere]
  exact Reads.zero _

/-- No direction of a friendship is stored more often than there are sessions, and
requests that come together store it that often. -/
theorem friendships_le (L : Collation) (d : Database) (k : ℕ) (a b : ℤ) :
    (∀ (moves : List (Move Call k)) (t : System Database Reply k),
      exec (Sessions.step (program L)) (idle d .none) moves = some t →
        t.state.mcFriendRel.count (ofFriend (some a) (some b)) ≤
          max (d.mcFriendRel.count (ofFriend (some a) (some b))) k) ∧
    (IsInt a → IsInt b → d.mcFriendRel.count (ofFriend (some a) (some b)) = 0 →
      d.mcFriendRel.seed + k ≤ intMax + 1 →
      ∃ (moves : List (Move Call k)) (t : System Database Reply k),
        exec (Sessions.step (program L)) (idle d .none) moves = some t ∧
        t.state.mcFriendRel.count (ofFriend (some a) (some b)) = k) := by
  refine ⟨fun moves t h => ?_, fun ha hb hnone hroom => ?_⟩
  · have := bounded (program_friendships a b) d .none moves t h
    rwa [Nat.zero_add] at this
  · obtain ⟨f, next, hreads, hf⟩ := addFriend_reads (L := L) ha hb hnone
    obtain ⟨moves, t, ht, hstate⟩ := attains hreads .none k
    refine ⟨moves, t, ht, ?_⟩
    rw [hstate, iterate_table hf, Table.count_iterate_insert (by simp [ofFriend]) k hroom, hnone]
    omega

theorem friendships_le_created : ∃ (moves : List (Move Call 2)) (t : System Database Reply 2),
    exec (Sessions.step (program binary)) (idle created .none) moves = some t ∧
    t.state.mcFriendRel.count (ofFriend (some 1) (some 2)) = 2 :=
  (friendships_le binary created 2 1 2).2 (by decide) (by decide) (by decide) (by decide)

end Xiaoxin.Sql
