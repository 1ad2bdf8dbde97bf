import Xiaoxin.Procedures

/-!
# The channels over runs of calls

`GP_MATRIX_CREATE` makes the matrix a grid and game servers that register one after
the other fill a row of it from the left.
-/
namespace Xiaoxin.Sql
open Relational Sessions Prog Transition

variable {L : Collation} {d e : Database}

/-! ## The matrix -/

/-- The table `t'` has the rows of `t`, under their numbers, and behind them one row
for each `P` that was missing. It uses up `n` numbers at most. -/
structure Fills (P : TbMatrix → Prop) (n : ℕ) (t t' : Table TbMatrix) : Prop where
  added : ∃ extra, t'.rows = t.rows ++ extra ∧ (extra.map Row.val).Nodup ∧
    ∀ v, v ∈ extra.map Row.val ↔ P v ∧ v ∉ t.rows.map Row.val
  seed : t'.seed ≤ t.seed + n

section
variable {P Q : TbMatrix → Prop} {n m : ℕ} {t t' t'' : Table TbMatrix}

theorem Fills.refl (h : ∀ v, ¬ P v) : Fills P n t t :=
  ⟨⟨[], by simp, by simp, by simp [h]⟩, by omega⟩

theorem Fills.append {v : TbMatrix} (hv : v ∉ t.rows.map Row.val) :
    Fills (· = v) 1 t (t.append v) where
  added := by
    refine ⟨[⟨t.seed, v⟩], rfl, List.nodup_singleton _, fun w => ?_⟩
    simp only [List.map_cons, List.map_nil, List.mem_singleton]
    exact ⟨fun h => ⟨h, h ▸ hv⟩, fun h => h.1⟩
  seed := le_refl _

theorem Fills.trans (h : Fills P n t t') (h' : Fills Q m t' t'') :
    Fills (fun v => P v ∨ Q v) (n + m) t t'' where
  added := by
    obtain ⟨extra, hrows, hnodup, hmem⟩ := h.added
    obtain ⟨extra', hrows', hnodup', hmem'⟩ := h'.added
    simp only [hrows, List.map_append, List.mem_append, not_or] at hmem'
    refine ⟨extra ++ extra', by rw [hrows', hrows, List.append_assoc], ?_, fun v => ?_⟩
    · rw [List.map_append]
      refine List.nodup_append.mpr ⟨hnodup, hnodup', ?_⟩
      rintro a ha b hb rfl
      exact ((hmem' a).mp hb).2.2 ha
    · rw [List.map_append, List.mem_append, hmem', hmem]
      tauto
  seed := by
    have := h.seed
    have := h'.seed
    push_cast
    omega

theorem Fills.congr (h : Fills P n t t') (hPQ : ∀ v, v ∉ t.rows.map Row.val → (P v ↔ Q v))
    (hn : n ≤ m) : Fills Q m t t' where
  added := by
    obtain ⟨extra, hrows, hnodup, hmem⟩ := h.added
    refine ⟨extra, hrows, hnodup, fun v => (hmem v).trans ?_⟩
    exact ⟨fun hv => ⟨(hPQ v hv.2).mp hv.1, hv.2⟩, fun hv => ⟨(hPQ v hv.2).mpr hv.1, hv.2⟩⟩
  seed := by
    have := h.seed
    omega

end

theorem matrix_any (t : Table TbMatrix) (s c : ℤ) :
    t.any (fun r => r.val.serverNum == s && r.val.channelNum == c) = true ↔
      ⟨s, c⟩ ∈ t.rows.map Row.val := by
  simp only [Table.any_eq_true, List.mem_map, Bool.and_eq_true, beq_iff_eq]
  refine exists_congr fun r => and_congr_right fun _ => ⟨?_, ?_⟩
  · rintro ⟨rfl, rfl⟩
    rfl
  · intro h
    rw [h]
    exact ⟨rfl, rfl⟩

theorem increment_eq {x y : ℤ} (hxy : x ≤ y) (hy : y < intMax) : increment x = x + 1 := by
  unfold increment
  rw [if_neg (by omega)]

/-- The inner loop fills one row of the grid, from `channel` on. -/
theorem matrixChannels_run {server maxChannel : ℤ} (hmax : maxChannel < intMax) (n : ℕ)
    (channel : ℤ) (d : Database) (hn : maxChannel < channel + n)
    (hroom : d.tbMatrix.seed + n ≤ intMax + 1) :
    ((matrixChannels server (some maxChannel) n channel).run d).2 = some true ∧
    Fills (fun v => v.serverNum = server ∧ channel ≤ v.channelNum ∧ v.channelNum ≤ maxChannel) n
      d.tbMatrix ((matrixChannels server (some maxChannel) n channel).run d).1.tbMatrix := by
  induction n generalizing channel d with
  | zero =>
    have hout : ¬ channel ≤ maxChannel := by
      push_cast at hn
      omega
    simp only [matrixChannels, compares_some, decide_eq_true_eq, hout, if_false, pure_eq, run_done,
      true_and]
    exact Fills.refl fun v hv => by omega
  | succ n ih =>
    push_cast at hn hroom
    by_cases hin : channel ≤ maxChannel
    · simp only [matrixChannels, compares_some, decide_eq_true_eq, hin, if_true, read_bind,
        run_stmt, id, increment_eq hin hmax]
      by_cases hfound : d.tbMatrix.any
          (fun r => r.val.serverNum == server && r.val.channelNum == channel) = true
      · -- the pair is there already
        simp only [hfound, if_true]
        obtain ⟨hret, hfill⟩ := ih (channel + 1) d (by omega) (by omega)
        refine ⟨hret, hfill.congr (fun v hv => ?_) (by omega)⟩
        have hne : v ≠ ⟨server, channel⟩ := fun h => hv (h ▸ (matrix_any _ _ _).mp hfound)
        obtain ⟨s, c⟩ := v
        simp only [ne_eq, TbMatrix.mk.injEq] at hne ⊢
        omega
      · have hfresh : ⟨server, channel⟩ ∉ d.tbMatrix.rows.map Row.val :=
          fun h => hfound ((matrix_any _ _ _).mpr h)
        have hins := Table.insert_some (t := d.tbMatrix) (by unfold Table.HasRoom; omega)
          ⟨server, channel⟩
        simp only [hfound, Bool.false_eq_true, if_false, write_bind, run_stmt, hins, if_true]
        obtain ⟨hret, hfill⟩ := ih (channel + 1)
          { d with tbMatrix := d.tbMatrix.append ⟨server, channel⟩ } (by omega)
          (by simp only [Table.append]; omega)
        refine ⟨hret, ((Fills.append hfresh).trans hfill).congr (fun v _ => ?_) (by omega)⟩
        obtain ⟨s, c⟩ := v
        simp only [TbMatrix.mk.injEq]
        omega
    · simp only [matrixChannels, compares_some, decide_eq_true_eq, hin, if_false, pure_eq, run_done,
        true_and]
      exact Fills.refl fun v hv => by omega

/-- The outer loop fills the rows from `server` on. -/
theorem matrixServers_run {maxServer maxChannel : ℤ} (hserver : maxServer < intMax)
    (hchannel : maxChannel < intMax) (n : ℕ) (server : ℤ) (d : Database)
    (hn : maxServer < server + n) (hroom : d.tbMatrix.seed + n * maxChannel.toNat ≤ intMax + 1) :
    ((matrixServers (some maxServer) (some maxChannel) n server).run d).2 = some true ∧
    Fills (fun v => (server ≤ v.serverNum ∧ v.serverNum ≤ maxServer) ∧
        1 ≤ v.channelNum ∧ v.channelNum ≤ maxChannel) (n * maxChannel.toNat)
      d.tbMatrix
      ((matrixServers (some maxServer) (some maxChannel) n server).run d).1.tbMatrix := by
  induction n generalizing server d with
  | zero =>
    have hout : ¬ server ≤ maxServer := by
      push_cast at hn
      omega
    simp only [matrixServers, compares_some, decide_eq_true_eq, hout, if_false, pure_eq, run_done,
      true_and]
    exact Fills.refl fun v hv => by omega
  | succ n ih =>
    push_cast at hn hroom
    have hsplit : ((n : ℤ) + 1) * maxChannel.toNat = n * maxChannel.toNat + maxChannel.toNat := by
      ring
    by_cases hin : server ≤ maxServer
    · have hrow := @matrixChannels_run server _ hchannel maxChannel.toNat 1 d (by omega)
        (by have : (0 : ℤ) ≤ n * maxChannel.toNat := by positivity
            omega)
      simp only [matrixServers, compares_some, decide_eq_true_eq, hin, if_true, run_bind,
        Option.getD_some, hrow.1, increment_eq hin hserver]
      have hseed := hrow.2.seed
      obtain ⟨hret, hfill⟩ := ih (server + 1)
        ((matrixChannels server (some maxChannel) maxChannel.toNat 1).run d).1 (by omega) (by omega)
      refine ⟨hret, (hrow.2.trans hfill).congr (fun v _ => ?_) (by rw [Nat.succ_mul, Nat.add_comm])⟩
      constructor <;> intro h <;> omega
    · simp only [matrixServers, compares_some, decide_eq_true_eq, hin, if_false, pure_eq, run_done,
        true_and]
      exact Fills.refl fun v hv => by omega

theorem gpMatrixCreate_run {maxServer maxChannel : ℤ} (hserver : maxServer < intMax)
    (hchannel : maxChannel < intMax)
    (hroom : d.tbMatrix.seed + maxServer.toNat * maxChannel.toNat ≤ intMax + 1) :
    ((gpMatrixCreate (some maxServer) (some maxChannel)).run d).2 = some 0 ∧
    Fills (fun v => (1 ≤ v.serverNum ∧ v.serverNum ≤ maxServer) ∧
        1 ≤ v.channelNum ∧ v.channelNum ≤ maxChannel) (maxServer.toNat * maxChannel.toNat)
      d.tbMatrix ((gpMatrixCreate (some maxServer) (some maxChannel)).run d).1.tbMatrix := by
  obtain ⟨hret, hfill⟩ := matrixServers_run hserver hchannel maxServer.toNat 1 d (by omega) hroom
  simp only [gpMatrixCreate, run_bind, Option.getD_some, hret, pure_eq, run_done]
  exact ⟨rfl, hfill⟩

/-- `GP_MATRIX_CREATE` ends with 0 and the matrix has, behind the rows it had, one row
for each pair of the grid that it lacked and no other; a second call adds nothing. -/
theorem matrixCreate_spec (L : Collation) (d e : Database) (maxServer maxChannel : ℤ)
    (hserver : maxServer < intMax) (hchannel : maxChannel < intMax)
    (hroom : d.tbMatrix.seed + 2 * (maxServer.toNat * maxChannel.toNat) ≤ intMax + 1)
    (h : step L d (.matrixCreate (some maxServer) (some maxChannel)) = some e) :
    reply L d (.matrixCreate (some maxServer) (some maxChannel)) = .ret 0 ∧
    (∃ added, e.tbMatrix.rows = d.tbMatrix.rows ++ added ∧ (added.map Row.val).Nodup ∧
      ∀ s c, (⟨s, c⟩ ∈ added.map Row.val ↔ (1 ≤ s ∧ s ≤ maxServer ∧ 1 ≤ c ∧ c ≤ maxChannel) ∧
        ⟨s, c⟩ ∉ d.tbMatrix.rows.map Row.val)) ∧
    ∀ f, step L e (.matrixCreate (some maxServer) (some maxChannel)) = some f →
      f.tbMatrix.rows = e.tbMatrix.rows := by
  have hstep : ∀ {d e : Database},
      step L d (.matrixCreate (some maxServer) (some maxChannel)) = some e →
      e = ((gpMatrixCreate (some maxServer) (some maxChannel)).run d).1 := by
    rintro d _ ⟨⟩
    simp [program, run_bind]
  have hgrid : (0 : ℤ) ≤ maxServer.toNat * maxChannel.toNat := by positivity
  obtain ⟨hret, hfill⟩ := gpMatrixCreate_run (d := d) hserver hchannel (by omega)
  rw [← hstep h] at hfill
  obtain ⟨added, hrows, hnodup, hmem⟩ := hfill.added
  refine ⟨by simp [reply, program, run_bind, hret],
    ⟨added, hrows, hnodup, fun s c => ?_⟩, fun f hf => ?_⟩
  · rw [hmem]
    simp only [and_assoc]
  · have hseed := hfill.seed
    push_cast at hseed
    obtain ⟨-, hagain⟩ := gpMatrixCreate_run (d := e) hserver hchannel (by omega)
    rw [← hstep hf] at hagain
    obtain ⟨more, hmore, -, hmem'⟩ := hagain.added
    -- nothing of the grid is missing any more
    have hnil : more = [] := by
      refine (List.map_eq_nil_iff (f := Row.val)).mp
        (List.eq_nil_iff_forall_not_mem.mpr fun v hv => ?_)
      obtain ⟨hP, hnot⟩ := (hmem' v).mp hv
      rw [hrows, List.map_append, List.mem_append, not_or] at hnot
      exact hnot.2 ((hmem v).mpr ⟨hP, hnot.1⟩)
    rw [hmore, hnil, List.append_nil]

theorem matrixCreate_spec_created : ∃ e,
    step binary created (.matrixCreate (some 2) (some 3)) = some e ∧
    reply binary created (.matrixCreate (some 2) (some 3)) = .ret 0 ∧
    ∀ f, step binary e (.matrixCreate (some 2) (some 3)) = some f →
      f.tbMatrix.rows = e.tbMatrix.rows := by
  refine ⟨_, rfl, ?_⟩
  obtain ⟨hret, -, hagain⟩ := matrixCreate_spec binary created _ 2 3 (by decide) (by decide)
    (by decide) rfl
  exact ⟨hret, hagain⟩

/-! ## Registration -/

/-- What `GP_CHANNEL_CHECK` may add to `TB_CHANNEL`. -/
inductive Registers (d e : Database) (serverNum channelNum : Option ℤ) : Prop
  | nothing (h : e.tbChannel.rows = d.tbChannel.rows)
  | row (r : TbChannel) (h : e.tbChannel.rows = d.tbChannel.rows ++ [⟨d.tbChannel.seed, r⟩])
      (hserver : serverNum = some r.serverNum)
      (hfree : d.hasChannel (some r.serverNum) (some r.channelNum) = false)
      (hchannel : channelNum = some r.channelNum ∨ d.IsFree r.serverNum r.channelNum)

theorem insertChannel_rows {check : ChannelCheck} {serverNum : Option ℤ} {inetNum : Option String}
    {ipv4 port channelNum : Option ℤ}
    (h : ∀ s c, serverNum = some s → check.channelNum = some c →
      d.hasChannel (some s) (some c) = false ∧ (channelNum = some c ∨ d.IsFree s c)) :
    Registers d ((insertChannel check serverNum inetNum ipv4 port).run d).1
      serverNum channelNum := by
  simp only [insertChannel, write_bind, run_stmt, pure_eq, run_done]
  have hrows := Table.rows_insert (t := d.tbChannel)
    (channelRow serverNum check.channelNum inetNum ipv4 port)
  cases hrow : channelRow serverNum check.channelNum inetNum ipv4 port with
  | none =>
    rw [hrow] at hrows
    exact .nothing (by simpa using hrows)
  | some r =>
    rw [hrow] at hrows
    by_cases hroom : d.tbChannel.HasRoom
    · obtain ⟨hs, hc⟩ := channelRow_eq_some hrow
      obtain ⟨hfree, hchannel⟩ := h _ _ hs hc
      exact .row r (by simpa [hroom] using hrows) hs hfree hchannel
    · exact .nothing (by simpa [hroom] using hrows)

theorem gpChannelCheck_rows (L : Collation) (serverNum : Option ℤ)
    (serverName serverDesc : Option String) (channelNum : Option ℤ) (inetNum : Option String)
    (ipv4 port : Option ℤ) :
    Registers d
      ((gpChannelCheck L serverNum serverName serverDesc channelNum inetNum ipv4 port).run d).1
      serverNum channelNum := by
  simp only [gpChannelCheck, read_bind, run_stmt, id]
  cases (d.tbServer.select fun r => serverNum == some r.id).head? with
  | none => exact .nothing rfl
  | some r =>
    by_cases hzero : compares (· != ·) channelNum (some 0) = true
    · simp only [hzero, if_true, run_stmt, id]
      cases hused : d.hasChannel serverNum channelNum with
      | true => exact .nothing rfl
      | false =>
        refine insertChannel_rows fun s c hs hc => ?_
        simp only at hc
        rw [hs, hc] at hused
        exact ⟨hused, Or.inl hc⟩
    · simp only [hzero, Bool.false_eq_true, if_false, run_stmt, id]
      split
      · exact .nothing rfl
      · rename_i hne
        refine insertChannel_rows fun s c hs hc => ?_
        subst hs
        cases hfree : d.freeChannel (some s) with
        | none =>
          -- the caller's channel is neither 0 nor another number
          simp only [hfree, Option.none_or] at hc hne
          subst hc
          simp_all
        | some c' =>
          simp only [hfree, Option.some_or, Option.some.injEq] at hc
          subst hc
          have := (freeChannel_eq_some.mp hfree).1
          exact ⟨this.2, Or.inr this⟩

theorem gpServerDown_rows (serverNum channelNum : Option ℤ) :
    ((gpServerDown serverNum channelNum).run d).1.tbChannel.rows.Sublist d.tbChannel.rows :=
  List.filter_sublist

def TbChannel.pair (c : TbChannel) : ℤ × ℤ := (c.serverNum, c.channelNum)

/-- No channel is registered twice. -/
def Database.Registry (d : Database) : Prop := (d.tbChannel.rows.map fun r => r.val.pair).Nodup

theorem hasChannel_iff {s c : ℤ} : d.hasChannel (some s) (some c) = true ↔
    (s, c) ∈ d.tbChannel.rows.map fun r => r.val.pair := by
  rw [hasChannel_eq_true, List.mem_map]
  refine exists_congr fun r => and_congr_right fun _ => ⟨?_, ?_⟩
  · rintro ⟨rfl, rfl⟩
    rfl
  · intro h
    obtain ⟨rfl, rfl⟩ : r.val.serverNum = s ∧ r.val.channelNum = c := by
      simpa [TbChannel.pair] using h
    exact ⟨rfl, rfl⟩

theorem Registers.registry {serverNum channelNum : Option ℤ}
    (h : Registers d e serverNum channelNum) (hd : d.Registry) : e.Registry := by
  cases h with
  | nothing h => rwa [Database.Registry, h]
  | row r h hserver hfree hchannel =>
    rw [Database.Registry, h, List.map_append]
    refine List.nodup_append.mpr ⟨hd, List.nodup_singleton _, ?_⟩
    rintro p hp q hq rfl
    obtain rfl : p = r.pair := by simpa using hq
    rw [hasChannel_iff.mpr hp] at hfree
    contradiction

theorem registry_step {c : Call} (hd : d.Registry) (h : step L d c = some e) : e.Registry := by
  by_cases harea : c.area = some .channels
  · obtain rfl : ((program L c).run d).1 = e := by simpa [step] using h
    cases c <;> simp only [Call.area, reduceCtorEq, Option.some.injEq] at harea
    case channelCheck =>
      simp only [program, run_bind, pure_eq, run_done]
      exact (gpChannelCheck_rows L _ _ _ _ _ _ _).registry hd
    case channelUpdate x y st =>
      cases st with
      | none => exact hd
      | some st =>
        have hpairs : (fun r : Row TbChannel => r.val.pair) ∘
            (fun r => if ofChannel x y r then ⟨r.id, { r.val with status := st }⟩ else r) =
            fun r => r.val.pair := by
          funext r
          simp only [Function.comp_apply]
          split <;> rfl
        simp only [program, run_bind, pure_eq, run_done, gpChannelUpdate, write, run_stmt,
          Database.Registry, Table.update, List.map_map, hpairs]
        exact hd
    case serverDown x y =>
      simp only [program, run_bind, pure_eq, run_done]
      exact hd.sublist ((gpServerDown_rows x y).map _)
  · rw [Database.Registry, step_other spares_tbChannel harea h]
    exact hd

theorem Database.Registry.count_le (hd : d.Registry) (s c : ℤ) :
    d.tbChannel.count (ofChannel (some s) (some c)) ≤ 1 := by
  have hcount : d.tbChannel.count (ofChannel (some s) (some c)) =
      (d.tbChannel.rows.map fun r => r.val.pair).count (s, c) := by
    rw [Table.count, List.count, List.countP_map]
    refine List.countP_congr fun r _ => ?_
    simp only [ofChannel, TbChannel.pair, Function.comp_apply, Bool.and_eq_true, beq_iff_eq,
      Option.some.injEq, Prod.mk.injEq]
    exact and_congr eq_comm eq_comm
  rw [hcount]
  exact List.nodup_iff_count_le_one.mp hd (s, c)

/-- After any run from an empty registry a channel has one row at most, and
`GP_CHANNEL_UPDATE` answers 0 exactly for the channels that are registered. -/
theorem channelUpdate_spec (L : Collation) (d e : Database) (calls : List Call) (s c status : ℤ)
    (hchannel : d.tbChannel.rows = []) (h : exec (step L) d calls = some e) :
    e.tbChannel.count (ofChannel (some s) (some c)) ≤ 1 ∧
    reply L e (.channelUpdate (some s) (some c) (some status)) =
      .ret (if e.hasChannel (some s) (some c) then 0 else 1) := by
  have hr : e.Registry := invariant (fun _ _ _ => registry_step)
    (by simp [Database.Registry, hchannel]) h
  have hle := hr.count_le s c
  refine ⟨hle, ?_⟩
  simp only [reply, program, gpChannelUpdate, write_bind, run_stmt, pure_eq, run_done]
  cases hthere : e.hasChannel (some s) (some c) with
  | true =>
    have hone : e.tbChannel.count (ofChannel (some s) (some c)) = 1 :=
      le_antisymm hle (Table.count_pos.mpr hthere)
    simp [hone]
  | false =>
    have hzero : e.tbChannel.count (ofChannel (some s) (some c)) = 0 :=
      Table.count_eq_zero.mpr hthere
    simp [hzero]

theorem channelUpdate_spec_created : ∃ e,
    exec (step binary) { created with tbServer := Table.empty.append ⟨"", none, 0, 0, "", 0⟩ }
      [.channelCheck (some 1) none none (some 3) (some "") none (some 0)] = some e ∧
    e.tbChannel.count (ofChannel (some 1) (some 3)) ≤ 1 ∧
    reply binary e (.channelUpdate (some 1) (some 3) (some 2)) =
      .ret (if e.hasChannel (some 1) (some 3) then 0 else 1) := by
  apply exists_exec (exec_isSome _ _)
  intro e he
  exact channelUpdate_spec binary _ e _ 1 3 2 rfl he

/-- The matrix lists no pair twice and no channel 0. -/
structure Database.Matrix (d : Database) : Prop where
  nodup : (d.tbMatrix.rows.map Row.val).Nodup
  positive : ∀ r ∈ d.tbMatrix.rows, 1 ≤ r.val.channelNum

theorem increment_pos {x : ℤ} (hx : 1 ≤ x) : 1 ≤ increment x := by
  unfold increment
  split <;> omega

theorem Database.Matrix.insert (hd : d.Matrix) {s c : ℤ} (hc : 1 ≤ c)
    (hfresh : ⟨s, c⟩ ∉ d.tbMatrix.rows.map Row.val) :
    Database.Matrix { d with tbMatrix := (d.tbMatrix.insert (some ⟨s, c⟩)).1 } where
  nodup := by
    rw [Table.rows_insert]
    split
    · rw [List.map_append]
      refine List.nodup_append.mpr ⟨hd.nodup, List.nodup_singleton _, ?_⟩
      rintro v hv w hw rfl
      obtain rfl : v = ⟨s, c⟩ := by simpa using hw
      exact hfresh hv
    · exact hd.nodup
  positive r hr := by
    obtain hr | ⟨-, v, hv, rfl⟩ := Table.mem_insert.mp hr
    · exact hd.positive r hr
    · cases hv
      exact hc

theorem matrixChannels_matrix (server : ℤ) (maxChannel : Option ℤ) (n : ℕ) (channel : ℤ)
    (hc : 1 ≤ channel) (d : Database) (hd : d.Matrix) :
    ((matrixChannels server maxChannel n channel).run d).1.Matrix := by
  induction n generalizing channel d with
  | zero => exact hd
  | succ n ih =>
    unfold matrixChannels
    split
    · simp only [read_bind, run_stmt, id]
      split
      · exact ih _ (increment_pos hc) d hd
      · rename_i hfound
        simp only [write_bind, run_stmt]
        have hins := hd.insert hc fun h => hfound ((matrix_any d.tbMatrix server channel).mpr h)
        split
        · exact ih _ (increment_pos hc) _ hins
        · exact hins
    · exact hd

theorem matrixServers_matrix (maxServer maxChannel : Option ℤ) (n : ℕ) (server : ℤ) (d : Database)
    (hd : d.Matrix) : ((matrixServers maxServer maxChannel n server).run d).1.Matrix := by
  induction n generalizing server d with
  | zero => exact hd
  | succ n ih =>
    unfold matrixServers
    split
    · rw [run_bind]
      have hrow :=
        matrixChannels_matrix server maxChannel (maxChannel.getD 0).toNat 1 (le_refl _) d hd
      split
      · exact ih _ _ hrow
      · exact hrow
    · exact hd

theorem matrix_step {c : Call} (hd : d.Matrix) (h : step L d c = some e) : e.Matrix := by
  by_cases harea : c.area = some .matrix
  · obtain rfl : ((program L c).run d).1 = e := by simpa [step] using h
    cases c <;> simp only [Call.area, reduceCtorEq, Option.some.injEq] at harea
    case matrixCreate a b =>
      simp only [program, run_bind, pure_eq, run_done, gpMatrixCreate]
      exact matrixServers_matrix a b _ 1 d hd
  · have hsame := step_other spares_tbMatrix harea h
    exact ⟨hsame ▸ hd.nodup, hsame ▸ hd.positive⟩

/-- The channels that the server may have. -/
def Database.channels (d : Database) (s : ℤ) : List ℤ :=
  (d.tbMatrix.select fun m => m.val.serverNum == s).map (·.val.channelNum)

theorem mem_channels {s c : ℤ} : c ∈ d.channels s ↔ ∃ m ∈ d.tbMatrix.rows, m.val = ⟨s, c⟩ := by
  simp only [Database.channels, Table.select, List.mem_map, List.mem_filter, beq_iff_eq]
  constructor
  · rintro ⟨m, ⟨hm, rfl⟩, rfl⟩
    exact ⟨m, hm, rfl⟩
  · rintro ⟨m, hm, hv⟩
    exact ⟨m, ⟨hm, by rw [hv]⟩, by rw [hv]⟩

/-- How many of the channels that the server may have are registered. -/
def Database.taken (d : Database) (s : ℤ) : ℕ :=
  d.tbChannel.count fun r => r.val.serverNum == s && decide (r.val.channelNum ∈ d.channels s)

theorem isFree_iff {s c : ℤ} :
    d.IsFree s c ↔ c ∈ d.channels s ∧ d.hasChannel (some s) (some c) = false := by
  rw [Database.IsFree, mem_channels]

theorem Database.Matrix.nodup_channels (hd : d.Matrix) (s : ℤ) : (d.channels s).Nodup := by
  have hvals : ((d.tbMatrix.select fun m => m.val.serverNum == s).map Row.val).Nodup :=
    hd.nodup.sublist (List.filter_sublist.map _)
  have hchannels : d.channels s =
      ((d.tbMatrix.select fun m => m.val.serverNum == s).map Row.val).map TbMatrix.channelNum := by
    rw [List.map_map]
    rfl
  rw [hchannels]
  refine hvals.map_on fun v hv w hw h => ?_
  have hserver : ∀ v ∈ (d.tbMatrix.select fun m => m.val.serverNum == s).map Row.val,
      v.serverNum = s := by
    intro v hv
    obtain ⟨r, hr, rfl⟩ := List.mem_map.mp hv
    exact eq_of_beq (List.mem_filter.mp hr).2
  obtain ⟨s₁, c₁⟩ := v
  obtain ⟨s₂, c₂⟩ := w
  have h₁ := hserver _ hv
  have h₂ := hserver _ hw
  simp only at h h₁ h₂
  rw [h, h₁, h₂]

/-- No two rows of a server are for the same channel. -/
theorem Database.Registry.nodup_channelNums (hd : d.Registry) (s : ℤ) (q : ℤ → Bool) :
    ((d.tbChannel.select fun r => r.val.serverNum == s && q r.val.channelNum).map
      (·.val.channelNum)).Nodup := by
  have hpairs : ((d.tbChannel.select fun r => r.val.serverNum == s && q r.val.channelNum).map
      fun r => r.val.pair).Nodup := List.Nodup.sublist (List.filter_sublist.map _) hd
  refine List.pairwise_map.mpr
    ((List.pairwise_map.mp hpairs).imp_of_mem fun {a b} ha hb hne => ?_)
  have hserver : ∀ r ∈ d.tbChannel.select fun r => r.val.serverNum == s && q r.val.channelNum,
      r.val.serverNum = s := fun r hr => by
    have := (List.mem_filter.mp hr).2
    simp only [Bool.and_eq_true, beq_iff_eq] at this
    exact this.1
  intro h
  exact hne (by rw [TbChannel.pair, TbChannel.pair, hserver a ha, hserver b hb, h])

/-- There is a free channel exactly if fewer are registered than the server may have. -/
theorem taken_lt (hm : d.Matrix) (hr : d.Registry) (s : ℤ) :
    d.taken s < (d.channels s).length ↔ ∃ c, d.IsFree s c := by
  have hnodup := hr.nodup_channelNums s fun c => decide (c ∈ d.channels s)
  have hlength : d.taken s = ((d.tbChannel.select fun r => r.val.serverNum == s &&
      decide (r.val.channelNum ∈ d.channels s)).map (·.val.channelNum)).length := by
    rw [List.length_map, Table.length_select, Database.taken]
  have hmem : ∀ c, c ∈ (d.tbChannel.select fun r => r.val.serverNum == s &&
      decide (r.val.channelNum ∈ d.channels s)).map (·.val.channelNum) ↔
        c ∈ d.channels s ∧ d.hasChannel (some s) (some c) = true := by
    intro c
    simp only [Table.select, List.mem_map, List.mem_filter, Bool.and_eq_true, beq_iff_eq,
      decide_eq_true_eq, hasChannel_eq_true]
    constructor
    · rintro ⟨r, ⟨hr, rfl, hc⟩, rfl⟩
      exact ⟨hc, r, hr, rfl, rfl⟩
    · rintro ⟨hc, r, hr, rfl, rfl⟩
      exact ⟨r, ⟨hr, rfl, hc⟩, rfl⟩
  rw [hlength]
  generalize (d.tbChannel.select fun r => r.val.serverNum == s &&
    decide (r.val.channelNum ∈ d.channels s)).map (·.val.channelNum) = registered at hnodup hmem
  constructor
  · intro hlt
    by_contra hnone
    push Not at hnone
    have hsub : d.channels s ⊆ registered := fun c hc => (hmem c).mpr ⟨hc, by
      by_contra hfree
      exact hnone c (isFree_iff.mpr ⟨hc, by simpa using hfree⟩)⟩
    have := ((hm.nodup_channels s).subperm hsub).length_le
    omega
  · rintro ⟨c, hc⟩
    obtain ⟨hin, hfree⟩ := isFree_iff.mp hc
    have hnot : c ∉ registered := fun h => by simp [((hmem c).mp h).2] at hfree
    have hsub : c :: registered ⊆ d.channels s := by
      intro x hx
      obtain rfl | hx := List.mem_cons.mp hx
      · exact hin
      · exact ((hmem x).mp hx).1
    exact ((List.nodup_cons.mpr ⟨hnot, hnodup⟩).subperm hsub).length_le

theorem channelCheck_reply {server : Row TbServer} (hserver : server ∈ d.tbServer.rows)
    (hroom : d.tbChannel.HasRoom) (serverName serverDesc : Option String) (inetNum : String)
    (ipv4 : Option ℤ) (port : ℤ) :
    reply L d (.channelCheck (some server.id) serverName serverDesc (some 0) (some inetNum) ipv4
      (some port)) = .channel ⟨some (L.varchar 50 server.val.name),
        server.val.description.map (L.varchar 200), some ((d.freeChannel (some server.id)).getD 0),
        if (d.freeChannel (some server.id)).getD 0 = 0 then 3 else 0⟩ := by
  have hselect : (d.tbServer.select fun r => some server.id == some r.id).head? = some server := by
    obtain ⟨r, hr⟩ : ∃ r, (d.tbServer.select fun r => some server.id == some r.id).head? = some r :=
      Option.isSome_iff_exists.mp (List.isSome_head?.mpr (List.ne_nil_of_mem
        (List.mem_filter.mpr ⟨hserver, by simp⟩)))
    obtain ⟨hmem, hid⟩ := List.mem_filter.mp (List.mem_of_mem_head? hr)
    rw [hr, d.tbServer.eq_of_id hmem hserver (by simpa using (eq_of_beq hid).symm)]
  simp only [reply, program, gpChannelCheck, read_bind, stmt_bind, run_stmt, id, hselect]
  cases hfree : d.freeChannel (some server.id) with
  | none => simp [hfree]
  | some c =>
    by_cases hc : c = 0
    · simp [hfree, hc]
    · have hins := Table.insert_some hroom ⟨server.id, c, inetNum, ipv4, port, 0⟩
      simp [hfree, hc, insertChannel, channelRow, hins]

/-- After any run from an empty registry a game server that asks for a channel gets
the least one that is free as long as fewer of its channels are registered than the
matrix lists, and else the answer 3. -/
theorem channelCheck_auto (L : Collation) (d e : Database) (calls : List Call)
    (server : Row TbServer) (serverName serverDesc : Option String) (inetNum : String)
    (ipv4 : Option ℤ) (port : ℤ) (hmatrix : d.tbMatrix.rows = []) (hchannel : d.tbChannel.rows = [])
    (h : exec (step L) d calls = some e) (hserver : server ∈ e.tbServer.rows)
    (hroom : e.tbChannel.HasRoom) :
    (e.taken server.id < (e.channels server.id).length → ∃ c,
      IsLeast {c | c ∈ e.channels server.id ∧ e.hasChannel (some server.id) (some c) = false} c ∧
      reply L e (.channelCheck (some server.id) serverName serverDesc (some 0) (some inetNum) ipv4
        (some port)) = .channel ⟨some (L.varchar 50 server.val.name),
          server.val.description.map (L.varchar 200), some c, 0⟩) ∧
    (¬ e.taken server.id < (e.channels server.id).length →
      reply L e (.channelCheck (some server.id) serverName serverDesc (some 0) (some inetNum) ipv4
        (some port)) = .channel ⟨some (L.varchar 50 server.val.name),
          server.val.description.map (L.varchar 200), some 0, 3⟩) := by
  have hm : e.Matrix :=
    invariant (fun _ _ _ => matrix_step) ⟨by simp [hmatrix], by simp [hmatrix]⟩ h
  have hr : e.Registry := invariant (fun _ _ _ => registry_step)
    (by simp [Database.Registry, hchannel]) h
  rw [channelCheck_reply hserver hroom, taken_lt hm hr]
  constructor
  · rintro ⟨c₀, hc₀⟩
    cases hfree : e.freeChannel (some server.id) with
    | none => exact absurd hc₀ (freeChannel_eq_none.mp hfree c₀)
    | some c =>
      obtain ⟨hc, hleast⟩ := freeChannel_eq_some.mp hfree
      refine ⟨c, ⟨isFree_iff.mp hc, fun c' hc' => hleast c' (isFree_iff.mpr hc')⟩, ?_⟩
      obtain ⟨m, hmem, hval⟩ := hc.1
      have hpos : 1 ≤ c := by
        have := hm.positive m hmem
        rwa [hval] at this
      have hne : c ≠ 0 := by omega
      simp [hne]
  · intro hnone
    have hfree : e.freeChannel (some server.id) = none :=
      freeChannel_eq_none.mpr fun c hc => hnone ⟨c, hc⟩
    simp [hfree]

theorem channelCheck_auto_created : ∃ e,
    exec (step binary) { created with tbServer := Table.empty.append ⟨"a", none, 0, 0, "", 0⟩ }
      [.matrixCreate (some 1) (some 2),
        .channelCheck (some 1) none none (some 1) (some "") none (some 0)] = some e ∧
    (e.taken 1 < (e.channels 1).length → ∃ c,
      IsLeast {c | c ∈ e.channels 1 ∧ e.hasChannel (some 1) (some c) = false} c ∧
      reply binary e (.channelCheck (some 1) none none (some 0) (some "") none (some 0)) =
        .channel ⟨some "a", none, some c, 0⟩) ∧
    (¬ e.taken 1 < (e.channels 1).length →
      reply binary e (.channelCheck (some 1) none none (some 0) (some "") none (some 0)) =
        .channel ⟨some "a", none, some 0, 3⟩) := by
  refine ⟨_, rfl, ?_⟩
  exact channelCheck_auto binary
    { created with tbServer := Table.empty.append ⟨"a", none, 0, 0, "", 0⟩ } _
    [.matrixCreate (some 1) (some 2),
      .channelCheck (some 1) none none (some 1) (some "") none (some 0)]
    ⟨1, "a", none, 0, 0, "", 0⟩ none none "" none 0 rfl rfl rfl
    (by decide +kernel) (by decide +kernel)

end Xiaoxin.Sql
