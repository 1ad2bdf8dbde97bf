import Xiaoxin.Schema

/-!
# The registry of the channels

`TB_MATRIX` lists the channels that each server may have, `TB_CHANNEL` those that
are registered. A game server registers at its start, under a channel of its own
choice or under the first one that is free, reports its load, and is struck off
when it goes down.
-/
namespace Xiaoxin.Sql
open Relational Sessions Prog

/-- `SET @CHANNEL = @CHANNEL + 1`, which fails and changes nothing at the largest
value. -/
def increment (counter : ℤ) : ℤ := if counter = intMax then counter else counter + 1

/-- The inner loop of `GP_MATRIX_CREATE` for a number of rounds: whether it runs to
its end, or `none` if it is not over. -/
def matrixChannels (server : ℤ) (maxChannel : Option ℤ) : ℕ → ℤ → Procedure (Option Bool)
  | 0, channel => pure (if compares (· ≤ ·) (some channel) maxChannel then none else some true)
  | n + 1, channel =>
    if compares (· ≤ ·) (some channel) maxChannel then do
      let found ← read fun d =>
        d.tbMatrix.any fun r => r.val.serverNum == server && r.val.channelNum == channel
      if found then matrixChannels server maxChannel n (increment channel)
      else do
        let inserted ← write fun d =>
          let (t, b) := d.tbMatrix.insert (some ⟨server, channel⟩)
          ({ d with tbMatrix := t }, b)
        if inserted then matrixChannels server maxChannel n (increment channel)
        else pure (some false)
    else pure (some true)

/-- The outer loop. -/
def matrixServers (maxServer maxChannel : Option ℤ) : ℕ → ℤ → Procedure (Option Bool)
  | 0, server => pure (if compares (· ≤ ·) (some server) maxServer then none else some true)
  | n + 1, server =>
    if compares (· ≤ ·) (some server) maxServer then do
      let finished ← matrixChannels server maxChannel (maxChannel.getD 0).toNat 1
      if finished = some true then matrixServers maxServer maxChannel n (increment server)
      else pure finished
    else pure (some true)

/-- The result is `@RETVALUE`. There is none where a loop has no end: its bound is the
largest value of the counter. -/
def gpMatrixCreate (maxServer maxChannel : Option ℤ) : Procedure (Option ℤ) := do
  let finished ← matrixServers maxServer maxChannel (maxServer.getD 0).toNat 1
  pure (finished.map fun b => if b then 0 else -1)

/-- `@MAX_SERVER` and `@MAX_CHANNEL`. -/
def gpMatrixSelect : Procedure (Option ℤ × Option ℤ) :=
  read fun d => ((d.tbMatrix.rows.map (·.val.serverNum)).max?,
    (d.tbMatrix.rows.map (·.val.channelNum)).max?)

/-- The output parameters of `GP_CHANNEL_CHECK`. -/
structure ChannelCheck where
  serverName : Option String
  serverDesc : Option String
  channelNum : Option ℤ
  retvalue : ℤ
  deriving DecidableEq, Repr

/-- The row of `TB_CHANNEL` is for this channel of this server. -/
def ofChannel (serverNum channelNum : Option ℤ) (r : Row TbChannel) : Bool :=
  serverNum == some r.val.serverNum && channelNum == some r.val.channelNum

def Database.hasChannel (d : Database) (serverNum channelNum : Option ℤ) : Bool :=
  d.tbChannel.any (ofChannel serverNum channelNum)

/-- The least number among the channels of the server that are not registered. -/
def Database.freeChannel (d : Database) (serverNum : Option ℤ) : Option ℤ :=
  ((d.tbMatrix.select fun m => serverNum == some m.val.serverNum &&
    !d.hasChannel (some m.val.serverNum) (some m.val.channelNum)).map (·.val.channelNum)).min?

/-- The row that `GP_CHANNEL_CHECK` inserts; only `IPV4` may be NULL. -/
def channelRow (serverNum channelNum : Option ℤ) (inetNum : Option String)
    (ipv4 port : Option ℤ) : Option TbChannel := do
  let s ← serverNum
  let c ← channelNum
  let i ← inetNum
  let p ← port
  some ⟨s, c, i, ipv4, p, 0⟩

def insertChannel (reply : ChannelCheck) (serverNum : Option ℤ) (inetNum : Option String)
    (ipv4 port : Option ℤ) : Procedure ChannelCheck := do
  let inserted ← write fun d =>
    let (t, b) := d.tbChannel.insert (channelRow serverNum reply.channelNum inetNum ipv4 port)
    ({ d with tbChannel := t }, b)
  pure { reply with retvalue := if inserted then 0 else 4 }

/-- The name and the description are `nvarchar` in the table and `varchar` in the parameters. -/
def gpChannelCheck (L : Collation) (serverNum : Option ℤ) (serverName serverDesc : Option String)
    (channelNum : Option ℤ) (inetNum : Option String) (ipv4 port : Option ℤ) :
    Procedure ChannelCheck := do
  let server ← read fun d => (d.tbServer.select fun r => serverNum == some r.id).head?
  match server with
  | none => pure ⟨serverName, serverDesc, channelNum, 1⟩
  | some r =>
    let reply : ChannelCheck := ⟨some (L.varchar 50 r.val.name),
      r.val.description.map (L.varchar 200), channelNum, 0⟩
    -- a channel that is NULL is treated as one that is 0
    if compares (· != ·) channelNum (some 0) then do
      let used ← read fun d => d.hasChannel serverNum channelNum
      if used then pure { reply with retvalue := 2 }
      else insertChannel reply serverNum inetNum ipv4 port
    else do
      let free ← read fun d => d.freeChannel serverNum
      let reply := ChannelCheck.mk reply.serverName reply.serverDesc (free.or channelNum) 0
      if reply.channelNum == some 0 then pure { reply with retvalue := 3 }
      else insertChannel reply serverNum inetNum ipv4 port

/-- The result is `@RETVALUE`. A status that is NULL makes the update fail. -/
def gpChannelUpdate (serverNum channelNum status : Option ℤ) : Procedure ℤ :=
  write fun d =>
    let p := ofChannel serverNum channelNum
    match status with
    | none => (d, 1)
    | some st => ({ d with tbChannel := d.tbChannel.update p fun c => { c with status := st } },
        if d.tbChannel.count p = 1 then 0 else 1)

def gpServerDown (serverNum channelNum : Option ℤ) : Procedure Unit :=
  write fun d =>
    ({ d with tbChannel := d.tbChannel.delete (ofChannel serverNum channelNum) }, ())

/-! ## The free channels -/

theorem channelRow_eq_some {serverNum channelNum ipv4 port : Option ℤ} {inetNum : Option String}
    {r : TbChannel} (h : channelRow serverNum channelNum inetNum ipv4 port = some r) :
    serverNum = some r.serverNum ∧ channelNum = some r.channelNum := by
  cases serverNum <;> cases channelNum <;> cases inetNum <;> cases port <;>
    simp [channelRow] at h ⊢
  subst h
  exact ⟨rfl, rfl⟩

section
variable {d : Database} {s c : ℤ}

theorem hasChannel_eq_true : d.hasChannel (some s) (some c) = true ↔
    ∃ r ∈ d.tbChannel.rows, s = r.val.serverNum ∧ c = r.val.channelNum := by
  simp [Database.hasChannel, Table.any_eq_true, ofChannel]

/-- The server may have the channel and does not have it. -/
def Database.IsFree (d : Database) (s c : ℤ) : Prop :=
  (∃ m ∈ d.tbMatrix.rows, m.val = ⟨s, c⟩) ∧ d.hasChannel (some s) (some c) = false

theorem mem_freeChannels : c ∈ (d.tbMatrix.select fun m => some s == some m.val.serverNum &&
    !d.hasChannel (some m.val.serverNum) (some m.val.channelNum)).map (·.val.channelNum) ↔
      d.IsFree s c := by
  simp only [Table.select, List.mem_map, List.mem_filter, Bool.and_eq_true, Bool.not_eq_true',
    beq_iff_eq, Option.some.injEq, Database.IsFree]
  constructor
  · rintro ⟨m, ⟨hm, rfl, hfree⟩, rfl⟩
    exact ⟨⟨m, hm, rfl⟩, hfree⟩
  · rintro ⟨⟨m, hm, hv⟩, hfree⟩
    exact ⟨m, ⟨hm, by rw [hv], by rwa [hv]⟩, by rw [hv]⟩

theorem freeChannel_eq_some :
    d.freeChannel (some s) = some c ↔ d.IsFree s c ∧ ∀ c', d.IsFree s c' → c ≤ c' := by
  rw [Database.freeChannel, List.min?_eq_some_iff]
  simp only [mem_freeChannels]

theorem freeChannel_eq_none : d.freeChannel (some s) = none ↔ ∀ c, ¬ d.IsFree s c := by
  rw [Database.freeChannel, List.min?_eq_none_iff, List.eq_nil_iff_forall_not_mem]
  simp only [mem_freeChannels]

end

/-! ## What the procedures leave alone -/

section
variable {τ : Type} {π : Database → τ}

theorem matrixChannels_leaves (h : ∀ d t, π { d with tbMatrix := t } = π d) (server : ℤ)
    (maxChannel : Option ℤ) (n : ℕ) (channel : ℤ) :
    (matrixChannels server maxChannel n channel).Leaves π := by
  induction n generalizing channel with
  | zero => trivial
  | succ n ih => simp [matrixChannels, h, ih]

theorem matrixServers_leaves (h : ∀ d t, π { d with tbMatrix := t } = π d)
    (maxServer maxChannel : Option ℤ) (n : ℕ) (server : ℤ) :
    (matrixServers maxServer maxChannel n server).Leaves π := by
  induction n generalizing server with
  | zero => trivial
  | succ n ih =>
    simp only [matrixServers, leaves_ite]
    refine ⟨fun _ => (matrixChannels_leaves h server maxChannel _ 1).bind fun finished => ?_,
      fun _ => trivial⟩
    simp [ih]

theorem gpMatrixCreate_leaves (h : ∀ d t, π { d with tbMatrix := t } = π d)
    (maxServer maxChannel : Option ℤ) : (gpMatrixCreate maxServer maxChannel).Leaves π :=
  (matrixServers_leaves h maxServer maxChannel _ 1).bind fun _ => trivial

theorem gpChannelCheck_leaves (L : Collation) (h : ∀ d t, π { d with tbChannel := t } = π d)
    (serverNum : Option ℤ) (serverName serverDesc : Option String) (channelNum : Option ℤ)
    (inetNum : Option String) (ipv4 port : Option ℤ) :
    (gpChannelCheck L serverNum serverName serverDesc channelNum inetNum ipv4 port).Leaves π := by
  simp only [gpChannelCheck, insertChannel, read_bind, write_bind, leaves_stmt]
  intro d
  refine ⟨rfl, ?_⟩
  cases (d.tbServer.select fun r => serverNum == some r.id).head? <;> simp [h]

theorem gpChannelUpdate_leaves (h : ∀ d t, π { d with tbChannel := t } = π d)
    (serverNum channelNum status : Option ℤ) :
    (gpChannelUpdate serverNum channelNum status).Leaves π := by
  cases status <;> simp [gpChannelUpdate, h]

theorem gpServerDown_leaves (h : ∀ d t, π { d with tbChannel := t } = π d)
    (serverNum channelNum : Option ℤ) : (gpServerDown serverNum channelNum).Leaves π := by
  simp [gpServerDown, h]

end

end Xiaoxin.Sql
