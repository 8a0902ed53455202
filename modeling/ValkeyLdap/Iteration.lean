/-
# An iteration has one result

The checks of a failure-detector iteration run interleaved, each with locks of
its own and awaits between them. What a check will write follows from where it
is and what the network is going to answer (`Check.pending`), and no step but
its own changes that, or the entry it writes (`Check.Follows.frame`). So the table
at the end is the one that the outcomes assigned to the servers make of the
table at the beginning, entry by entry, whatever the order of the steps, and an
iteration gets there unless a check waits for ever (`iteration_has_one_result`),
as one does whose pool is dead (`iteration_waits_for_ever`).

Key theorems: `Check.step_pending`, `Check.step_within`, `Check.Follows.step`,
`iterating_step`, `table_of_joined`.
-/
import ValkeyLdap.Delivery
import ValkeyLdap.Health
import ValkeyLdap.StatusUpdates

namespace ValkeyLdap
namespace System

open Runs

/-! ### What a check will write -/

/-- What the network answers to the check of a server: to the ping, to the
attempt to connect, and to the refresh of the pool, as its result. -/
structure Outcomes where
  ping : Result Duration
  connect : Result Unit
  refresh : Result Unit
  deriving DecidableEq, Repr

/-- The entry that the outcomes make of `server`. -/
def Outcomes.entry (o : Outcomes) (server : VkLdapServer) : VkLdapServer :=
  match server.status with
  | .healthy =>
    match o.ping with
    | .ok time => { server with status := .healthy, pingTime := some time }
    | .error err => { server with status := .unhealthy err.toString, pingTime := none }
  | .unhealthy _ =>
    match o.connect, o.ping, o.refresh with
    | .error err, _, _ => { server with status := .unhealthy err.toString, pingTime := none }
    | .ok (), .error _, _ => server
    | .ok (), .ok _, .ok () => { server with status := .healthy, pingTime := none }
    | .ok (), .ok _, .error err =>
      { server with status := .unhealthy err.toString, pingTime := none }

section
variable (o : Outcomes) (server : VkLdapServer)

def Outcomes.afterPing : Option Update := some ⟨server, statusOf o.ping, o.ping.toOption⟩

def Outcomes.afterRefresh : Option Update := some ⟨server, statusOf o.refresh, none⟩

def Outcomes.afterPingNew : Option Update :=
  match o.ping with
  | .ok _ => o.afterRefresh server
  | .error _ => none

def Outcomes.afterConnect : Option Update :=
  match o.connect with
  | .ok () => o.afterPingNew server
  | .error err => some ⟨server, .unhealthy err.toString, none⟩

/-- The call to `update_server_status` that the check has still to make. -/
def Check.pending : Check → Option Update
  | .start => if server.isHealthy then o.afterPing server else o.afterConnect server
  | .take _ _ => o.afterPing server
  | .ping _ => o.afterPing server
  | .giveBack _ res => some ⟨server, statusOf res, res.toOption⟩
  | .put _ _ res => some ⟨server, statusOf res, res.toOption⟩
  | .report res _ => some ⟨server, statusOf res, res.toOption⟩
  | .connect _ => o.afterConnect server
  | .pingNew => o.afterPingNew server
  | .reportConnect err => some ⟨server, .unhealthy err.toString, none⟩
  | .refresh .lookup => o.afterRefresh server
  | .refresh (.reset _ _) => o.afterRefresh server
  | .refresh (.report res _) => some ⟨server, statusOf res, none⟩
  | .done => none

end

/-- The entry once the call has been made. -/
def Update.entry (cur : VkLdapServer) : Option Update → VkLdapServer
  | none => cur
  | some u => VkLdapContext.written cur u.status u.pingTime

/-- A check that begins will make of the entry what the outcomes do. -/
theorem entry_start (o : Outcomes) (server : VkLdapServer) :
    Update.entry server (Check.start.pending o server) = o.entry server := by
  rw [Check.pending, Outcomes.entry, VkLdapServer.isHealthy]
  cases server.status with
  | healthy =>
    show Update.entry server (o.afterPing server) = _
    rw [Outcomes.afterPing]
    cases o.ping with
    | ok time => rfl
    | error err => rfl
  | unhealthy msg =>
    show Update.entry server (o.afterConnect server) = _
    rw [Outcomes.afterConnect]
    cases o.connect with
    | error err => rfl
    | ok u =>
      show Update.entry server (o.afterPingNew server) = _
      rw [Outcomes.afterPingNew]
      cases o.ping with
      | error err => rfl
      | ok time =>
        show Update.entry server (o.afterRefresh server) = _
        rw [Outcomes.afterRefresh]
        cases o.refresh with
        | ok u => rfl
        | error err => rfl

/-- The network's answers to the step are those assigned. -/
def Check.Answered (o : Outcomes) (m : Mem) (net : Net) : Check → Prop
  | .ping _ => net.ping = o.ping
  | .connect _ => net.connect 0 = o.connect
  | .pingNew => net.ping = o.ping
  | .refresh (.reset pool settings) => ∀ p, m.pools[pool]? = some p →
      (p.refreshConnections settings net.connect).2 = o.refresh
  | _ => True

instance (o : Outcomes) (m : Mem) (net : Net) : (pc : Check) → Decidable (pc.Answered o m net)
  | .ping _ => inferInstanceAs (Decidable (net.ping = o.ping))
  | .connect _ => inferInstanceAs (Decidable (net.connect 0 = o.connect))
  | .pingNew => inferInstanceAs (Decidable (net.ping = o.ping))
  | .refresh (.reset pool settings) => inferInstanceAs (Decidable (∀ p ∈ m.pools[pool]?,
      (p.refreshConnections settings net.connect).2 = o.refresh))
  | .start => .isTrue trivial
  | .take _ _ => .isTrue trivial
  | .giveBack _ _ => .isTrue trivial
  | .put _ _ _ => .isTrue trivial
  | .report _ _ => .isTrue trivial
  | .reportConnect _ => .isTrue trivial
  | .refresh .lookup => .isTrue trivial
  | .refresh (.report _ _) => .isTrue trivial
  | .done => .isTrue trivial

section
variable {o : Outcomes} {m m' : Mem} {net : Net} {server : VkLdapServer} {pc pc' : Check}
  {spawned : List Task} {k : ℕ}

theorem updates_server {u : Update} (h : pc.updates server = some u) : u.server = server := by
  unfold Check.updates Refresh.updates at h
  split at h
  · obtain rfl := Option.some.inj h
    rfl
  · obtain rfl := Option.some.inj h
    rfl
  · split at h
    · obtain rfl := Option.some.inj h
      rfl
    · cases h
  · cases h

/-- **A step of a check makes the pending call, or leaves it pending.** -/
theorem Check.step_pending (h : pc.step m net server = some (m', .go pc' spawned))
    (ho : pc.Answered o m net) :
    (pc.updates server = none ∧ pc'.pending o server = pc.pending o server) ∨
      (pc.updates server = pc.pending o server ∧ pc'.pending o server = none) := by
  -- the moves leave out what the network answered, so the step itself is taken apart
  cases pc with
  | start =>
    simp only [Check.step] at h
    split at h
    · rename_i hh
      split at h <;> cases h
      exact Or.inl ⟨rfl, (if_pos hh).symm⟩
    · rename_i hh
      cases h
      exact Or.inl ⟨rfl, (if_neg hh).symm⟩
  | take pool seen =>
    simp only [Check.step] at h
    split at h <;> cases h
    · exact Or.inl ⟨rfl, rfl⟩
    · exact Or.inl ⟨rfl, rfl⟩
  | ping conn =>
    cases h
    refine Or.inl ⟨rfl, ?_⟩
    have ho : net.ping = o.ping := ho
    rw [Check.pending, ho]
    rfl
  | giveBack conn res =>
    simp only [Check.step] at h
    split at h <;> cases h
    exact Or.inl ⟨rfl, rfl⟩
  | put pool conn res =>
    simp only [Check.step] at h
    split at h <;> cases h
    exact Or.inl ⟨rfl, rfl⟩
  | report res asOf =>
    cases h
    exact Or.inr ⟨rfl, rfl⟩
  | connect settings =>
    have ho : net.connect 0 = o.connect := ho
    have hpending : (Check.connect settings).pending o server = o.afterConnect server := rfl
    rw [hpending, Outcomes.afterConnect, ← ho]
    simp only [Check.step] at h
    cases hc : net.connect 0 with
    | ok u =>
      simp only [hc, Option.some.injEq, Prod.mk.injEq, Next.go.injEq] at h
      obtain ⟨-, rfl, -⟩ := h
      exact Or.inl ⟨rfl, rfl⟩
    | error err =>
      simp only [hc, Option.some.injEq, Prod.mk.injEq, Next.go.injEq] at h
      obtain ⟨-, rfl, -⟩ := h
      exact Or.inl ⟨rfl, rfl⟩
  | pingNew =>
    have ho : net.ping = o.ping := ho
    have hpending : Check.pingNew.pending o server = o.afterPingNew server := rfl
    rw [hpending, Outcomes.afterPingNew, ← ho]
    simp only [Check.step] at h
    cases hping : net.ping with
    | ok time =>
      simp only [hping, Option.some.injEq, Prod.mk.injEq, Next.go.injEq] at h
      obtain ⟨-, rfl, -⟩ := h
      exact Or.inl ⟨rfl, rfl⟩
    | error err =>
      simp only [hping, Option.some.injEq, Prod.mk.injEq, Next.go.injEq] at h
      obtain ⟨-, rfl, -⟩ := h
      exact Or.inl ⟨rfl, rfl⟩
  | reportConnect err =>
    cases h
    exact Or.inr ⟨rfl, rfl⟩
  | refresh r =>
    cases r with
    | lookup =>
      simp only [Check.step, Refresh.step] at h
      cases hp : m.ctx.getConnectionPool server with
      | none => simp [hp] at h
      | some pool =>
        simp only [hp, Option.some.injEq, Prod.mk.injEq, Next.go.injEq] at h
        obtain ⟨-, rfl, -⟩ := h
        exact Or.inl ⟨rfl, rfl⟩
    | reset pool settings =>
      simp only [Check.step, Refresh.step] at h
      cases hp : m.pools[pool]? with
      | none => simp [hp] at h
      | some p =>
        simp only [hp, Option.some.injEq, Prod.mk.injEq, Next.go.injEq] at h
        obtain ⟨-, rfl, -⟩ := h
        refine Or.inl ⟨rfl, ?_⟩
        have ho : (p.refreshConnections settings net.connect).2 = o.refresh := ho p hp
        rw [Check.pending, ho]
        rfl
    | report res asOf =>
      cases h
      exact Or.inr ⟨rfl, rfl⟩
  | done => cases h

/-! ### What a check touches -/

/-- The check works on pool `k`, on connections of its server. -/
def Check.Within (server : VkLdapServer) (k : ℕ) : Check → Prop
  | .take pool _ => pool = k
  | .ping conn => conn.server.id = server.id
  | .giveBack conn _ => conn.server.id = server.id
  | .put pool conn _ => pool = k ∧ conn.server.id = server.id
  | .refresh (.reset pool _) => pool = k
  | _ => True

/-- **A check whose server has a pool goes on, and touches no other pool.** -/
theorem Check.step_within {next : Next Task} (h : Task.Move m (.check server pc) m' next)
    (hk : m.ctx.connPools[server.id]? = some k) (hpool : m.PoolAt k server.id)
    (hw : pc.Within server k) :
    ∃ pc', next = .go (.check server pc') [] ∧ pc'.Within server k ∧
      ∀ k', k' ≠ k → m'.pools[k']? = m.pools[k']? := by
  have hfound {pool : ℕ} (hp : m.ctx.connPools[server.id]? = some pool) : pool = k :=
    Option.some.inj (hp.symm.trans hk)
  have hlost (hn : m.ctx.connPools[server.id]? = none) : False := by
    rw [hk] at hn
    cases hn
  cases h with
  | checkFind _ hp => exact ⟨_, rfl, hfound hp, fun _ _ => rfl⟩
  | checkLost _ hn => exact (hlost hn).elim
  | checkConnect => exact ⟨_, rfl, trivial, fun _ _ => rfl⟩
  | checkTake hp _ ht =>
    obtain rfl := hw
    exact ⟨_, rfl, takeConnection_id hp ht hpool, fun _ hne => Mem.setPool_ne hne.symm _⟩
  | checkWait => exact ⟨_, rfl, hw, fun _ _ => rfl⟩
  | ping => exact ⟨_, rfl, hw, fun _ _ => rfl⟩
  | giveBack hp =>
    have hid : _ = server.id := hw
    rw [hid] at hp
    exact ⟨_, rfl, ⟨hfound hp, hw⟩, fun _ _ => rfl⟩
  | giveBackLost hn =>
    have hid : _ = server.id := hw
    rw [hid] at hn
    exact (hlost hn).elim
  | put hp =>
    obtain ⟨rfl, -⟩ := hw
    exact ⟨_, rfl, trivial, fun _ hne => Mem.setPool_ne hne.symm _⟩
  | report => exact ⟨_, rfl, trivial, fun _ _ => rfl⟩
  | connected => exact ⟨_, rfl, trivial, fun _ _ => rfl⟩
  | connectFailed => exact ⟨_, rfl, trivial, fun _ _ => rfl⟩
  | pinged => exact ⟨_, rfl, trivial, fun _ _ => rfl⟩
  | pingFailed => exact ⟨_, rfl, trivial, fun _ _ => rfl⟩
  | reportConnect => exact ⟨_, rfl, trivial, fun _ _ => rfl⟩
  | refreshLookup hp => exact ⟨_, rfl, hfound hp, fun _ _ => rfl⟩
  | refreshLost hn => exact (hlost hn).elim
  | refreshReset hp =>
    obtain rfl := hw
    exact ⟨_, rfl, trivial, fun _ hne => Mem.setPool_ne hne.symm _⟩
  | refreshReport => exact ⟨_, rfl, trivial, fun _ _ => rfl⟩

theorem Check.Within.linked (h : pc.Within server k) (hpool : m.PoolAt k server.id) :
    pc.Linked m server := by
  cases pc with
  | take pool seen =>
    obtain rfl := h
    exact hpool
  | put pool conn res =>
    obtain ⟨rfl, hid⟩ := h
    exact ⟨hid, hpool⟩
  | refresh r =>
    cases r with
    | reset pool settings =>
      obtain rfl := h
      exact hpool
    | _ => trivial
  | ping conn => exact h
  | giveBack conn res => exact h
  | _ => trivial

/-- The check follows the outcomes: it has its server's pool, and will leave
the entry that they make of its server. -/
structure Check.Follows (o : Outcomes) (m : Mem) (server : VkLdapServer) (pc : Check) : Prop where
  entry : ∃ cur, m.ctx.servers[server.id]? = some cur ∧
    Update.entry cur (pc.pending o server) = o.entry server
  pool : ∃ k, m.ctx.connPools[server.id]? = some k ∧ m.PoolAt k server.id ∧ pc.Within server k

/-- Whatever leaves the entry and the pool's number, leaves that. -/
theorem Check.Follows.frame (h : pc.Follows o m server)
    (hentry : m'.ctx.servers[server.id]? = m.ctx.servers[server.id]?)
    (hpools : m'.ctx.connPools[server.id]? = m.ctx.connPools[server.id]?) (hm : m.Extends m') :
    pc.Follows o m' server := by
  obtain ⟨cur, hcur, he⟩ := h.entry
  obtain ⟨k, hk, hpool, hw⟩ := h.pool
  exact ⟨⟨cur, hentry.trans hcur, he⟩, k, hpools.trans hk, hpool.extends hm, hw⟩

theorem Task.step_check (h : (Task.check server pc).step m net =
    some (m', .go (.check server pc') spawned)) :
    pc.step m net server = some (m', .go pc' spawned) := by
  simp only [Task.step] at h
  split at h <;> cases h
  assumption

/-- The step of a check writes its own entry, if any, and as is pending. -/
theorem Check.step_entry (hs : (Task.check server pc).step m net =
      some (m', .go (.check server pc') spawned)) (ho : pc.Answered o m net)
    (h : ∃ cur, m.ctx.servers[server.id]? = some cur ∧
      Update.entry cur (pc.pending o server) = o.entry server) :
    (∃ cur, m'.ctx.servers[server.id]? = some cur ∧
      Update.entry cur (pc'.pending o server) = o.entry server) ∧
      ∀ j, j ≠ server.id → m'.ctx.servers[j]? = m.ctx.servers[j]? := by
  obtain ⟨cur, hcur, he⟩ := h
  have hwrite := (Task.step_move hs).updates
  have hkeep (hnone : pc.updates server = none)
      (hsame : pc'.pending o server = pc.pending o server) :
      (∃ cur, m'.ctx.servers[server.id]? = some cur ∧
        Update.entry cur (pc'.pending o server) = o.entry server) ∧
        ∀ j, j ≠ server.id → m'.ctx.servers[j]? = m.ctx.servers[j]? := by
    rw [show (Task.check server pc).updates = none from hnone] at hwrite
    have hctx : m'.ctx = m.ctx := hwrite
    rw [hctx, hsame]
    exact ⟨⟨cur, hcur, he⟩, fun _ _ => rfl⟩
  rcases Check.step_pending (Task.step_check hs) ho with ⟨hnone, hsame⟩ | ⟨hcall, hdone⟩
  · exact hkeep hnone hsame
  · cases hu : pc.pending o server with
    | none => exact hkeep (hcall.trans hu) (hdone.trans hu.symm)
    | some u =>
      rw [show (Task.check server pc).updates = some u from hcall.trans hu] at hwrite
      have hserver : u.server = server := updates_server (hcall.trans hu)
      have hservers := u.apply_servers m
      rw [← hwrite, hserver] at hservers
      rw [hservers, hdone]
      refine ⟨⟨VkLdapContext.written cur u.status u.pingTime, ?_, ?_⟩, fun j hj => ?_⟩
      · rw [List.getElem?_modify_eq, hcur]
        rfl
      · rw [← he, hu]
        rfl
      · exact List.getElem?_modify_ne _ _ (Ne.symm hj)

/-- **The step of a check** writes no other entry and touches no other pool. -/
theorem Check.Follows.step {next : Next Task} (h : pc.Follows o m server)
    (hs : (Task.check server pc).step m net = some (m', next)) (ho : pc.Answered o m net) :
    ∃ pc', next = .go (.check server pc') [] ∧ pc'.Follows o m' server ∧
      (∀ j, j ≠ server.id → m'.ctx.servers[j]? = m.ctx.servers[j]?) ∧
      ∀ k, m.ctx.connPools[server.id]? ≠ some k → m'.pools[k]? = m.pools[k]? := by
  obtain ⟨k, hk, hpool, hw⟩ := h.pool
  have hmove := Task.step_move hs
  obtain ⟨pc', rfl, hw', hpools⟩ := Check.step_within hmove hk hpool hw
  obtain ⟨hentry, hothers⟩ := Check.step_entry hs ho h.entry
  have hlist : m'.ctx.connPools[server.id]? = some k := by rw [hmove.shape.connPools, hk]
  refine ⟨pc', rfl, ⟨hentry, k, hlist, hpool.extends hmove.shape.extends, hw'⟩, hothers, ?_⟩
  intro k' hne
  apply hpools k'
  rintro rfl
  exact hne hk

end

/-! ### The pools of the servers -/

section
variable {s s' : State} {a : Act} {spawned : List Task}

theorem Main.Move.connPools {m m' : Mem} {main main' : Main} (h : main.Move m m' main' spawned)
    (hsame : m'.ctx.servers = m.ctx.servers) (hne : m.ctx.servers ≠ []) :
    m'.ctx.connPools = m.ctx.connPools := by
  cases h with
  | clear => exact absurd hsame.symm hne
  | list =>
    have hlen := congrArg List.length hsame
    simp [Mem.listServer, VkLdapContext.addServer] at hlen
  | refreshReport => exact (Mem.SameShape.updateServerStatus m _ _ _).connPools
  | _ => rfl

/-- A step that leaves the table leaves the numbers of its pools. -/
theorem connPools_step (h : s.step a = some s')
    (hsame : s'.mem.ctx.servers = s.mem.ctx.servers) (hne : s.mem.ctx.servers ≠ []) :
    s'.mem.ctx.connPools = s.mem.ctx.connPools := by
  rcases State.step_cases h with ⟨i, net, rfl⟩ | ⟨net, rfl⟩ | hother
  · obtain ⟨t, m', -, ⟨t', spawned, hmove, rfl⟩ | ⟨hmove, rfl⟩⟩ := State.step_task h
    · exact hmove.shape.connPools
    · exact hmove.shape.connPools
  · obtain ⟨m', main, spawned, hmove, rfl⟩ := State.step_main h
    exact hmove.connPools hsame hne
  · rw [hother.mem_eq]

end

/-! ### A step of the iteration -/

/-- Nothing else changes the table while the iteration runs: the network
answers the checks as assigned, a step of anybody else leaves the servers as
they are, and the iteration is not over. -/
structure Undisturbed (out : ℕ → Outcomes) (s : State) (a : Act) : Prop where
  answered : ∀ (i : ℕ) (net : Net) (server : VkLdapServer) (pc : Check), a = .task i net →
    s.tasks[i]? = some (.check server pc) → pc.Answered (out server.id) s.mem net
  table : (∀ i net, a = .task i net → s.checksAt i = none) → ∀ s', s.step a = some s' →
    s'.mem.ctx.servers = s.mem.ctx.servers
  going : a ≠ .deliver

/-- An iteration under way: each server is checked by one task, which follows
the outcomes. -/
structure State.Iterating (out : ℕ → Outcomes) (s : State) : Prop where
  waiting : s.detector = .waiting
  follows : ∀ (i : ℕ) (server : VkLdapServer) (pc : Check),
    s.tasks[i]? = some (.check server pc) → pc.Follows (out server.id) s.mem server
  once : ∀ i j e f, s.checksAt i = some e → s.checksAt j = some f → e.id = f.id → i = j
  each : ∀ j < s.mem.ctx.servers.length, ∃ i e, s.checksAt i = some e ∧ e.id = j

section
variable {out : ℕ → Outcomes} {s s' : State} {a : Act} {i : ℕ} {net : Net} {e : VkLdapServer}
  {pc : Check}

/-- What the step of a check does to the system. -/
theorem State.Iterating.check (hi : s.Iterating out) (hu : Undisturbed out s (.task i net))
    (ht : s.tasks[i]? = some (.check e pc)) (h : s.step (.task i net) = some s') :
    ∃ m' pc', (Task.check e pc).Move s.mem m' (.go (.check e pc') []) ∧
      s' = { s with mem := m', tasks := s.tasks.set i (.check e pc') ++ [] } ∧
      pc'.Follows (out e.id) m' e ∧
      (∀ j, j ≠ e.id → m'.ctx.servers[j]? = s.mem.ctx.servers[j]?) ∧
      ∀ k, s.mem.ctx.connPools[e.id]? ≠ some k → m'.pools[k]? = s.mem.pools[k]? := by
  obtain ⟨t, m', ht', hgo⟩ := State.step_task_step h
  obtain rfl := Option.some.inj (ht.symm.trans ht')
  have hstep {next : Next Task} (hs : (Task.check e pc).step s.mem net = some (m', next)) :=
    (hi.follows i e pc ht).step hs (hu.answered i net e pc rfl ht)
  rcases hgo with ⟨t', spawned, hs, rfl⟩ | ⟨hs, -⟩
  · obtain ⟨pc', hnext, hfollows, hothers, hpools⟩ := hstep hs
    obtain ⟨rfl, rfl⟩ := Next.go.inj hnext
    exact ⟨m', pc', Task.step_move hs, rfl, hfollows, hothers, hpools⟩
  · obtain ⟨pc', hnext, -⟩ := hstep hs
    cases hnext

theorem iterating_check (hi : s.Iterating out) (hu : Undisturbed out s (.task i net))
    (ht : s.tasks[i]? = some (.check e pc)) (h : s.step (.task i net) = some s') :
    s'.Iterating out ∧ (∀ j, s'.checksAt j = s.checksAt j) ∧
      s'.mem.ctx.servers.length = s.mem.ctx.servers.length := by
  obtain ⟨m', pc', hmove, rfl, hfollows, hothers, -⟩ := hi.check hu ht h
  have hchecks : ∀ j, (s.tasks.set i (.check e pc') ++ [])[j]?.bind Task.checks? = s.checksAt j :=
    checks?_go ht rfl (by simp)
  have hlength : m'.ctx.servers.length = s.mem.ctx.servers.length := by
    have hkeys := congrArg List.length hmove.shape.servers
    rwa [List.length_map, List.length_map] at hkeys
  have hchecked : s.checksAt i = some e := checksAt_eq_some.mpr ⟨pc, ht⟩
  refine ⟨⟨hi.waiting, fun j f pd hj => ?_, fun j j' f f' hf hf' => ?_, fun j hj => ?_⟩, hchecks,
    hlength⟩
  · have hf := hchecks j
    rw [hj] at hf
    by_cases hij : i = j
    · subst hij
      rw [List.append_nil, List.getElem?_set_self (List.getElem?_eq_some_iff.mp ht).1] at hj
      cases hj
      exact hfollows
    · rw [List.append_nil, List.getElem?_set_ne hij] at hj
      have hid : f.id ≠ e.id := fun hid => hij (hi.once i j e f hchecked hf.symm hid.symm)
      exact (hi.follows j f pd hj).frame (hothers _ hid) (by rw [hmove.shape.connPools])
        hmove.shape.extends
  · exact hi.once j j' f f' ((hchecks j).symm.trans hf) ((hchecks j').symm.trans hf')
  · obtain ⟨j', f, hf, hid⟩ := hi.each j (hlength ▸ hj)
    exact ⟨j', f, (hchecks j').trans hf, hid⟩

theorem iterating_other (hi : s.Iterating out) (hu : Undisturbed out s a)
    (hother : ∀ i net, a = .task i net → s.checksAt i = none) (h : s.step a = some s') :
    s'.Iterating out ∧ (∀ j, s'.checksAt j = s.checksAt j) ∧
      s'.mem.ctx.servers.length = s.mem.ctx.servers.length := by
  obtain ⟨hwaiting, hchecks, htasks⟩ := checks_step h hother hi.waiting hu.going
  have hsame := hu.table hother s' h
  refine ⟨⟨hwaiting, fun j e pc hj => ?_, fun j j' e f he hf => ?_, fun j hj => ?_⟩, hchecks,
    by rw [hsame]⟩
  · have he : s.checksAt j = some e := by
      rw [← hchecks j]
      exact checksAt_eq_some.mpr ⟨pc, hj⟩
    obtain ⟨pd, hpd⟩ := checksAt_eq_some.mp he
    have hpc := (htasks j e pd hpd).symm.trans hj
    cases hpc
    have hfollows := hi.follows j e pc hpd
    have hne : s.mem.ctx.servers ≠ [] := by
      obtain ⟨cur, hcur, -⟩ := hfollows.entry
      exact List.ne_nil_of_mem (List.mem_of_getElem? hcur)
    exact hfollows.frame (by rw [hsame]) (by rw [connPools_step h hsame hne]) (State.step_extends h)
  · exact hi.once j j' e f ((hchecks j).symm.trans he) ((hchecks j').symm.trans hf)
  · obtain ⟨j', f, hf, hid⟩ := hi.each j (hsame ▸ hj)
    exact ⟨j', f, (hchecks j').trans hf, hid⟩

/-- **A step of an undisturbed iteration** keeps it going, with the same
checks of the same servers. -/
theorem iterating_step (hi : s.Iterating out) (hu : Undisturbed out s a) (h : s.step a = some s') :
    s'.Iterating out ∧ (∀ j, s'.checksAt j = s.checksAt j) ∧
      s'.mem.ctx.servers.length = s.mem.ctx.servers.length := by
  by_cases hother : ∀ i net, a = .task i net → s.checksAt i = none
  · exact iterating_other hi hu hother h
  · simp only [not_forall] at hother
    obtain ⟨i, net, rfl, hsome⟩ := hother
    obtain ⟨e, he⟩ := Option.ne_none_iff_exists'.mp hsome
    obtain ⟨pc, ht⟩ := checksAt_eq_some.mp he
    exact iterating_check hi hu ht h

/-! ### The whole iteration -/

/-- The ids of the servers are their positions, and each has a pool made for
it. -/
def Mem.Positioned (m : Mem) : Prop :=
  ∀ (j : ℕ) (e : VkLdapServer), m.ctx.servers[j]? = some e →
    e.id = j ∧ ∃ k, m.ctx.connPools[j]? = some k ∧ m.PoolAt k j

theorem Aligned.positioned {m : Mem} (h : Aligned m) : m.Positioned := by
  intro j e he
  obtain ⟨hid, k, p, hk, -⟩ := h.entry j e he
  exact ⟨hid, k, hk, h.poolAt hk⟩

/-- Whenever an iteration begins, the table is in order and no check is left. -/
theorem ready_run {ls : VkLdapSettings} {cs : VkConnectionSettings} {tr : List (State × Act)}
    (h : Run State.step (State.init ls cs) tr s) (hsleeping : s.detector = .sleeping) :
    s.mem.Positioned ∧ ∀ u ∈ s.tasks, u.isCheck = false := by
  refine ⟨(aligned_run h (aligned_init ls cs)).1.positioned, fun u hu => ?_⟩
  have hrest := h.invariant (I := fun s => s.detector = .sleeping → ∀ u ∈ s.tasks, u.checks? = none)
    steps_true (fun _ u hu => by cases hu) fun _ _ _ hi _ hs => resting_step hi hs
  exact checks?_eq_none.mp (hrest hsleeping u hu)

/-- The checks are those of the servers, in a row after the tasks there were. -/
theorem iterate_tasks (hrest : ∀ u ∈ s.tasks, u.checks? = none) (h : s.step .iterate = some s') :
    s'.detector = .waiting ∧ s'.mem = s.mem ∧
      (∀ (j : ℕ) (e : VkLdapServer), s.mem.ctx.servers[j]? = some e →
        s'.checksAt (s.tasks.length + j) = some e) ∧
      ∀ (i : ℕ) (server : VkLdapServer) (pc : Check), s'.tasks[i]? = some (.check server pc) →
        pc = .start ∧ ∃ j, i = s.tasks.length + j ∧ s.mem.ctx.servers[j]? = some server := by
  simp only [State.step] at h
  split at h <;> cases h
  refine ⟨rfl, rfl, fun j e he => ?_, fun i server pc ht => ?_⟩
  · apply checksAt_eq_some.mpr
    refine ⟨.start, ?_⟩
    show (s.tasks ++ _)[_]? = _
    rw [List.getElem?_append_right (by omega), Nat.add_sub_cancel_left, List.getElem?_map, he]
    rfl
  · have ht : (s.tasks ++ s.mem.ctx.servers.map (.check · .start))[i]? =
      some (.check server pc) := ht
    rcases Nat.lt_or_ge i s.tasks.length with hi | hi
    · rw [List.getElem?_append_left hi] at ht
      cases hrest _ (List.mem_of_getElem? ht)
    · rw [List.getElem?_append_right hi, List.getElem?_map] at ht
      obtain ⟨e, he, hcheck⟩ := Option.map_eq_some_iff.mp ht
      cases hcheck
      exact ⟨rfl, i - s.tasks.length, by omega, he⟩

theorem iterating_start (out : ℕ → Outcomes) (hpos : s.mem.Positioned)
    (hrest : ∀ u ∈ s.tasks, u.checks? = none) (h : s.step .iterate = some s') :
    s'.Iterating out := by
  obtain ⟨hwaiting, hmem, hchecks, htasks⟩ := iterate_tasks hrest h
  have hat {i : ℕ} {e : VkLdapServer} (he : s'.checksAt i = some e) :
      i = s.tasks.length + e.id := by
    obtain ⟨pc, ht⟩ := checksAt_eq_some.mp he
    obtain ⟨-, j, rfl, hj⟩ := htasks i e pc ht
    rw [(hpos j e hj).1]
  refine ⟨hwaiting, fun i server pc ht => ?_, fun i j e f he hf hid => ?_, fun j hj => ?_⟩
  · obtain ⟨rfl, j, -, hj⟩ := htasks i server pc ht
    obtain ⟨rfl, k, hk, hpool⟩ := hpos j server hj
    rw [hmem]
    exact ⟨⟨server, hj, entry_start _ server⟩, k, hk, hpool, trivial⟩
  · rw [hat he, hat hf, hid]
  · rw [hmem] at hj
    have hj := List.getElem?_eq_getElem hj
    exact ⟨_, _, hchecks j _ hj, (hpos j _ hj).1⟩

theorem iterating_run {t : State} {tr : List (State × Act)} (hi : s.Iterating out)
    (h : Run State.step s tr t) (hok : Steps (Undisturbed out) tr) :
    t.Iterating out ∧ (∀ j, t.checksAt j = s.checksAt j) ∧
      t.mem.ctx.servers.length = s.mem.ctx.servers.length := by
  induction h with
  | refl => exact ⟨hi, fun _ => rfl, rfl⟩
  | snoc _ hs ih =>
    obtain ⟨hok, hu⟩ := steps_snoc.mp hok
    obtain ⟨hi, hsame, hlength⟩ := ih hok
    obtain ⟨hnext, hchecks, hlen⟩ := iterating_step hi hu hs
    exact ⟨hnext, fun j => (hchecks j).trans (hsame j), hlen.trans hlength⟩

/-- The table at the end, an entry at a time. -/
theorem State.Iterating.entry_of_joined (hi : s.Iterating out) (hj : joined s.tasks = true)
    (he : s.checksAt i = some e) : s.mem.ctx.servers[e.id]? = some ((out e.id).entry e) := by
  obtain ⟨pc, ht⟩ := checksAt_eq_some.mp he
  obtain ⟨server, hdone⟩ := joined_done hj (List.mem_of_getElem? ht) rfl
  cases hdone
  obtain ⟨cur, hcur, hentry⟩ := (hi.follows i e .done ht).entry
  rw [hcur, ← hentry]
  rfl

/-- The step of a check leaves the entries of the other servers and their
pools. -/
def OthersUntouched (s : State) (a : Act) : Prop :=
  ∀ i net e, a = .task i net → s.checksAt i = some e → ∀ s', s.step a = some s' →
    ∀ j, j ≠ e.id → s'.mem.ctx.servers[j]? = s.mem.ctx.servers[j]? ∧
      (j < s.mem.ctx.servers.length → ∀ k, s.mem.ctx.connPools[j]? = some k →
        s'.mem.pools[k]? = s.mem.pools[k]?)

theorem State.Iterating.othersUntouched (hi : s.Iterating out) (hu : Undisturbed out s a) :
    OthersUntouched s a := by
  rintro i net e rfl he s' h j hj
  obtain ⟨pc, ht⟩ := checksAt_eq_some.mp he
  obtain ⟨m', pc', -, rfl, -, hothers, hpools⟩ := hi.check hu ht h
  refine ⟨hothers j hj, fun hlt k hk => hpools k fun hown => ?_⟩
  -- a pool of both servers would have been made for both
  obtain ⟨i', f, hf, rfl⟩ := hi.each j hlt
  obtain ⟨pd, hpd⟩ := checksAt_eq_some.mp hf
  obtain ⟨k₁, hk₁, ⟨server₁, hmade₁, hid₁⟩, -⟩ := (hi.follows i e pc ht).pool
  obtain ⟨k₂, hk₂, ⟨server₂, hmade₂, hid₂⟩, -⟩ := (hi.follows i' f pd hpd).pool
  obtain rfl := Option.some.inj (hown.symm.trans hk₁)
  obtain rfl := Option.some.inj (hk.symm.trans hk₂)
  obtain rfl := Option.some.inj (hmade₁.symm.trans hmade₂)
  exact hj (hid₂.symm.trans hid₁)

/-- Each check holds a handle of its own server's pool. -/
theorem State.Iterating.checksLinked (hi : s.Iterating out) : s.ChecksLinked := by
  intro i server pc ht
  obtain ⟨k, -, hpool, hw⟩ := (hi.follows i server pc ht).pool
  exact hw.linked hpool

/-- The table of an iteration whose checks are over. -/
theorem table_of_joined (hpos : s.mem.Positioned) (hrest : ∀ u ∈ s.tasks, u.checks? = none)
    (hs : s.step .iterate = some s') {t : State} {tr : List (State × Act)}
    (h : Run State.step s' tr t) (hok : Steps (Undisturbed out) tr) (hj : joined t.tasks = true) :
    t.mem.ctx.servers = s.mem.ctx.servers.mapIdx fun j e => (out j).entry e := by
  obtain ⟨-, hmem, hchecks, -⟩ := iterate_tasks hrest hs
  obtain ⟨hiter, hsame, hlength⟩ := iterating_run (iterating_start out hpos hrest hs) h hok
  refine List.ext_getElem? fun j => ?_
  rw [List.getElem?_mapIdx]
  cases he : s.mem.ctx.servers[j]? with
  | none =>
    rw [List.getElem?_eq_none_iff] at he
    rw [List.getElem?_eq_none_iff.mpr (by rw [hlength, hmem]; exact he)]
    rfl
  | some e =>
    have hcheck := (hsame (s.tasks.length + j)).trans (hchecks j e he)
    have hentry := hiter.entry_of_joined hj hcheck
    rw [(hpos j e he).1] at hentry
    exact hentry

end

/-- **An iteration has one result.** Whatever the order in which the checks
take their steps, no check touches another server's entry or pool, and once
they are over each entry is what the outcomes assigned to its server make of
it. Where no check is passed by and every one that waits gets a connection,
they are over some time, and the table stays as they leave it. -/
theorem iteration_has_one_result (out : ℕ → Outcomes) (s s' : State)
    (hpos : s.mem.Positioned) (hrest : ∀ u ∈ s.tasks, u.isCheck = false)
    (hs : s.step .iterate = some s') :
    (∀ (tr : List (State × Act)) (t : State), Run State.step s' tr t →
      Steps (Undisturbed out) tr → Steps OthersUntouched tr ∧
        (joined t.tasks = true →
          t.mem.ctx.servers = s.mem.ctx.servers.mapIdx fun j e => (out j).entry e)) ∧
    ∀ (run : ℕ → State) (act : ℕ → Option Act), Endless State.step run act → run 0 = s' →
      Always (Undisturbed out) run act → ChecksFair run act → Served run →
      ∃ n, ∀ m, n ≤ m → joined (run m).tasks = true ∧
        (run m).mem.ctx.servers = s.mem.ctx.servers.mapIdx fun j e => (out j).entry e := by
  have hrest : ∀ u ∈ s.tasks, u.checks? = none := fun u hu => checks?_eq_none.mpr (hrest u hu)
  have hstart := iterating_start out hpos hrest hs
  refine ⟨fun tr t h hok => ⟨?_, table_of_joined hpos hrest hs h hok⟩,
    fun run act h h0 hok hfair hserved => ?_⟩
  · exact h.forall_steps hok hstart (fun _ _ _ hi hu hs => (iterating_step hi hu hs).1)
      fun _ _ _ hi hu _ => hi.othersUntouched hu
  · have hiter (m : ℕ) : (run m).Iterating out := h.invariant (h0 ▸ hstart)
      (fun l a _ hi ha => (iterating_step hi (hok l a ha) (h.next l a ha)).1) (Nat.zero_le m)
    obtain ⟨n, -, hjoined⟩ := joined_eventually (n := 0) h (fun m _ => (hiter m).waiting)
      (fun m => (hiter m).checksLinked) hfair hserved
    refine ⟨n, fun m hm => ⟨hjoined m hm, ?_⟩⟩
    obtain ⟨tr, hrun, hsteps⟩ := h.upTo_steps hok m
    exact table_of_joined hpos hrest hs (h0 ▸ hrun) hsteps (hjoined m hm)

/-- The step is a check's, answered as assigned. -/
def checkAnswered (out : ℕ → Outcomes) (s : State) : Act → Bool
  | .task i net => s.tasks[i]?.any fun
    | .check server pc => decide (pc.Answered (out server.id) s.mem net)
    | _ => false
  | _ => false

theorem undisturbed_of_answered {out : ℕ → Outcomes} {s : State} {a : Act}
    (h : checkAnswered out s a = true) : Undisturbed out s a := by
  cases a with
  | task i net =>
    obtain ⟨t, ht, hany⟩ := (Option.any_eq_true _ _).mp h
    cases t with
    | check server pc =>
      refine ⟨fun j net' e pd ha he => ?_, fun hother => ?_, fun hd => by cases hd⟩
      · cases ha
        cases ht.symm.trans he
        exact of_decide_eq_true hany
      · have hnone := hother i net rfl
        rw [checksAt_eq_some.mpr ⟨pc, ht⟩] at hnone
        cases hnone
    | _ => cases hany
  | _ => cases h

/-- A healthy server, and one that could not be connected to. -/
def twoServers : State :=
  State.booted {} { connectionPoolSize := 1 } [("ldap://a", fun _ => .ok ()),
    ("ldap://b", fun _ => .error (.ldapConnectionError ⟨.other, "refused"⟩))]

def answersAll : Outcomes := ⟨.ok 7, .ok (), .ok ()⟩

/-- The two checks, one step of each in turn, more or less. -/
def twoChecks : List Act :=
  [.task 0 {}, .task 1 {}, .task 1 {}, .task 0 {}, .task 0 { ping := .ok 7 },
    .task 1 { ping := .ok 7 }, .task 1 {}, .task 0 {}, .task 1 {}, .task 0 {}, .task 1 {},
    .task 0 {}]

/-- The two checks come to their end, in the table of their outcomes. -/
theorem iteration_has_one_result_two : ∃ s run act, twoServers.step .iterate = some s ∧
    Endless State.step run act ∧ run 0 = s ∧ ∃ n, ∀ m, n ≤ m → joined (run m).tasks = true ∧
      (run m).mem.ctx.servers.map (fun e => (e.status, e.pingTime)) =
        [(.healthy, some 7), (.healthy, none)] := by
  obtain ⟨s, hs, t, ht, hdone⟩ : ∃ s, twoServers.step .iterate = some s ∧
      ∃ t, exec State.step s twoChecks = some t ∧ joined t.tasks = true :=
    ⟨_, rfl, _, rfl, rfl⟩
  have hanswered : (twoServers.step .iterate).all (fun s =>
      (trace State.step s twoChecks).all fun x => checkAnswered (fun _ => answersAll) x.1 x.2) =
        true := by decide +kernel
  rw [hs] at hanswered
  have hpos : twoServers.mem.Positioned := by
    intro j e he
    have hj : j < 2 := (List.getElem?_eq_some_iff.mp he).1
    obtain rfl | rfl : j = 0 ∨ j = 1 := by omega
    · cases he
      exact ⟨rfl, 0, rfl, _, rfl, rfl⟩
    · cases he
      exact ⟨rfl, 1, rfl, _, rfl, rfl⟩
  have hover {i : ℕ} {e : VkLdapServer} {pc : Check} (hi : t.tasks[i]? = some (.check e pc)) :
      pc = .done := by
    obtain ⟨server, hcheck⟩ := joined_done hdone (List.mem_of_getElem? hi) rfl
    cases hcheck
    rfl
  have hfair : ChecksFair (states State.step s twoChecks) fun n => twoChecks[n]? := by
    refine checksFair_of_exec ht fun i net u hchecked hu => ?_
    obtain ⟨e, he⟩ := Option.ne_none_iff_exists'.mp hchecked
    obtain ⟨pc, hpc⟩ := checksAt_eq_some.mp he
    obtain rfl := hover hpc
    simp only [State.step, hpc, Task.step, Check.step, reduceCtorEq] at hu
  have hserved : Served (states State.step s twoChecks) := by
    refine fun k i e pool seen _ => ⟨max k twoChecks.length, le_max_left _ _, fun seen' hlate => ?_⟩
    rw [(endless_exec ht).2 _ (le_max_right _ _)] at hlate
    cases hover hlate
  obtain ⟨-, hends⟩ := iteration_has_one_result (fun _ => answersAll) twoServers s hpos
    (fun u hu => by cases hu) hs
  obtain ⟨n, hn⟩ := hends _ _ (endless_exec ht).1 rfl
    (always_of_steps ht fun x hx => undisturbed_of_answered (List.all_eq_true.mp hanswered x hx))
    hfair hserved
  refine ⟨s, _, _, hs, (endless_exec ht).1, rfl, n, fun m hm => ⟨(hn m hm).1, ?_⟩⟩
  rw [(hn m hm).2]
  decide

/-! ### A pool that has no connection -/

/-- The check finds its pool empty, and waits. -/
def waitingCheck : List Act := [.task 0 {}, .task 0 {}]

/-- **An iteration need not end.** A server marked HEALTHY after its refresh
has failed has a pool without connections, and the next iteration over it waits
for one for ever, though it is the only one to take steps. -/
theorem iteration_waits_for_ever : ∃ tr s s' run act, Run State.step oneServer tr s ∧
    Steps FixedList tr ∧ s.mem.Positioned ∧ (∀ u ∈ s.tasks, u.isCheck = false) ∧
      s.step .iterate = some s' ∧ Endless State.step run act ∧ run 0 = s' ∧
        (∀ out, Always (Undisturbed out) run act) ∧ ChecksFair run act ∧
          ∀ n, joined (run n).tasks = false := by
  obtain ⟨s, hs, hnone⟩ : ∃ s, exec State.step oneServer pingThenFailedRefresh = some s ∧
      s.tasks = [] := ⟨_, rfl, rfl⟩
  obtain ⟨s', hs', u, hu, t, ht, e, p, hstart, hnew, htasks, hp, hdue⟩ :
      ∃ s', s.step .iterate = some s' ∧ ∃ u, s'.step (.task 0 {}) = some u ∧
        ∃ t, exec State.step s' waitingCheck = some t ∧ ∃ e p, s'.tasks = [.check e .start] ∧
          u.tasks = [.check e (.take 0 none)] ∧ t.tasks = [.check e (.take 0 (some 0))] ∧
            t.mem.pools[0]? = some p ∧ Mem.due p (some 0) = false := by
    cases hs
    exact ⟨_, rfl, _, rfl, _, rfl, _, _, rfl, rfl, rfl, rfl, rfl⟩
  have hstuck (net : Net) : t.step (.task 0 net) = none := by
    simp only [State.step, htasks, List.getElem?_cons_zero, Task.step, Check.step,
      Mem.takeConnection, hp, hdue]
    rfl
  -- at each moment the check looks its pool up, or waits
  have hat (n : ℕ) : ∃ pc, (states State.step s' waitingCheck n).tasks = [.check e pc] ∧
      pc ≠ .done ∧ ∀ o m net, pc.Answered o m net := by
    rcases n with _ | _ | n
    · exact ⟨_, hstart, Check.noConfusion, fun _ _ _ => trivial⟩
    · have hone : states State.step s' waitingCheck 1 = u := by
        simp [states, waitingCheck, exec, hu]
      exact ⟨.take 0 none, hone ▸ hnew, Check.noConfusion, fun _ _ _ => trivial⟩
    · rw [(endless_exec ht).2 (n + 2) (Nat.le_add_left 2 n)]
      exact ⟨_, htasks, Check.noConfusion, fun _ _ _ => trivial⟩
  have hrun := exec_run hs
  have hlinked : s.Linked := hrun.invariant steps_true (linked_booted _ _ _)
    fun _ _ _ hl _ hs => linked_step hl hs
  refine ⟨_, s, s', _, _, hrun, pingThenFailedRefresh_fixedList, hlinked.aligned.1.positioned,
    fun u hu => ?_, hs', (endless_exec ht).1, rfl, fun out n a ha => ?_,
    checksFair_of_exec ht fun i net v hchecked hv => ?_, fun n => ?_⟩
  · rw [hnone] at hu
    cases hu
  · obtain ⟨pc, hpc, -, hanswered⟩ := hat n
    obtain rfl : a = .task 0 {} := by
      have := List.mem_of_getElem? ha
      simpa [waitingCheck] using this
    refine ⟨fun i net f pd _ hi => ?_, fun hother => ?_, Act.noConfusion⟩
    · rw [hpc] at hi
      obtain ⟨-, rfl⟩ := Task.check.inj (List.mem_singleton.mp (List.mem_of_getElem? hi))
      exact hanswered _ _ _
    · have hcheck := hother 0 {} rfl
      rw [State.checksAt, hpc] at hcheck
      cases hcheck
  · obtain ⟨f, hf⟩ := Option.ne_none_iff_exists'.mp hchecked
    obtain ⟨pc, hi⟩ := checksAt_eq_some.mp hf
    rw [htasks] at hi
    cases i with
    | zero =>
      rw [hstuck net] at hv
      cases hv
    | succ i => cases hi
  · obtain ⟨pc, hpc, hd, -⟩ := hat n
    rw [hpc]
    simpa [joined] using hd

end System
end ValkeyLdap
