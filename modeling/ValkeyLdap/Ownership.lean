/-
# Connections keep their pool

An operation gives its connection back to the pool it took it from. A check
looks the pool up again, at the position its connection names, in a table that
may have been replaced meanwhile; `return_connection` then compares the epochs
of two pools that both count from 1. `connections_keep_their_pool`: no
connection ends up in another server's pool exactly while each check finds its
own pool again, or one with another epoch.

Key theorems: `Task.Move.own`, `own_step`, `connections_keep_their_pool`,
`connection_changes_pool`.
-/
import ValkeyLdap.Lookups

namespace ValkeyLdap

/-! ### The pool -/

namespace Pool

/-- The queued connections were opened by this pool, to its server. -/
def Own (p : Pool) : Prop :=
  ∀ c ∈ p.queue.queue, c.pool = p.journal.pool ∧ c.url = p.server.url

theorem own_reset (p : Pool) (settings : VkConnectionSettings) (connect : ℕ → Result Unit) :
    (p.reset settings connect).1.Own := by
  intro c hc
  have hkey := reset_key p settings connect
  simp only [key, Prod.mk.injEq] at hkey
  rw [hkey.1, hkey.2]
  exact ConnectionQueue.openConnections_forall p.server settings connect
    (fun c => c.pool = p.journal.pool ∧ c.url = p.server.url) settings.connectionPoolSize 0
    (p.resetStart settings) (p.journal.close p.queue.queue)
    (fun _ h => by simp [resetStart] at h) (fun _ => ⟨rfl, rfl⟩) c hc

theorem own_refreshConnections (p : Pool) (settings : VkConnectionSettings)
    (connect : ℕ → Result Unit) : (p.refreshConnections settings connect).1.Own := by
  rw [refreshConnections_fst]
  exact own_reset p settings connect

theorem own_takeConnection {p p' : Pool} {c : VkLdapPoolConnection} (h : p.Own)
    (ht : p.takeConnection = some (c, p')) :
    p'.Own ∧ c.conn.pool = p.journal.pool ∧ c.conn.url = p.server.url := by
  obtain ⟨hq, -, -, -⟩ := takeConnection_eq ht
  refine ⟨fun d hd => ?_, h c.conn (by simp [hq])⟩
  have hkey := takeConnection_key ht
  simp only [key, Prod.mk.injEq] at hkey
  rw [hkey.1, hkey.2]
  exact h d (by simp [hq, hd])

theorem own_returnConnection {p : Pool} {c : VkLdapPoolConnection} (h : p.Own)
    (hc : p.queue.epoch = c.fromEpoch →
      c.conn.pool = p.journal.pool ∧ c.conn.url = p.server.url) :
    (p.returnConnection c).Own := by
  unfold returnConnection
  simp only
  split
  · rename_i he
    intro d hd
    rcases List.mem_cons.mp hd with rfl | hd
    · exact hc he
    · exact h d hd
  · exact h

/-- What the epochs do not keep out is queued. -/
theorem returnConnection_mem {p : Pool} {c : VkLdapPoolConnection}
    (he : p.queue.epoch = c.fromEpoch) : c.conn ∈ (p.returnConnection c).queue.queue := by
  simp [returnConnection, he, ConnectionQueue.put]

theorem own_shutdown {p p' : Pool} (ht : p.shutdown = some p') : p'.Own := by
  unfold shutdown at ht
  split at ht
  · obtain rfl := Option.some.inj ht
    exact fun c hc => by cases hc
  · cases ht

end Pool

namespace System

open Runs

/-! ### The tasks -/

/-- The connection was opened by an existing pool, to its server. -/
def Mem.Opened (m : Mem) (c : VkLdapConnection) : Prop :=
  ∃ server, m.poolServer c.pool = some server ∧ c.url = server.url

theorem Mem.Opened.extends {m m' : Mem} {c : VkLdapConnection} (h : m.Opened c)
    (he : m.Extends m') : m'.Opened c := by
  obtain ⟨server, hs, hurl⟩ := h
  exact ⟨server, he _ server hs, hurl⟩

/-- An operation works on a pool of its server and on a connection of that
pool; whatever holds a connection holds one that a pool opened. -/
def Task.Own (m : Mem) : Task → Prop
  | .op (.take server pool _) => ∃ s, m.poolServer pool = some s ∧ s.url = server.url
  | .op (.ldap server pool conn) =>
    conn.conn.pool = pool ∧ conn.conn.url = server.url ∧ m.Opened conn.conn
  | .check _ (.ping conn) => m.Opened conn.conn
  | .check _ (.giveBack conn _) => m.Opened conn.conn
  | .check _ (.put _ conn _) => m.Opened conn.conn
  | .ret pool conn => conn.conn.pool = pool ∧ m.Opened conn.conn
  | _ => True

theorem Task.Own.extends {m m' : Mem} {t : Task} (h : t.Own m) (he : m.Extends m') :
    t.Own m' := by
  cases t with
  | op pc =>
    cases pc with
    | take server pool seen =>
      obtain ⟨s, hs, hurl⟩ := h
      exact ⟨s, he pool s hs, hurl⟩
    | ldap => exact ⟨h.1, h.2.1, h.2.2.extends he⟩
    | _ => trivial
  | check server pc =>
    cases pc with
    | ping => exact Mem.Opened.extends h he
    | giveBack => exact Mem.Opened.extends h he
    | put => exact Mem.Opened.extends h he
    | _ => trivial
  | ret => exact ⟨h.1, h.2.extends he⟩
  | _ => trivial

/-- Every pool holds its own connections. -/
def Mem.Own (m : Mem) : Prop := ∀ (k : ℕ) (p : Pool), m.pools[k]? = some p → p.Own

theorem Mem.Own.setPool {m : Mem} {k : ℕ} {p : Pool} (h : m.Own) (hp : p.Own) :
    (m.setPool k p).Own := by
  intro i q hq
  rcases Mem.setPool_cases hq with ⟨-, rfl⟩ | ⟨-, hq⟩
  · exact hp
  · exact h i q hq

/-- A connection that a pool has handed out, seen from the memory. -/
theorem opened_of_take {m : Mem} (ha : Aligned m) {k : ℕ} {p : Pool} {c : VkLdapConnection}
    (hp : m.pools[k]? = some p) (hc : c.pool = p.journal.pool ∧ c.url = p.server.url) :
    c.pool = k ∧ m.Opened c := by
  have hk : c.pool = k := hc.1.trans (ha.number k p hp)
  exact ⟨hk, p.server, by simp [Mem.poolServer, hk, hp], hc.2⟩

/-- A connection goes back into the pool that opened it. -/
theorem returned_own {m : Mem} (ha : Aligned m) {k : ℕ} {p : Pool} {c : VkLdapPoolConnection}
    (hp : m.pools[k]? = some p) (hk : c.conn.pool = k) (hc : m.Opened c.conn) :
    c.conn.pool = p.journal.pool ∧ c.conn.url = p.server.url := by
  obtain ⟨s, hs, hurl⟩ := hc
  rw [hk] at hs
  obtain ⟨q, hq, rfl⟩ := Option.map_eq_some_iff.mp hs
  obtain rfl : p = q := Option.some.inj (hp.symm.trans hq)
  exact ⟨hk.trans (ha.number k p hp).symm, hurl⟩

/-- The check that puts a connection into a pool puts it into its own, or the
epochs keep it out. -/
def Task.ReturnFits (m : Mem) : Task → Prop
  | .check _ (.put pool conn _) => ∀ p, m.pools[pool]? = some p →
    conn.conn.pool = pool ∨ p.queue.epoch ≠ conn.fromEpoch
  | _ => True

theorem Task.Move.own {m m' : Mem} {t t' : Task} {spawned : List Task}
    (h : t.Move m m' (.go t' spawned)) (ha : Aligned m) (hm : m.Own) (ht : t.Own m)
    (hf : t.ReturnFits m) : m'.Own ∧ t'.Own m' ∧ ∀ u ∈ spawned, u.Own m' := by
  have he := h.shape.extends
  have hnil : ∀ u ∈ ([] : List Task), u.Own m' := fun u hu => by cases hu
  have hret {pool : ℕ} {conn : VkLdapPoolConnection} (h1 : conn.conn.pool = pool)
      (h2 : m.Opened conn.conn) : ∀ u ∈ [Task.ret pool conn], u.Own m' := by
    intro u hu
    obtain rfl := List.mem_singleton.mp hu
    exact ⟨h1, h2.extends he⟩
  cases h with
  | @find server pool hfound hp =>
    refine ⟨hm, ?_, hnil⟩
    obtain ⟨i, hi⟩ := List.mem_iff_getElem?.mp (VkLdapContext.findServer_ok hfound).1
    obtain ⟨hid, k, p, hk, hpk, -, hurl⟩ := ha.entry i server hi
    obtain rfl : k = pool := Option.some.inj (hk.symm.trans (hid ▸ hp))
    exact ⟨p.server, by simp [Mem.poolServer, hpk], hurl⟩
  | take hp _ hc =>
    obtain ⟨hown, hconn⟩ := Pool.own_takeConnection (hm _ _ hp) hc
    obtain ⟨hk, hopened⟩ := opened_of_take ha hp hconn
    refine ⟨hm.setPool hown, ⟨hk, ?_, hopened.extends he⟩, hnil⟩
    obtain ⟨s, hs, hurl⟩ := ht
    simp only [Mem.poolServer, hp, Option.map_some, Option.some.injEq] at hs
    rw [hconn.2, hs, hurl]
  | wait => exact ⟨hm, ht, hnil⟩
  | ldapFailed => exact ⟨hm, trivial, hret ht.1 ht.2.2⟩
  | ldap => exact ⟨hm, trivial, hret ht.1 ht.2.2⟩
  | fail => exact ⟨hm, trivial, hnil⟩
  | checkTake hp _ hc =>
    obtain ⟨hown, hconn⟩ := Pool.own_takeConnection (hm _ _ hp) hc
    exact ⟨hm.setPool hown, (opened_of_take ha hp hconn).2.extends he, hnil⟩
  | ping => exact ⟨hm, ht, hnil⟩
  | giveBack => exact ⟨hm, ht, hnil⟩
  | put hp =>
    refine ⟨hm.setPool (Pool.own_returnConnection (hm _ _ hp) fun hepoch => ?_), trivial, hnil⟩
    rcases hf _ hp with hk | hne
    · exact returned_own ha hp hk ht
    · exact absurd hepoch hne
  | refreshReset => exact ⟨hm.setPool (Pool.own_refreshConnections _ _ _), trivial, hnil⟩
  | ret hp =>
    exact ⟨hm.setPool (Pool.own_returnConnection (hm _ _ hp)
      fun _ => returned_own ha hp ht.1 ht.2), trivial, hnil⟩
  | shutdown _ _ hs => exact ⟨hm.setPool (Pool.own_shutdown hs), trivial, hnil⟩
  | shutdownWait => exact ⟨hm, ht, hnil⟩
  | _ => exact ⟨hm, trivial, hnil⟩

/-- The pool about to be listed holds its own connections. -/
def Main.Own : Main → Prop
  | .listing _ pool _ => pool.Own
  | _ => True

theorem Mem.Own.listServer {m : Mem} {server : VkLdapServer} {pool : Pool} (h : m.Own)
    (hp : pool.Own) : (m.listServer server pool).Own := by
  intro k p hk
  rcases Mem.listServer_cases hk with hk | ⟨-, rfl⟩
  · exact h k p hk
  · exact hp

theorem Main.own_refreshNext (rest : List VkLdapServer) : (Main.refreshNext rest).Own := by
  cases rest <;> trivial

theorem openServer_own (n : ℕ) (server : VkLdapServer) (settings : VkConnectionSettings)
    (connect : ℕ → Result Unit) : (openServer n server settings connect).2.Own := by
  rw [openServer_snd]
  exact Pool.own_reset _ _ _

theorem Main.Move.own {m m' : Mem} {main main' : Main} {spawned : List Task}
    (h : main.Move m m' main' spawned) (hm : m.Own) (hmain : main.Own) :
    m'.Own ∧ main'.Own ∧ ∀ u ∈ spawned, u.Own m' := by
  have hnil : ∀ u ∈ ([] : List Task), u.Own m' := fun u hu => by cases hu
  cases h with
  | clear =>
    refine ⟨hm, trivial, fun u hu => ?_⟩
    obtain rfl := List.mem_singleton.mp hu
    trivial
  | opened => exact ⟨hm, openServer_own _ _ _ _, hnil⟩
  | list => exact ⟨hm.listServer hmain, trivial, hnil⟩
  | read => exact ⟨hm, Main.own_refreshNext _, hnil⟩
  | refreshReset => exact ⟨hm.setPool (Pool.own_refreshConnections _ _ _), trivial, hnil⟩
  | refreshReport => exact ⟨hm, Main.own_refreshNext _, hnil⟩
  | _ => exact ⟨hm, trivial, hnil⟩

/-! ### Runs -/

structure State.Own (s : State) : Prop where
  aligned : s.Aligned
  pools : s.mem.Own
  tasks : ∀ t ∈ s.tasks, t.Own s.mem
  main : s.main.Own

/-- The step's return, if it makes one, fits. -/
def ReturnFits (s : State) (a : Act) : Prop :=
  ∀ i net t, a = .task i net → s.tasks[i]? = some t → t.ReturnFits s.mem

theorem own_step {s s' : State} {a : Act} (ho : s.Own) (hf : ReturnFits s a)
    (h : s.step a = some s') : s'.Own := by
  have ha := aligned_step ho.aligned h
  have htasks : ∀ t ∈ s'.tasks, t.Own s'.mem := by
    refine State.forall_tasks_step (P := fun m t => t.Own m) h ho.tasks
      (fun t _ ht => ht.extends (State.step_extends h)) ?_ ?_ trivial fun _ _ => trivial
    · intro i net t t' spawned hi ht hmove
      exact (hmove.own ho.aligned.1 ho.pools (ho.tasks t (List.mem_of_getElem? ht))
        (hf i net t hi ht)).2
    · intro net spawned _ hmove
      exact (hmove.own ho.pools ho.main).2.2
  rcases State.step_cases h with ⟨i, net, rfl⟩ | ⟨net, rfl⟩ | hother
  · obtain ⟨t, m', ht, ⟨t', spawned, hs, rfl⟩ | ⟨hs, rfl⟩⟩ := State.step_task h
    · have hmove := hs.own ho.aligned.1 ho.pools (ho.tasks t (List.mem_of_getElem? ht))
        (hf i net t rfl ht)
      exact ⟨ha, hmove.1, htasks, ho.main⟩
    · have hpools : m'.Own := by cases hs <;> exact ho.pools
      exact ⟨ha, hpools, htasks, ho.main⟩
  · obtain ⟨m', main, spawned, hs, rfl⟩ := State.step_main h
    obtain ⟨h1, h2, -⟩ := hs.own ho.pools ho.main
    exact ⟨ha, h1, htasks, h2⟩
  · cases hother with
    | setServers => exact ⟨ha, ho.pools, htasks, trivial⟩
    | setConnectionSettings => exact ⟨ha, ho.pools, htasks, trivial⟩
    | _ => exact ⟨ha, ho.pools, htasks, ho.main⟩

theorem own_init (ls : VkLdapSettings) (cs : VkConnectionSettings) : (State.init ls cs).Own :=
  ⟨aligned_init ls cs, fun k p hp => by simp [State.init] at hp,
    fun t ht => by simp [State.init] at ht, trivial⟩

/-- Connections are where they belong: a queued one in the pool that opened it,
to that pool's server; one in an operation's hands in a pool of the operation's
server, opened to its URL; one on its way back, to the pool that opened it. -/
structure State.ConnectionsOwn (s : State) : Prop where
  queued : ∀ (k : ℕ) (p : Pool), s.mem.pools[k]? = some p →
    ∀ c ∈ p.queue.queue, c.pool = k ∧ c.url = p.server.url
  handed : ∀ (server : VkLdapServer) (pool : ℕ) (conn : VkLdapPoolConnection),
    .op (.ldap server pool conn) ∈ s.tasks →
      conn.conn.pool = pool ∧ conn.conn.url = server.url
  returning : ∀ (pool : ℕ) (conn : VkLdapPoolConnection),
    .ret pool conn ∈ s.tasks → conn.conn.pool = pool

theorem State.Own.connectionsOwn {s : State} (h : s.Own) : s.ConnectionsOwn := by
  refine ⟨fun k p hp c hc => ?_, fun server pool conn ht => ?_, fun pool conn ht => ?_⟩
  · obtain ⟨h1, h2⟩ := h.pools k p hp c hc
    exact ⟨h1.trans (h.aligned.1.number k p hp), h2⟩
  · exact ⟨(h.tasks _ ht).1, (h.tasks _ ht).2.1⟩
  · exact (h.tasks _ ht).1

/-- A return that does not fit leaves a connection in another pool's queue. -/
theorem returnFits_of_connectionsOwn {s s' : State} {a : Act} (hs : s.step a = some s')
    (h : s'.ConnectionsOwn) : ReturnFits s a := by
  rintro i net t rfl ht
  cases t with
  | check server pc =>
    cases pc with
    | put pool conn res =>
      intro p hp
      by_contra hno
      obtain ⟨hpool, hepoch⟩ := not_or.mp hno
      simp only [State.step, ht, Task.step, Check.step, hp, Option.some.injEq] at hs
      subst hs
      have hlt := (List.getElem?_eq_some_iff.mp hp).1
      exact hpool (h.queued pool _ (by simp [Mem.setPool, hlt]) conn.conn
        (Pool.returnConnection_mem (not_not.mp hepoch))).1
    | _ => trivial
  | _ => trivial

/-- **Connections keep their pool, exactly while checks find it again.** In
every run, connections are where they belong after every step if and only if
each check puts its connection back into the pool it comes from, or into one
whose epoch differs from the one it was taken in. -/
theorem connections_keep_their_pool (ls : VkLdapSettings) (cs : VkConnectionSettings)
    (tr : List (State × Act)) (t : State)
    (h : Run State.step (State.init ls cs) tr t) :
    Steps ReturnFits tr ↔
      Steps (fun s a => ∀ s', s.step a = some s' → s'.ConnectionsOwn) tr := by
  constructor
  · intro hf
    exact h.forall_steps hf (own_init ls cs) (fun _ _ _ ho hf hs => own_step ho hf hs)
      fun s a _ ho hf _ s' hs => (own_step ho hf hs).connectionsOwn
  · intro hown x hx
    obtain ⟨u, hu⟩ := h.enabled x hx
    exact returnFits_of_connectionsOwn hu (hown x hx u hu)

/-- While a check pings `ldap://a`, the list becomes `ldap://b`. -/
def replacedWhilePinging : List Act :=
  [.setServers ["ldap://a"], .main {}, .main {}, .main {}, .main {}, .main {}, .iterate,
    .task 1 {}, .task 1 {},
    .setServers ["ldap://b"], .main {}, .main {}, .main {}, .main {}, .main {},
    .task 1 {}, .task 1 {}, .task 1 {}]

/-- The connection to `ldap://a` is queued for the operations on `ldap://b`. -/
theorem connection_changes_pool : ∃ tr t,
    Run State.step (State.init {} { connectionPoolSize := 1 }) tr t ∧
      ¬ Steps (fun s a => ∀ s', s.step a = some s' → s'.ConnectionsOwn) tr ∧
      ∃ p c, t.mem.pools[1]? = some p ∧ c ∈ p.queue.queue ∧ p.server.url = "ldap://b" ∧
        c.url = "ldap://a" := by
  obtain ⟨s, hs, hex⟩ : ∃ s, exec State.step (State.init {} { connectionPoolSize := 1 })
      (replacedWhilePinging.take 17) = some s ∧ ∃ t, s.step (.task 1 {}) = some t ∧
        ∃ p c, t.mem.pools[1]? = some p ∧ c ∈ p.queue.queue ∧ p.server.url = "ldap://b" ∧
          c.url = "ldap://a" :=
    ⟨_, rfl, _, rfl, _, _, rfl, List.mem_cons_self, rfl, rfl⟩
  obtain ⟨t, ht, p, c, hp, hc, hpurl, hcurl⟩ := hex
  refine ⟨_, t, (exec_run hs).snoc ht, fun h => ?_, p, c, hp, hc, hpurl, hcurl⟩
  have := (((steps_snoc.mp h).2 t ht).queued 1 p hp c hc).2
  rw [hpurl, hcurl] at this
  exact absurd this (by decide)

instance (m : Mem) : (t : Task) → Decidable (t.ReturnFits m)
  | .check _ (.put pool conn _) => inferInstanceAs (Decidable (∀ p ∈ m.pools[pool]?,
      conn.conn.pool = pool ∨ p.queue.epoch ≠ conn.fromEpoch))
  | .check _ .start | .check _ (.take ..) | .check _ (.ping _) | .check _ (.giveBack ..)
  | .check _ (.report ..) | .check _ (.connect _) | .check _ .pingNew
  | .check _ (.reportConnect _) | .check _ (.refresh _) | .check _ .done => .isTrue trivial
  | .op _ | .ret .. | .shutdown .. | .ended => .isTrue trivial

/-- A run of an iteration over a list that stays: the check puts its connection
back where it comes from. -/
theorem connections_keep_their_pool_kept : ∃ tr t p c,
    Run State.step (State.init {} { connectionPoolSize := 1 }) tr t ∧
      Steps (fun s a => ∀ s', s.step a = some s' → s'.ConnectionsOwn) tr ∧
      t.mem.pools[0]? = some p ∧ p.queue.queue = [c] ∧ c.url = "ldap://a" := by
  obtain ⟨t, ht, ⟨p, c, hp, hc, hurl⟩, hfits⟩ : ∃ t,
      exec State.step (State.init {} { connectionPoolSize := 1 })
        (replacedWhilePinging.take 9 ++ [.task 1 {}, .task 1 {}, .task 1 {}]) = some t ∧
      (∃ p c, t.mem.pools[0]? = some p ∧ p.queue.queue = [c] ∧ c.url = "ldap://a") ∧
      ∀ x ∈ trace State.step (State.init {} { connectionPoolSize := 1 })
        (replacedWhilePinging.take 9 ++ [.task 1 {}, .task 1 {}, .task 1 {}]),
        ∀ u ∈ x.1.tasks, u.ReturnFits x.1.mem :=
    ⟨_, rfl, ⟨_, _, rfl, rfl, rfl⟩, by decide⟩
  have hr := exec_run ht
  refine ⟨_, t, p, c, hr, (connections_keep_their_pool _ _ _ t hr).mp ?_, hp, hc, hurl⟩
  intro x hx i net u _ hu
  exact hfits x hx u (List.mem_of_getElem? hu)

end System
end ValkeyLdap
