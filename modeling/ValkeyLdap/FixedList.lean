/-
# Runs over a fixed server list

The list is set once and nobody replaces it: position `k` of the table holds
pool `k`, no pool is shut down, and every pool was last reset to at least one
connection. The checks then work on the pool of their own server, so nothing
is looked up out of bounds, every connection goes back where it comes from,
and all of `State.Linked` and `State.Custody` holds.

Key theorems: `Task.Move.stamps`, `fixed_step`, `fixed_booted`.
-/
import ValkeyLdap.Custody

namespace ValkeyLdap
namespace Pool

variable {p : Pool}

/-- What a reset decides about a pool: its epoch and size, and whether the pool
is live. -/
def stamp (p : Pool) : (ℕ × ℕ) × Bool × Bool := ((p.queue.epoch, p.queue.size), p.resetOk, p.shut)

theorem reset_stamp (p : Pool) (settings : VkConnectionSettings) (connect : ℕ → Result Unit) :
    (p.reset settings connect).1.stamp =
      ((p.queue.epoch + 1, settings.connectionPoolSize),
        (p.reset settings connect).2.toBool, false) := by
  rw [reset_eq]
  simp only [stamp, resetLoop_epoch, resetLoop_size]

theorem refreshConnections_snd (p : Pool) (settings : VkConnectionSettings)
    (connect : ℕ → Result Unit) :
    (p.refreshConnections settings connect).2 = (p.reset settings connect).2 := by
  unfold refreshConnections
  split <;> rename_i h <;> rw [h]

theorem refreshConnections_stamp (p : Pool) (settings : VkConnectionSettings)
    (connect : ℕ → Result Unit) :
    (p.refreshConnections settings connect).1.stamp =
      ((p.queue.epoch + 1, settings.connectionPoolSize),
        (p.refreshConnections settings connect).2.toBool, false) := by
  rw [refreshConnections_snd, ← reset_stamp, refreshConnections_fst]
  rfl

theorem takeConnection_stamp {c : VkLdapPoolConnection} {q : Pool}
    (h : p.takeConnection = some (c, q)) : q.stamp = p.stamp := by
  rw [(takeConnection_eq h).2.2.2]
  rfl

theorem returnConnection_stamp (p : Pool) (c : VkLdapPoolConnection) :
    (p.returnConnection c).stamp = p.stamp := by
  unfold returnConnection
  simp only
  split <;> rfl

theorem live_iff_stamp : p.Live ↔ p.stamp.2 = (true, false) := by
  simp [Live, stamp]

end Pool

namespace System

open Runs

/-! ### What a step does to the pools -/

/-- A pool's step that is no reset. -/
def Mem.SameStamps (m m' : Mem) : Prop :=
  ∀ (k : ℕ) (p' : Pool), m'.pools[k]? = some p' →
    ∃ p, m.pools[k]? = some p ∧ p'.stamp = p.stamp ∧ p'.server = p.server

theorem Mem.SameStamps.refl (m : Mem) : m.SameStamps m := fun _ p' hp => ⟨p', hp, rfl, rfl⟩

theorem Mem.SameStamps.setPool {m : Mem} {k : ℕ} {p p' : Pool} (hp : m.pools[k]? = some p)
    (hs : p'.stamp = p.stamp) (hk : p'.key = p.key) : m.SameStamps (m.setPool k p') := by
  intro i q hq
  rcases Mem.setPool_cases hq with ⟨rfl, rfl⟩ | ⟨-, hq⟩
  · exact ⟨p, hp, hs, congrArg Prod.fst hk⟩
  · exact ⟨q, hq, rfl, rfl⟩

/-- A task that neither resets a pool nor shuts pools down keeps the stamps. -/
theorem Task.Move.stamps {m m' : Mem} {t : Task} {n : Next Task} (h : t.Move m m' n)
    (hreset : ∀ server pool settings, t ≠ .check server (.refresh (.reset pool settings)))
    (hshut : ∀ pools seen, t ≠ .shutdown pools seen) : m.SameStamps m' := by
  cases h with
  | take hp _ ht =>
    exact .setPool hp (Pool.takeConnection_stamp ht) (Pool.takeConnection_key ht)
  | checkTake hp _ ht =>
    exact .setPool hp (Pool.takeConnection_stamp ht) (Pool.takeConnection_key ht)
  | put hp => exact .setPool hp (Pool.returnConnection_stamp _ _) (Pool.returnConnection_key _ _)
  | ret hp => exact .setPool hp (Pool.returnConnection_stamp _ _) (Pool.returnConnection_key _ _)
  | refreshReset => exact absurd rfl (hreset _ _ _)
  | shutdown => exact absurd rfl (hshut _ _)
  | _ => exact .refl m

theorem openServer_stamp (n : ℕ) (server : VkLdapServer) (settings : VkConnectionSettings)
    (connect : ℕ → Result Unit) :
    (openServer n server settings connect).2.queue.size = settings.connectionPoolSize ∧
      (openServer n server settings connect).2.shut = false := by
  have hstamp : (Pool.new n server settings connect).1.stamp = _ := Pool.reset_stamp _ _ _
  simp only [Pool.stamp, Prod.mk.injEq] at hstamp
  rw [openServer_snd]
  exact ⟨hstamp.1.2, hstamp.2.2⟩

/-! ### The shape of tasks and memory -/

def Refresh.Fixed (id : ℕ) : Refresh → Prop
  | .reset pool settings => pool = id ∧ 1 ≤ settings.connectionPoolSize
  | _ => True

def Check.Fixed (id : ℕ) : Check → Prop
  | .take pool _ => pool = id
  | .ping conn => conn.conn.pool = id
  | .giveBack conn _ => conn.conn.pool = id
  | .put pool conn _ => pool = id ∧ conn.conn.pool = id
  | .refresh r => r.Fixed id
  | _ => True

/-- A check works on the pool of its own server, and nobody shuts pools down. -/
def Task.Fixed (n : ℕ) : Task → Prop
  | .check server pc => server.id < n ∧ pc.Fixed server.id
  | .shutdown _ _ => False
  | _ => True

def Main.Fixed (n : ℕ) : Main → Prop
  | .idle => True
  | .storing settings => 1 ≤ settings.connectionPoolSize
  | .reading => True
  | .refreshing server r rest => (∀ e ∈ server :: rest, e.id < n) ∧ r.Fixed server.id
  | _ => False

/-- Position `k` holds pool `k`, made for it and not shut down. -/
structure Mem.Fixed (n : ℕ) (m : Mem) : Prop where
  table : m.ctx.connPools = List.range n
  count : m.pools.length = n
  pools : ∀ (k : ℕ) (p : Pool), m.pools[k]? = some p →
    p.server.id = k ∧ 1 ≤ p.queue.size ∧ p.shut = false
  settings : 1 ≤ m.ctx.connectionSettings.connectionPoolSize

theorem Mem.Fixed.poolAt {n : ℕ} {m : Mem} (hf : m.Fixed n) {pool id : ℕ}
    (h : m.PoolAt pool id) : pool = id := by
  obtain ⟨server, hs, rfl⟩ := h
  obtain ⟨p, hp, rfl⟩ := Option.map_eq_some_iff.mp hs
  exact (hf.pools pool p hp).1.symm

theorem Mem.Fixed.lookup {n : ℕ} {m : Mem} (hf : m.Fixed n) {id pool : ℕ}
    (h : m.ctx.connPools[id]? = some pool) : pool = id := by
  rw [hf.table] at h
  obtain ⟨hlt, rfl⟩ := List.getElem?_eq_some_iff.mp h
  simp

theorem Mem.Fixed.found {n : ℕ} {m : Mem} (hf : m.Fixed n) {id : ℕ} (h : id < n) :
    m.ctx.connPools[id]? ≠ none := by
  simp [hf.table, h]

theorem Mem.Fixed.of_stamps {n : ℕ} {m m' : Mem} (hf : m.Fixed n) (h : m.SameStamps m')
    (hlen : m'.pools.length = m.pools.length) (htable : m'.ctx.connPools = m.ctx.connPools)
    (hset : m'.ctx.connectionSettings = m.ctx.connectionSettings) : m'.Fixed n := by
  refine ⟨htable.trans hf.table, hlen.trans hf.count, fun k p' hp' => ?_, hset ▸ hf.settings⟩
  obtain ⟨p, hp, hstamp, hserver⟩ := h k p' hp'
  simp only [Pool.stamp, Prod.mk.injEq] at hstamp
  obtain ⟨h1, h2, h3⟩ := hf.pools k p hp
  exact ⟨hserver ▸ h1, hstamp.1.2 ▸ h2, hstamp.2.2.trans h3⟩

theorem Mem.Fixed.reset {n : ℕ} {m : Mem} (hf : m.Fixed n) {k : ℕ} {p : Pool}
    (hp : m.pools[k]? = some p) {settings : VkConnectionSettings} {connect : ℕ → Result Unit}
    (hs : 1 ≤ settings.connectionPoolSize) :
    (m.setPool k (p.refreshConnections settings connect).1).Fixed n := by
  refine ⟨hf.table, by simp [Mem.setPool, hf.count], fun i q hq => ?_, hf.settings⟩
  rcases Mem.setPool_cases hq with ⟨rfl, rfl⟩ | ⟨-, hq⟩
  · have hstamp := Pool.refreshConnections_stamp p settings connect
    have hkey := Pool.refreshConnections_key p settings connect
    simp only [Pool.stamp, Pool.key, Prod.mk.injEq] at hstamp hkey
    refine ⟨?_, hstamp.1.2 ▸ hs, hstamp.2.2⟩
    rw [hkey.1, (hf.pools k p hp).1]
  · exact hf.pools i q hq

theorem Mem.Fixed.updateServerStatus {n : ℕ} {m : Mem} (hf : m.Fixed n) (server : VkLdapServer)
    (status : VkLdapServerStatus) (pingTime : Option Duration) :
    (m.updateServerStatus server status pingTime).Fixed n := by
  unfold Mem.updateServerStatus
  rw [VkLdapContext.updateServerStatus_eq]
  exact ⟨hf.table, hf.count, hf.pools, hf.settings⟩

theorem Task.Move.fixed_mem {n : ℕ} {m m' : Mem} {t : Task} {next : Next Task}
    (h : t.Move m m' next) (hf : m.Fixed n) (ht : t.Fixed n) : m'.Fixed n := by
  have hshape := h.shape
  have hmem (hs : m.SameStamps m')
      (hset : m'.ctx.connectionSettings = m.ctx.connectionSettings) : m'.Fixed n :=
    hf.of_stamps hs hshape.poolsLength hshape.connPools hset
  cases h with
  | refreshReset hp => exact hf.reset hp ht.2.2
  | shutdownDone => exact absurd ht id
  | shutdown => exact absurd ht id
  | shutdownWait => exact absurd ht id
  | fail => exact hf.updateServerStatus _ _ _
  | report => exact hf.updateServerStatus _ _ _
  | reportConnect => exact hf.updateServerStatus _ _ _
  | refreshReport => exact hf.updateServerStatus _ _ _
  | take hp _ hc =>
    exact hmem (.setPool hp (Pool.takeConnection_stamp hc) (Pool.takeConnection_key hc)) rfl
  | checkTake hp _ hc =>
    exact hmem (.setPool hp (Pool.takeConnection_stamp hc) (Pool.takeConnection_key hc)) rfl
  | put hp =>
    exact hmem (.setPool hp (Pool.returnConnection_stamp _ _) (Pool.returnConnection_key _ _)) rfl
  | ret hp =>
    exact hmem (.setPool hp (Pool.returnConnection_stamp _ _) (Pool.returnConnection_key _ _)) rfl
  | _ => exact hf

theorem Task.Move.fixed {n : ℕ} {m m' : Mem} {t t' : Task} {spawned : List Task}
    (h : t.Move m m' (.go t' spawned)) (hf : m.Fixed n) (ht : t.Fixed n) (hl : t.Linked m)
    (ha : Aligned m) (ho : m.Own) : t'.Fixed n ∧ ∀ u ∈ spawned, u.Fixed n := by
  have hnil : ∀ u ∈ ([] : List Task), u.Fixed n := fun u hu => by cases hu
  have hret {pool : ℕ} {conn : VkLdapPoolConnection} : ∀ u ∈ [Task.ret pool conn], u.Fixed n := by
    intro u hu
    obtain rfl := List.mem_singleton.mp hu
    trivial
  cases h with
  | ldapFailed => exact ⟨trivial, hret⟩
  | ldap => exact ⟨trivial, hret⟩
  | checkFind _ hp => exact ⟨⟨ht.1, hf.lookup hp⟩, hnil⟩
  | checkConnect => exact ⟨⟨ht.1, trivial⟩, hnil⟩
  | checkTake hp _ hc =>
    have hconn := (opened_of_take ha hp (Pool.own_takeConnection (ho _ _ hp) hc).2).1
    exact ⟨⟨ht.1, hconn.trans ht.2⟩, hnil⟩
  | checkWait => exact ⟨ht, hnil⟩
  | ping => exact ⟨ht, hnil⟩
  | giveBack hp => exact ⟨⟨ht.1, (hf.lookup hp).trans hl, ht.2⟩, hnil⟩
  | put => exact ⟨⟨ht.1, trivial⟩, hnil⟩
  | report => exact ⟨⟨ht.1, trivial⟩, hnil⟩
  | connected => exact ⟨⟨ht.1, trivial⟩, hnil⟩
  | connectFailed => exact ⟨⟨ht.1, trivial⟩, hnil⟩
  | pinged => exact ⟨⟨ht.1, trivial⟩, hnil⟩
  | pingFailed => exact ⟨⟨ht.1, trivial⟩, hnil⟩
  | reportConnect => exact ⟨⟨ht.1, trivial⟩, hnil⟩
  | refreshLookup hp => exact ⟨⟨ht.1, hf.lookup hp, hf.settings⟩, hnil⟩
  | refreshReset => exact ⟨⟨ht.1, trivial⟩, hnil⟩
  | refreshReport => exact ⟨⟨ht.1, trivial⟩, hnil⟩
  | shutdownDone => exact absurd ht id
  | shutdown => exact absurd ht id
  | shutdownWait => exact absurd ht id
  | _ => exact ⟨trivial, hnil⟩

/-- No check of a fixed list panics. -/
theorem Task.Move.not_panic {n : ℕ} {m m' : Mem} {t : Task} (h : t.Move m m' .panic)
    (hf : m.Fixed n) (ht : t.Fixed n) (hl : t.Linked m) : False := by
  cases h with
  | checkLost _ hn => exact hf.found ht.1 hn
  | giveBackLost hn =>
    have hid : _ = _ := hl
    exact hf.found (hid ▸ ht.1) hn
  | refreshLost hn => exact hf.found ht.1 hn

theorem Main.fixed_refreshNext {n : ℕ} {rest : List VkLdapServer} (h : ∀ e ∈ rest, e.id < n) :
    (Main.refreshNext rest).Fixed n := by
  cases rest with
  | nil => trivial
  | cons server rest => exact ⟨h, trivial⟩

theorem Main.Move.fixed {n : ℕ} {m m' : Mem} {main main' : Main} {spawned : List Task}
    (h : main.Move m m' main' spawned) (hf : m.Fixed n) (hm : main.Fixed n) (ha : Aligned m) :
    m'.Fixed n ∧ main'.Fixed n ∧ spawned = [] := by
  cases h with
  | clear => exact absurd hm id
  | added => exact absurd hm id
  | add => exact absurd hm id
  | opened => exact absurd hm id
  | openLost => exact absurd hm id
  | list => exact absurd hm id
  | store => exact ⟨⟨hf.table, hf.count, hf.pools, hm⟩, trivial, rfl⟩
  | read =>
    refine ⟨hf, Main.fixed_refreshNext fun e he => ?_, rfl⟩
    obtain ⟨i, hi⟩ := List.mem_iff_getElem?.mp he
    have hlt := (List.getElem?_eq_some_iff.mp hi).1
    rw [(ha.entry i e hi).1]
    rwa [← ha.length, hf.table, List.length_range] at hlt
  | refreshLookup hp => exact ⟨hf, ⟨hm.1, hf.lookup hp, hf.settings⟩, rfl⟩
  | refreshLost hn => exact absurd hn (hf.found (hm.1 _ List.mem_cons_self))
  | refreshReset hp => exact ⟨hf.reset hp hm.2.2, ⟨hm.1, trivial⟩, rfl⟩
  | refreshReport =>
    exact ⟨hf.updateServerStatus _ _ _,
      Main.fixed_refreshNext fun e he => hm.1 e (List.mem_cons_of_mem _ he), rfl⟩

/-! ### Runs -/

structure State.Fixed (n : ℕ) (s : State) : Prop where
  linked : s.Linked
  custody : s.Custody
  mem : s.mem.Fixed n
  tasks : ∀ t ∈ s.tasks, t.Fixed n
  main : s.main.Fixed n

/-- Nobody replaces the list, and settings ask for at least one connection. -/
def FixedList (_ : State) : Act → Prop
  | .setServers _ => False
  | .setConnectionSettings settings => 1 ≤ settings.connectionPoolSize
  | _ => True

theorem Task.Fixed.returnsOwn {n : ℕ} {t : Task} (h : t.Fixed n) : t.ReturnsOwn := by
  cases t with
  | check server pc =>
    cases pc with
    | put => exact h.2.2.trans h.2.1.symm
    | _ => trivial
  | _ => trivial

/-- The steps over a fixed list, with the panics gone. -/
theorem State.Fixed.step_task {n : ℕ} {s s' : State} (hf : s.Fixed n) {i : ℕ} {net : Net}
    (h : s.step (.task i net) = some s') :
    ∃ t t' m' spawned, s.tasks[i]? = some t ∧ t.Move s.mem m' (.go t' spawned) ∧
      s' = { s with mem := m', tasks := s.tasks.set i t' ++ spawned } := by
  obtain ⟨t, m', ht, ⟨t', spawned, hs, rfl⟩ | ⟨hs, -⟩⟩ := State.step_task h
  · exact ⟨t, t', m', spawned, ht, hs, rfl⟩
  · have hmem := List.mem_of_getElem? ht
    exact (hs.not_panic hf.mem (hf.tasks t hmem) (hf.linked.tasks t hmem)).elim

theorem fixed_step {n : ℕ} {s s' : State} {a : Act} (hf : s.Fixed n) (hg : FixedList s a)
    (h : s.step a = some s') : s'.Fixed n := by
  have hlinked := linked_step hf.linked h
  have hcustody : s'.Custody := custody_step hf.custody
    (fun _ _ t _ ht => (hf.tasks t (List.mem_of_getElem? ht)).returnsOwn) h
  have hstart (e : VkLdapServer) (he : e ∈ s.mem.ctx.servers) : (Task.check e .start).Fixed n := by
    obtain ⟨k, hk⟩ := List.mem_iff_getElem?.mp he
    have hlt := (List.getElem?_eq_some_iff.mp hk).1
    have hid := (hf.linked.aligned.1.entry k e hk).1
    rw [← hf.linked.aligned.1.length, hf.mem.table, List.length_range] at hlt
    exact ⟨hid ▸ hlt, trivial⟩
  have htasks : ∀ t ∈ s'.tasks, t.Fixed n := by
    refine State.forall_tasks_step (P := fun _ t => t.Fixed n) h hf.tasks
      (fun _ _ ht => ht) ?_ ?_ trivial hstart
    · intro i net t t' spawned _ ht hmove
      have hmem := List.mem_of_getElem? ht
      exact hmove.fixed hf.mem (hf.tasks t hmem) (hf.linked.tasks t hmem)
        hf.linked.aligned.1 hf.custody.own.pools
    · intro net spawned _ hmove u hu
      rw [(hmove.fixed hf.mem hf.main hf.linked.aligned.1).2.2] at hu
      cases hu
  rcases State.step_cases h with ⟨i, net, rfl⟩ | ⟨net, rfl⟩ | hother
  · obtain ⟨t, t', m', spawned, ht, hs, rfl⟩ := hf.step_task h
    exact ⟨hlinked, hcustody, hs.fixed_mem hf.mem (hf.tasks t (List.mem_of_getElem? ht)),
      htasks, hf.main⟩
  · obtain ⟨m', main, spawned, hs, rfl⟩ := State.step_main h
    obtain ⟨h1, h2, -⟩ := hs.fixed hf.mem hf.main hf.linked.aligned.1
    exact ⟨hlinked, hcustody, h1, htasks, h2⟩
  · cases hother with
    | setServers => exact absurd hg id
    | setConnectionSettings => exact ⟨hlinked, hcustody, hf.mem, htasks, hg⟩
    | _ => exact ⟨hlinked, hcustody, hf.mem, htasks, hf.main⟩

/-! ### The start -/

/-- The memory while the list is being set: as many pools as servers so far. -/
structure Mem.Booted (m : Mem) : Prop where
  aligned : Aligned m
  own : m.Own
  inv : m.Inv
  fixed : m.Fixed m.ctx.servers.length

theorem booted_addServer {m : Mem} (h : m.Booted) (url : Url) (connect : ℕ → Result Unit) :
    (m.addServer url connect).Booted := by
  obtain ⟨hid, hurl, hkey⟩ := openServer_key m.pools.length (m.ctx.newServer url)
    m.ctx.connectionSettings connect
  have hstamp := openServer_stamp m.pools.length (m.ctx.newServer url)
    m.ctx.connectionSettings connect
  have hown := openServer_own m.pools.length (m.ctx.newServer url) m.ctx.connectionSettings connect
  have hinv := openServer_inv m.pools.length (m.ctx.newServer url) m.ctx.connectionSettings connect
  unfold Mem.addServer
  generalize openServer m.pools.length (m.ctx.newServer url) m.ctx.connectionSettings connect = r
    at *
  obtain ⟨server, pool⟩ := r
  simp only [Pool.key, Prod.mk.injEq] at hkey hid hurl
  simp only at hstamp hown hinv ⊢
  refine ⟨h.aligned.listServer hid ?_ ?_ hkey.2, h.own.listServer hown, h.inv.listServer hinv, ?_⟩
  · rw [hkey.1, hid]
  · rw [hkey.1, hurl]
  · refine ⟨?_, ?_, fun k p hp => ?_, h.fixed.settings⟩
    · simp [Mem.listServer, VkLdapContext.addServer, h.fixed.table, h.fixed.count,
        List.range_succ]
    · simp [Mem.listServer, VkLdapContext.addServer, h.fixed.count]
    · rcases Mem.listServer_cases hp with hp | ⟨rfl, rfl⟩
      · exact h.fixed.pools k p hp
      · refine ⟨?_, hstamp.1 ▸ h.fixed.settings, hstamp.2⟩
        rw [hkey.1, h.fixed.count]
        rfl

theorem booted_foldl (servers : List (Url × (ℕ → Result Unit))) :
    ∀ m : Mem, m.Booted → (servers.foldl (fun m x => m.addServer x.1 x.2) m).Booted := by
  induction servers with
  | nil => exact fun _ h => h
  | cons x servers ih => exact fun m h => ih _ (booted_addServer h x.1 x.2)

theorem booted_init (ls : VkLdapSettings) (cs : VkConnectionSettings)
    (hs : 1 ≤ cs.connectionPoolSize) : (State.init ls cs).mem.Booted :=
  ⟨(aligned_init ls cs).1, (own_init ls cs).pools, fun k p hp => by simp [State.init] at hp,
    ⟨rfl, rfl, fun k p hp => by simp [State.init] at hp, hs⟩⟩

theorem fixed_booted (ls : VkLdapSettings) (cs : VkConnectionSettings)
    (servers : List (Url × (ℕ → Result Unit))) (hs : 1 ≤ cs.connectionPoolSize) :
    (State.booted ls cs servers).Fixed (State.booted ls cs servers).mem.ctx.servers.length := by
  have hb : (State.booted ls cs servers).mem.Booted :=
    booted_foldl servers _ (booted_init ls cs hs)
  have htasks {P : Task → Prop} : ∀ t ∈ (State.booted ls cs servers).tasks, P t :=
    fun t ht => by simp [State.booted, State.init] at ht
  have haligned : (State.booted ls cs servers).Aligned := ⟨hb.aligned, trivial⟩
  exact ⟨⟨haligned, htasks, trivial⟩,
    ⟨⟨haligned, hb.own, htasks, trivial⟩, fun c => Nat.zero_le _, hb.inv, trivial⟩,
    hb.fixed, htasks, trivial⟩

end System
end ValkeyLdap
