/-
# The table and the pools stay aligned

A server's id is its position, and the pool at that position was made for its
URL. Only the main thread changes the length of the table, one task after the
other; what every other step does to the memory keeps its shape
(`Mem.SameShape`): the URLs and ids of the entries, the list of pool numbers,
and each pool's server.

Key theorems: `Task.Move.shape`, `aligned_step`, `aligned_run`.
-/
import ValkeyLdap.Moves
import ValkeyLdap.PoolRuns

namespace ValkeyLdap

/-! ### A pool keeps its server and its number -/

namespace ConnectionQueue

theorem openConnections_pool (server : VkLdapServer) (settings : VkConnectionSettings)
    (connect : ℕ → Result Unit) : ∀ (n k : ℕ) (q : ConnectionQueue) (j : Journal),
    (openConnections server settings connect n k q j).2.1.pool = j.pool
  | 0, _, _, _ => rfl
  | n + 1, k, q, j => by
    unfold openConnections
    split
    · exact openConnections_pool server settings connect n (k + 1) _ _
    · rfl

end ConnectionQueue

namespace Pool

/-- Which pool it is: for which server, and its number. -/
def key (p : Pool) : VkLdapServer × ℕ := (p.server, p.journal.pool)

theorem reset_key (p : Pool) (settings : VkConnectionSettings) (connect : ℕ → Result Unit) :
    (p.reset settings connect).1.key = p.key := by
  rw [reset_eq]
  exact congrArg (Prod.mk p.server) (ConnectionQueue.openConnections_pool _ _ _ _ _ _ _)

theorem new_key (n : ℕ) (server : VkLdapServer) (settings : VkConnectionSettings)
    (connect : ℕ → Result Unit) : (Pool.new n server settings connect).1.key = (server, n) :=
  reset_key _ settings connect

theorem refreshConnections_key (p : Pool) (settings : VkConnectionSettings)
    (connect : ℕ → Result Unit) : (p.refreshConnections settings connect).1.key = p.key := by
  rw [refreshConnections_fst]
  exact reset_key p settings connect

theorem takeConnection_key {p q : Pool} {c : VkLdapPoolConnection}
    (h : p.takeConnection = some (c, q)) : q.key = p.key := by
  rw [(takeConnection_eq h).2.2.2]
  rfl

theorem returnConnection_key (p : Pool) (c : VkLdapPoolConnection) :
    (p.returnConnection c).key = p.key := by
  unfold returnConnection
  simp only
  split <;> rfl

theorem shutdown_key {p q : Pool} (h : p.shutdown = some q) : q.key = p.key := by
  unfold shutdown at h
  split at h
  · obtain rfl := Option.some.inj h
    rfl
  · cases h

end Pool

namespace System

/-! ### What every step but the main thread's keeps -/

/-- The URL and the id of an entry. -/
def serverKey (s : VkLdapServer) : Url × ℕ := (s.url, s.id)

structure Mem.SameShape (m m' : Mem) : Prop where
  servers : m'.ctx.servers.map serverKey = m.ctx.servers.map serverKey
  connPools : m'.ctx.connPools = m.ctx.connPools
  pools : m'.pools.map Pool.key = m.pools.map Pool.key

namespace Mem.SameShape

theorem refl (m : Mem) : m.SameShape m := ⟨rfl, rfl, rfl⟩

theorem updateServerStatus (m : Mem) (server : VkLdapServer) (status : VkLdapServerStatus)
    (pingTime : Option Duration) : m.SameShape (m.updateServerStatus server status pingTime) := by
  unfold Mem.updateServerStatus
  rw [VkLdapContext.updateServerStatus_eq]
  refine ⟨List.ext_getElem? fun i => ?_, rfl, rfl⟩
  simp only [List.getElem?_map, List.getElem?_modify]
  cases m.ctx.servers[i]? with
  | none => rfl
  | some e => by_cases h : server.id = i <;> simp [h, serverKey, VkLdapContext.written]

theorem setPool {m : Mem} {k : ℕ} {p p' : Pool} (hp : m.pools[k]? = some p)
    (hk : p'.key = p.key) : m.SameShape (m.setPool k p') := by
  refine ⟨rfl, rfl, List.ext_getElem? fun i => ?_⟩
  obtain ⟨hlt, rfl⟩ := List.getElem?_eq_some_iff.mp hp
  simp only [Mem.setPool, List.getElem?_map, List.getElem?_set]
  by_cases h : k = i
  · subst h
    simp [hlt, hk]
  · simp [h]

end Mem.SameShape

/-- Every step of a task keeps the shape. -/
theorem Task.Move.shape {m m' : Mem} {t : Task} {n : Next Task} (h : t.Move m m' n) :
    m.SameShape m' := by
  cases h with
  | take hp _ ht => exact .setPool hp (Pool.takeConnection_key ht)
  | checkTake hp _ ht => exact .setPool hp (Pool.takeConnection_key ht)
  | put hp => exact .setPool hp (Pool.returnConnection_key _ _)
  | ret hp => exact .setPool hp (Pool.returnConnection_key _ _)
  | refreshReset hp => exact .setPool hp (Pool.refreshConnections_key _ _ _)
  | shutdown hp _ hs => exact .setPool hp (Pool.shutdown_key hs)
  | fail => exact .updateServerStatus m _ _ _
  | report => exact .updateServerStatus m _ _ _
  | reportConnect => exact .updateServerStatus m _ _ _
  | refreshReport => exact .updateServerStatus m _ _ _
  | _ => exact .refl m

/-! ### Alignment -/

/-- Entry `i` has id `i`, and the pool at `i` was made for its URL. -/
structure Aligned (m : Mem) : Prop where
  length : m.ctx.connPools.length = m.ctx.servers.length
  entry : ∀ (i : ℕ) (server : VkLdapServer), m.ctx.servers[i]? = some server → server.id = i ∧
    ∃ (k : ℕ) (p : Pool), m.ctx.connPools[i]? = some k ∧ m.pools[k]? = some p ∧
      p.server.id = i ∧ p.server.url = server.url
  number : ∀ (k : ℕ) (p : Pool), m.pools[k]? = some p → p.journal.pool = k

theorem Aligned.ctx {m : Mem} (h : Aligned m) : m.ctx.Aligned :=
  ⟨h.length, fun i server hi => (h.entry i server hi).1⟩

/-- The server the main thread is about to list fits the end of the table. -/
def MainAligned (m : Mem) : Main → Prop
  | .opening server _ _ => server.id = m.ctx.servers.length
  | .listing server pool _ => server.id = m.ctx.servers.length ∧ pool.server.id = server.id ∧
      pool.server.url = server.url ∧ pool.journal.pool = m.pools.length
  | _ => True

theorem SameShape.getElem {α β : Type} {f : α → β} {l l' : List α} (h : l'.map f = l.map f)
    {i : ℕ} {x : α} (hx : l'[i]? = some x) : ∃ y, l[i]? = some y ∧ f x = f y := by
  have := congrArg (·[i]?) h
  simp only [List.getElem?_map, hx, Option.map_some] at this
  obtain ⟨y, hy, he⟩ := Option.map_eq_some_iff.mp this.symm
  exact ⟨y, hy, he.symm⟩

theorem Mem.SameShape.length {m m' : Mem} (h : m.SameShape m') :
    m'.ctx.servers.length = m.ctx.servers.length := by
  simpa using congrArg List.length h.servers

theorem Mem.SameShape.poolsLength {m m' : Mem} (h : m.SameShape m') :
    m'.pools.length = m.pools.length := by
  simpa using congrArg List.length h.pools

theorem Aligned.of_shape {m m' : Mem} (h : m.SameShape m') (ha : Aligned m) : Aligned m' := by
  refine ⟨by rw [h.connPools, h.length, ha.length], fun i server hs => ?_, fun k p hp => ?_⟩
  · obtain ⟨server₀, hs₀, hk⟩ := SameShape.getElem h.servers hs
    simp only [serverKey, Prod.mk.injEq] at hk
    obtain ⟨hid, k, p₀, hk₀, hp₀, hpid, hpurl⟩ := ha.entry i server₀ hs₀
    obtain ⟨p, hp, hpk⟩ := SameShape.getElem h.pools.symm hp₀
    simp only [Pool.key, Prod.mk.injEq] at hpk
    refine ⟨hk.2.trans hid, k, p, h.connPools ▸ hk₀, hp, ?_, ?_⟩
    · rw [← hpk.1, hpid]
    · rw [← hpk.1, hpurl, hk.1]
  · obtain ⟨p₀, hp₀, hpk⟩ := SameShape.getElem h.pools hp
    simp only [Pool.key, Prod.mk.injEq] at hpk
    rw [hpk.2, ha.number k p₀ hp₀]

theorem MainAligned.of_shape {m m' : Mem} {main : Main} (h : m.SameShape m')
    (hm : MainAligned m main) : MainAligned m' main := by
  cases main <;> simp only [MainAligned, h.length, h.poolsLength] at hm ⊢ <;> exact hm

theorem openServer_key (n : ℕ) (server : VkLdapServer) (settings : VkConnectionSettings)
    (connect : ℕ → Result Unit) :
    (openServer n server settings connect).1.id = server.id ∧
      (openServer n server settings connect).1.url = server.url ∧
      (openServer n server settings connect).2.key = (server, n) := by
  rw [openServer_snd, Pool.new_key]
  unfold openServer
  split <;> exact ⟨rfl, rfl, rfl⟩

theorem Aligned.listServer {m : Mem} {server : VkLdapServer} {pool : Pool} (ha : Aligned m)
    (hid : server.id = m.ctx.servers.length) (hpid : pool.server.id = server.id)
    (hurl : pool.server.url = server.url) (hn : pool.journal.pool = m.pools.length) :
    Aligned (m.listServer server pool) := by
  refine ⟨by simp [Mem.listServer, VkLdapContext.addServer, ha.length], fun i e he => ?_,
    fun k p hp => ?_⟩
  · simp only [Mem.listServer, VkLdapContext.addServer] at he ⊢
    rcases Nat.lt_or_ge i m.ctx.servers.length with hi | hi
    · rw [List.getElem?_append_left hi] at he
      obtain ⟨h1, k, p, hk, hp, h2⟩ := ha.entry i e he
      refine ⟨h1, k, p, ?_, Mem.listServer_old hp server pool, h2⟩
      rw [List.getElem?_append_left (by rw [ha.length]; exact hi), hk]
    · rw [List.getElem?_append_right hi] at he
      obtain ⟨h0, rfl⟩ : i - m.ctx.servers.length = 0 ∧ server = e := by
        rcases hj : i - m.ctx.servers.length with _ | j <;> simp_all
      obtain rfl : i = m.ctx.servers.length := by omega
      exact ⟨hid, m.pools.length, pool, by simp [← ha.length], by simp, hpid.trans hid, hurl⟩
  · rcases Mem.listServer_cases hp with hp | ⟨rfl, rfl⟩
    · exact ha.number k p hp
    · exact hn

theorem mainAligned_refreshNext (m : Mem) (rest : List VkLdapServer) :
    MainAligned m (Main.refreshNext rest) := by
  cases rest <;> trivial

theorem Main.Move.aligned {m m' : Mem} {main main' : Main} {spawned : List Task}
    (h : main.Move m m' main' spawned) (ha : Aligned m) (hm : MainAligned m main) :
    Aligned m' ∧ MainAligned m' main' := by
  cases h with
  | clear =>
    exact ⟨⟨rfl, fun i e he => by simp [VkLdapContext.clearServerList] at he, ha.number⟩, trivial⟩
  | added => exact ⟨ha, trivial⟩
  | add => exact ⟨ha, rfl⟩
  | @opened server settings urls connect =>
    obtain ⟨h1, h2, h3⟩ := openServer_key m.pools.length server settings connect
    simp only [Pool.key, Prod.mk.injEq] at h3
    exact ⟨ha, h1.trans hm, (congrArg (·.id) h3.1).trans h1.symm,
      (congrArg (·.url) h3.1).trans h2.symm, h3.2⟩
  | openLost => exact ⟨ha, trivial⟩
  | list => exact ⟨ha.listServer hm.1 hm.2.1 hm.2.2.1 hm.2.2.2, trivial⟩
  | store => exact ⟨⟨ha.length, ha.entry, ha.number⟩, trivial⟩
  | read => exact ⟨ha, mainAligned_refreshNext _ _⟩
  | refreshLookup => exact ⟨ha, trivial⟩
  | refreshLost => exact ⟨ha, trivial⟩
  | refreshReset hp =>
    exact ⟨ha.of_shape (.setPool hp (Pool.refreshConnections_key _ _ _)), trivial⟩
  | refreshReport =>
    exact ⟨ha.of_shape (.updateServerStatus m _ _ _), mainAligned_refreshNext _ _⟩

/-- The alignment of the memory and of what the main thread is about to list. -/
def State.Aligned (s : State) : Prop := System.Aligned s.mem ∧ MainAligned s.mem s.main

theorem aligned_step {s s' : State} {a : Act} (ha : s.Aligned) (h : s.step a = some s') :
    s'.Aligned := by
  rcases State.step_cases h with ⟨i, net, rfl⟩ | ⟨net, rfl⟩ | hother
  · obtain ⟨t, m', -, ⟨t', spawned, ht, rfl⟩ | ⟨ht, rfl⟩⟩ := State.step_task h
    · exact ⟨ha.1.of_shape ht.shape, ha.2.of_shape ht.shape⟩
    · exact ⟨ha.1.of_shape ht.shape, ha.2.of_shape ht.shape⟩
  · obtain ⟨m', main, spawned, hs, rfl⟩ := State.step_main h
    exact hs.aligned ha.1 ha.2
  · cases hother with
    | setServers => exact ⟨ha.1, trivial⟩
    | setConnectionSettings => exact ⟨ha.1, trivial⟩
    | _ => exact ha

theorem aligned_init (ls : VkLdapSettings) (cs : VkConnectionSettings) :
    (State.init ls cs).Aligned :=
  ⟨⟨rfl, fun i e he => by simp [State.init, VkLdapContext.new] at he,
    fun k p hp => by simp [State.init] at hp⟩, trivial⟩

theorem aligned_run {s t : State} {tr : List (State × Act)} (h : Runs.Run State.step s tr t)
    (h0 : s.Aligned) : t.Aligned :=
  h.invariant Runs.steps_true h0 fun _ _ _ hi _ hs =>
    aligned_step hi hs

end System
end ValkeyLdap
