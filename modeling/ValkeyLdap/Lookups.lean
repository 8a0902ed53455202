/-
# Positions that are looked up

`get_connection_pool` indexes the table of pools with the id of a handle and
panics when it is out of range. An operation looks up the server it has just
found, and the main thread the entries of its own list. A check looks up the
position its snapshot gave, up to two times, with the context lock released in
between. All is well exactly while the list, at each of these moments, is still
longer than that position (`inBounds_of_covered`, `covered_of_inBounds`), and
then nothing that looks up a pool panics (`not_panics_of_inBounds`).

Key theorems: `linked_step`, `inBounds_of_covered`, `covered_of_inBounds`,
`not_panics_of_inBounds`.
-/
import ValkeyLdap.Aligned

namespace ValkeyLdap
namespace System

open Runs

/-! ### Pools are only ever added -/

/-- The server the pool was made for. -/
def Mem.poolServer (m : Mem) (k : ℕ) : Option VkLdapServer := m.pools[k]?.map (·.server)

def Mem.Extends (m m' : Mem) : Prop :=
  ∀ (k : ℕ) (server : VkLdapServer), m.poolServer k = some server → m'.poolServer k = some server

theorem Mem.SameShape.poolServer {m m' : Mem} (h : m.SameShape m') (k : ℕ) :
    m'.poolServer k = m.poolServer k := by
  have := congrArg (fun l => l[k]?.map Prod.fst) h.pools
  simp only [List.getElem?_map, Option.map_map] at this
  exact this

theorem Mem.SameShape.extends {m m' : Mem} (h : m.SameShape m') : m.Extends m' :=
  fun k _ hk => (h.poolServer k).trans hk

theorem Main.Move.extends {m m' : Mem} {main main' : Main} {spawned : List Task}
    (h : main.Move m m' main' spawned) : m.Extends m' := by
  cases h with
  | @list server pool urls =>
    intro k server hk
    obtain ⟨p, hp, rfl⟩ := Option.map_eq_some_iff.mp hk
    rw [Mem.poolServer, Mem.listServer_old hp server pool, Option.map_some]
  | refreshReset hp => exact (Mem.SameShape.setPool hp (Pool.refreshConnections_key _ _ _)).extends
  | refreshReport => exact (Mem.SameShape.updateServerStatus m _ _ _).extends
  | _ => exact fun _ _ hk => hk

theorem State.step_extends {s s' : State} {a : Act} (h : s.step a = some s') :
    s.mem.Extends s'.mem := by
  rcases State.step_cases h with ⟨i, net, rfl⟩ | ⟨net, rfl⟩ | hother
  · obtain ⟨t, m', -, ⟨t', spawned, hs, rfl⟩ | ⟨hs, rfl⟩⟩ := State.step_task h <;>
      exact hs.shape.extends
  · obtain ⟨m', main, spawned, hs, rfl⟩ := State.step_main h
    exact hs.extends
  · cases hother <;> exact fun _ _ hk => hk

/-! ### What the tasks hold fits together -/

/-- The pool exists and was made for position `id`. -/
def Mem.PoolAt (m : Mem) (pool id : ℕ) : Prop :=
  ∃ server, m.poolServer pool = some server ∧ server.id = id

theorem Mem.PoolAt.extends {m m' : Mem} {pool id : ℕ} (h : m.PoolAt pool id)
    (he : m.Extends m') : m'.PoolAt pool id := by
  obtain ⟨server, hs, hid⟩ := h
  exact ⟨server, he pool server hs, hid⟩

theorem Mem.PoolAt.exists {m : Mem} {pool id : ℕ} (h : m.PoolAt pool id) :
    ∃ p, m.pools[pool]? = some p := by
  obtain ⟨server, hs, -⟩ := h
  obtain ⟨p, hp, -⟩ := Option.map_eq_some_iff.mp hs
  exact ⟨p, hp⟩

/-- The pool a lookup of position `id` finds was made for it. -/
theorem Aligned.poolAt {m : Mem} (ha : Aligned m) {id pool : ℕ}
    (h : m.ctx.connPools[id]? = some pool) : m.PoolAt pool id := by
  have hlt : id < m.ctx.servers.length := ha.length ▸ (List.getElem?_eq_some_iff.mp h).1
  obtain ⟨-, k, p, hk, hp, hid, -⟩ := ha.entry id _ (List.getElem?_eq_getElem hlt)
  obtain rfl : k = pool := Option.some.inj (hk.symm.trans h)
  exact ⟨p.server, by simp [Mem.poolServer, hp], hid⟩

def Refresh.Linked (m : Mem) (server : VkLdapServer) : Refresh → Prop
  | .reset pool _ => m.PoolAt pool server.id
  | _ => True

def Check.Linked (m : Mem) (server : VkLdapServer) : Check → Prop
  | .take pool _ => m.PoolAt pool server.id
  | .ping conn => conn.server.id = server.id
  | .giveBack conn _ => conn.server.id = server.id
  | .put pool conn _ => conn.server.id = server.id ∧ m.PoolAt pool server.id
  | .refresh r => r.Linked m server
  | _ => True

/-- A pool that a task works on was made for the position of its server, and
so was the connection it took from there. -/
def Task.Linked (m : Mem) : Task → Prop
  | .op (.take server pool _) => m.PoolAt pool server.id
  | .op (.ldap server pool _) => m.PoolAt pool server.id
  | .op _ => True
  | .check server pc => pc.Linked m server
  | .ret pool _ => ∃ id, m.PoolAt pool id
  | .shutdown pools _ => ∀ pool ∈ pools, ∃ id, m.PoolAt pool id
  | .ended => True

/-- The main thread refreshes servers of its own list. -/
def Main.Linked (m : Mem) : Main → Prop
  | .refreshing server r rest =>
    r.Linked m server ∧ ∀ e ∈ server :: rest, e.id < m.ctx.servers.length
  | _ => True

theorem Task.Linked.extends {m m' : Mem} {t : Task} (h : t.Linked m) (he : m.Extends m') :
    t.Linked m' := by
  have hpool {pool id : ℕ} (hp : m.PoolAt pool id) : m'.PoolAt pool id := hp.extends he
  cases t with
  | op pc =>
    cases pc with
    | take => exact hpool h
    | ldap => exact hpool h
    | _ => trivial
  | check server pc =>
    cases pc with
    | take => exact hpool h
    | put => exact ⟨h.1, hpool h.2⟩
    | refresh r =>
      cases r with
      | reset => exact hpool h
      | _ => trivial
    | ping => exact h
    | giveBack => exact h
    | _ => trivial
  | ret pool conn => exact h.imp fun _ => hpool
  | shutdown pools seen => exact fun pool hp => (h pool hp).imp fun _ => hpool
  | ended => trivial

/-- The connection taken from a pool says the position the pool was made for. -/
theorem takeConnection_id {m : Mem} {pool id : ℕ} {p p' : Pool} {c : VkLdapPoolConnection}
    (hp : m.pools[pool]? = some p) (ht : p.takeConnection = some (c, p'))
    (h : m.PoolAt pool id) : c.server.id = id := by
  obtain ⟨server, hs, rfl⟩ := h
  simp only [Mem.poolServer, hp, Option.map_some, Option.some.injEq] at hs
  rw [← hs, (Pool.takeConnection_eq ht).2.1]

theorem Task.Move.linked {m m' : Mem} {t t' : Task} {spawned : List Task}
    (h : t.Move m m' (.go t' spawned)) (ha : Aligned m) (ht : t.Linked m) :
    t'.Linked m' ∧ ∀ u ∈ spawned, u.Linked m' := by
  have he := h.shape.extends
  have hnil : ∀ u ∈ ([] : List Task), u.Linked m' := fun u hu => by cases hu
  have hret {pool id : ℕ} {conn : VkLdapPoolConnection} (hp : m.PoolAt pool id) :
      ∀ u ∈ [Task.ret pool conn], u.Linked m' := by
    intro u hu
    obtain rfl := List.mem_singleton.mp hu
    exact ⟨id, hp.extends he⟩
  cases h with
  | find _ hp => exact ⟨ha.poolAt hp, hnil⟩
  | take hp _ hc => exact ⟨Mem.PoolAt.extends ht he, hnil⟩
  | wait => exact ⟨ht, hnil⟩
  | ldapFailed => exact ⟨trivial, hret ht⟩
  | ldap => exact ⟨trivial, hret ht⟩
  | checkFind _ hp => exact ⟨ha.poolAt hp, hnil⟩
  | checkTake hp _ hc => exact ⟨takeConnection_id hp hc ht, hnil⟩
  | checkWait => exact ⟨ht, hnil⟩
  | ping => exact ⟨ht, hnil⟩
  | giveBack hp =>
    have hid : _ = _ := ht
    exact ⟨⟨hid, ha.poolAt (hid ▸ hp)⟩, hnil⟩
  | refreshLookup hp => exact ⟨ha.poolAt hp, hnil⟩
  | shutdown => exact ⟨fun pool hp => (ht pool (List.mem_cons_of_mem _ hp)).imp
      fun _ hp => hp.extends he, hnil⟩
  | shutdownWait => exact ⟨ht, hnil⟩
  | _ => exact ⟨trivial, hnil⟩

theorem Main.linked_refreshNext {m : Mem} {rest : List VkLdapServer}
    (h : ∀ e ∈ rest, e.id < m.ctx.servers.length) : (Main.refreshNext rest).Linked m := by
  cases rest with
  | nil => trivial
  | cons server rest => exact ⟨trivial, h⟩

theorem Main.Move.linked {m m' : Mem} {main main' : Main} {spawned : List Task}
    (h : main.Move m m' main' spawned) (ha : Aligned m) (hm : main.Linked m) :
    main'.Linked m' ∧ ∀ u ∈ spawned, u.Linked m' := by
  have hnil : ∀ u ∈ ([] : List Task), u.Linked m' := fun u hu => by cases hu
  cases h with
  | clear =>
    refine ⟨trivial, fun u hu => ?_⟩
    obtain rfl := List.mem_singleton.mp hu
    intro pool hp
    obtain ⟨id, hid⟩ := List.mem_iff_getElem?.mp hp
    exact ⟨id, ha.poolAt hid⟩
  | read =>
    refine ⟨Main.linked_refreshNext fun e he => ?_, hnil⟩
    obtain ⟨i, hi⟩ := List.mem_iff_getElem?.mp he
    rw [(ha.entry i e hi).1]
    exact (List.getElem?_eq_some_iff.mp hi).1
  | refreshLookup hp => exact ⟨⟨ha.poolAt hp, hm.2⟩, hnil⟩
  | refreshReset => exact ⟨⟨trivial, hm.2⟩, hnil⟩
  | refreshReport =>
    refine ⟨Main.linked_refreshNext fun e he => ?_, hnil⟩
    rw [(Mem.SameShape.updateServerStatus m _ _ _).length]
    exact hm.2 e (List.mem_cons_of_mem _ he)
  | _ => exact ⟨trivial, hnil⟩

theorem Main.Linked.of_shape {m m' : Mem} {main : Main} (h : main.Linked m)
    (hs : m.SameShape m') : main.Linked m' := by
  cases main with
  | refreshing server r rest =>
    refine ⟨?_, fun e he => hs.length ▸ h.2 e he⟩
    cases r with
    | reset => exact Mem.PoolAt.extends h.1 hs.extends
    | _ => trivial
  | _ => trivial

structure State.Linked (s : State) : Prop where
  aligned : s.Aligned
  tasks : ∀ t ∈ s.tasks, t.Linked s.mem
  main : s.main.Linked s.mem

theorem linked_step {s s' : State} {a : Act} (hl : s.Linked) (h : s.step a = some s') :
    s'.Linked := by
  refine ⟨aligned_step hl.aligned h, ?_, ?_⟩
  · refine State.forall_tasks_step (P := fun m t => t.Linked m) h hl.tasks
      (fun t _ ht => ht.extends (State.step_extends h)) ?_ ?_ trivial fun _ _ => trivial
    · intro i net t t' spawned _ ht hmove
      exact hmove.linked hl.aligned.1 (hl.tasks t (List.mem_of_getElem? ht))
    · intro net spawned _ hmove
      exact (hmove.linked hl.aligned.1 hl.main).2
  · rcases State.step_cases h with ⟨i, net, rfl⟩ | ⟨net, rfl⟩ | hother
    · obtain ⟨t, m', -, ⟨t', spawned, hs, rfl⟩ | ⟨hs, rfl⟩⟩ := State.step_task h <;>
        exact hl.main.of_shape hs.shape
    · obtain ⟨m', main, spawned, hs, rfl⟩ := State.step_main h
      exact (hs.linked hl.aligned.1 hl.main).1
    · cases hother with
      | setServers => trivial
      | setConnectionSettings => trivial
      | _ => exact hl.main

theorem linked_init (ls : VkLdapSettings) (cs : VkConnectionSettings) :
    (State.init ls cs).Linked :=
  ⟨aligned_init ls cs, fun t ht => by simp [State.init] at ht, trivial⟩

theorem Aligned.addServer {m : Mem} (h : Aligned m) (url : Url) (connect : ℕ → Result Unit) :
    Aligned (m.addServer url connect) := by
  obtain ⟨hid, hurl, hkey⟩ := openServer_key m.pools.length (m.ctx.newServer url)
    m.ctx.connectionSettings connect
  unfold Mem.addServer
  generalize openServer m.pools.length (m.ctx.newServer url) m.ctx.connectionSettings connect = r
    at *
  obtain ⟨server, pool⟩ := r
  simp only [Pool.key, Prod.mk.injEq] at hkey hid hurl
  exact h.listServer hid (by rw [hkey.1, hid]) (by rw [hkey.1, hurl]) hkey.2

theorem linked_booted (ls : VkLdapSettings) (cs : VkConnectionSettings)
    (servers : List (Url × (ℕ → Result Unit))) : (State.booted ls cs servers).Linked := by
  have hfold : ∀ (servers : List (Url × (ℕ → Result Unit))) (m : Mem), Aligned m →
      Aligned (servers.foldl (fun m x => m.addServer x.1 x.2) m) := by
    intro servers
    induction servers with
    | nil => exact fun _ h => h
    | cons x servers ih => exact fun m h => ih _ (h.addServer x.1 x.2)
  exact ⟨⟨hfold servers _ (aligned_init ls cs).1, trivial⟩,
    fun t ht => by simp [State.booted, State.init] at ht, trivial⟩

/-! ### The lookups -/

/-- The position that a check is about to look up. -/
def Check.looksUp (server : VkLdapServer) : Check → Option ℕ
  | .start => if server.isHealthy then some server.id else none
  | .giveBack conn _ => some conn.server.id
  | .refresh .lookup => some server.id
  | _ => none

/-- The position that a step looks up in the table of pools. -/
def State.looksUp (s : State) : Act → Option ℕ
  | .task i _ =>
    match s.tasks[i]? with
    | some (.op .find) => s.mem.ctx.findServer.toOption.map (·.id)
    | some (.check server pc) => pc.looksUp server
    | _ => none
  | .main _ =>
    match s.main with
    | .refreshing server .lookup _ => some server.id
    | _ => none
  | _ => none

def InBounds (s : State) (a : Act) : Prop :=
  ∀ id, s.looksUp a = some id → id < s.mem.ctx.connPools.length

/-- Where a check looks up its pool, the list has not become too short for the
position in its snapshot. -/
def Covered (s : State) (a : Act) : Prop :=
  ∀ i net server pc, a = .task i net → s.tasks[i]? = some (.check server pc) →
    (pc.looksUp server).isSome → server.id < s.mem.ctx.servers.length

theorem looksUp_id {m : Mem} {server : VkLdapServer} {pc : Check} (h : pc.Linked m server)
    {id : ℕ} (hid : pc.looksUp server = some id) : id = server.id := by
  cases pc with
  | start =>
    simp only [Check.looksUp] at hid
    split at hid <;> cases hid
    rfl
  | giveBack conn res =>
    cases hid
    exact h
  | refresh r =>
    cases r <;> cases hid
    rfl
  | _ => cases hid

theorem inBounds_of_covered {s : State} {a : Act} (hl : s.Linked) (hc : Covered s a) :
    InBounds s a := by
  intro id hid
  rw [hl.aligned.1.length]
  unfold State.looksUp at hid
  split at hid
  · rename_i i net
    split at hid
    · obtain ⟨server, hf, rfl⟩ := Option.map_eq_some_iff.mp hid
      have hmem : s.mem.ctx.findServer = .ok server := by
        cases hfs : s.mem.ctx.findServer with
        | error => rw [hfs] at hf; cases hf
        | ok e => rw [hfs] at hf; cases hf; rfl
      obtain ⟨k, hk⟩ := List.mem_iff_getElem?.mp (VkLdapContext.findServer_ok hmem).1
      rw [(hl.aligned.1.entry k server hk).1]
      exact (List.getElem?_eq_some_iff.mp hk).1
    · rename_i server pc ht
      obtain rfl := looksUp_id (hl.tasks _ (List.mem_of_getElem? ht)) hid
      exact hc i net server pc rfl ht (by rw [hid]; rfl)
    · cases hid
  · split at hid
    · rename_i server rest hm
      cases hid
      have := hl.main
      rw [hm] at this
      exact this.2 server List.mem_cons_self
    · cases hid
  · cases hid

theorem covered_of_inBounds {s : State} {a : Act} (hl : s.Linked) (hb : InBounds s a) :
    Covered s a := by
  rintro i net server pc rfl ht hsome
  obtain ⟨id, hid⟩ := Option.isSome_iff_exists.mp hsome
  have := hb id (by simpa [State.looksUp, ht] using hid)
  rw [← looksUp_id (hl.tasks _ (List.mem_of_getElem? ht)) hid, ← hl.aligned.1.length]
  exact this

/-! ### No panic -/

/-- The step panics, other than inside an LDAP operation or an attempt of
`add_server` to connect. -/
def State.Panics (s : State) : Act → Prop
  | .task i net => ∃ t m', s.tasks[i]? = some t ∧ (t.step s.mem net = some (m', .panic) ∨
      ∃ spawned, t.step s.mem net = some (m', .go (.op .panicked) spawned) ∧
        net.ldapOp ≠ .panicked)
  | .main net => (∀ server settings urls, s.main ≠ .opening server settings urls) ∧
      ∃ m' spawned, s.main.step s.mem net = some (m', .hung, spawned)
  | _ => False

/-- A lookup that is in bounds finds a pool. -/
theorem getElem?_ne_none {m : Mem} {id : ℕ} (h : id < m.ctx.connPools.length) :
    m.ctx.connPools[id]? ≠ none := by
  simp [h]

theorem not_panics_of_inBounds {s : State} {a : Act} (hb : InBounds s a) : ¬ s.Panics a := by
  cases a with
  | task i net =>
    rintro ⟨t, m', ht, hs | ⟨spawned, hs, hnet⟩⟩
    · have hlost {server : VkLdapServer} {pc : Check} {id : ℕ} (he : t = .check server pc)
          (hid : pc.looksUp server = some id) (hn : s.mem.ctx.connPools[id]? = none) : False := by
        subst he
        exact getElem?_ne_none (hb id (by simpa [State.looksUp, ht] using hid)) hn
      cases Task.step_move hs with
      | checkLost hh hn => exact hlost rfl (if_pos hh) hn
      | giveBackLost hn => exact hlost rfl rfl hn
      | refreshLost hn => exact hlost rfl rfl hn
    · cases Task.step_move hs with
      | findLost hf hn =>
        exact getElem?_ne_none (hb _ (by simp [State.looksUp, ht, hf, Except.toOption])) hn
      | ldapPanicked =>
        simp only [Task.step, Op.step] at hs
        split at hs
        · rename_i hop
          split at hop <;> cases hop <;> cases hs
        · rename_i hop
          split at hop
          · cases hop
          · cases hop
          · exact hnet ‹_›
        · cases hs
  | main net =>
    rintro ⟨hopening, m', spawned, hs⟩
    generalize hm : s.main = main at hs
    have hmove := Main.step_move hs
    generalize hh : Main.hung = main' at hmove
    cases hmove with
    | openLost => exact hopening _ _ _ hm
    | refreshLost hn =>
      exact getElem?_ne_none (hb _ (by simp [State.looksUp, hm])) hn
    | read => cases hs' : s.mem.ctx.servers <;> rw [hs'] at hh <;> cases hh
    | @refreshReport _ rest => cases rest <;> cases hh
    | _ => cases hh
  | _ => exact id

theorem step_detector {s s' : State} {a : Act} (h : s.step a = some s') (hp : ¬ s.Panics a)
    (hd : s.detector ≠ .hung) : s'.detector ≠ .hung := by
  rcases State.step_cases h with ⟨i, net, rfl⟩ | ⟨net, rfl⟩ | hother
  · simp only [State.step] at h
    split at h
    · cases h
    · rename_i t ht
      split at h
      · cases h; exact hd
      · exact absurd ⟨t, _, ht, Or.inl ‹_›⟩ hp
      · cases h
  · obtain ⟨m', main, spawned, -, rfl⟩ := State.step_main h
    exact hd
  · cases hother with
    | iterate => exact Detector.noConfusion
    | deliver => exact Detector.noConfusion
    | _ => exact hd

/-- Where the list stays long enough, every lookup of the run is in bounds. -/
theorem steps_inBounds {ls : VkLdapSettings} {cs : VkConnectionSettings} {tr : List (State × Act)}
    {t : State} (h : Run State.step (State.init ls cs) tr t) (hc : Steps Covered tr) :
    Steps InBounds tr :=
  h.forall_steps hc (linked_init ls cs) (fun _ _ _ hl _ hs => linked_step hl hs)
    fun _ _ _ hl hc _ => inBounds_of_covered hl hc

/-- While the lookups are in bounds the detector's thread is not lost. -/
theorem not_hung_of_inBounds {ls : VkLdapSettings} {cs : VkConnectionSettings}
    {tr : List (State × Act)} {t : State} (h : Run State.step (State.init ls cs) tr t)
    (hb : Steps InBounds tr) : t.detector ≠ .hung :=
  h.invariant hb (I := fun s => s.detector ≠ .hung) Detector.noConfusion
    fun _ _ _ hd hb hs => step_detector hs (not_panics_of_inBounds hb) hd

end System
end ValkeyLdap
