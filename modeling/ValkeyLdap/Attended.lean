/-
# What is out is in somebody's hands

A connection that a pool has handed out in its current epoch is held by a task
that will give it back, as long as no panic drops it and every check gives
back to the pool it took from. With pools of at least one connection, a live
pool that is empty then has a connection on its way back.

Key theorems: `Task.Move.held`, `attended_step`, `Attended.checkedOut`.
-/
import ValkeyLdap.SettingsKept

namespace ValkeyLdap

namespace Pool

variable {p : Pool}

/-- A pool hands a connection out once. -/
theorem nodup_out (h : p.Inv) : p.out.Nodup := by
  refine List.Nodup.of_map (·.conn.id) (List.nodup_iff_count_le_one.mpr fun i => ?_)
  have := h.ids i
  simp only [outIds] at this
  split_ifs at this <;> omega

theorem takeConnection_isSome (h : p.queue.queue ≠ []) : p.takeConnection ≠ none := by
  unfold takeConnection ConnectionQueue.take
  have hlast := List.getLast?_eq_some_getLast h
  simp [ConnectionQueue.isEmpty, h, hlast]

theorem shutdown_epoch {q : Pool} (h : p.shutdown = some q) : q.queue.epoch = p.queue.epoch := by
  unfold shutdown at h
  split at h
  · obtain rfl := Option.some.inj h
    rfl
  · cases h

theorem shutdown_size {q : Pool} (h : p.shutdown = some q) : q.queue.size = p.queue.size := by
  unfold shutdown at h
  split at h
  · obtain rfl := Option.some.inj h
    rfl
  · cases h

theorem takeConnection_none (h : p.takeConnection = none) : p.queue.queue = [] := by
  by_contra hne
  exact takeConnection_isSome hne h

end Pool

namespace System

open Runs

/-! ### Sizes -/

def Task.Sized (t : Task) : Prop := ∀ x, t.reset? = some x → 1 ≤ x.2.connectionPoolSize

/-- What the main thread is about to do asks for at least one connection; the
pool it is about to list has handed none out. -/
def Main.Sized : Main → Prop
  | .opening _ settings _ => 1 ≤ settings.connectionPoolSize
  | .listing _ pool _ => 1 ≤ pool.queue.size ∧ pool.out = []
  | .storing settings => 1 ≤ settings.connectionPoolSize
  | .refreshing _ (.reset _ settings) _ => 1 ≤ settings.connectionPoolSize
  | _ => True

structure Mem.Sized (m : Mem) : Prop where
  settings : 1 ≤ m.ctx.connectionSettings.connectionPoolSize
  pools : ∀ (k : ℕ) (p : Pool), m.pools[k]? = some p → 1 ≤ p.queue.size

/-- `CONFIG SET` accepts pool sizes from 1. -/
def SizedSettings (_ : State) : Act → Prop
  | .setConnectionSettings settings => 1 ≤ settings.connectionPoolSize
  | _ => True

/-! ### Who holds what -/

/-- The task holds a connection of the pool's current epoch. -/
def Mem.Holds (m : Mem) (k : ℕ) (t : Task) : Prop :=
  ∃ c p, t.conn? = some c ∧ c.conn.pool = k ∧ m.pools[k]? = some p ∧
    c.fromEpoch = p.queue.epoch

/-- A connection of the pool's current epoch is checked out. -/
def State.CheckedOut (s : State) (k : ℕ) : Prop := ∃ t ∈ s.tasks, s.mem.Holds k t

/-- What each pool has handed out is its own, and in the current epoch held. -/
structure Mem.Held (m : Mem) (tasks : List Task) : Prop where
  own : ∀ (k : ℕ) (p : Pool), m.pools[k]? = some p → ∀ c ∈ p.out, c.conn.pool = k
  held : ∀ (k : ℕ) (p : Pool), m.pools[k]? = some p → ∀ c ∈ p.out,
    c.fromEpoch = p.queue.epoch → ∃ t ∈ tasks, t.conn? = some c

/-- The tasks that a step's panic ends, with what they hold. -/
def State.dropped (s : State) : Act → List Task
  | .task i net =>
    match s.tasks[i]? with
    | some (.op (.ldap server pool conn)) =>
      if net.ldapOp = .panicked then [.op (.ldap server pool conn)] else []
    | some (.check server pc) =>
      if (pc.looksUp server).any fun id => s.mem.ctx.connPools[id]?.isNone then
        s.tasks.filter (·.isCheck)
      else []
    | _ => []
  | _ => []

/-- No panic drops a connection of the current epoch of its pool. -/
def NoneDropped (s : State) (a : Act) : Prop :=
  ∀ t ∈ s.dropped a, ∀ k, ¬ s.mem.Holds k t

theorem Task.Move.panic_mem {m m' : Mem} {t : Task} (h : t.Move m m' .panic) : m' = m := by
  cases h <;> rfl

/-- A panic of a check drops the iteration. -/
theorem dropped_of_panic {s : State} {i : ℕ} {net : Net} {t : Task} {m' : Mem}
    (ht : s.tasks[i]? = some t) (h : t.Move s.mem m' .panic) :
    s.dropped (.task i net) = s.tasks.filter (·.isCheck) ∧ m' = s.mem := by
  cases h with
  | checkLost hh hn => simp [State.dropped, ht, Check.looksUp, hh, hn]
  | giveBackLost hn => simp [State.dropped, ht, Check.looksUp, hn]
  | refreshLost hn => simp [State.dropped, ht, Check.looksUp, hn]

/-- An operation gives its connection back, or it is dropped. -/
theorem dropped_of_ldap {s : State} {m' : Mem} {i : ℕ} {net : Net} {server : VkLdapServer}
    {pool : ℕ} {conn : VkLdapPoolConnection} {t' : Task} {spawned : List Task}
    (ht : s.tasks[i]? = some (.op (.ldap server pool conn)))
    (h : Task.step s.mem net (.op (.ldap server pool conn)) = some (m', .go t' spawned)) :
    .op (.ldap server pool conn) ∈ s.dropped (.task i net) ∨ .ret pool conn ∈ spawned := by
  cases ho : net.ldapOp with
  | panicked => exact Or.inl (by simp [State.dropped, ht, ho])
  | returned res =>
    refine Or.inr ?_
    cases res with
    | ok u =>
      simp only [Task.step, Op.step, ho] at h
      cases h
      exact List.mem_cons_self
    | error err =>
      cases err <;> simp only [Task.step, Op.step, ho] at h <;> cases h <;>
        exact List.mem_cons_self

/-! ### What a step does to the hands -/

/-- Task `i` becomes `t'`: whoever held `c` still does. -/
theorem held_go {tasks spawned : List Task} {i : ℕ} {t t' : Task} {c : VkLdapPoolConnection}
    (ht : tasks[i]? = some t) (hc : ∃ u ∈ tasks, u.conn? = some c)
    (hgo : t.conn? = some c → ∃ u ∈ t' :: spawned, u.conn? = some c) :
    ∃ u ∈ tasks.set i t' ++ spawned, u.conn? = some c := by
  have hi := (List.getElem?_eq_some_iff.mp ht).1
  obtain ⟨u, hu, huc⟩ := hc
  obtain ⟨j, hj⟩ := List.mem_iff_getElem?.mp hu
  by_cases hij : i = j
  · subst hij
    obtain rfl : t = u := Option.some.inj (ht.symm.trans hj)
    obtain ⟨v, hv, hvc⟩ := hgo huc
    rcases List.mem_cons.mp hv with rfl | hv
    · exact ⟨v, List.mem_append_left _ (List.mem_set hi v), hvc⟩
    · exact ⟨v, List.mem_append_right _ hv, hvc⟩
  · refine ⟨u, List.mem_append_left _ (List.mem_of_getElem? (i := j) ?_), huc⟩
    rw [List.getElem?_set_ne hij, hj]

/-- A pool's step that leaves the other pools: what is out of each is its own
and held, if it is so of the pool that has changed. -/
theorem Mem.Held.setPool {m : Mem} {tasks tasks' : List Task} {k : ℕ} {p' : Pool}
    (h : m.Held tasks) (hown : ∀ c ∈ p'.out, c.conn.pool = k)
    (hnew : ∀ c ∈ p'.out, c.fromEpoch = p'.queue.epoch → ∃ t ∈ tasks', t.conn? = some c)
    (hkeep : ∀ c, c.conn.pool ≠ k → (∃ t ∈ tasks, t.conn? = some c) →
      ∃ t ∈ tasks', t.conn? = some c) : (m.setPool k p').Held tasks' := by
  constructor
  · intro j q hq
    rcases Mem.setPool_cases hq with ⟨rfl, rfl⟩ | ⟨-, hq⟩
    · exact hown
    · exact h.own j q hq
  · intro j q hq c hc he
    rcases Mem.setPool_cases hq with ⟨-, rfl⟩ | ⟨hj, hq⟩
    · exact hnew c hc he
    · refine hkeep c (fun hck => hj ?_) (h.held j q hq c hc he)
      exact hck.symm.trans (h.own j q hq c hc)

theorem Mem.Held.of_pools {m m' : Mem} {tasks tasks' : List Task} (h : m.Held tasks)
    (hp : m'.pools = m.pools)
    (hkeep : ∀ c p, m.pools[c.conn.pool]? = some p → c.fromEpoch = p.queue.epoch →
      (∃ t ∈ tasks, t.conn? = some c) → ∃ t ∈ tasks', t.conn? = some c) : m'.Held tasks' := by
  constructor
  · rw [hp]
    exact h.own
  · rw [hp]
    intro k p hk c hc he
    have hck := h.own k p hk c hc
    exact hkeep c p (hck ▸ hk) he (h.held k p hk c hc he)

section

variable {m m' : Mem} {tasks spawned : List Task} {i k : ℕ} {t t' : Task} {p p' : Pool}
  {c : VkLdapPoolConnection}

/-- A task that holds nothing can go on as it likes. -/
theorem held_go_free (ht : tasks[i]? = some t) (hfrom : t.conn? = none)
    (hc : ∃ u ∈ tasks, u.conn? = some c) : ∃ u ∈ tasks.set i t' ++ spawned, u.conn? = some c :=
  held_go ht hc fun hn => by
    rw [hfrom] at hn
    cases hn

/-- Who takes a connection holds it. -/
theorem Mem.Held.take (hh : m.Held tasks) (ht : tasks[i]? = some t) (ha : Aligned m)
    (hown : m.Own) (hp : m.pools[k]? = some p) (hc : p.takeConnection = some (c, p'))
    (hfrom : t.conn? = none) (hto : t'.conn? = some c) :
    (m.setPool k p').Held (tasks.set i t' ++ spawned) := by
  have hi := (List.getElem?_eq_some_iff.mp ht).1
  have hout := Pool.takeConnection_out hc
  refine hh.setPool (fun d hd => ?_) (fun d hd he => ?_) fun d _ hd => held_go_free ht hfrom hd
  · rcases List.mem_cons.mp (hout ▸ hd) with rfl | hd
    · exact (opened_of_take ha hp (Pool.own_takeConnection (hown _ _ hp) hc).2).1
    · exact hh.own k p hp d hd
  · rcases List.mem_cons.mp (hout ▸ hd) with rfl | hd
    · exact ⟨t', List.mem_append_left _ (List.mem_set hi t'), hto⟩
    · rw [(Pool.takeConnection_eq hc).2.2.2] at he
      exact held_go_free ht hfrom (hh.held k p hp d hd he)

/-- A connection given back was out once, and is no more. -/
theorem Mem.Held.giveBack (hh : m.Held tasks) (ht : tasks[i]? = some t) (hinv : m.Inv)
    (hp : m.pools[k]? = some p) (hc : t.conn? = some c) (hck : c.conn.pool = k) :
    (m.setPool k (p.returnConnection c)).Held (tasks.set i t' ++ spawned) := by
  have hkeep : ∀ d, d ≠ c → (∃ u ∈ tasks, u.conn? = some d) →
      ∃ u ∈ tasks.set i t' ++ spawned, u.conn? = some d :=
    fun d hd hu => held_go ht hu fun hn => absurd (Option.some.inj (hn.symm.trans hc)) hd
  have hout := Pool.returnConnection_out p c
  refine hh.setPool (fun d hd => ?_) (fun d hd he => ?_) fun d hd hu => ?_
  · rw [hout] at hd
    exact hh.own k p hp d (List.mem_of_mem_erase hd)
  · rw [hout] at hd
    obtain ⟨hne, hd⟩ := (Pool.nodup_out (hinv k p hp)).mem_erase_iff.mp hd
    have hepoch : (p.returnConnection c).queue.epoch = p.queue.epoch :=
      congrArg (·.1.1) (Pool.returnConnection_stamp p c)
    exact hkeep d hne (hh.held k p hp d hd (hepoch ▸ he))
  · exact hkeep d (fun he => hd (he ▸ hck)) hu

/-- After a refresh, no connection that is out is of the new epoch. -/
theorem Mem.Held.refresh (hh : m.Held tasks) (ht : tasks[i]? = some t) (hinv : m.Inv)
    (hp : m.pools[k]? = some p) (hfrom : t.conn? = none) (settings : VkConnectionSettings)
    (connect : ℕ → Result Unit) :
    (m.setPool k (p.refreshConnections settings connect).1).Held (tasks.set i t' ++ spawned) := by
  have hout := Pool.refreshConnections_out p settings connect
  refine hh.setPool (fun d hd => ?_) (fun d hd he => ?_) fun d _ hd => held_go_free ht hfrom hd
  · exact hh.own k p hp d (hout ▸ hd)
  · have hle := ((hinv k p hp).outs d (hout ▸ hd)).2
    have hepoch : (p.refreshConnections settings connect).1.queue.epoch = p.queue.epoch + 1 :=
      congrArg (·.1.1) (Pool.refreshConnections_stamp p settings connect)
    omega

theorem Mem.Held.shutdown (hh : m.Held tasks) (ht : tasks[i]? = some t)
    (hp : m.pools[k]? = some p) (hs : p.shutdown = some p') (hfrom : t.conn? = none) :
    (m.setPool k p').Held (tasks.set i t' ++ spawned) := by
  have hout := Pool.shutdown_out hs
  refine hh.setPool (fun d hd => ?_) (fun d hd he => ?_) fun d _ hd => held_go_free ht hfrom hd
  · exact hh.own k p hp d (hout ▸ hd)
  · rw [Pool.shutdown_epoch hs] at he
    exact held_go_free ht hfrom (hh.held k p hp d (hout ▸ hd) he)

/-- The moves keep what is out in hands, but for the operation that panics. -/
theorem Task.Move.held (h : t.Move m m' (.go t' spawned)) (ht : tasks[i]? = some t)
    (ha : Aligned m) (hown : m.Own) (hinv : m.Inv) (htown : t.Own m) (hr : t.ReturnsOwn)
    (hh : m.Held tasks)
    (hldap : ∀ server pool conn, t = .op (.ldap server pool conn) →
      (∀ k, ¬ m.Holds k t) ∨ .ret pool conn ∈ spawned) :
    m'.Held (tasks.set i t' ++ spawned) := by
  -- the pools stay, and `t'` or a spawned task holds what `t` held
  have hsame (hp : m'.pools = m.pools)
      (hgo : ∀ c, t.conn? = some c → ∃ u ∈ t' :: spawned, u.conn? = some c) :
      m'.Held (tasks.set i t' ++ spawned) :=
    hh.of_pools hp fun c _ _ _ hc => held_go ht hc (hgo c)
  cases h with
  | take hp _ hc => exact hh.take ht ha hown hp hc rfl rfl
  | checkTake hp _ hc => exact hh.take ht ha hown hp hc rfl rfl
  | put hp => exact hh.giveBack ht hinv hp rfl hr
  | ret hp => exact hh.giveBack ht hinv hp rfl htown.1
  | ldapFailed | ldap =>
    exact hsame rfl fun c hc => ⟨_, List.mem_cons_of_mem _ List.mem_cons_self, hc⟩
  | ping | giveBack => exact hsame rfl fun c hc => ⟨_, List.mem_cons_self, hc⟩
  | @ldapPanicked server pool conn =>
    refine hh.of_pools rfl fun c p hp he hu => held_go ht hu fun hc => ?_
    rcases hldap server pool conn rfl with hdrop | hret
    · exact absurd ⟨c, p, hc, rfl, hp, he⟩ (hdrop c.conn.pool)
    · cases hret
  | @refreshReset server k settings connect p hp => exact hh.refresh ht hinv hp rfl settings connect
  | shutdown hp _ hs => exact hh.shutdown ht hp hs rfl
  | _ => exact hsame rfl fun c hc => by cases hc

end

theorem Main.Move.held {m m' : Mem} {tasks spawned : List Task} {main main' : Main}
    (h : main.Move m m' main' spawned) (hinv : m.Inv) (hm : main.Sized) (hh : m.Held tasks) :
    m'.Held (tasks ++ spawned) := by
  have hkeep (c : VkLdapPoolConnection) (hc : ∃ u ∈ tasks, u.conn? = some c) :
      ∃ u ∈ tasks ++ spawned, u.conn? = some c := by
    obtain ⟨u, hu, huc⟩ := hc
    exact ⟨u, List.mem_append_left _ hu, huc⟩
  cases h with
  | @refreshReset server rest k settings connect p hp =>
    have hout := Pool.refreshConnections_out p settings connect
    refine hh.setPool (fun d hd => ?_) (fun d hd he => ?_) fun d _ hd => hkeep d hd
    · exact hh.own k p hp d (hout ▸ hd)
    · have hle := ((hinv k p hp).outs d (hout ▸ hd)).2
      have hepoch : (p.refreshConnections settings connect).1.queue.epoch = p.queue.epoch + 1 :=
        congrArg (·.1.1) (Pool.refreshConnections_stamp p settings connect)
      omega
  | @list server pool urls =>
    -- the new pool has handed nothing out
    have hnew {k : ℕ} {p : Pool} (hp : (m.listServer server pool).pools[k]? = some p)
        {c : VkLdapPoolConnection} (hc : c ∈ p.out) : m.pools[k]? = some p := by
      rcases Mem.listServer_cases hp with hp | ⟨-, rfl⟩
      · exact hp
      · rw [hm.2] at hc
        cases hc
    exact ⟨fun k p hp c hc => hh.own k p (hnew hp hc) c hc,
      fun k p hp c hc he => hkeep c (hh.held k p (hnew hp hc) c hc he)⟩
  | _ => exact hh.of_pools rfl fun c _ _ _ hc => hkeep c hc

/-! ### Sizes stay -/

theorem Mem.Sized.setPool {m : Mem} {k : ℕ} {p p' : Pool} (h : m.Sized)
    (hp : m.pools[k]? = some p) (hs : 1 ≤ p.queue.size → 1 ≤ p'.queue.size) :
    (m.setPool k p').Sized := by
  refine ⟨h.settings, fun j q hq => ?_⟩
  rcases Mem.setPool_cases hq with ⟨-, rfl⟩ | ⟨-, hq⟩
  · exact hs (h.pools k p hp)
  · exact h.pools j q hq

theorem Mem.Sized.updateServerStatus {m : Mem} (h : m.Sized) (server : VkLdapServer)
    (status : VkLdapServerStatus) (pingTime : Option Duration) :
    (m.updateServerStatus server status pingTime).Sized := by
  unfold Mem.updateServerStatus
  rw [VkLdapContext.updateServerStatus_eq]
  exact ⟨h.settings, h.pools⟩

theorem refreshConnections_size (p : Pool) (settings : VkConnectionSettings)
    (connect : ℕ → Result Unit) :
    (p.refreshConnections settings connect).1.queue.size = settings.connectionPoolSize :=
  congrArg (·.1.2) (Pool.refreshConnections_stamp p settings connect)

theorem Task.Move.sized {m m' : Mem} {t : Task} {next : Next Task} (h : t.Move m m' next)
    (hm : m.Sized) (ht : t.Sized) : m'.Sized := by
  have hstamp {p p' : Pool} (he : p'.stamp = p.stamp) (hs : 1 ≤ p.queue.size) :
      1 ≤ p'.queue.size := by
    have hsize : p'.queue.size = p.queue.size := congrArg (·.1.2) he
    rwa [hsize]
  cases h with
  | take hp _ hc => exact hm.setPool hp (hstamp (Pool.takeConnection_stamp hc))
  | checkTake hp _ hc => exact hm.setPool hp (hstamp (Pool.takeConnection_stamp hc))
  | put hp => exact hm.setPool hp (hstamp (Pool.returnConnection_stamp _ _))
  | ret hp => exact hm.setPool hp (hstamp (Pool.returnConnection_stamp _ _))
  | refreshReset hp =>
    exact hm.setPool hp fun _ => by rw [refreshConnections_size]; exact ht _ rfl
  | shutdown hp _ hs => exact hm.setPool hp fun h => by rw [Pool.shutdown_size hs]; exact h
  | fail => exact hm.updateServerStatus _ _ _
  | report => exact hm.updateServerStatus _ _ _
  | reportConnect => exact hm.updateServerStatus _ _ _
  | refreshReport => exact hm.updateServerStatus _ _ _
  | _ => exact hm

theorem Task.Move.sized_go {m m' : Mem} {t t' : Task} {spawned : List Task}
    (h : t.Move m m' (.go t' spawned)) (hm : m.Sized) :
    t'.Sized ∧ ∀ u ∈ spawned, u.Sized := by
  have hnone {u : Task} (hu : u.reset? = none) : u.Sized := fun x hx => by
    rw [hu] at hx
    cases hx
  have hret {pool : ℕ} {conn : VkLdapPoolConnection} : ∀ u ∈ [Task.ret pool conn], u.Sized := by
    intro u hu
    obtain rfl := List.mem_singleton.mp hu
    exact hnone rfl
  have hnil : ∀ u ∈ ([] : List Task), u.Sized := fun u hu => by cases hu
  cases h with
  | ldapFailed => exact ⟨hnone rfl, hret⟩
  | ldap => exact ⟨hnone rfl, hret⟩
  | refreshLookup =>
    refine ⟨fun x hx => ?_, hnil⟩
    obtain rfl := Option.some.inj hx
    exact hm.settings
  | _ => exact ⟨hnone rfl, hnil⟩

theorem openServer_out (n : ℕ) (server : VkLdapServer) (settings : VkConnectionSettings)
    (connect : ℕ → Result Unit) : (openServer n server settings connect).2.out = [] := by
  rw [openServer_snd]
  rfl

theorem Main.Move.sized {m m' : Mem} {main main' : Main} {spawned : List Task}
    (h : main.Move m m' main' spawned) (hm : m.Sized) (hmain : main.Sized) :
    m'.Sized ∧ main'.Sized ∧ ∀ u ∈ spawned, u.Sized := by
  have hnil : ∀ u ∈ ([] : List Task), u.Sized := fun u hu => by cases hu
  have hnext (rest : List VkLdapServer) : (Main.refreshNext rest).Sized := by
    cases rest <;> trivial
  cases h with
  | clear =>
    refine ⟨⟨hm.settings, hm.pools⟩, trivial, fun u hu => ?_⟩
    obtain rfl := List.mem_singleton.mp hu
    exact fun x hx => by cases hx
  | add => exact ⟨hm, hm.settings, hnil⟩
  | opened =>
    refine ⟨hm, ⟨?_, openServer_out _ _ _ _⟩, hnil⟩
    rw [(openServer_stamp _ _ _ _).1]
    exact hmain
  | list =>
    refine ⟨⟨hm.settings, fun k p hp => ?_⟩, trivial, hnil⟩
    rcases List.mem_append.mp (List.mem_of_getElem? hp) with hmem | hmem
    · obtain ⟨i, hi⟩ := List.mem_iff_getElem?.mp hmem
      exact hm.pools i p hi
    · obtain rfl := List.mem_singleton.mp hmem
      exact hmain.1
  | store => exact ⟨⟨hmain, hm.pools⟩, trivial, hnil⟩
  | read => exact ⟨hm, hnext _, hnil⟩
  | refreshLookup => exact ⟨hm, hm.settings, hnil⟩
  | refreshReset hp =>
    exact ⟨hm.setPool hp fun _ => by rw [refreshConnections_size]; exact hmain, trivial, hnil⟩
  | refreshReport => exact ⟨hm.updateServerStatus _ _ _, hnext _, hnil⟩
  | _ => exact ⟨hm, trivial, hnil⟩

/-! ### Runs -/

/-- The books are kept, and no pool is or will be of no connection. -/
structure State.Sized (s : State) : Prop where
  linked : s.Linked
  custody : s.Custody
  mem : s.mem.Sized
  tasks : ∀ t ∈ s.tasks, t.Sized
  main : s.main.Sized

theorem sized_step {s s' : State} {a : Act} (hs : s.Sized) (hg : SizedSettings s a)
    (hr : ReturnsOwn s a) (h : s.step a = some s') : s'.Sized := by
  have hlinked : s'.Linked := linked_step hs.linked h
  have hcustody : s'.Custody := custody_step hs.custody hr h
  have htasks : ∀ t ∈ s'.tasks, t.Sized := by
    refine State.forall_tasks_step (P := fun _ t => t.Sized) h hs.tasks (fun _ _ ht => ht)
      (fun _ _ _ _ _ _ _ hmove => hmove.sized_go hs.mem)
      (fun _ _ _ hmove => (hmove.sized hs.mem hs.main).2.2) ?_ ?_
    · exact fun x hx => by cases hx
    · exact fun _ _ x hx => by cases hx
  rcases State.step_cases h with ⟨i, net, rfl⟩ | ⟨net, rfl⟩ | hother
  · obtain ⟨t, m', ht, ⟨t', spawned, hmove, rfl⟩ | ⟨hmove, rfl⟩⟩ := State.step_task h <;>
      exact ⟨hlinked, hcustody, hmove.sized hs.mem (hs.tasks t (List.mem_of_getElem? ht)), htasks,
        hs.main⟩
  · obtain ⟨m', main, spawned, hmove, rfl⟩ := State.step_main h
    obtain ⟨h1, h2, -⟩ := hmove.sized hs.mem hs.main
    exact ⟨hlinked, hcustody, h1, htasks, h2⟩
  · cases hother with
    | setServers => exact ⟨hlinked, hcustody, hs.mem, htasks, trivial⟩
    | setConnectionSettings => exact ⟨hlinked, hcustody, hs.mem, htasks, hg⟩
    | _ => exact ⟨hlinked, hcustody, hs.mem, htasks, hs.main⟩

theorem sized_init (ls : VkLdapSettings) (cs : VkConnectionSettings)
    (hs : 1 ≤ cs.connectionPoolSize) : (State.init ls cs).Sized := by
  have hpools {k : ℕ} {p : Pool} (hp : (State.init ls cs).mem.pools[k]? = some p) : False := by
    simp [State.init] at hp
  exact ⟨linked_init ls cs,
    ⟨own_init ls cs, fun c => Nat.zero_le _, fun _ _ hp => (hpools hp).elim, trivial⟩,
    ⟨hs, fun _ _ hp => (hpools hp).elim⟩, fun t ht => by simp [State.init] at ht, trivial⟩

/-- Besides, what is out is in hands. -/
structure State.Attended (s : State) : Prop where
  sized : s.Sized
  held : s.mem.Held s.tasks

/-- Sizes are accepted ones, checks give back to the pool they took from, and
no panic drops a connection. -/
def Attends (s : State) (a : Act) : Prop := SizedSettings s a ∧ ReturnsOwn s a ∧ NoneDropped s a

theorem held_step {s s' : State} {a : Act} (hs : s.Attended) (hg : Attends s a)
    (h : s.step a = some s') : s'.mem.Held s'.tasks := by
  obtain ⟨-, hown, hdrop⟩ := hg
  rcases State.step_cases h with ⟨i, net, rfl⟩ | ⟨net, rfl⟩ | hother
  · obtain ⟨t, m', ht, ⟨t', spawned, hstep, rfl⟩ | ⟨hstep, rfl⟩⟩ := State.step_task_step h
    · have hmem := List.mem_of_getElem? ht
      refine (Task.step_move hstep).held ht hs.sized.linked.aligned.1 hs.sized.custody.own.pools
        hs.sized.custody.inv (hs.sized.custody.own.tasks t hmem) (hown i net t rfl ht) hs.held ?_
      rintro server pool conn rfl
      exact (dropped_of_ldap ht hstep).imp (fun hd => hdrop _ hd) id
    · obtain ⟨hd, rfl⟩ := dropped_of_panic ht (Task.step_move hstep)
      refine hs.held.of_pools rfl fun c p hp he hu => ?_
      obtain ⟨u, hu, huc⟩ := hu
      refine ⟨u, List.mem_filter.mpr ⟨hu, ?_⟩, huc⟩
      by_contra hcheck
      have hdropped : u ∈ s.dropped (.task i net) := by
        rw [hd]
        exact List.mem_filter.mpr ⟨hu, by simpa using hcheck⟩
      exact hdrop u hdropped c.conn.pool ⟨c, p, huc, rfl, hp, he⟩
  · obtain ⟨m', main, spawned, hmove, rfl⟩ := State.step_main h
    exact hmove.held hs.sized.custody.inv hs.sized.main hs.held
  · cases hother with
    | submit => exact hs.held.of_pools rfl fun c _ _ _ ⟨u, hu, huc⟩ =>
        ⟨u, List.mem_append_left _ hu, huc⟩
    | iterate => exact hs.held.of_pools rfl fun c _ _ _ ⟨u, hu, huc⟩ =>
        ⟨u, List.mem_append_left _ hu, huc⟩
    | deliver _ hjoined =>
      refine hs.held.of_pools rfl fun c _ _ _ ⟨u, hu, huc⟩ => ⟨u, List.mem_filter.mpr ⟨hu, ?_⟩, huc⟩
      by_contra hcheck
      obtain ⟨server, rfl⟩ := joined_done hjoined hu (by simpa using hcheck)
      cases huc
    | _ => exact hs.held

theorem attended_step {s s' : State} {a : Act} (hs : s.Attended) (hg : Attends s a)
    (h : s.step a = some s') : s'.Attended :=
  ⟨sized_step hs.sized hg.1 hg.2.1 h, held_step hs hg h⟩

theorem attended_init (ls : VkLdapSettings) (cs : VkConnectionSettings)
    (hs : 1 ≤ cs.connectionPoolSize) : (State.init ls cs).Attended :=
  ⟨sized_init ls cs hs, fun k p hp => by simp [State.init] at hp,
    fun k p hp => by simp [State.init] at hp⟩

/-- What a pool has handed out in its current epoch is checked out. -/
theorem State.Attended.checkedOut_of_out {s : State} (hs : s.Attended) {k : ℕ} {p : Pool}
    (hp : s.mem.pools[k]? = some p) (hout : 0 < p.outNow) : s.CheckedOut k := by
  obtain ⟨c, hc, he⟩ := List.countP_pos_iff.mp hout
  obtain ⟨t, ht, htc⟩ := hs.held.held k p hp c hc (by simpa using he)
  exact ⟨t, ht, c, p, htc, hs.held.own k p hp c hc, hp, by simpa using he⟩

/-- A live pool that has not all of its connections has one checked out. -/
theorem State.Attended.checkedOut {s : State} (hs : s.Attended) {k : ℕ} {p : Pool}
    (hp : s.mem.pools[k]? = some p) (hlive : p.Live) (hidle : p.idle < p.queue.size) :
    s.CheckedOut k := by
  have hcount := (hs.sized.custody.inv k p hp).count
  rw [if_pos hlive] at hcount
  exact hs.checkedOut_of_out hp (by omega)

end System
end ValkeyLdap
