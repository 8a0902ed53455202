/-
# Nobody waits for a dead pool

`take_connection` waits while the pool's queue is empty, and is woken by a
connection given back or by a refresh that succeeds. A refresh that fails
closes everything and wakes nobody, a shutdown neither, and a task that chose
the pool before may come to wait on it after. `no_task_stranded`: but for
these, whoever waits on a pool has a connection of it still to come back, or a
refresh.

Key theorems: `Pool.quiet_step`, `Task.Move.pool_step`, `waiting_step`,
`no_task_stranded`, `stranded_on_closed_pool`.
-/
import ValkeyLdap.Attended

namespace ValkeyLdap

/-! ### What wakes the waiting -/

namespace Pool

variable {p q : Pool}

theorem signal_reset (p : Pool) (settings : VkConnectionSettings) (connect : ℕ → Result Unit) :
    (p.refreshConnections settings connect).1.signal.calls =
      p.signal.calls + if (p.refreshConnections settings connect).2.toBool then 1 else 0 := by
  rw [refreshConnections_snd, refreshConnections_fst]
  simp only
  split <;> rfl

theorem idle_reset (p : Pool) (settings : VkConnectionSettings) (connect : ℕ → Result Unit) :
    (p.refreshConnections settings connect).1.idle =
      if (p.refreshConnections settings connect).2.toBool then settings.connectionPoolSize
      else 0 := by
  rw [refreshConnections_snd, refreshConnections_fst]
  exact resetLoop_length p settings connect

theorem signal_returnConnection (p : Pool) (c : VkLdapPoolConnection) :
    (p.returnConnection c).signal.calls =
      p.signal.calls + if p.queue.epoch = c.fromEpoch then 1 else 0 := by
  unfold returnConnection
  simp only
  split <;> rfl

theorem idle_returnConnection (p : Pool) (c : VkLdapPoolConnection) :
    (p.returnConnection c).idle = p.idle + if p.queue.epoch = c.fromEpoch then 1 else 0 := by
  unfold returnConnection
  simp only
  split <;> rfl

theorem idle_takeConnection {c : VkLdapPoolConnection} (h : p.takeConnection = some (c, q)) :
    p.idle = q.idle + 1 := by
  unfold idle
  rw [(takeConnection_eq h).1]
  simp

theorem shutdown_idle (h : p.shutdown = some q) : p.idle = p.queue.size ∧ q.idle = 0 := by
  unfold shutdown at h
  split at h
  · rename_i hall
    obtain rfl := Option.some.inj h
    exact ⟨by simpa [ConnectionQueue.hasAllConnections, idle] using hall, rfl⟩
  · cases h

theorem shutdown_shut (h : p.shutdown = some q) : q.shut = true := by
  unfold shutdown at h
  split at h
  · obtain rfl := Option.some.inj h
    rfl
  · cases h

theorem shutdown_signal (h : p.shutdown = some q) : q.signal = p.signal := by
  unfold shutdown at h
  split at h
  · obtain rfl := Option.some.inj h
    rfl
  · cases h

/-- The step is a refresh that fails. -/
def Act.Refused (p : Pool) : Act → Prop
  | .refreshConnections settings connect =>
    (p.refreshConnections settings connect).2.toBool = false
  | _ => False

theorem calls_step {a : Act} (h : p.step a = some q) : p.signal.calls ≤ q.signal.calls := by
  cases a with
  | takeConnection =>
    obtain ⟨⟨c, q'⟩, ht, rfl⟩ := Option.map_eq_some_iff.mp h
    rw [(takeConnection_eq ht).2.2.2]
  | returnConnection c =>
    simp only [step] at h
    split at h <;> cases h
    rw [signal_returnConnection]
    exact Nat.le_add_right _ _
  | refreshConnections settings connect =>
    cases h
    rw [signal_reset]
    exact Nat.le_add_right _ _
  | shutdown => rw [shutdown_signal h]

/-- **What goes unnoticed.** A step of a pool with no idle connection that
wakes nobody leaves it so, and live if it was, unless it is a refresh that
fails. -/
theorem quiet_step {a : Act} (h : p.step a = some q) (hcalls : q.signal.calls = p.signal.calls)
    (hsize : 1 ≤ p.queue.size) (hidle : p.idle = 0) :
    q.idle = 0 ∧ (p.Live → q.Live ∨ a.Refused p) := by
  cases a with
  | takeConnection =>
    obtain ⟨⟨c, q'⟩, ht, rfl⟩ := Option.map_eq_some_iff.mp h
    have := idle_takeConnection ht
    omega
  | returnConnection c =>
    simp only [step] at h
    split at h <;> cases h
    rw [signal_returnConnection] at hcalls
    refine ⟨?_, fun hlive => Or.inl ?_⟩
    · rw [idle_returnConnection]
      omega
    · rw [live_iff_stamp, returnConnection_stamp, ← live_iff_stamp]
      exact hlive
  | refreshConnections settings connect =>
    cases h
    rw [signal_reset] at hcalls
    have hfail : (p.refreshConnections settings connect).2.toBool = false := by
      by_contra hok
      rw [if_pos (eq_true_of_ne_false hok)] at hcalls
      omega
    refine ⟨?_, fun _ => Or.inr hfail⟩
    rw [idle_reset, hfail]
    rfl
  | shutdown =>
    have := shutdown_idle h
    omega

end Pool

namespace System

open Runs

/-- **Each pool of the system runs as a pool.** A move of a task is at most one
operation on one pool, and a refresh only the one the task is about to make. -/
theorem Task.Move.pool_step {m m' : Mem} {t : Task} {next : Next Task} (h : t.Move m m' next)
    (ht : t.Own m) (hr : t.ReturnsOwn) (hout : ∀ c, t.conn? = some c → 0 < m.handedOut c) :
    m'.pools = m.pools ∨ ∃ k p a q, m.pools[k]? = some p ∧ p.step a = some q ∧
      m'.pools = m.pools.set k q ∧ ∀ settings connect,
        a = .refreshConnections settings connect → t.reset? = some (k, settings) := by
  have hreturn {k : ℕ} {p : Pool} {c : VkLdapPoolConnection} (hp : m.pools[k]? = some p)
      (hc : c.conn.pool = k) (hpos : 0 < m.handedOut c) :
      p.step (.returnConnection c) = some (p.returnConnection c) :=
    if_pos (mem_out_of_handedOut hp hc hpos)
  cases h with
  | take hp _ hc =>
    exact Or.inr ⟨_, _, .takeConnection, _, hp, by simp [Pool.step, hc], rfl,
      fun _ _ he => by cases he⟩
  | checkTake hp _ hc =>
    exact Or.inr ⟨_, _, .takeConnection, _, hp, by simp [Pool.step, hc], rfl,
      fun _ _ he => by cases he⟩
  | put hp =>
    exact Or.inr ⟨_, _, .returnConnection _, _, hp, hreturn hp hr (hout _ rfl), rfl,
      fun _ _ he => by cases he⟩
  | ret hp =>
    exact Or.inr ⟨_, _, .returnConnection _, _, hp, hreturn hp ht.1 (hout _ rfl), rfl,
      fun _ _ he => by cases he⟩
  | refreshReset hp =>
    exact Or.inr ⟨_, _, .refreshConnections _ _, _, hp, rfl, rfl,
      fun _ _ he => by cases he; rfl⟩
  | shutdown hp _ hs =>
    exact Or.inr ⟨_, _, .shutdown, _, hp, hs, rfl, fun _ _ he => by cases he⟩
  | _ => exact Or.inl rfl

/-! ### Waiting, and what is waited for -/

/-- The pool a task takes from, and the calls of its signal that it has seen. -/
def Task.takes? : Task → Option (ℕ × Option ℕ)
  | .op (.take _ pool seen) => some (pool, seen)
  | .check _ (.take pool seen) => some (pool, seen)
  | _ => none

/-- The signal has not called since the task registered on it. -/
def Mem.Unnotified (m : Mem) (k seen : ℕ) : Prop :=
  ∃ p, m.pools[k]? = some p ∧ Mem.due p (some seen) = false

/-- The task waits in `take_connection` of the pool. -/
def Mem.Waits (m : Mem) (k : ℕ) (t : Task) : Prop :=
  ∃ seen, t.takes? = some (k, some seen) ∧ m.Unnotified k seen

def Mem.IdleAt (m : Mem) (k : ℕ) : Prop := ∃ p, m.pools[k]? = some p ∧ 0 < p.idle

/-- The task is about to reset the pool. -/
def Task.Refreshes (k : ℕ) (t : Task) : Prop := ∃ settings, t.reset? = some (k, settings)

/-- The pool that the main thread is about to reset, and with which settings. -/
def Main.reset? : Main → Option (ℕ × VkConnectionSettings)
  | .refreshing _ (.reset pool settings) _ => some (pool, settings)
  | _ => none

def Main.Refreshes (k : ℕ) (main : Main) : Prop := ∃ settings, main.reset? = some (k, settings)

theorem Main.reset?_eq {main : Main} {x : ℕ × VkConnectionSettings} (h : main.reset? = some x) :
    ∃ server rest, main = .refreshing server (.reset x.1 x.2) rest := by
  unfold Main.reset? at h
  split at h
  · obtain rfl := Option.some.inj h
    exact ⟨_, _, rfl⟩
  · cases h

/-- A refresh of the pool is in progress. -/
def State.Refreshing (s : State) (k : ℕ) : Prop :=
  (∃ t ∈ s.tasks, t.Refreshes k) ∨ s.main.Refreshes k

/-- A count of the signal that has been. -/
def Mem.Heard (m : Mem) (k seen : ℕ) : Prop :=
  ∃ p, m.pools[k]? = some p ∧ seen ≤ p.signal.calls

def Task.Registered (m : Mem) (t : Task) : Prop :=
  ∀ k seen, t.takes? = some (k, some seen) → m.Heard k seen

/-- Signals only ever count up. -/
def Mem.Later (m m' : Mem) : Prop :=
  ∀ (k : ℕ) (p : Pool), m.pools[k]? = some p →
    ∃ p', m'.pools[k]? = some p' ∧ p.signal.calls ≤ p'.signal.calls

theorem Mem.Later.of_pools {m m' : Mem} (h : m'.pools = m.pools) : m.Later m' := by
  intro k p hp
  exact ⟨p, h ▸ hp, Nat.le_refl _⟩

theorem Mem.Later.set {m m' : Mem} {k : ℕ} {p q : Pool} (hp : m.pools[k]? = some p)
    (hq : p.signal.calls ≤ q.signal.calls) (hm : m'.pools = m.pools.set k q) : m.Later m' := by
  intro j r hr
  rw [hm]
  by_cases hj : k = j
  · subst hj
    obtain rfl : p = r := Option.some.inj (hp.symm.trans hr)
    exact ⟨q, by simp [(List.getElem?_eq_some_iff.mp hp).1], hq⟩
  · exact ⟨r, by rw [List.getElem?_set_ne hj, hr], Nat.le_refl _⟩

theorem Mem.Heard.later {m m' : Mem} {k seen : ℕ} (h : m.Heard k seen) (hl : m.Later m') :
    m'.Heard k seen := by
  obtain ⟨p, hp, hle⟩ := h
  obtain ⟨p', hp', hle'⟩ := hl k p hp
  exact ⟨p', hp', hle.trans hle'⟩

/-- Who has not been notified after a step was not notified in it. -/
theorem Mem.Unnotified.before {m m' : Mem} {k seen : ℕ} (h : m'.Unnotified k seen)
    (hh : m.Heard k seen) (hl : m.Later m') :
    ∃ p p', m.pools[k]? = some p ∧ m'.pools[k]? = some p' ∧
      p'.signal.calls = p.signal.calls ∧ m.Unnotified k seen := by
  obtain ⟨q, hq, hdue⟩ := h
  obtain ⟨p, hp, hle⟩ := hh
  obtain ⟨p', hp', hle'⟩ := hl k p hp
  obtain rfl : q = p' := Option.some.inj (hq.symm.trans hp')
  simp only [Mem.due, decide_eq_false_iff_not] at hdue
  refine ⟨p, q, hp, hq, by omega, p, hp, ?_⟩
  simp only [Mem.due, decide_eq_false_iff_not]
  omega

theorem Mem.Waits.before {m m' : Mem} {k : ℕ} {t : Task} (h : m'.Waits k t)
    (hr : t.Registered m) (hl : m.Later m') :
    ∃ p p', m.pools[k]? = some p ∧ m'.pools[k]? = some p' ∧
      p'.signal.calls = p.signal.calls ∧ m.Waits k t := by
  obtain ⟨seen, hs, hun⟩ := h
  obtain ⟨p, p', hp, hp', hcalls, hbefore⟩ := hun.before (hr k seen hs) hl
  exact ⟨p, p', hp, hp', hcalls, seen, hs, hbefore⟩

/-- A task comes to wait by finding the queue empty. -/
theorem Task.Move.registers {m m' : Mem} {t t' : Task} {spawned : List Task}
    (h : t.Move m m' (.go t' spawned)) {k seen : ℕ} (hs : t'.takes? = some (k, some seen)) :
    m' = m ∧ ∃ p seen₀, t.takes? = some (k, seen₀) ∧ m.pools[k]? = some p ∧
      p.queue.queue = [] ∧ seen = p.signal.calls := by
  cases h with
  | wait hp _ hn =>
    cases hs
    exact ⟨rfl, _, _, rfl, hp, Pool.takeConnection_none hn, rfl⟩
  | checkWait hp _ hn =>
    cases hs
    exact ⟨rfl, _, _, rfl, hp, Pool.takeConnection_none hn, rfl⟩
  | _ => cases hs

theorem Task.Move.spawned_free {m m' : Mem} {t t' : Task} {spawned : List Task}
    (h : t.Move m m' (.go t' spawned)) : ∀ u ∈ spawned, u.takes? = none := by
  have hnil : ∀ u ∈ ([] : List Task), u.takes? = none := fun u hu => by cases hu
  have hret {pool : ℕ} {conn : VkLdapPoolConnection} :
      ∀ u ∈ [Task.ret pool conn], u.takes? = none := by
    intro u hu
    obtain rfl := List.mem_singleton.mp hu
    rfl
  cases h with
  | ldapFailed => exact hret
  | ldap => exact hret
  | _ => exact hnil

/-! ### A live pool has a connection idle or checked out -/

theorem checkedOut_go {s : State} {i k : ℕ} {t t' : Task} {spawned : List Task} {m' : Mem}
    (ht : s.tasks[i]? = some t) (h : s.CheckedOut k)
    (hep : ∀ p, s.mem.pools[k]? = some p →
      ∃ p', m'.pools[k]? = some p' ∧ p'.queue.epoch = p.queue.epoch)
    (hgo : ∀ c, t.conn? = some c → c.conn.pool = k → ∃ u ∈ t' :: spawned, u.conn? = some c) :
    State.CheckedOut { s with mem := m', tasks := s.tasks.set i t' ++ spawned } k := by
  obtain ⟨u, hu, c, p, huc, hck, hp, he⟩ := h
  obtain ⟨v, hv, hvc⟩ := held_go ht ⟨u, hu, huc⟩ fun hc => hgo c hc hck
  obtain ⟨p', hp', hep'⟩ := hep p hp
  exact ⟨v, hv, c, p', hvc, hck, hp', he.trans hep'.symm⟩

/-- Whoever loses a connection in a panic leaves another one of the pool. -/
def KeepsOne (s : State) (a : Act) : Prop :=
  ∀ t ∈ s.dropped a, ∀ k, s.mem.Holds k t → s.mem.LiveAt k →
    s.mem.IdleAt k ∨ ∃ u ∈ s.tasks, u ∉ s.dropped a ∧ s.mem.Holds k u

/-- Pool `k` has a connection idle, or a task has one. -/
def State.Served (s : State) (k : ℕ) : Prop := s.mem.IdleAt k ∨ s.CheckedOut k

/-- Task `i` has gone on as `t'`. -/
def State.goOn (s : State) (i : ℕ) (t' : Task) (spawned : List Task) (m' : Mem) : State :=
  { s with mem := m', tasks := s.tasks.set i t' ++ spawned }

section

variable {s : State} {i k k₀ : ℕ} {t t' : Task} {spawned : List Task} {m' : Mem} {p p' : Pool}

theorem getElem?_of_set (hp : s.mem.pools[k₀]? = some p)
    (hm : m'.pools = s.mem.pools.set k₀ p') : m'.pools[k₀]? = some p' := by
  simp [hm, (List.getElem?_eq_some_iff.mp hp).1]

/-- No pool is touched, and the connection of the task is passed on. -/
theorem served_same (ht : s.tasks[i]? = some t)
    (h0 : ∀ k, s.mem.LiveAt k → s.Served k) (hl : m'.LiveAt k) (hm : m'.pools = s.mem.pools)
    (hgo : ∀ c, t.conn? = some c → ∃ u ∈ t' :: spawned, u.conn? = some c) :
    (s.goOn i t' spawned m').Served k := by
  simp only [Mem.LiveAt, hm] at hl
  rcases h0 k hl with hidle | hout
  · exact Or.inl (by simpa only [State.goOn, Mem.IdleAt, hm] using hidle)
  · exact Or.inr (checkedOut_go ht hout (fun p hk => ⟨p, hm ▸ hk, rfl⟩) fun c hc _ => hgo c hc)

/-- Another pool is touched, and the task has no connection of this one. -/
theorem served_other (ht : s.tasks[i]? = some t)
    (h0 : ∀ k, s.mem.LiveAt k → s.Served k) (hl : m'.LiveAt k)
    (hm : m'.pools = s.mem.pools.set k₀ p') (hk : k₀ ≠ k)
    (hgo : ∀ c, t.conn? = some c → c.conn.pool ≠ k) : (s.goOn i t' spawned m').Served k := by
  simp only [Mem.LiveAt, hm, List.getElem?_set_ne hk] at hl
  rcases h0 k hl with hidle | hout
  · refine Or.inl ?_
    simpa only [State.goOn, Mem.IdleAt, hm, List.getElem?_set_ne hk] using hidle
  · refine Or.inr (checkedOut_go ht hout (fun p hp => ⟨p, ?_, rfl⟩)
      fun c hc hck => absurd hck (hgo c hc))
    rw [hm, List.getElem?_set_ne hk, hp]

/-- Who takes a connection has it. -/
theorem served_take {c : VkLdapPoolConnection} (hs : s.Sized) (ht : s.tasks[i]? = some t)
    (h0 : ∀ k, s.mem.LiveAt k → s.Served k) (hl : m'.LiveAt k)
    (hp : s.mem.pools[k₀]? = some p) (hc : p.takeConnection = some (c, p'))
    (hm : m'.pools = s.mem.pools.set k₀ p') (hfrom : t.conn? = none) (hto : t'.conn? = some c) :
    (s.goOn i t' spawned m').Served k := by
  by_cases hk : k₀ = k
  · subst hk
    obtain ⟨-, -, hepoch, heq⟩ := Pool.takeConnection_eq hc
    have hpool := (opened_of_take hs.linked.aligned.1 hp
      (Pool.own_takeConnection (hs.custody.own.pools _ _ hp) hc).2).1
    have hi := (List.getElem?_eq_some_iff.mp ht).1
    refine Or.inr ⟨t', List.mem_append_left _ (List.mem_set hi t'), c, p', hto, hpool,
      getElem?_of_set hp hm, ?_⟩
    rw [heq]
    exact hepoch
  · exact served_other ht h0 hl hm hk fun d hd => by
      rw [hfrom] at hd
      cases hd

/-- A connection given back is idle; one of an earlier epoch was not what the
pool counted on. -/
theorem served_return {c : VkLdapPoolConnection} (ht : s.tasks[i]? = some t)
    (h0 : ∀ k, s.mem.LiveAt k → s.Served k) (hl : m'.LiveAt k)
    (hp : s.mem.pools[k₀]? = some p) (hm : m'.pools = s.mem.pools.set k₀ (p.returnConnection c))
    (hc : t.conn? = some c) (hck : c.conn.pool = k₀) : (s.goOn i t' spawned m').Served k := by
  by_cases hk : k₀ = k
  · subst hk
    have hat := getElem?_of_set hp hm
    by_cases he : p.queue.epoch = c.fromEpoch
    · refine Or.inl ⟨_, hat, ?_⟩
      rw [Pool.idle_returnConnection, if_pos he]
      omega
    · have hlive : s.mem.LiveAt k₀ := by
        obtain ⟨q, hq, hlive⟩ := hl
        obtain rfl : p.returnConnection c = q := Option.some.inj (hat.symm.trans hq)
        refine ⟨p, hp, ?_⟩
        rw [Pool.live_iff_stamp, ← Pool.returnConnection_stamp p c, ← Pool.live_iff_stamp]
        exact hlive
      rcases h0 k₀ hlive with ⟨q, hq, hidle⟩ | ⟨u, hu, d, q, hud, hdk, hq, hde⟩
      · obtain rfl : p = q := Option.some.inj (hp.symm.trans hq)
        refine Or.inl ⟨_, hat, ?_⟩
        rw [Pool.idle_returnConnection]
        omega
      · obtain rfl : p = q := Option.some.inj (hp.symm.trans hq)
        obtain ⟨v, hv, hvd⟩ : ∃ v ∈ s.tasks.set i t' ++ spawned, v.conn? = some d :=
          held_go ht ⟨u, hu, hud⟩ fun hd =>
            absurd (Option.some.inj (hd.symm.trans hc) ▸ hde.symm) he
        refine Or.inr ⟨v, hv, d, _, hvd, hdk, hat, hde.trans ?_⟩
        exact (congrArg (·.1.1) (Pool.returnConnection_stamp p c)).symm
  · exact served_other ht h0 hl hm hk fun d hd hdk => by
      rw [← Option.some.inj (hc.symm.trans hd), hck] at hdk
      exact hk hdk

/-- A task that drops a connection is not the only one to have one. -/
theorem served_drop (ht : s.tasks[i]? = some t) (h0 : ∀ k, s.mem.LiveAt k → s.Served k)
    (hl : s.mem.LiveAt k)
    (hdrop : s.mem.Holds k t → s.mem.IdleAt k ∨
      ∃ j u, j ≠ i ∧ s.tasks[j]? = some u ∧ s.mem.Holds k u) :
    (s.goOn i t' spawned s.mem).Served k := by
  have hstay {j : ℕ} {u : Task} (hj : j ≠ i) (hu : s.tasks[j]? = some u)
      (hk : s.mem.Holds k u) : (s.goOn i t' spawned s.mem).CheckedOut k :=
    ⟨u, List.mem_append_left _ (List.mem_of_getElem? (i := j)
      (by rw [List.getElem?_set_ne (Ne.symm hj), hu])), hk⟩
  rcases h0 k hl with hidle | ⟨u, hu, hk⟩
  · exact Or.inl hidle
  · obtain ⟨j, hj⟩ := List.mem_iff_getElem?.mp hu
    by_cases hij : j = i
    · subst hij
      obtain rfl := Option.some.inj (ht.symm.trans hj)
      rcases hdrop hk with hidle | ⟨j', u, hne, hu, hk⟩
      · exact Or.inl hidle
      · exact Or.inr (hstay hne hu hk)
    · exact Or.inr (hstay hij hj hk)

theorem served_go (hs : s.Sized) (ht : s.tasks[i]? = some t)
    (h : t.Move s.mem m' (.go t' spawned)) (hown : t.ReturnsOwn)
    (hdrop : ∀ server pool conn, t = .op (.ldap server pool conn) →
      (∀ k, s.mem.LiveAt k → s.mem.Holds k t → s.mem.IdleAt k ∨
        ∃ j u, j ≠ i ∧ s.tasks[j]? = some u ∧ s.mem.Holds k u) ∨ .ret pool conn ∈ spawned)
    (h0 : ∀ k, s.mem.LiveAt k → s.Served k) (k : ℕ) (hl : m'.LiveAt k) :
    (s.goOn i t' spawned m').Served k := by
  have hmem := List.mem_of_getElem? ht
  cases h with
  | take hp _ hc => exact served_take hs ht h0 hl hp hc rfl rfl rfl
  | checkTake hp _ hc => exact served_take hs ht h0 hl hp hc rfl rfl rfl
  | put hp => exact served_return ht h0 hl hp rfl rfl hown
  | ret hp => exact served_return ht h0 hl hp rfl rfl (hs.custody.own.tasks _ hmem).1
  | ldapFailed | ldap =>
    exact served_same ht h0 hl rfl fun c hc =>
      ⟨_, List.mem_cons_of_mem _ List.mem_cons_self, hc⟩
  | ping | giveBack => exact served_same ht h0 hl rfl fun c hc => ⟨_, List.mem_cons_self, hc⟩
  | @ldapPanicked server pool conn =>
    refine served_drop ht h0 hl fun hk => ?_
    rcases hdrop server pool conn rfl with hkept | hret
    · exact hkept k hl hk
    · cases hret
  | @refreshReset server k₀ settings connect p hp =>
    by_cases hk : k₀ = k
    · subst hk
      obtain ⟨q, hq, hlive⟩ := hl
      obtain rfl := Option.some.inj ((getElem?_of_set hp rfl).symm.trans hq)
      rw [Pool.live_iff_stamp, Pool.refreshConnections_stamp, Prod.mk.injEq] at hlive
      refine Or.inl ⟨_, hq, ?_⟩
      rw [Pool.idle_reset, hlive.1]
      exact hs.tasks _ hmem _ rfl
    · exact served_other ht h0 hl rfl hk fun c hc => by cases hc
  | @shutdown k₀ pools seen p p' hp _ hsh =>
    by_cases hk : k₀ = k
    · subst hk
      obtain ⟨q, hq, hlive⟩ := hl
      obtain rfl := Option.some.inj ((getElem?_of_set hp rfl).symm.trans hq)
      cases (Pool.shutdown_shut hsh).symm.trans hlive.2
    · exact served_other ht h0 hl rfl hk fun c hc => by cases hc
  | _ => exact served_same ht h0 hl rfl fun c hc => by cases hc

end

theorem checkedOut_of_same {s s' : State} {k : ℕ} (h : s.CheckedOut k) (hm : s'.mem = s.mem)
    (hkeep : ∀ u ∈ s.tasks, s.mem.Holds k u → u ∈ s'.tasks) : s'.CheckedOut k := by
  obtain ⟨u, hu, hk⟩ := h
  exact ⟨u, hkeep u hu hk, hm ▸ hk⟩

theorem served_main {s : State} {spawned : List Task} {m' : Mem} {main : Main}
    (hs : s.Sized) (h : s.main.Move s.mem m' main spawned)
    (h0 : ∀ k, s.mem.LiveAt k → s.Served k) (k : ℕ) (hl : m'.LiveAt k) :
    State.Served { s with mem := m', main, tasks := s.tasks ++ spawned } k := by
  have hkeep (hp : ∀ p, s.mem.pools[k]? = some p → m'.pools[k]? = some p)
      (h : s.Served k) :
      State.Served { s with mem := m', main, tasks := s.tasks ++ spawned } k := by
    rcases h with ⟨p, hk, hidle⟩ | ⟨u, hu, c, p, huc, hck, hk, he⟩
    · exact Or.inl ⟨p, hp p hk, hidle⟩
    · exact Or.inr ⟨u, List.mem_append_left _ hu, c, p, huc, hck, hp p hk, he⟩
  have hsized := hs.main
  have hinv := hs.custody.main
  generalize s.main = main₀ at h hsized hinv
  cases h with
  | @list server pool urls =>
    obtain ⟨p, hp, hlive⟩ := hl
    rcases Mem.listServer_cases hp with hold | ⟨-, rfl⟩
    · exact hkeep (fun q hq => Mem.listServer_old hq server pool) (h0 k ⟨p, hold, hlive⟩)
    · -- the new pool has all of its connections idle
      refine Or.inl ⟨pool, hp, ?_⟩
      have hcount := Pool.Inv.count (hinv : pool.Inv)
      obtain ⟨hsize, hout⟩ := hsized
      rw [if_pos hlive, Pool.outNow, hout] at hcount
      simp only [List.countP_nil] at hcount
      omega
  | @refreshReset server rest k₀ settings connect p hp =>
    by_cases hk : k₀ = k
    · subst hk
      obtain ⟨q, hq, hlive⟩ := hl
      obtain rfl := Mem.setPool_eq hq
      rw [Pool.live_iff_stamp, Pool.refreshConnections_stamp, Prod.mk.injEq] at hlive
      refine Or.inl ⟨_, hq, ?_⟩
      rw [Pool.idle_reset, hlive.1]
      exact hsized
    · unfold Mem.LiveAt at hl
      rw [Mem.setPool_ne hk] at hl
      exact hkeep (fun q hq => (Mem.setPool_ne hk _).trans hq) (h0 k hl)
  | _ => exact hkeep (fun p hp => hp) (h0 k hl)

theorem served_step {s s' : State} {a : Act} (hs : s.Sized) (hown : ReturnsOwn s a)
    (hkeep : KeepsOne s a) (h0 : ∀ k, s.mem.LiveAt k → s.Served k) (h : s.step a = some s') :
    ∀ k, s'.mem.LiveAt k → s'.Served k := by
  rcases State.step_cases h with ⟨i, net, rfl⟩ | ⟨net, rfl⟩ | hother
  · obtain ⟨t, m', ht, ⟨t', spawned, hstep, rfl⟩ | ⟨hstep, rfl⟩⟩ := State.step_task_step h
    · refine served_go hs ht (Task.step_move hstep) (hown i net t rfl ht) ?_ h0
      rintro server pool conn rfl
      rcases dropped_of_ldap ht hstep with hd | hret
      · refine Or.inl fun k hl hk => (hkeep _ hd k hk hl).imp id ?_
        rintro ⟨u, hu, hnot, hk⟩
        obtain ⟨j, hj⟩ := List.mem_iff_getElem?.mp hu
        refine ⟨j, u, fun hji => hnot ?_, hj, hk⟩
        obtain rfl := Option.some.inj (ht.symm.trans (hji ▸ hj))
        exact hd
      · exact Or.inr hret
    · obtain ⟨hd, rfl⟩ := dropped_of_panic ht (Task.step_move hstep)
      intro k hl
      have hstay {u : Task} (hu : u ∈ s.tasks) (hnot : u ∉ s.dropped (.task i net)) :
          u ∈ s.tasks.filter (!·.isCheck) := by
        refine List.mem_filter.mpr ⟨hu, ?_⟩
        by_contra hc
        rw [hd] at hnot
        exact hnot (List.mem_filter.mpr ⟨hu, by simpa using hc⟩)
      rcases h0 k hl with hidle | ⟨u, hu, hk⟩
      · exact Or.inl hidle
      · by_cases hdrop : u ∈ s.dropped (.task i net)
        · rcases hkeep u hdrop k hk hl with hidle | ⟨v, hv, hnot, hk⟩
          · exact Or.inl hidle
          · exact Or.inr ⟨v, hstay hv hnot, hk⟩
        · exact Or.inr ⟨u, hstay hu hdrop, hk⟩
  · obtain ⟨m', main, spawned, hmove, rfl⟩ := State.step_main h
    exact served_main hs hmove h0
  · have hmem := hother.mem_eq
    intro k hl
    rw [hmem] at hl
    rw [State.Served, hmem]
    refine (h0 k hl).imp id fun hout => checkedOut_of_same hout hmem fun u hu hk => ?_
    cases hother with
    | submit => exact List.mem_append_left _ hu
    | iterate => exact List.mem_append_left _ hu
    | deliver _ hjoined =>
      refine List.mem_filter.mpr ⟨hu, ?_⟩
      by_contra hcheck
      obtain ⟨server, rfl⟩ := joined_done hjoined hu (by simpa using hcheck)
      obtain ⟨c, p, hc, -⟩ := hk
      cases hc
    | _ => exact hu

/-! ### Whoever waits, waits for something -/

/-- A task that finds the queue empty finds the pool live or being refreshed. -/
def RegistersLive (s : State) : Act → Prop
  | .task i _ => ∀ x, s.tasks[i]?.bind Task.takes? = some x →
      ∀ p, s.mem.pools[x.1]? = some p → p.queue.queue = [] → p.Live ∨ s.Refreshing x.1
  | _ => True

/-- A refresh that will fail finds nobody waiting, or another one in progress. -/
def RefusalNoticed (s : State) : Act → Prop
  | .task i net => ∀ x, s.tasks[i]?.bind Task.reset? = some x → x.2.Refused net.connect →
      (∀ u ∈ s.tasks, ¬ s.mem.Waits x.1 u) ∨
        (∃ j u, j ≠ i ∧ s.tasks[j]? = some u ∧ u.Refreshes x.1) ∨ s.main.Refreshes x.1
  | .main net => ∀ x, s.main.reset? = some x → x.2.Refused net.connect →
      (∀ u ∈ s.tasks, ¬ s.mem.Waits x.1 u) ∨ ∃ u ∈ s.tasks, u.Refreshes x.1
  | _ => True

/-- No panic drops the refresh of a dead pool that somebody is left waiting on. -/
def KeepsRefresh (s : State) (a : Act) : Prop :=
  ∀ t ∈ s.dropped a, ∀ k, t.Refreshes k → s.mem.LiveAt k ∨ s.main.Refreshes k ∨
    ∀ u ∈ s.tasks, u ∉ s.dropped a → ¬ s.mem.Waits k u

structure State.Waiting (s : State) : Prop where
  sized : s.Sized
  served : ∀ k, s.mem.LiveAt k → s.mem.IdleAt k ∨ s.CheckedOut k
  registered : ∀ t ∈ s.tasks, t.Registered s.mem
  waits : ∀ t ∈ s.tasks, ∀ k, s.mem.Waits k t →
    ¬ s.mem.IdleAt k ∧ (s.mem.LiveAt k ∨ s.Refreshing k)

theorem mem_go {tasks l : List Task} {i : ℕ} {t t' u : Task} (ht : tasks[i]? = some t)
    (hu : u ∈ tasks) (hne : u ≠ t) : u ∈ tasks.set i t' ++ l := by
  obtain ⟨j, hj⟩ := List.mem_iff_getElem?.mp hu
  have hji : j ≠ i := fun h => hne (Option.some.inj ((h ▸ hj).symm.trans ht))
  refine List.mem_append_left _ (List.mem_of_getElem? (i := j) ?_)
  rw [List.getElem?_set_ne (Ne.symm hji), hj]

/-- The main thread's reset of a pool, attempt by attempt. -/
theorem State.step_main_reset {s s' : State} {net : Net} {server : VkLdapServer} {k : ℕ}
    {settings : VkConnectionSettings} {rest : List VkLdapServer}
    (hm : s.main = .refreshing server (.reset k settings) rest)
    (h : s.step (.main net) = some s') :
    ∃ p, s.mem.pools[k]? = some p ∧
      s'.mem = s.mem.setPool k (p.refreshConnections settings net.connect).1 ∧
      s'.tasks = s.tasks := by
  simp only [State.step, hm, Main.step, Refresh.step] at h
  cases hp : s.mem.pools[k]? with
  | none => simp [hp] at h
  | some p =>
    simp only [hp, Option.some.injEq, List.append_nil] at h
    exact ⟨p, rfl, by rw [← h], by rw [← h]⟩

theorem Main.Move.later {m m' : Mem} {main main' : Main} {spawned : List Task}
    (h : main.Move m m' main' spawned) : m.Later m' := by
  cases h with
  | @list server pool urls =>
    intro k p hp
    have hk := (List.getElem?_eq_some_iff.mp hp).1
    exact ⟨p, (List.getElem?_append_left hk).trans hp, Nat.le_refl _⟩
  | refreshReset hp =>
    exact .set hp (Pool.calls_step (a := .refreshConnections _ _) rfl) rfl
  | _ => exact .of_pools rfl

theorem Task.Move.later {m m' : Mem} {t : Task} {next : Next Task} (h : t.Move m m' next)
    (ht : t.Own m) (hr : t.ReturnsOwn) (hout : ∀ c, t.conn? = some c → 0 < m.handedOut c) :
    m.Later m' := by
  rcases h.pool_step ht hr hout with hp | ⟨k, p, a, q, hp, hstep, hm, -⟩
  · exact .of_pools hp
  · exact .set hp (Pool.calls_step hstep) hm

theorem Main.Move.spawned_free {m m' : Mem} {main main' : Main} {spawned : List Task}
    (h : main.Move m m' main' spawned) : ∀ u ∈ spawned, u.takes? = none := by
  cases h with
  | clear =>
    intro u hu
    obtain rfl := List.mem_singleton.mp hu
    rfl
  | _ => exact fun u hu => by cases hu

/-- The main thread changes a pool only by resetting it. -/
theorem Main.Move.keeps_pool {m m' : Mem} {main main' : Main} {spawned : List Task}
    (h : main.Move m m' main' spawned)
    (hreset : main.reset? = none) {k : ℕ} {p : Pool} (hp : m.pools[k]? = some p) : m'.pools[k]? = some p := by
  cases h with
  | @list server pool urls =>
    exact (List.getElem?_append_left (List.getElem?_eq_some_iff.mp hp).1).trans hp
  | refreshReset => cases hreset
  | _ => exact hp

/-- What a move does to pool `k`: nothing, or one operation. -/
theorem Task.Move.pool_at {m m' : Mem} {t : Task} {next : Next Task} (h : t.Move m m' next)
    (ht : t.Own m) (hr : t.ReturnsOwn) (hout : ∀ c, t.conn? = some c → 0 < m.handedOut c) {k : ℕ}
    {p p' : Pool} (hp : m.pools[k]? = some p) (hp' : m'.pools[k]? = some p') :
    p' = p ∨ ∃ a, p.step a = some p' ∧ ∀ settings connect,
      a = .refreshConnections settings connect → t.reset? = some (k, settings) := by
  rcases h.pool_step ht hr hout with hsame | ⟨k₀, p₀, a, q, hp₀, hstep, hm, hrefresh⟩
  · exact Or.inl (Option.some.inj (hp'.symm.trans (hsame ▸ hp)))
  · by_cases hk : k₀ = k
    · subst hk
      obtain rfl : p₀ = p := Option.some.inj (hp₀.symm.trans hp)
      have hq : m'.pools[k₀]? = some q := by
        simp [hm, (List.getElem?_eq_some_iff.mp hp₀).1]
      obtain rfl : q = p' := Option.some.inj (hq.symm.trans hp')
      exact Or.inr ⟨a, hstep, hrefresh⟩
    · rw [hm, List.getElem?_set_ne hk] at hp'
      exact Or.inl (Option.some.inj (hp'.symm.trans hp))

/-- Only the refresh that a task is about to make can be refused. -/
theorem refused_resets {t : Task} {k : ℕ} {p : Pool} {a : Pool.Act} (h : a.Refused p)
    (ha : ∀ settings connect, a = .refreshConnections settings connect →
      t.reset? = some (k, settings)) : t.reset? ≠ none := by
  cases a with
  | refreshConnections settings connect =>
    rw [ha settings connect rfl]
    exact Option.some_ne_none _
  | _ => exact absurd h id

/-- A move that resets no pool leaves an empty one empty, and live if it was,
unless it calls its signal. -/
theorem Task.Move.unnoticed {m m' : Mem} {t : Task} {next : Next Task} (h : t.Move m m' next)
    (ht : t.Own m) (hr : t.ReturnsOwn) (hout : ∀ c, t.conn? = some c → 0 < m.handedOut c)
    (hsized : m.Sized) (hreset : t.reset? = none) {k : ℕ} {p p' : Pool}
    (hp : m.pools[k]? = some p) (hp' : m'.pools[k]? = some p')
    (hcalls : p'.signal.calls = p.signal.calls) (hidle : ¬ m.IdleAt k) :
    ¬ m'.IdleAt k ∧ (m.LiveAt k → m'.LiveAt k) := by
  have hp0 : p.idle = 0 := Nat.eq_zero_of_not_pos fun h => hidle ⟨p, hp, h⟩
  have hafter : p'.idle = 0 ∧ (p.Live → p'.Live) := by
    rcases h.pool_at ht hr hout hp hp' with rfl | ⟨a, hstep, ha⟩
    · exact ⟨hp0, id⟩
    · obtain ⟨h1, h2⟩ := Pool.quiet_step hstep hcalls (hsized.pools _ _ hp) hp0
      exact ⟨h1, fun hl => (h2 hl).resolve_right fun href => refused_resets href ha hreset⟩
  constructor
  · rintro ⟨r, hr, hpos⟩
    obtain rfl : p' = r := Option.some.inj (hp'.symm.trans hr)
    omega
  · rintro ⟨r, hr, hl⟩
    obtain rfl : p = r := Option.some.inj (hp.symm.trans hr)
    exact ⟨p', hp', hafter.2 hl⟩

/-- A reset of another pool changes nothing for those who wait on `k`. -/
theorem setPool_other {m : Mem} {k k₀ : ℕ} (hk : k₀ ≠ k) (p' : Pool) :
    ((m.setPool k₀ p').IdleAt k ↔ m.IdleAt k) ∧ ((m.setPool k₀ p').LiveAt k ↔ m.LiveAt k) := by
  simp only [Mem.IdleAt, Mem.LiveAt, Mem.setPool_ne hk, and_self]

/-- A reset of `k` that nobody on `k` notices has failed. -/
theorem reset_unnoticed {m : Mem} {k : ℕ} {p q q' : Pool} {settings : VkConnectionSettings}
    {connect : ℕ → Result Unit} (hp : m.pools[k]? = some p) (hq : m.pools[k]? = some q)
    (hq' : (m.setPool k (p.refreshConnections settings connect).1).pools[k]? = some q')
    (hcalls : q'.signal.calls = q.signal.calls) :
    settings.Refused connect ∧
      ¬ (m.setPool k (p.refreshConnections settings connect).1).IdleAt k := by
  obtain rfl : p = q := Option.some.inj (hp.symm.trans hq)
  obtain rfl := Mem.setPool_eq hq'
  rw [Pool.signal_reset] at hcalls
  have hfail : (p.refreshConnections settings connect).2.toBool = false := by
    by_contra hok
    rw [if_pos (eq_true_of_ne_false hok)] at hcalls
    omega
  refine ⟨(Pool.refreshConnections_refused p _ _).mp hfail, ?_⟩
  rintro ⟨r, hr, hpos⟩
  obtain rfl : (p.refreshConnections settings connect).1 = r := Option.some.inj (hq'.symm.trans hr)
  rw [Pool.idle_reset, hfail] at hpos
  exact absurd hpos (Nat.lt_irrefl 0)

theorem waits_reset {s s' : State} {i : ℕ} {net : Net} {server : VkLdapServer}
    {x : ℕ × VkConnectionSettings} (hw : s.Waiting) (href : RefusalNoticed s (.task i net))
    (ht : s.tasks[i]? = some (.check server (.refresh (.reset x.1 x.2))))
    (h : s.step (.task i net) = some s') :
    ∀ u ∈ s'.tasks, ∀ k, s'.mem.Waits k u →
      ¬ s'.mem.IdleAt k ∧ (s'.mem.LiveAt k ∨ s'.Refreshing k) := by
  obtain ⟨p, hp, rfl⟩ := State.step_reset ht h
  intro u hu k hwaits
  have hold : u ∈ s.tasks := by
    rcases List.mem_or_eq_of_mem_set hu with hu | rfl
    · exact hu
    · obtain ⟨seen, hs, -⟩ := hwaits
      cases hs
  obtain ⟨q, q', hq, hq', hcalls, hbefore⟩ := hwaits.before (hw.registered u hold)
    (.set hp (Pool.calls_step (a := .refreshConnections x.2 net.connect) rfl) rfl)
  by_cases hk : x.1 = k
  · subst hk
    obtain ⟨hrefused, hidle⟩ := reset_unnoticed hp hq hq' hcalls
    refine ⟨hidle, Or.inr ?_⟩
    rcases href x (by rw [ht]; rfl) hrefused with hnone | ⟨j, v, hj, hv, hvk⟩ | hmain
    · exact absurd hbefore (hnone u hold)
    · refine Or.inl ⟨v, List.mem_of_getElem? (i := j) ?_, hvk⟩
      rw [List.getElem?_set_ne (Ne.symm hj), hv]
    · exact Or.inr hmain
  · obtain ⟨hidle, hfor⟩ := hw.waits u hold k hbefore
    obtain ⟨hidle', hlive'⟩ := setPool_other (m := s.mem) hk
      (p.refreshConnections x.2 net.connect).1
    refine ⟨fun h => hidle (hidle'.mp h), hfor.imp hlive'.mpr ?_⟩
    rintro (⟨v, hv, hvk⟩ | hmain)
    · refine Or.inl ⟨v, ?_, hvk⟩
      have hne : v ≠ .check server (.refresh (.reset x.1 x.2)) := by
        rintro rfl
        obtain ⟨settings, hs⟩ := hvk
        cases hs
        exact hk rfl
      simpa using mem_go (l := []) ht hv hne
    · exact Or.inr hmain

/-- A panic drops the checks; the refreshes among them nobody waits for. -/
theorem waits_panic {s : State} {i : ℕ} {net : Net} (hw : s.Waiting)
    (hkeep : KeepsRefresh s (.task i net))
    (hd : s.dropped (.task i net) = s.tasks.filter (·.isCheck)) :
    ∀ u ∈ s.tasks.filter (!·.isCheck), ∀ k, s.mem.Waits k u →
      ¬ s.mem.IdleAt k ∧ (s.mem.LiveAt k ∨
        (∃ v ∈ s.tasks.filter (!·.isCheck), v.Refreshes k) ∨ s.main.Refreshes k) := by
  intro u hu k hwaits
  obtain ⟨hu, hnot⟩ := List.mem_filter.mp hu
  obtain ⟨hidle, hfor⟩ := hw.waits u hu k hwaits
  refine ⟨hidle, ?_⟩
  rcases hfor with hlive | ⟨v, hv, hvk⟩ | hmain
  · exact Or.inl hlive
  · by_cases hc : v.isCheck = true
    · have hvd : v ∈ s.dropped (.task i net) := by
        rw [hd]
        exact List.mem_filter.mpr ⟨hv, hc⟩
      rcases hkeep v hvd k hvk with hlive | hmain | hnone
      · exact Or.inl hlive
      · exact Or.inr (Or.inr hmain)
      · refine absurd hwaits (hnone u hu ?_)
        rw [hd]
        intro hmem
        simp [(List.mem_filter.mp hmem).2] at hnot
    · exact Or.inr (Or.inl ⟨v, List.mem_filter.mpr ⟨hv, by simpa using hc⟩, hvk⟩)
  · exact Or.inr (Or.inr hmain)

theorem waits_task {s s' : State} {i : ℕ} {net : Net} (hw : s.Waiting)
    (hown : ReturnsOwn s (.task i net)) (hreg : RegistersLive s (.task i net))
    (href : RefusalNoticed s (.task i net)) (hkeep : KeepsRefresh s (.task i net))
    (h : s.step (.task i net) = some s') :
    ∀ u ∈ s'.tasks, ∀ k, s'.mem.Waits k u →
      ¬ s'.mem.IdleAt k ∧ (s'.mem.LiveAt k ∨ s'.Refreshing k) := by
  obtain ⟨t, m', ht, hcase⟩ := State.step_task h
  have hmem := List.mem_of_getElem? ht
  have hout := hw.sized.custody.handedOut hmem
  have htown := hw.sized.custody.own.tasks t hmem
  have hret := hown i net t rfl ht
  rcases hr : t.reset? with _ | x
  · have hrefreshes {v : Task} {k : ℕ} (hvk : v.Refreshes k) : v ≠ t := by
      rintro rfl
      obtain ⟨settings, hs⟩ := hvk
      rw [hr] at hs
      cases hs
    rcases hcase with ⟨t', spawned, hmove, rfl⟩ | ⟨hmove, rfl⟩
    · intro u hu k hwaits
      have hstay (hfor : s.Refreshing k) :
          State.Refreshing { s with mem := m', tasks := s.tasks.set i t' ++ spawned } k :=
        hfor.imp (fun ⟨v, hv, hvk⟩ => ⟨v, mem_go ht hv (hrefreshes hvk), hvk⟩) id
      have hold : u ∈ s.tasks ∨ u = t' := by
        rcases List.mem_append.mp hu with hu | hu
        · exact List.mem_or_eq_of_mem_set hu
        · obtain ⟨seen, hs, -⟩ := hwaits
          rw [hmove.spawned_free u hu] at hs
          cases hs
      rcases hold with hu | rfl
      · obtain ⟨p, p', hp, hp', hcalls, hbefore⟩ :=
          hwaits.before (hw.registered u hu) (hmove.later htown hret hout)
        obtain ⟨hidle, hfor⟩ := hw.waits u hu k hbefore
        obtain ⟨h1, h2⟩ := hmove.unnoticed htown hret hout hw.sized.mem hr hp hp' hcalls hidle
        exact ⟨h1, hfor.imp h2 hstay⟩
      · -- the task that has just registered
        obtain ⟨seen, hs, -⟩ := hwaits
        obtain ⟨rfl, p, seen₀, htakes, hp, hempty, -⟩ := hmove.registers hs
        refine ⟨?_, (hreg (k, seen₀) (by rw [ht]; exact htakes) p hp hempty).imp
          (fun hl => ⟨p, hp, hl⟩) hstay⟩
        rintro ⟨r, hr, hpos⟩
        obtain rfl : p = r := Option.some.inj (hp.symm.trans hr)
        simp [Pool.idle, hempty] at hpos
    · obtain ⟨hd, rfl⟩ := dropped_of_panic ht hmove
      exact waits_panic hw hkeep hd
  · obtain ⟨server, rfl⟩ := Task.reset?_eq hr
    exact waits_reset hw href ht h

theorem waits_main {s s' : State} {net : Net} (hw : s.Waiting)
    (href : RefusalNoticed s (.main net)) (h : s.step (.main net) = some s') :
    ∀ u ∈ s'.tasks, ∀ k, s'.mem.Waits k u →
      ¬ s'.mem.IdleAt k ∧ (s'.mem.LiveAt k ∨ s'.Refreshing k) := by
  rcases hreset : s.main.reset? with _ | ⟨k₀, settings⟩
  · obtain ⟨m', main, spawned, hmove, rfl⟩ := State.step_main h
    intro u hu k hwaits
    have hold : u ∈ s.tasks := by
      rcases List.mem_append.mp hu with hu | hu
      · exact hu
      · obtain ⟨seen, hs, -⟩ := hwaits
        rw [hmove.spawned_free u hu] at hs
        cases hs
    obtain ⟨p, p', hp, -, -, hbefore⟩ := hwaits.before (hw.registered u hold) hmove.later
    obtain ⟨hidle, hfor⟩ := hw.waits u hold k hbefore
    have hkeep := hmove.keeps_pool hreset hp
    refine ⟨?_, hfor.imp ?_ ?_⟩
    · rintro ⟨r, hr, hpos⟩
      obtain rfl : p = r := Option.some.inj (hkeep.symm.trans hr)
      exact hidle ⟨p, hp, hpos⟩
    · rintro ⟨r, hr, hlive⟩
      obtain rfl : p = r := Option.some.inj (hp.symm.trans hr)
      exact ⟨p, hkeep, hlive⟩
    · rintro (⟨v, hv, hvk⟩ | ⟨settings, hmain⟩)
      · exact Or.inl ⟨v, List.mem_append_left _ hv, hvk⟩
      · rw [hreset] at hmain
        cases hmain
  · obtain ⟨server, rest, hm⟩ := Main.reset?_eq hreset
    obtain ⟨p, hp, hmem, htasks⟩ := State.step_main_reset hm h
    unfold State.Refreshing
    rw [hmem, htasks]
    intro u hu k hwaits
    obtain ⟨q, q', hq, hq', hcalls, hbefore⟩ := hwaits.before (hw.registered u hu)
      (.set hp (Pool.calls_step (a := .refreshConnections settings net.connect) rfl) rfl)
    by_cases hk : k₀ = k
    · subst hk
      obtain ⟨hrefused, hidle⟩ := reset_unnoticed hp hq hq' hcalls
      refine ⟨hidle, Or.inr (Or.inl ?_)⟩
      exact (href (k₀, settings) hreset hrefused).resolve_left fun hnone => hnone u hu hbefore
    · obtain ⟨hidle, hfor⟩ := hw.waits u hu k hbefore
      obtain ⟨hidle', hlive'⟩ := setPool_other (m := s.mem) hk
        (p.refreshConnections settings net.connect).1
      refine ⟨fun h => hidle (hidle'.mp h), hfor.imp hlive'.mpr ?_⟩
      rintro (hv | ⟨settings', hmain⟩)
      · exact Or.inl hv
      · rw [hreset] at hmain
        cases hmain
        exact absurd rfl hk

theorem waits_other {s s' : State} {a : Act} (hw : s.Waiting) (h : s.Other a s') :
    ∀ u ∈ s'.tasks, ∀ k, s'.mem.Waits k u →
      ¬ s'.mem.IdleAt k ∧ (s'.mem.LiveAt k ∨ s'.Refreshing k) := by
  have hmem : s'.mem = s.mem := by cases h <;> rfl
  rw [hmem]
  intro u hu k hwaits
  have hold : u ∈ s.tasks := by
    cases h with
    | submit =>
      refine (List.mem_append.mp hu).resolve_right fun hu => ?_
      obtain rfl := List.mem_singleton.mp hu
      obtain ⟨seen, hs, -⟩ := hwaits
      cases hs
    | iterate =>
      refine (List.mem_append.mp hu).resolve_right fun hu => ?_
      obtain ⟨e, -, rfl⟩ := List.mem_map.mp hu
      obtain ⟨seen, hs, -⟩ := hwaits
      cases hs
    | deliver => exact (List.mem_filter.mp hu).1
    | _ => exact hu
  obtain ⟨hidle, hfor⟩ := hw.waits u hold k hwaits
  refine ⟨hidle, hfor.imp id ?_⟩
  rintro (⟨v, hv, hvk⟩ | ⟨settings, hmain⟩)
  · refine Or.inl ⟨v, ?_, hvk⟩
    cases h with
    | submit => exact List.mem_append_left _ hv
    | iterate => exact List.mem_append_left _ hv
    | deliver _ hjoined =>
      refine List.mem_filter.mpr ⟨hv, ?_⟩
      by_contra hcheck
      obtain ⟨server, rfl⟩ := joined_done hjoined hv (by simpa using hcheck)
      obtain ⟨settings, hs⟩ := hvk
      cases hs
    | _ => exact hv
  · refine Or.inr ⟨settings, ?_⟩
    cases h with
    | setServers hidle => rw [hidle] at hmain; cases hmain
    | setConnectionSettings hidle => rw [hidle] at hmain; cases hmain
    | _ => exact hmain

theorem later_step {s s' : State} {a : Act} (hs : s.Sized) (hown : ReturnsOwn s a)
    (h : s.step a = some s') : s.mem.Later s'.mem := by
  rcases State.step_cases h with ⟨i, net, rfl⟩ | ⟨net, rfl⟩ | hother
  · obtain ⟨t, m', ht, hcase⟩ := State.step_task h
    have hmem := List.mem_of_getElem? ht
    have hout := hs.custody.handedOut hmem
    rcases hcase with ⟨t', spawned, hmove, rfl⟩ | ⟨hmove, rfl⟩ <;>
      exact hmove.later (hs.custody.own.tasks t hmem) (hown i net t rfl ht) hout
  · obtain ⟨m', main, spawned, hmove, rfl⟩ := State.step_main h
    exact hmove.later
  · cases hother <;> exact .of_pools rfl

theorem registered_step {s s' : State} {a : Act} (hs : s.Sized) (hown : ReturnsOwn s a)
    (h0 : ∀ t ∈ s.tasks, t.Registered s.mem) (h : s.step a = some s') :
    ∀ t ∈ s'.tasks, t.Registered s'.mem := by
  have hfree {m : Mem} {u : Task} (hu : u.takes? = none) : u.Registered m := fun k seen hk => by
    rw [hu] at hk
    cases hk
  refine State.forall_tasks_step (P := fun m t => t.Registered m) h h0
    (fun t _ ht k seen hk => (ht k seen hk).later (later_step hs hown h)) ?_ ?_ (hfree rfl) fun _ _ => hfree rfl
  · intro i net t t' spawned _ _ hmove
    refine ⟨fun k seen hk => ?_, fun u hu => hfree (hmove.spawned_free u hu)⟩
    obtain ⟨hm, p, seen₀, -, hp, -, rfl⟩ := hmove.registers hk
    exact ⟨p, hm ▸ hp, Nat.le_refl _⟩
  · intro net spawned _ hmove u hu
    exact hfree (hmove.spawned_free u hu)

theorem waiting_step {s s' : State} {a : Act} (hw : s.Waiting) (hsize : SizedSettings s a)
    (hown : ReturnsOwn s a) (hone : KeepsOne s a) (hkeep : KeepsRefresh s a)
    (hreg : RegistersLive s a) (href : RefusalNoticed s a) (h : s.step a = some s') :
    s'.Waiting := by
  refine ⟨sized_step hw.sized hsize hown h, served_step hw.sized hown hone hw.served h,
    registered_step hw.sized hown hw.registered h, ?_⟩
  rcases State.step_cases h with ⟨i, net, rfl⟩ | ⟨net, rfl⟩ | hother
  · exact waits_task hw hown hreg href hkeep h
  · exact waits_main hw href h
  · exact waits_other hw hother

theorem waiting_init (ls : VkLdapSettings) (cs : VkConnectionSettings)
    (hs : 1 ≤ cs.connectionPoolSize) : (State.init ls cs).Waiting := by
  have htasks {t : Task} (ht : t ∈ (State.init ls cs).tasks) : False := by
    simp [State.init] at ht
  refine ⟨sized_init ls cs hs, ?_, fun t ht => (htasks ht).elim, fun t ht => (htasks ht).elim⟩
  rintro k ⟨p, hp, -⟩
  simp [State.init] at hp

/-! ### Nobody is stranded -/

/-- Whoever waits on a pool of which no refresh is in progress waits for a
connection of its current epoch that is checked out. -/
def State.NoneStranded (s : State) : Prop :=
  ∀ t ∈ s.tasks, ∀ k, s.mem.Waits k t → ¬ s.Refreshing k → s.CheckedOut k

theorem State.Waiting.noneStranded {s : State} (hw : s.Waiting) : s.NoneStranded := by
  intro t ht k hwaits hno
  obtain ⟨hidle, hfor⟩ := hw.waits t ht k hwaits
  exact (hw.served k (hfor.resolve_right hno)).resolve_left hidle

/-- **Nobody waits for a dead pool.** In every run in which tasks come to wait
only on live pools, no failing refresh leaves somebody waiting, checks give back
to the pool they took from, and no panic drops a pool's last connection or
refresh: whoever waits has a connection to wait for. -/
theorem no_task_stranded (ls : VkLdapSettings) (cs : VkConnectionSettings)
    (hs : 1 ≤ cs.connectionPoolSize) (tr : List (State × Act)) (t : State)
    (h : Run State.step (State.init ls cs) tr t) (hsize : Steps SizedSettings tr)
    (hreg : Steps RegistersLive tr) (href : Steps RefusalNoticed tr)
    (hown : Steps ReturnsOwn tr) (hone : Steps KeepsOne tr) (hkeep : Steps KeepsRefresh tr) :
    t.NoneStranded := by
  have hw : t.Waiting := h.invariant
    (((hsize.and hown).and (hone.and hkeep)).and (hreg.and href)) (waiting_init ls cs hs)
    fun _ _ _ hw hg hstep => waiting_step hw hg.1.1.1 hg.1.1.2 hg.1.2.1 hg.1.2.2 hg.2.1 hg.2.2 hstep
  exact hw.noneStranded

/-- Only operations are at work, on live pools, and none panics. -/
def calm (s : State) (a : Act) : Bool :=
  s.tasks.all (fun u => u.reset?.isNone && !u.isCheck) && s.main.reset?.isNone &&
    (s.dropped a).isEmpty && s.mem.pools.all fun p => p.resetOk && !p.shut

structure Calm (s : State) (a : Act) : Prop where
  tasks : ∀ u ∈ s.tasks, u.reset? = none ∧ u.isCheck = false
  main : s.main.reset? = none
  dropped : s.dropped a = []
  pools : ∀ p ∈ s.mem.pools, p.Live

theorem calm_iff {s : State} {a : Act} : calm s a = true ↔ Calm s a := by
  simp only [calm, Bool.and_eq_true, List.all_eq_true, Option.isNone_iff_eq_none,
    List.isEmpty_iff, Bool.not_eq_true']
  exact ⟨fun ⟨⟨⟨h1, h2⟩, h3⟩, h4⟩ => ⟨h1, h2, h3, h4⟩, fun ⟨h1, h2, h3, h4⟩ => ⟨⟨⟨h1, h2⟩, h3⟩, h4⟩⟩

theorem Calm.no_reset {s : State} {a : Act} (h : Calm s a) {i : ℕ} {x : ℕ × VkConnectionSettings} :
    s.tasks[i]?.bind Task.reset? ≠ some x := by
  intro hx
  obtain ⟨u, hu, hx⟩ := Option.bind_eq_some_iff.mp hx
  rw [(h.tasks u (List.mem_of_getElem? hu)).1] at hx
  cases hx

theorem Calm.returnsOwn {s : State} {a : Act} (h : Calm s a) : ReturnsOwn s a := by
  intro i net u _ hu
  have hcheck := (h.tasks u (List.mem_of_getElem? hu)).2
  cases u with
  | check => cases hcheck
  | _ => trivial

theorem Calm.notices {s : State} {a : Act} (h : Calm s a) :
    RegistersLive s a ∧ RefusalNoticed s a ∧ KeepsOne s a ∧ KeepsRefresh s a := by
  refine ⟨?_, ?_, fun u hu => ?_, fun u hu => ?_⟩
  · cases a with
    | task i net => exact fun _ _ p hp _ => Or.inl (h.pools p (List.mem_of_getElem? hp))
    | _ => trivial
  · cases a with
    | task i net => exact fun x hx => absurd hx h.no_reset
    | main net => exact fun x hx => by rw [h.main] at hx; cases hx
    | _ => trivial
  · rw [h.dropped] at hu
    cases hu
  · rw [h.dropped] at hu
    cases hu

theorem calm_steps {s : State} {as : List Act}
    (h : (trace State.step s as).all (fun x => calm x.1 x.2) = true) :
    Steps Calm (trace State.step s as) :=
  fun x hx => calm_iff.mp (List.all_eq_true.mp h x hx)

/-- Two operations on a pool of one connection. -/
def secondWaits : List Act :=
  [.setServers ["ldap://a"], .main {}, .main {}, .main {}, .main {}, .main {}, .submit, .submit,
    .task 1 {}, .task 1 {}, .task 2 {}, .task 2 {}]

/-- The second operation waits for the connection that the first has. -/
theorem no_task_stranded_second : ∃ tr t,
    Run State.step (State.init {} { connectionPoolSize := 1 }) tr t ∧
      (∃ u ∈ t.tasks, t.mem.Waits 0 u) ∧ t.NoneStranded := by
  obtain ⟨t, ht, u, hu, hw⟩ : ∃ t,
      exec State.step (State.init {} { connectionPoolSize := 1 }) secondWaits = some t ∧
        ∃ u ∈ t.tasks, t.mem.Waits 0 u :=
    ⟨_, rfl, _, List.mem_of_getElem? (i := 2) rfl, _, rfl, _, rfl, rfl⟩
  have hcalm : Steps Calm
      (trace State.step (State.init {} { connectionPoolSize := 1 }) secondWaits) :=
    calm_steps (by decide +kernel)
  refine ⟨_, t, exec_run ht, ⟨u, hu, hw⟩,
    no_task_stranded {} _ (Nat.le_refl 1) _ t (exec_run ht) ?_
      (hcalm.imp fun _ _ h => h.notices.1) (hcalm.imp fun _ _ h => h.notices.2.1)
      (hcalm.imp fun _ _ h => h.returnsOwn) (hcalm.imp fun _ _ h => h.notices.2.2.1)
      (hcalm.imp fun _ _ h => h.notices.2.2.2)⟩
  rintro ⟨s, a⟩ hx
  have ha : a ∈ secondWaits := mem_of_trace hx
  simp only [secondWaits, List.mem_cons, List.not_mem_nil, or_false] at ha
  rcases ha with rfl | rfl | rfl | rfl | rfl | rfl | rfl | rfl | rfl | rfl | rfl | rfl <;> trivial

/-- An operation has found its pool when the list is replaced and the pool shut
down. -/
def takesAfterShutdown : List Act :=
  [.setServers ["ldap://a"], .main {}, .main {}, .main {}, .main {}, .main {}, .submit,
    .task 1 {}, .setServers ["ldap://b"], .main {}, .task 2 {}, .task 1 {}, .main {}, .main {},
    .main {}, .main {}]

/-- It waits on the pool for good, with the new server healthy. -/
theorem stranded_on_closed_pool : ∃ tr t,
    Run State.step (State.init {} { connectionPoolSize := 1 }) tr t ∧ Steps SizedSettings tr ∧
      t.main = .idle ∧ ¬ t.NoneStranded := by
  obtain ⟨t, ht, hmain, u, hu, hw, hreset, hconn⟩ : ∃ t,
      exec State.step (State.init {} { connectionPoolSize := 1 }) takesAfterShutdown = some t ∧
        t.main = .idle ∧ ∃ u ∈ t.tasks, t.mem.Waits 0 u ∧
          (∀ v ∈ t.tasks, v.reset? = none) ∧ ∀ v ∈ t.tasks, v.conn? = none :=
    ⟨_, rfl, rfl, _, List.mem_of_getElem? (i := 1) rfl, ⟨_, rfl, _, rfl, rfl⟩, by decide, by decide⟩
  refine ⟨_, t, exec_run ht, ?_, hmain, fun hnone => ?_⟩
  · rintro ⟨s, a⟩ hx
    have ha : a ∈ takesAfterShutdown := mem_of_trace hx
    simp only [takesAfterShutdown, List.mem_cons, List.not_mem_nil, or_false] at ha
    rcases ha with rfl | rfl | rfl | rfl | rfl | rfl | rfl | rfl | rfl | rfl | rfl | rfl | rfl |
      rfl | rfl | rfl <;> trivial
  · have hno : ¬ t.Refreshing 0 := by
      rintro (⟨v, hv, settings, hs⟩ | ⟨settings, hs⟩)
      · rw [hreset v hv] at hs
        cases hs
      · rw [hmain] at hs
        cases hs
    obtain ⟨v, hv, c, -, hc, -⟩ := hnone u hu 0 hw hno
    rw [hconn v hv] at hc
    cases hc

end System
end ValkeyLdap
