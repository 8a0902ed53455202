/-
# What a step can do

`Task.Move` and `Main.Move` list the moves of the step functions, one
constructor each, with the guard it needs and the memory it leaves.
`Task.step_move` and `Main.step_move` say that there are no others, so an
invariant is a case analysis over the moves and never unfolds a step. What a
pool exchanged, listed or opened leaves is said once, in front of the moves.

Key theorems: `Task.step_move`, `Main.step_move`, `State.step_cases`,
`State.forall_tasks_step`, `Mem.setPool_cases`, `Mem.listServer_cases`.
-/
import ValkeyLdap.System

namespace ValkeyLdap
namespace System

/-! ### The pools after a change -/

namespace Mem

section
variable {m : Mem} {k j : ℕ} {p q pool : Pool} {server : VkLdapServer}

theorem setPool_self (hq : m.pools[k]? = some q) (p : Pool) :
    (m.setPool k p).pools[k]? = some p :=
  List.getElem?_set_self (List.getElem?_eq_some_iff.mp hq).1

theorem setPool_ne (h : k ≠ j) (p : Pool) : (m.setPool k p).pools[j]? = m.pools[j]? :=
  List.getElem?_set_ne h

theorem setPool_cases (h : (m.setPool k p).pools[j]? = some q) :
    (k = j ∧ p = q) ∨ (k ≠ j ∧ m.pools[j]? = some q) := by
  by_cases hk : k = j
  · subst hk
    have hlt := (List.getElem?_eq_some_iff.mp h).1
    have hlt : k < m.pools.length := by rwa [Mem.setPool, List.length_set] at hlt
    have hself := setPool_self (List.getElem?_eq_getElem hlt) p
    exact Or.inl ⟨rfl, Option.some.inj (hself.symm.trans h)⟩
  · rw [setPool_ne hk] at h
    exact Or.inr ⟨hk, h⟩

/-- The pool exchanged for another is that other. -/
theorem setPool_eq (h : (m.setPool k p).pools[k]? = some q) : p = q := by
  rcases setPool_cases h with ⟨-, he⟩ | ⟨hne, -⟩
  · exact he
  · exact absurd rfl hne

theorem listServer_old (hp : m.pools[k]? = some p) (server : VkLdapServer) (pool : Pool) :
    (m.listServer server pool).pools[k]? = some p :=
  (List.getElem?_append_left (List.getElem?_eq_some_iff.mp hp).1).trans hp

theorem listServer_new (m : Mem) (server : VkLdapServer) (pool : Pool) :
    (m.listServer server pool).pools[m.pools.length]? = some pool :=
  List.getElem?_concat_length

theorem listServer_cases (h : (m.listServer server pool).pools[k]? = some p) :
    m.pools[k]? = some p ∨ (k = m.pools.length ∧ pool = p) := by
  have hlt := (List.getElem?_eq_some_iff.mp h).1
  have hlt : k < m.pools.length + 1 := by
    rwa [Mem.listServer, List.length_append, List.length_singleton] at hlt
  by_cases hk : k = m.pools.length
  · subst hk
    exact Or.inr ⟨rfl, Option.some.inj ((listServer_new m server pool).symm.trans h)⟩
  · have hp := List.getElem?_eq_getElem (show k < m.pools.length by omega)
    have hold := listServer_old hp server pool
    rw [h] at hold
    rw [hp, Option.some.inj hold]
    exact Or.inl rfl

end

end Mem

theorem Net.panics_eq_false {net : Net} (h : ∀ k, net.connectPanics k = false) (n k : ℕ) :
    net.panics n k = false := by
  induction n generalizing k with
  | zero => rfl
  | succ n ih => rw [Net.panics, h, ih, Bool.false_or, Bool.and_false]

/-- The pool that is opened is a new one. -/
theorem openServer_snd (n : ℕ) (server : VkLdapServer) (settings : VkConnectionSettings)
    (connect : ℕ → Result Unit) :
    (openServer n server settings connect).2 = (Pool.new n server settings connect).1 := by
  unfold openServer
  split <;> rename_i heq <;> rw [heq]

/-! ### The moves of a task -/

inductive Task.Move (m : Mem) : Task → Mem → Next Task → Prop
  -- run_ldap_op_with_failover
  | findNone {err : VkLdapError} : m.ctx.findServer = .error err →
      Move m (.op .find) m (.go (.op (.done (.error err))) [])
  | find {server : VkLdapServer} {pool : ℕ} : m.ctx.findServer = .ok server →
      m.ctx.connPools[server.id]? = some pool →
      Move m (.op .find) m (.go (.op (.take server pool none)) [])
  | findLost {server : VkLdapServer} : m.ctx.findServer = .ok server →
      m.ctx.connPools[server.id]? = none → Move m (.op .find) m (.go (.op .panicked) [])
  | take {server : VkLdapServer} {pool : ℕ} {seen : Option ℕ} {p p' : Pool}
      {c : VkLdapPoolConnection} : m.pools[pool]? = some p → Mem.due p seen = true →
      p.takeConnection = some (c, p') →
      Move m (.op (.take server pool seen)) (m.setPool pool p')
        (.go (.op (.ldap server pool c)) [])
  | wait {server : VkLdapServer} {pool : ℕ} {seen : Option ℕ} {p : Pool} :
      m.pools[pool]? = some p → Mem.due p seen = true → p.takeConnection = none →
      Move m (.op (.take server pool seen)) m
        (.go (.op (.take server pool (some p.signal.calls))) [])
  | ldapFailed {server : VkLdapServer} {pool : ℕ} {conn : VkLdapPoolConnection}
      {err : LdapError} : Move m (.op (.ldap server pool conn)) m
        (.go (.op (.fail server (.ldapConnectionError err))) [.ret pool conn])
  | ldap {server : VkLdapServer} {pool : ℕ} {conn : VkLdapPoolConnection} {res : Result Unit} :
      Move m (.op (.ldap server pool conn)) m (.go (.op (.done res)) [.ret pool conn])
  | ldapPanicked {server : VkLdapServer} {pool : ℕ} {conn : VkLdapPoolConnection} :
      Move m (.op (.ldap server pool conn)) m (.go (.op .panicked) [])
  | fail {server : VkLdapServer} {err : VkLdapError} : Move m (.op (.fail server err))
      (m.updateServerStatus server (.unhealthy err.toString) none) (.go (.op .find) [])
  -- check_server_health
  | checkFind {server : VkLdapServer} {pool : ℕ} : server.isHealthy = true →
      m.ctx.connPools[server.id]? = some pool →
      Move m (.check server .start) m (.go (.check server (.take pool none)) [])
  | checkLost {server : VkLdapServer} : server.isHealthy = true →
      m.ctx.connPools[server.id]? = none → Move m (.check server .start) m .panic
  | checkConnect {server : VkLdapServer} : server.isHealthy = false →
      Move m (.check server .start) m
        (.go (.check server (.connect m.ctx.connectionSettings)) [])
  | checkTake {server : VkLdapServer} {pool : ℕ} {seen : Option ℕ} {p p' : Pool}
      {c : VkLdapPoolConnection} : m.pools[pool]? = some p → Mem.due p seen = true →
      p.takeConnection = some (c, p') →
      Move m (.check server (.take pool seen)) (m.setPool pool p')
        (.go (.check server (.ping c)) [])
  | checkWait {server : VkLdapServer} {pool : ℕ} {seen : Option ℕ} {p : Pool} :
      m.pools[pool]? = some p → Mem.due p seen = true → p.takeConnection = none →
      Move m (.check server (.take pool seen)) m
        (.go (.check server (.take pool (some p.signal.calls))) [])
  | ping {server : VkLdapServer} {conn : VkLdapPoolConnection} {res : Result Duration} :
      Move m (.check server (.ping conn)) m (.go (.check server (.giveBack conn res)) [])
  | giveBack {server : VkLdapServer} {conn : VkLdapPoolConnection} {res : Result Duration}
      {pool : ℕ} : m.ctx.connPools[conn.server.id]? = some pool →
      Move m (.check server (.giveBack conn res)) m (.go (.check server (.put pool conn res)) [])
  | giveBackLost {server : VkLdapServer} {conn : VkLdapPoolConnection} {res : Result Duration} :
      m.ctx.connPools[conn.server.id]? = none →
      Move m (.check server (.giveBack conn res)) m .panic
  | put {server : VkLdapServer} {pool : ℕ} {conn : VkLdapPoolConnection}
      {res : Result Duration} {p : Pool} : m.pools[pool]? = some p →
      Move m (.check server (.put pool conn res)) (m.setPool pool (p.returnConnection conn))
        (.go (.check server (.report res conn.fromEpoch)) [])
  | report {server : VkLdapServer} {res : Result Duration} {asOf : ℕ} :
      Move m (.check server (.report res asOf))
        (m.updateServerStatus server (statusOf res) res.toOption) (.go (.check server .done) [])
  | connected {server : VkLdapServer} {settings : VkConnectionSettings} :
      Move m (.check server (.connect settings)) m (.go (.check server .pingNew) [])
  | connectFailed {server : VkLdapServer} {settings : VkConnectionSettings}
      {err : VkLdapError} : Move m (.check server (.connect settings)) m
        (.go (.check server (.reportConnect err)) [])
  | pinged {server : VkLdapServer} : Move m (.check server .pingNew) m
      (.go (.check server (.refresh .lookup)) [])
  | pingFailed {server : VkLdapServer} : Move m (.check server .pingNew) m
      (.go (.check server .done) [])
  | reportConnect {server : VkLdapServer} {err : VkLdapError} :
      Move m (.check server (.reportConnect err))
        (m.updateServerStatus server (.unhealthy err.toString) none)
        (.go (.check server .done) [])
  | refreshLookup {server : VkLdapServer} {pool : ℕ} :
      m.ctx.connPools[server.id]? = some pool → Move m (.check server (.refresh .lookup)) m
        (.go (.check server (.refresh (.reset pool m.ctx.connectionSettings))) [])
  | refreshLost {server : VkLdapServer} : m.ctx.connPools[server.id]? = none →
      Move m (.check server (.refresh .lookup)) m .panic
  | refreshReset {server : VkLdapServer} {pool : ℕ} {settings : VkConnectionSettings}
      {connect : ℕ → Result Unit} {p : Pool} : m.pools[pool]? = some p →
      Move m (.check server (.refresh (.reset pool settings)))
        (m.setPool pool (p.refreshConnections settings connect).1)
        (.go (.check server (.refresh (.report (p.refreshConnections settings connect).2
          (p.refreshConnections settings connect).1.queue.epoch))) [])
  | refreshReport {server : VkLdapServer} {res : Result Unit} {asOf : ℕ} :
      Move m (.check server (.refresh (.report res asOf)))
        (m.updateServerStatus server (statusOf res) none) (.go (.check server .done) [])
  -- the spawned tasks
  | ret {pool : ℕ} {conn : VkLdapPoolConnection} {p : Pool} : m.pools[pool]? = some p →
      Move m (.ret pool conn) (m.setPool pool (p.returnConnection conn)) (.go .ended [])
  | shutdownDone {seen : Option ℕ} : Move m (.shutdown [] seen) m (.go .ended [])
  | shutdown {pool : ℕ} {pools : List ℕ} {seen : Option ℕ} {p p' : Pool} :
      m.pools[pool]? = some p → Mem.due p seen = true → p.shutdown = some p' →
      Move m (.shutdown (pool :: pools) seen) (m.setPool pool p') (.go (.shutdown pools none) [])
  | shutdownWait {pool : ℕ} {pools : List ℕ} {seen : Option ℕ} {p : Pool} :
      m.pools[pool]? = some p → Mem.due p seen = true → p.shutdown = none →
      Move m (.shutdown (pool :: pools) seen) m
        (.go (.shutdown (pool :: pools) (some p.signal.calls)) [])

theorem Mem.takeConnection_cases {m m' : Mem} {pool : ℕ} {seen : Option ℕ}
    {r : VkLdapPoolConnection ⊕ ℕ} (h : m.takeConnection pool seen = some (m', r)) :
    ∃ p, m.pools[pool]? = some p ∧ Mem.due p seen = true ∧
      ((∃ c p', p.takeConnection = some (c, p') ∧ r = .inl c ∧ m' = m.setPool pool p') ∨
        (p.takeConnection = none ∧ r = .inr p.signal.calls ∧ m' = m)) := by
  unfold Mem.takeConnection at h
  split at h
  · cases h
  · rename_i p hp
    refine ⟨p, hp, ?_⟩
    split at h
    · rename_i hd
      split at h
      · rename_i c p' ht
        simp only [Option.some.injEq, Prod.mk.injEq] at h
        exact ⟨hd, Or.inl ⟨c, p', ht, h.2.symm, h.1.symm⟩⟩
      · rename_i ht
        simp only [Option.some.injEq, Prod.mk.injEq] at h
        exact ⟨hd, Or.inr ⟨ht, h.2.symm, h.1.symm⟩⟩
    · cases h

theorem Op.step_move {m m' : Mem} {net : Net} {pc : Op} {n : Next Op}
    (h : pc.step m net = some (m', n)) : Task.Move m (.op pc) m'
      (match n with
        | .go pc' spawned => .go (.op pc') spawned
        | .panic => .go (.op .panicked) []) := by
  cases pc with
  | find =>
    simp only [Op.step] at h
    split at h
    · cases h; exact .findNone ‹_›
    · split at h <;> cases h
      · exact .find ‹_› ‹_›
      · exact .findLost ‹_› ‹_›
  | take server pool seen =>
    simp only [Op.step] at h
    split at h
    · rename_i ht
      cases h
      obtain ⟨p, hp, hd, ⟨c, p', ht, hr, rfl⟩ | ⟨-, hr, -⟩⟩ := Mem.takeConnection_cases ht
      · cases hr; exact .take hp hd ht
      · cases hr
    · rename_i ht
      cases h
      obtain ⟨p, hp, hd, ⟨c, p', -, hr, -⟩ | ⟨hn, hr, rfl⟩⟩ := Mem.takeConnection_cases ht
      · cases hr
      · cases hr; exact .wait hp hd hn
    · cases h
  | ldap server pool conn =>
    simp only [Op.step] at h
    split at h <;> cases h
    · exact .ldapFailed
    · exact .ldap
    · exact .ldapPanicked
  | fail server err => cases h; exact .fail
  | done res => cases h
  | panicked => cases h

theorem Check.step_move {m m' : Mem} {net : Net} {server : VkLdapServer} {pc : Check}
    {n : Next Check} (h : pc.step m net server = some (m', n)) : Task.Move m (.check server pc) m'
      (match n with
        | .go pc' spawned => .go (.check server pc') spawned
        | .panic => .panic) := by
  cases pc with
  | start =>
    simp only [Check.step] at h
    split at h
    · split at h <;> cases h
      · exact .checkFind ‹_› ‹_›
      · exact .checkLost ‹_› ‹_›
    · cases h
      exact .checkConnect (eq_false_of_ne_true ‹_›)
  | take pool seen =>
    simp only [Check.step] at h
    split at h
    · rename_i ht
      cases h
      obtain ⟨p, hp, hd, ⟨c, p', ht, hr, rfl⟩ | ⟨-, hr, -⟩⟩ := Mem.takeConnection_cases ht
      · cases hr; exact .checkTake hp hd ht
      · cases hr
    · rename_i ht
      cases h
      obtain ⟨p, hp, hd, ⟨c, p', -, hr, -⟩ | ⟨hn, hr, rfl⟩⟩ := Mem.takeConnection_cases ht
      · cases hr
      · cases hr; exact .checkWait hp hd hn
    · cases h
  | ping conn => cases h; exact .ping
  | giveBack conn res =>
    simp only [Check.step] at h
    split at h <;> cases h
    · exact .giveBack ‹_›
    · exact .giveBackLost ‹_›
  | put pool conn res =>
    simp only [Check.step] at h
    split at h <;> cases h
    exact .put ‹_›
  | report res asOf => cases h; exact .report
  | connect settings =>
    simp only [Check.step] at h
    split at h <;> cases h
    · exact .connected
    · exact .connectFailed
  | pingNew =>
    simp only [Check.step] at h
    split at h <;> cases h
    · exact .pinged
    · exact .pingFailed
  | reportConnect err => cases h; exact .reportConnect
  | refresh r =>
    cases r with
    | lookup =>
      simp only [Check.step, Refresh.step] at h
      split at h
      · rename_i hr; split at hr <;> cases hr; cases h; exact .refreshLookup ‹_›
      · rename_i hr; split at hr <;> cases hr
      · rename_i hr; split at hr <;> cases hr; cases h; exact .refreshLost ‹_›
      · cases h
    | reset pool settings =>
      simp only [Check.step, Refresh.step] at h
      split at h
      · rename_i hr; split at hr <;> cases hr; cases h; exact .refreshReset ‹_›
      · rename_i hr; split at hr <;> cases hr
      · rename_i hr; split at hr <;> cases hr
      · cases h
    | report res asOf => cases h; exact .refreshReport
  | done => cases h

/-- Every step of a task is one of the moves. -/
theorem Task.step_move {m m' : Mem} {net : Net} {t : Task} {n : Next Task}
    (h : t.step m net = some (m', n)) : t.Move m m' n := by
  cases t with
  | op pc =>
    simp only [Task.step] at h
    split at h <;> cases h <;> exact Op.step_move ‹_›
  | check server pc =>
    simp only [Task.step] at h
    split at h <;> cases h <;> exact Check.step_move ‹_›
  | ret pool conn =>
    simp only [Task.step] at h
    split at h <;> cases h
    exact .ret ‹_›
  | shutdown pools seen =>
    cases pools with
    | nil => cases h; exact .shutdownDone
    | cons pool pools =>
      simp only [Task.step] at h
      split at h
      · split at h
        · split at h <;> cases h
          · exact .shutdown ‹_› ‹_› ‹_›
          · exact .shutdownWait ‹_› ‹_› ‹_›
        · cases h
      · cases h
  | ended => cases h

inductive Main.Move (m : Mem) : Main → Mem → Main → List Task → Prop
  | clear {urls : List Url} : Move m (.clearing urls) { m with ctx := m.ctx.clearServerList.1 }
      (.adding urls) [.shutdown m.ctx.connPools none]
  | added : Move m (.adding []) m .idle []
  | add {url : Url} {urls : List Url} : Move m (.adding (url :: urls)) m
      (.opening (m.ctx.newServer url) m.ctx.connectionSettings urls) []
  | opened {server : VkLdapServer} {settings : VkConnectionSettings} {urls : List Url}
      {connect : ℕ → Result Unit} : Move m (.opening server settings urls) m
        (.listing (openServer m.pools.length server settings connect).1
          (openServer m.pools.length server settings connect).2 urls) []
  | openLost {server : VkLdapServer} {settings : VkConnectionSettings} {urls : List Url} :
      Move m (.opening server settings urls) m .hung []
  | list {server : VkLdapServer} {pool : Pool} {urls : List Url} :
      Move m (.listing server pool urls) (m.listServer server pool) (.adding urls) []
  | store {settings : VkConnectionSettings} : Move m (.storing settings)
      { m with ctx := m.ctx.refreshConnectionSettings settings } .reading []
  | read : Move m .reading m (.refreshNext m.ctx.servers) []
  | refreshLookup {server : VkLdapServer} {rest : List VkLdapServer} {pool : ℕ} :
      m.ctx.connPools[server.id]? = some pool → Move m (.refreshing server .lookup rest) m
        (.refreshing server (.reset pool m.ctx.connectionSettings) rest) []
  | refreshLost {server : VkLdapServer} {rest : List VkLdapServer} :
      m.ctx.connPools[server.id]? = none → Move m (.refreshing server .lookup rest) m .hung []
  | refreshReset {server : VkLdapServer} {rest : List VkLdapServer} {pool : ℕ}
      {settings : VkConnectionSettings} {connect : ℕ → Result Unit} {p : Pool} :
      m.pools[pool]? = some p → Move m (.refreshing server (.reset pool settings) rest)
        (m.setPool pool (p.refreshConnections settings connect).1)
        (.refreshing server (.report (p.refreshConnections settings connect).2
          (p.refreshConnections settings connect).1.queue.epoch) rest) []
  | refreshReport {server : VkLdapServer} {rest : List VkLdapServer} {res : Result Unit}
      {asOf : ℕ} : Move m (.refreshing server (.report res asOf) rest)
        (m.updateServerStatus server (statusOf res) none) (.refreshNext rest) []

/-- Every step of the main thread's task is one of the moves. -/
theorem Main.step_move {m m' : Mem} {net : Net} {main main' : Main} {spawned : List Task}
    (h : main.step m net = some (m', main', spawned)) : main.Move m m' main' spawned := by
  cases main with
  | idle => cases h
  | clearing urls => cases h; exact .clear
  | adding urls =>
    cases urls with
    | nil => cases h; exact .added
    | cons url urls => cases h; exact .add
  | opening server settings urls =>
    simp only [Main.step] at h
    split at h <;> cases h
    · exact .openLost
    · exact .opened
  | listing server pool urls => cases h; exact .list
  | storing settings => cases h; exact .store
  | reading => cases h; exact .read
  | refreshing server r rest =>
    cases r with
    | lookup =>
      simp only [Main.step, Refresh.step] at h
      split at h
      · rename_i hr; split at hr <;> cases hr; cases h; exact .refreshLookup ‹_›
      · rename_i hr; split at hr <;> cases hr
      · rename_i hr; split at hr <;> cases hr; cases h; exact .refreshLost ‹_›
      · cases h
    | reset pool settings =>
      simp only [Main.step, Refresh.step] at h
      split at h
      · rename_i hr; split at hr <;> cases hr; cases h; exact .refreshReset ‹_›
      · rename_i hr; split at hr <;> cases hr
      · rename_i hr; split at hr <;> cases hr
      · cases h
    | report res asOf => cases h; exact .refreshReport
  | hung => cases h

/-! ### The steps of the system -/

/-- A step of task `i` is a step of that task. -/
theorem State.step_task_step {s s' : State} {i : ℕ} {net : Net}
    (h : s.step (.task i net) = some s') :
    ∃ t m', s.tasks[i]? = some t ∧
      ((∃ t' spawned, t.step s.mem net = some (m', .go t' spawned) ∧
          s' = { s with mem := m', tasks := s.tasks.set i t' ++ spawned }) ∨
        (t.step s.mem net = some (m', .panic) ∧
          s' = { s with mem := m', tasks := s.tasks.filter (!·.isCheck), detector := .hung })) := by
  simp only [State.step] at h
  split at h
  · cases h
  · rename_i t ht
    split at h
    · rename_i m' t' spawned hs
      cases h
      exact ⟨t, m', ht, Or.inl ⟨t', spawned, hs, rfl⟩⟩
    · rename_i m' hs
      cases h
      exact ⟨t, m', ht, Or.inr ⟨hs, rfl⟩⟩
    · cases h

theorem State.step_task {s s' : State} {i : ℕ} {net : Net}
    (h : s.step (.task i net) = some s') :
    ∃ t m', s.tasks[i]? = some t ∧
      ((∃ t' spawned, t.Move s.mem m' (.go t' spawned) ∧
          s' = { s with mem := m', tasks := s.tasks.set i t' ++ spawned }) ∨
        (t.Move s.mem m' .panic ∧
          s' = { s with mem := m', tasks := s.tasks.filter (!·.isCheck), detector := .hung })) := by
  obtain ⟨t, m', ht, ⟨t', spawned, hs, rfl⟩ | ⟨hs, rfl⟩⟩ := State.step_task_step h
  · exact ⟨t, m', ht, Or.inl ⟨t', spawned, Task.step_move hs, rfl⟩⟩
  · exact ⟨t, m', ht, Or.inr ⟨Task.step_move hs, rfl⟩⟩

theorem State.step_main {s s' : State} {net : Net} (h : s.step (.main net) = some s') :
    ∃ m' main spawned, s.main.Move s.mem m' main spawned ∧
      s' = { s with mem := m', main, tasks := s.tasks ++ spawned } := by
  simp only [State.step] at h
  split at h
  · rename_i m' main spawned hs
    cases h
    exact ⟨m', main, spawned, Main.step_move hs, rfl⟩
  · cases h

/-- The other steps leave the memory; what they do to the tasks and to the two
threads. -/
inductive State.Other (s : State) : Act → State → Prop
  | submit : Other s .submit { s with tasks := s.tasks ++ [.op .find] }
  | setServers {urls : List Url} : s.main = .idle →
      Other s (.setServers urls) { s with main := .clearing urls }
  | setConnectionSettings {settings : VkConnectionSettings} : s.main = .idle →
      Other s (.setConnectionSettings settings) { s with main := .storing settings }
  | iterate : s.detector = .sleeping → Other s .iterate
      { s with tasks := s.tasks ++ s.mem.ctx.servers.map (.check · .start), detector := .waiting }
  | deliver : s.detector = .waiting → joined s.tasks = true → Other s .deliver
      { s with tasks := s.tasks.filter (!·.isCheck), detector := .sleeping }

theorem State.Other.mem_eq {s s' : State} {a : Act} (h : s.Other a s') : s'.mem = s.mem := by
  cases h <;> rfl

theorem State.step_other {s s' : State} {a : Act} (h : s.step a = some s')
    (ht : ∀ i net, a ≠ .task i net) (hm : ∀ net, a ≠ .main net) : s.Other a s' := by
  cases a with
  | task i net => exact absurd rfl (ht i net)
  | main net => exact absurd rfl (hm net)
  | submit => cases h; exact .submit
  | setServers urls =>
    simp only [State.step] at h
    split at h <;> cases h
    exact .setServers ‹_›
  | setConnectionSettings settings =>
    simp only [State.step] at h
    split at h <;> cases h
    exact .setConnectionSettings ‹_›
  | iterate =>
    simp only [State.step] at h
    split at h <;> cases h
    exact .iterate ‹_›
  | deliver =>
    simp only [State.step] at h
    split at h <;> cases h
    rename_i hd
    exact .deliver hd.1 hd.2

/-- Once the checks are joined, those left are done. -/
theorem joined_done {tasks : List Task} (h : joined tasks = true) {t : Task} (ht : t ∈ tasks)
    (hc : t.isCheck = true) : ∃ server, t = .check server .done := by
  have := List.all_eq_true.mp h t ht
  cases t with
  | check server pc => exact ⟨server, by simpa using this⟩
  | _ => cases hc

/-- A step is a task's, the main thread's, or one of the others. -/
theorem State.step_cases {s s' : State} {a : Act} (h : s.step a = some s') :
    (∃ i net, a = .task i net) ∨ (∃ net, a = .main net) ∨ s.Other a s' := by
  cases a with
  | task i net => exact Or.inl ⟨i, net, rfl⟩
  | main net => exact Or.inr (Or.inl ⟨net, rfl⟩)
  | _ => exact Or.inr (Or.inr (State.step_other h (fun _ _ h => by cases h)
      (fun _ h => by cases h)))

/-- **Task rule.** A property of every task is kept by a step if the memory it
leaves keeps it of the tasks that stay, and the moves and the two threads give
it to the tasks they make. -/
theorem State.forall_tasks_step {P : Mem → Task → Prop} {s s' : State} {a : Act}
    (h : s.step a = some s') (h0 : ∀ t ∈ s.tasks, P s.mem t)
    (keep : ∀ t ∈ s.tasks, P s.mem t → P s'.mem t)
    (move : ∀ i net t t' spawned, a = .task i net → s.tasks[i]? = some t →
      t.Move s.mem s'.mem (.go t' spawned) → P s'.mem t' ∧ ∀ u ∈ spawned, P s'.mem u)
    (main : ∀ net spawned, a = .main net → s.main.Move s.mem s'.mem s'.main spawned →
      ∀ u ∈ spawned, P s'.mem u)
    (submit : P s'.mem (.op .find))
    (iterate : ∀ e ∈ s.mem.ctx.servers, P s'.mem (.check e .start)) :
    ∀ t ∈ s'.tasks, P s'.mem t := by
  have hkeep : ∀ t ∈ s.tasks, P s'.mem t := fun t ht => keep t ht (h0 t ht)
  intro x hx
  rcases State.step_cases h with ⟨i, net, rfl⟩ | ⟨net, rfl⟩ | hother
  · obtain ⟨t, m', ht, ⟨t', spawned, hs, rfl⟩ | ⟨hs, rfl⟩⟩ := State.step_task h
    · obtain ⟨hgo, hspawned⟩ := move i net t t' spawned rfl ht hs
      rcases List.mem_append.mp hx with hx | hx
      · rcases List.mem_or_eq_of_mem_set hx with hx | rfl
        · exact hkeep x hx
        · exact hgo
      · exact hspawned x hx
    · exact hkeep x (List.mem_filter.mp hx).1
  · obtain ⟨m', main', spawned, hs, rfl⟩ := State.step_main h
    rcases List.mem_append.mp hx with hx | hx
    · exact hkeep x hx
    · exact main net spawned rfl hs x hx
  · cases hother with
    | submit =>
      rcases List.mem_append.mp hx with hx | hx
      · exact hkeep x hx
      · obtain rfl : x = .op .find := by simpa using hx
        exact submit
    | setServers => exact hkeep x hx
    | setConnectionSettings => exact hkeep x hx
    | iterate =>
      rcases List.mem_append.mp hx with hx | hx
      · exact hkeep x hx
      · obtain ⟨e, he, rfl⟩ := List.mem_map.mp hx
        exact iterate e he
    | deliver => exact hkeep x (List.mem_filter.mp hx).1

end System
end ValkeyLdap
