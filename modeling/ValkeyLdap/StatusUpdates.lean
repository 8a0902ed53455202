/-
# Whose status an update writes

Four places call `update_server_status`, each with a handle read earlier: an
operation after a connection error, a check after its ping or after a failed
connection, and `refresh_pool_connections`. `State.updates` names the call a
step makes; the step then writes the table as the call does
(`step_updates`), and no other step writes a status (`step_updates_none`).

The guard that should keep a late update from a server now at the handle's
position compares the entry with itself, so a status reaches a server it was
not observed on: `status_on_own_server` says exactly when it does not.
-/
import ValkeyLdap.Aligned

namespace ValkeyLdap
namespace System

open Runs

/-! ### The calls -/

/-- The arguments of a call to `update_server_status`. -/
structure Update where
  server : VkLdapServer
  status : VkLdapServerStatus
  pingTime : Option Duration
  deriving DecidableEq, Repr

def Update.apply (u : Update) (m : Mem) : Mem :=
  m.updateServerStatus u.server u.status u.pingTime

def Op.updates : Op → Option Update
  | .fail server err => some ⟨server, .unhealthy err.toString, none⟩
  | _ => none

def Refresh.updates (server : VkLdapServer) : Refresh → Option Update
  | .report res _ => some ⟨server, statusOf res, none⟩
  | _ => none

def Check.updates (server : VkLdapServer) : Check → Option Update
  | .report res _ => some ⟨server, statusOf res, res.toOption⟩
  | .reportConnect err => some ⟨server, .unhealthy err.toString, none⟩
  | .refresh r => r.updates server
  | _ => none

def Task.updates : Task → Option Update
  | .op pc => pc.updates
  | .check server pc => pc.updates server
  | _ => none

def Main.updates : Main → Option Update
  | .refreshing server r _ => r.updates server
  | _ => none

/-- The call that the step makes, if any. -/
def State.updates (s : State) : Act → Option Update
  | .task i _ => s.tasks[i]?.bind Task.updates
  | .main _ => s.main.updates
  | _ => none

theorem Task.Move.updates {m m' : Mem} {t : Task} {n : Next Task} (h : t.Move m m' n) :
    match t.updates with
    | some u => m' = u.apply m
    | none => m'.ctx = m.ctx := by
  cases h <;> rfl

theorem Main.Move.updates {m m' : Mem} {main main' : Main} {spawned : List Task}
    (h : main.Move m m' main' spawned) :
    match main.updates with
    | some u => m' = u.apply m
    | none => m'.ctx.servers = m.ctx.servers ∨ m'.ctx.servers = [] ∨
        ∃ server, m'.ctx.servers = m.ctx.servers ++ [server] := by
  cases h with
  | refreshReport => rfl
  | clear => exact Or.inr (Or.inl rfl)
  | @list server pool urls => exact Or.inr (Or.inr ⟨server, rfl⟩)
  | _ => exact Or.inl rfl

/-- The step writes the table as its call does. -/
theorem step_updates {s s' : State} {a : Act} {u : Update} (h : s.step a = some s')
    (hu : s.updates a = some u) : s'.mem = u.apply s.mem := by
  rcases State.step_cases h with ⟨i, net, rfl⟩ | ⟨net, rfl⟩ | hother
  · obtain ⟨t, m', ht, ⟨t', spawned, hs, rfl⟩ | ⟨hs, rfl⟩⟩ := State.step_task h <;>
    · simp only [State.updates, ht, Option.bind_some] at hu
      have := hs.updates
      rw [hu] at this
      exact this
  · obtain ⟨m', main, spawned, hs, rfl⟩ := State.step_main h
    have := hs.updates
    rw [show s.main.updates = some u from hu] at this
    exact this
  · cases hother <;> cases hu

/-- No other step writes a status: it leaves the table, empties it or adds an
entry at its end. -/
theorem step_updates_none {s s' : State} {a : Act} (h : s.step a = some s')
    (hu : s.updates a = none) :
    s'.mem.ctx.servers = s.mem.ctx.servers ∨ s'.mem.ctx.servers = [] ∨
      ∃ server, s'.mem.ctx.servers = s.mem.ctx.servers ++ [server] := by
  rcases State.step_cases h with ⟨i, net, rfl⟩ | ⟨net, rfl⟩ | hother
  · obtain ⟨t, m', ht, ⟨t', spawned, hs, rfl⟩ | ⟨hs, rfl⟩⟩ := State.step_task h <;>
    · simp only [State.updates, ht, Option.bind_some] at hu
      have := hs.updates
      rw [hu] at this
      exact Or.inl (congrArg (·.servers) this)
  · obtain ⟨m', main, spawned, hs, rfl⟩ := State.step_main h
    have := hs.updates
    rw [show s.main.updates = none from hu] at this
    exact this
  · cases hother <;> exact Or.inl rfl

/-! ### A status belongs to the server it was observed on -/

/-- The update the step makes changes the status or the ping time of an entry
only if the entry has the handle's URL, and nothing if the entry at the
handle's position has another. -/
def StatusOwn (s : State) (a : Act) : Prop :=
  ∀ u, s.updates a = some u → ∀ s', s.step a = some s' →
    (∀ (i : ℕ) (e e' : VkLdapServer), s.mem.ctx.servers[i]? = some e →
      s'.mem.ctx.servers[i]? = some e' → e'.status ≠ e.status ∨ e'.pingTime ≠ e.pingTime →
      e.url = u.server.url) ∧
    ((∀ e, s.mem.ctx.servers[u.server.id]? = some e → e.url ≠ u.server.url) →
      s'.mem.ctx.servers = s.mem.ctx.servers)

/-- The entry at the handle's position, if there is one, still has the
handle's URL, or already shows what is written. -/
def UpdateFits (s : State) (a : Act) : Prop :=
  ∀ u, s.updates a = some u → ∀ e, s.mem.ctx.servers[u.server.id]? = some e →
    e.url = u.server.url ∨ (e.status = u.status ∧ e.pingTime = u.pingTime)

theorem Update.apply_servers (u : Update) (m : Mem) : (u.apply m).ctx.servers =
    m.ctx.servers.modify u.server.id (VkLdapContext.written · u.status u.pingTime) := by
  unfold Update.apply Mem.updateServerStatus
  rw [VkLdapContext.updateServerStatus_eq]

/-- An entry that the update changes is the one at the handle's position. -/
theorem Update.apply_changes {u : Update} {m : Mem} {i : ℕ} {e e' : VkLdapServer}
    (he : m.ctx.servers[i]? = some e) (he' : (u.apply m).ctx.servers[i]? = some e') :
    (u.server.id = i ∧ e' = VkLdapContext.written e u.status u.pingTime) ∨
      (u.server.id ≠ i ∧ e' = e) := by
  rw [Update.apply_servers, List.getElem?_modify, he] at he'
  by_cases h : u.server.id = i
  · exact Or.inl ⟨h, by simpa [h] using he'.symm⟩
  · exact Or.inr ⟨h, by simpa [h] using he'.symm⟩

theorem statusOwn_of_fits {s : State} {a : Act} (h : UpdateFits s a) : StatusOwn s a := by
  intro u hu s' hs
  have hmem := step_updates hs hu
  refine ⟨fun i e e' he he' hne => ?_, fun hurl => ?_⟩
  · rw [hmem] at he'
    rcases Update.apply_changes he he' with ⟨rfl, rfl⟩ | ⟨-, rfl⟩
    · rcases h u hu e he with hfit | ⟨h1, h2⟩
      · exact hfit
      · exact (hne.elim (fun hn => hn h1.symm) fun hn => hn h2.symm).elim
    · exact (hne.elim (fun hn => hn rfl) fun hn => hn rfl).elim
  · rw [hmem, Update.apply_servers]
    refine List.ext_getElem? fun i => ?_
    rw [List.getElem?_modify]
    cases he : s.mem.ctx.servers[i]? with
    | none => rfl
    | some e =>
      by_cases hi : u.server.id = i
      · subst hi
        rcases h u hu e he with hfit | ⟨h1, h2⟩
        · exact absurd hfit (hurl e he)
        · simp [VkLdapContext.written, ← h1, ← h2]
      · simp [hi]

theorem fits_of_statusOwn {s s' : State} {a : Act} (hs : s.step a = some s')
    (h : StatusOwn s a) : UpdateFits s a := by
  intro u hu e he
  by_contra hno
  obtain ⟨hurl, hne⟩ := not_or.mp hno
  have he' : s'.mem.ctx.servers[u.server.id]? =
      some (VkLdapContext.written e u.status u.pingTime) := by
    rw [step_updates hs hu, Update.apply_servers, List.getElem?_modify, he]
    simp
  refine hurl ((h u hu s' hs).1 u.server.id e _ he he' ?_)
  by_contra hsame
  obtain ⟨h1, h2⟩ := not_or.mp hsame
  exact hne ⟨(not_not.mp h1).symm, (not_not.mp h2).symm⟩

/-- **A status belongs to the server it was observed on, exactly while the
list keeps the handle's position.** In every run, the updates change only
entries with the URL of their handle if and only if each finds, at its handle's
position, no entry, one with that URL, or one that already shows the status. -/
theorem status_on_own_server (ls : VkLdapSettings) (cs : VkConnectionSettings)
    (tr : List (State × Act)) (t : State)
    (h : Run State.step (State.init ls cs) tr t) :
    Steps StatusOwn tr ↔ Steps UpdateFits tr := by
  constructor
  · intro hown x hx
    obtain ⟨u, hu⟩ := h.enabled x hx
    exact fits_of_statusOwn hu (hown x hx)
  · intro hfits
    exact hfits.imp fun _ _ => statusOwn_of_fits

/-- An operation loses its connection to `ldap://a`; before it marks the
server, the list becomes `ldap://b`. -/
def lateUpdate : List Act :=
  [.setServers ["ldap://a"], .main {}, .main {}, .main {}, .main {}, .main {},
    .submit, .task 1 {}, .task 1 {},
    .task 1 { ldapOp := .returned (.error (.ldapConnectionError ⟨.other, "broken pipe"⟩)) },
    .setServers ["ldap://b"], .main {}, .main {}, .main {}, .main {}, .main {}]

theorem lateUpdate_exec : ∃ s,
    exec State.step (State.init {} { connectionPoolSize := 1 }) lateUpdate = some s ∧
      s.mem.ctx.servers = [.new "ldap://b" 0 .healthy] ∧
      s.tasks[1]? = some (.op (.fail (.new "ldap://a" 0 .healthy)
        (.ldapConnectionError ⟨.other, "broken pipe"⟩))) :=
  ⟨_, rfl, rfl, rfl⟩

/-- The late update marks `ldap://b` unhealthy. -/
theorem late_update_hits_new_server : ∃ tr t,
    Run State.step (State.init {} { connectionPoolSize := 1 }) tr t ∧ ¬ Steps StatusOwn tr := by
  obtain ⟨s, hs, hservers, htask⟩ := lateUpdate_exec
  have hstep : ∃ t, s.step (.task 1 {}) = some t := by
    simp only [State.step, htask, Task.step, Op.step]
    exact ⟨_, rfl⟩
  obtain ⟨t, ht⟩ := hstep
  refine ⟨_, t, (exec_run hs).snoc ht, fun h => ?_⟩
  have hown := (steps_snoc.mp h).2
  have hu : s.updates (.task 1 {}) = some ⟨.new "ldap://a" 0 .healthy,
      .unhealthy "LDAP connection failure: broken pipe", none⟩ := by
    simp only [State.updates, htask, Option.bind_some, Task.updates, Op.updates]
    rfl
  have := fits_of_statusOwn ht hown _ hu (.new "ldap://b" 0 .healthy) (by rw [hservers]; rfl)
  revert this
  decide

instance (s : State) (a : Act) : Decidable (UpdateFits s a) :=
  inferInstanceAs (Decidable (∀ u ∈ s.updates a, ∀ e ∈ s.mem.ctx.servers[u.server.id]?,
    e.url = u.server.url ∨ (e.status = u.status ∧ e.pingTime = u.pingTime)))

/-- A run in which the entry stays: the operation marks its own server. -/
theorem status_on_own_server_kept : ∃ tr t,
    Run State.step (State.init {} { connectionPoolSize := 1 }) tr t ∧
      tr.map Prod.snd = lateUpdate.take 10 ++ [.task 1 {}] ∧ Steps StatusOwn tr ∧
      t.mem.ctx.servers =
        [.new "ldap://a" 0 (.unhealthy "LDAP connection failure: broken pipe")] := by
  obtain ⟨t, ht, hservers, hfits⟩ : ∃ t,
      exec State.step (State.init {} { connectionPoolSize := 1 })
        (lateUpdate.take 10 ++ [.task 1 {}]) = some t ∧
      t.mem.ctx.servers =
        [.new "ldap://a" 0 (.unhealthy "LDAP connection failure: broken pipe")] ∧
      ∀ x ∈ trace State.step (State.init {} { connectionPoolSize := 1 })
        (lateUpdate.take 10 ++ [.task 1 {}]), UpdateFits x.1 x.2 :=
    ⟨_, rfl, rfl, by decide⟩
  have hr := exec_run ht
  exact ⟨_, t, hr, rfl, (status_on_own_server _ _ _ t hr).mpr hfits, hservers⟩

end System
end ValkeyLdap
