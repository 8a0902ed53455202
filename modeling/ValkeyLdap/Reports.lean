/-
# What an operator is told of the servers

`update_server_status` logs a line when it finds a server healthy that was not,
or the other way; `INFO` (`src/commands.rs`) shows the table. Both are read off
the table, the line under the lock that the status is written under.

`log_tells_health`: where no list names a URL twice, the lines tell at any time
which servers are healthy, and no two lines in a row say the same of a server.
`info_shows_table`: `INFO` never fails, and shows each server as it is in the
table, which lists the configured ones.

The builder of the `INFO` section is the module API's; it may refuse a key that
it has already, and Valkey a section that is written out. The host of a URL and
the text of a time are parameters, too.

Key theorems: `report_replays`, `log_tells_health`, `info_shows_table`.
-/
import Mathlib
import ValkeyLdap.Logging
import ValkeyLdap.Options
import ValkeyLdap.StatusUpdates

namespace ValkeyLdap

/-! ### The lines of the log -/

structure Transition where
  url : Url
  preStatus : VkLdapServerStatus
  status : VkLdapServerStatus
  deriving DecidableEq, Repr

theorem clean_line : Logging.clean "104" = true := rfl

/-- The line. -/
def Transition.record (t : Transition) : Logging.Record :=
  ⟨.info, Logging.contextSite "104" clean_line, "transition server " ++ t.url ++ " " ++
    Logging.statusToString t.preStatus ++ " -> " ++ Logging.statusToString t.status⟩

/-- What `update_server_status` logs. -/
def VkLdapContext.transition (ctx : VkLdapContext) (server : VkLdapServer)
    (status : VkLdapServerStatus) : Option Transition :=
  let i := server.id
  match ctx.servers[i]? with
  | none => none
  | some server =>
    if server.url ≠ server.url then none
    else if server.status.eq status then none
    else some ⟨server.url, server.status, status⟩

/-- It is what an operation logs when it marks a server. -/
theorem transitionRecords_eq (ctx : VkLdapContext) (server : VkLdapServer)
    (status : VkLdapServerStatus) : Logging.transitionRecords ctx server status =
      (ctx.transition server status).toList.map Transition.record := by
  unfold Logging.transitionRecords VkLdapContext.transition
  cases hentry : ctx.servers[server.id]? with
  | none => simp [hentry]
  | some entry => cases hsame : entry.status.eq status <;> simp [hentry, hsame, Transition.record]

namespace System
namespace Reports

open Runs

/-- What is told of the table: that it is cleared, that a server is listed, and
how it was opened; a line of the log. -/
inductive Report
  | cleared
  | listed (url : Url) (healthy : Bool)
  | transition (t : Transition)
  deriving DecidableEq, Repr

def Update.report (u : Update) (m : Mem) : Option Report :=
  (m.ctx.transition u.server u.status).map .transition

def Main.report (m : Mem) : Main → Option Report
  | .clearing _ => some .cleared
  | .listing server _ _ => some (.listed server.url server.isHealthy)
  | main => main.updates.bind (Update.report · m)

/-- What the step tells. -/
def report (s : State) : Act → Option Report
  | .main _ => Main.report s.mem s.main
  | a => (s.updates a).bind (Update.report · s.mem)

/-- Which servers are healthy, by URL. -/
def health (s : State) : List (Url × Bool) := s.mem.ctx.servers.map fun e => (e.url, e.isHealthy)

/-- A reader of the reports keeps a table of his own. -/
def replay (table : List (Url × Bool)) : Report → List (Url × Bool)
  | .cleared => []
  | .listed url healthy => table ++ [(url, healthy)]
  | .transition t => table.map fun e => if e.1 = t.url then (e.1, t.status.eq .healthy) else e

/-! ### No URL twice -/

/-- No list names a URL twice. -/
def DistinctUrls (_ : State) : Act → Prop
  | .setServers urls => urls.Nodup
  | _ => True

structure Distinct (s : State) : Prop where
  table : (s.mem.ctx.servers.map (·.url)).Nodup
  list : ∃ urls : List Url, urls.Nodup ∧ Options.Listed urls s.mem s.main

theorem distinct_init (ls : VkLdapSettings) (cs : VkConnectionSettings) :
    Distinct (State.init ls cs) :=
  ⟨List.nodup_nil, [], List.nodup_nil, rfl⟩

theorem nodup_of_listed {urls : List Url} {m : Mem} {main : Main}
    (h : Options.Listed urls m main) (hurls : urls.Nodup) (hmain : ∀ rest, main ≠ .clearing rest) :
    (m.ctx.servers.map (·.url)).Nodup := by
  have hsub : List.Sublist (m.ctx.servers.map (·.url)) urls := by
    cases main with
    | clearing rest => exact absurd rfl (hmain rest)
    | adding => exact h ▸ List.sublist_append_left _ _
    | opening => exact h ▸ List.sublist_append_left _ _
    | listing => exact h ▸ List.sublist_append_left _ _
    | hung => exact h.sublist
    | _ => exact h ▸ List.Sublist.refl _
  exact hurls.sublist hsub

theorem refreshNext_ne_clearing (rest : List VkLdapServer) (urls : List Url) :
    Main.refreshNext rest ≠ .clearing urls := by
  cases rest <;> exact nofun

theorem not_clearing_of_move {m m' : Mem} {main main' : Main} {spawned : List Task}
    (h : main.Move m m' main' spawned) (urls : List Url) : main' ≠ .clearing urls := by
  cases h with
  | read => exact refreshNext_ne_clearing _ _
  | refreshReport => exact refreshNext_ne_clearing _ _
  | _ => exact nofun

theorem distinct_step {s s' : State} {a : Act} (h : Distinct s) (ha : DistinctUrls s a)
    (hs : s.step a = some s') : Distinct s' := by
  obtain ⟨htable, urls, hurls, hlisted⟩ := h
  have htask {m' : Mem} {t : Task} {next : Next Task} (hmove : t.Move s.mem m' next) :
      (m'.ctx.servers.map (·.url)).Nodup ∧ Options.Listed urls m' s.main := by
    have hkept := Options.urls_of_shape hmove.shape
    exact ⟨by rw [hkept]; exact htable, hlisted.congr hkept⟩
  rcases State.step_cases hs with ⟨i, net, rfl⟩ | ⟨net, rfl⟩ | hother
  · obtain ⟨t, m', -, ⟨t', spawned, hmove, rfl⟩ | ⟨hmove, rfl⟩⟩ := State.step_task hs
    · exact ⟨(htask hmove).1, urls, hurls, (htask hmove).2⟩
    · exact ⟨(htask hmove).1, urls, hurls, (htask hmove).2⟩
  · obtain ⟨m', main, spawned, hmove, rfl⟩ := State.step_main hs
    have hlisted' := hlisted.move hmove
    exact ⟨nodup_of_listed hlisted' hurls (not_clearing_of_move hmove), urls, hurls, hlisted'⟩
  · cases hother with
    | setServers => exact ⟨htable, _, ha, rfl⟩
    | setConnectionSettings hidle =>
      rw [hidle] at hlisted
      exact ⟨htable, urls, hurls, hlisted⟩
    | _ => exact ⟨htable, urls, hurls, hlisted⟩

/-! ### Reports are the table's changes -/

theorem eq_healthy_of_eq {st st' : VkLdapServerStatus} (h : st.eq st' = true) :
    st.eq .healthy = st'.eq .healthy := by
  cases st <;> cases st' <;> simp_all [VkLdapServerStatus.eq]

theorem eq_healthy_of_ne {st st' : VkLdapServerStatus} (h : st.eq st' = false) :
    st'.eq .healthy = !st.eq .healthy := by
  cases st <;> cases st' <;> simp_all [VkLdapServerStatus.eq]

/-- The call logs what it changes in the table. -/
theorem report_update (u : Update) {m : Mem} (hdistinct : (m.ctx.servers.map (·.url)).Nodup) :
    (u.apply m).ctx.servers.map (fun e => (e.url, e.isHealthy)) =
      (Update.report u m).toList.foldl replay (m.ctx.servers.map fun e => (e.url, e.isHealthy)) := by
  rw [Update.apply_servers]
  cases he : m.ctx.servers[u.server.id]? with
  | none =>
    have hreport : Update.report u m = none := by
      simp only [Update.report, VkLdapContext.transition, he, Option.map_none]
    rw [hreport, List.modify_eq_self (List.getElem?_eq_none_iff.mp he)]
    rfl
  | some e =>
    cases hsame : e.status.eq u.status with
    | true =>
      have hreport : Update.report u m = none := by
        simp [Update.report, VkLdapContext.transition, he, hsame]
      rw [hreport, List.modify_eq_set_getElem?, he]
      exact map_set_eq _ he (Prod.ext rfl (eq_healthy_of_eq hsame).symm)
    | false =>
      have hreport : Update.report u m = some (.transition ⟨e.url, e.status, u.status⟩) := by
        simp [Update.report, VkLdapContext.transition, he, hsame]
      rw [hreport]
      refine List.ext_getElem? fun i => ?_
      simp only [Option.toList_some, List.foldl_cons, List.foldl_nil, replay, List.map_map,
        List.getElem?_map, List.getElem?_modify]
      cases hi : m.ctx.servers[i]? with
      | none => simp
      | some f =>
        by_cases hid : u.server.id = i
        · subst hid
          obtain rfl := Option.some.inj (he.symm.trans hi)
          simp [VkLdapContext.written, VkLdapServer.isHealthy]
        · -- another entry has another URL
          have hurl : f.url ≠ e.url := by
            intro heq
            have hlt := (List.getElem?_eq_some_iff.mp he).1
            have hget : (m.ctx.servers.map (·.url))[u.server.id]? = (m.ctx.servers.map (·.url))[i]? := by
              rw [List.getElem?_map, List.getElem?_map, he, hi, Option.map_some, Option.map_some, heq]
            exact hid ((List.getElem?_inj (by rwa [List.length_map]) hdistinct).mp hget)
          simp [hid, hurl]

/-- A step tells what it changes in the table. -/
theorem report_replays {s s' : State} {a : Act} (h : Distinct s) (hs : s.step a = some s') :
    health s' = (report s a).toList.foldl replay (health s) := by
  have hupdates {o : Option Update} {m' : Mem} (hsome : ∀ u, o = some u → m' = u.apply s.mem)
      (hnone : o = none → m'.ctx.servers = s.mem.ctx.servers) :
      m'.ctx.servers.map (fun e => (e.url, e.isHealthy)) =
        (o.bind (Update.report · s.mem)).toList.foldl replay (health s) := by
    cases o with
    | none => exact congrArg (List.map _) (hnone rfl)
    | some u =>
      rw [hsome u rfl]
      exact report_update u h.table
  rcases State.step_cases hs with ⟨i, net, rfl⟩ | ⟨net, rfl⟩ | hother
  · have htask {t : Task} {m' : Mem} {next : Next Task} (ht : s.tasks[i]? = some t)
        (hmove : t.Move s.mem m' next) : m'.ctx.servers.map (fun e => (e.url, e.isHealthy)) =
          (report s (.task i net)).toList.foldl replay (health s) := by
      have hupdate := hmove.updates
      simp only [report, State.updates, ht, Option.bind_some]
      refine hupdates (fun u hu => ?_) fun hu => ?_
      · rw [hu] at hupdate
        exact hupdate
      · rw [hu] at hupdate
        exact congrArg (·.servers) hupdate
    obtain ⟨t, m', ht, ⟨t', spawned, hmove, rfl⟩ | ⟨hmove, rfl⟩⟩ := State.step_task hs
    · exact htask ht hmove
    · exact htask ht hmove
  · obtain ⟨m', main, spawned, hmove, rfl⟩ := State.step_main hs
    show m'.ctx.servers.map (fun e => (e.url, e.isHealthy)) =
      (Main.report s.mem s.main).toList.foldl replay (health s)
    generalize s.main = main₀ at hmove
    cases hmove with
    | refreshReport =>
      exact hupdates (o := some _) (fun _ hu => (by cases hu; rfl)) fun hu => by cases hu
    | list => exact List.map_append
    | _ => rfl
  · cases hother <;> rfl

/-- What the reports so far have told. -/
def told (tr : List (State × Act)) : List (Url × Bool) := (events report tr).foldl replay []

/-- A line names a server with the status told last, and now the other. -/
def Turns (tr : List (State × Act)) (s : State) (a : Act) : Prop :=
  ∀ t, report s a = some (.transition t) →
    (t.url, t.preStatus.eq .healthy) ∈ told tr ∧ t.status.eq .healthy = !t.preStatus.eq .healthy

theorem update_turns {u : Update} {m : Mem} {t : Transition}
    (h : Update.report u m = some (.transition t)) :
    (t.url, t.preStatus.eq .healthy) ∈ m.ctx.servers.map (fun e => (e.url, e.isHealthy)) ∧
      t.status.eq .healthy = !t.preStatus.eq .healthy := by
  unfold Update.report VkLdapContext.transition at h
  simp only at h
  split at h
  · cases h
  · rename_i e he
    split at h
    · cases h
    · split at h
      · cases h
      · rename_i hne
        cases h
        exact ⟨List.mem_map.mpr ⟨e, List.mem_of_getElem? he, rfl⟩,
          eq_healthy_of_ne (Bool.eq_false_iff.mpr hne)⟩

theorem report_transition {s : State} {a : Act} {t : Transition}
    (h : report s a = some (.transition t)) :
    ∃ u, Update.report u s.mem = some (.transition t) := by
  have hbind {o : Option Update} (h : o.bind (Update.report · s.mem) = some (.transition t)) :
      ∃ u, Update.report u s.mem = some (.transition t) := by
    obtain ⟨u, -, hu⟩ := Option.bind_eq_some_iff.mp h
    exact ⟨u, hu⟩
  cases a with
  | main net =>
    simp only [report] at h
    generalize s.main = main at h
    cases main with
    | refreshing server r rest => exact hbind (o := (Main.refreshing server r rest).updates) h
    | _ => cases h
  | task i net => exact hbind (o := s.updates (.task i net)) h
  | _ => cases h

/-- The server an operation would go to. -/
theorem findServer_health (s : State) :
    s.mem.ctx.findServer.toOption.map (·.url) = ((health s).find? (·.2)).map (·.1) := by
  have hfind : (health s).find? (·.2) =
      (s.mem.ctx.servers.find? (·.isHealthy)).map fun e => (e.url, e.isHealthy) := by
    unfold health
    rw [List.find?_map]
    rfl
  rw [hfind, VkLdapContext.findServer]
  by_cases hempty : s.mem.ctx.servers.isEmpty = true
  · rw [if_pos hempty, List.isEmpty_iff.mp hempty]
    rfl
  · rw [if_neg hempty]
    cases s.mem.ctx.servers.find? (·.isHealthy) <;> rfl

/-- **The log tells which servers are healthy**, at any time of a run in which no
list names a URL twice, and so where the next operation goes. No two lines in a
row say the same of a server. -/
theorem log_tells_health (ls : VkLdapSettings) (cs : VkConnectionSettings)
    (tr : List (State × Act)) (s : State) (h : Run State.step (State.init ls cs) tr s)
    (hurls : Steps DistinctUrls tr) :
    health s = told tr ∧
      s.mem.ctx.findServer.toOption.map (·.url) = ((told tr).find? (·.2)).map (·.1) ∧
      StepsAfter Turns tr := by
  have hstep : ∀ t a u, Distinct t → DistinctUrls t a → t.step a = some u → Distinct u :=
    fun _ _ _ ht ha hs => distinct_step ht ha hs
  have htold {tr : List (State × Act)} {s : State} (h : Run State.step (State.init ls cs) tr s)
      (hurls : Steps DistinctUrls tr) : health s = told tr :=
    h.replay hurls (distinct_init ls cs) hstep fun _ _ _ ht _ hs => report_replays ht hs
  refine ⟨htold h hurls, by rw [← htold h hurls]; exact findServer_health s, ?_⟩
  induction h with
  | refl => exact stepsAfter_nil _
  | snoc h ha ih =>
    obtain ⟨hurls, -⟩ := steps_snoc.mp hurls
    refine stepsAfter_snoc.mpr ⟨ih hurls, fun t ht => ?_⟩
    obtain ⟨u, hu⟩ := report_transition ht
    rw [← htold h hurls]
    exact update_turns hu

/-- Two servers; an operation finds the first gone. -/
def firstIsGone : List Act :=
  [.setServers ["ldap://a", "ldap://b"], .main {}, .main {}, .main {}, .main {}, .main {}, .main {},
    .main {}, .main {}, .submit, .task 1 {}, .task 1 {},
    .task 1 { ldapOp := .returned (.error (.ldapConnectionError ⟨.other, "broken pipe"⟩)) }, .task 1 {}]

theorem log_tells_health_firstIsGone : ∃ tr s,
    Run State.step (State.init {} { connectionPoolSize := 1 }) tr s ∧
      health s = told tr ∧ told tr = [("ldap://a", false), ("ldap://b", true)] ∧
      s.mem.ctx.findServer.toOption.map (·.url) = some "ldap://b" := by
  obtain ⟨s, hs⟩ : ∃ s, exec State.step (State.init {} { connectionPoolSize := 1 }) firstIsGone =
    some s := ⟨_, rfl⟩
  have hurls : Steps DistinctUrls (trace State.step (State.init {} { connectionPoolSize := 1 })
      firstIsGone) := by
    intro x hx
    have ha : x.2 ∈ firstIsGone := mem_of_trace hx
    simp only [firstIsGone, List.mem_cons, List.not_mem_nil, or_false] at ha
    rcases ha with ha | ha | ha | ha | ha | ha | ha | ha | ha | ha | ha | ha | ha | ha
    all_goals
      rw [ha]
      first | trivial | exact (show ["ldap://a", "ldap://b"].Nodup by decide)
  obtain ⟨hhealth, hfind, -⟩ := log_tells_health _ _ _ s (exec_run hs) hurls
  exact ⟨_, s, exec_run hs, hhealth, rfl, hfind⟩

/-! ### `INFO` -/

/-- The keys of a dictionary with their texts. -/
abbrev Dict := List (String × String)

/-- The sections with their dictionaries, each under its name. -/
abbrev Info := List (String × List (String × Dict))

variable (host : Url → Option String) (msText : ℕ → String)
  (refuses : List String → String → Option String) (writes : Info → Option String)

/-- `get_host_string`; `host` is `Url::host`, with the text of the host. -/
def getHostString (server : VkLdapServer) : String := (host server.url).getD server.url

/-- One more key in a dictionary, dictionary in the section or section of the
`INFO`, where the builder does not refuse it. -/
def addField {β : Type} (fields : List (String × β)) (name : String) (value : β) :
    Except String (List (String × β)) :=
  match refuses (fields.map (·.1)) name with
  | some err => .error err
  | none => .ok (fields ++ [(name, value)])

/-- The dictionary of a server. A time is shown in milliseconds, to the
microsecond. -/
def serverDictionary (server : VkLdapServer) : Except String Dict := do
  let dict ← addField refuses [] "host" (getHostString host server)
  match server.status with
  | .healthy =>
    let dict ← addField refuses dict "status" "healthy"
    match server.pingTime with
    | some time => addField refuses dict "ping_time_ms" (msText (time / 1000))
    | none => pure dict
  | .unhealthy errMsg =>
    let dict ← addField refuses dict "status" "unhealthy"
    addField refuses dict "error" errMsg

/-- The loop of `add_ldap_status_section`. -/
def addServers (builder : List (String × Dict)) :
    List (VkLdapServer × ℕ) → Except String (List (String × Dict))
  | [] => .ok builder
  | (server, idx) :: servers => do
    let dict ← serverDictionary host msText refuses server
    let builder ← addField refuses builder ("server_" ++ idx.repr) dict
    addServers builder servers

/-- `build_info`, which writes the sections out. -/
def buildInfo (info : Info) : Except String Info :=
  match writes info with
  | some err => .error err
  | none => .ok info

/-- What is written, if nothing is refused. -/
def addLdapStatusSection (serversHealth : Result (List VkLdapServer)) : Except String Info :=
  match serversHealth with
  | .error _ =>
    .error "Failed to get the list of LDAP servers. Check the logs for more details"
  | .ok servers => do
    let dicts ← addServers host msText refuses [] servers.zipIdx
    let info ← addField refuses [] "status" dicts
    buildInfo writes info

/-- What `get_servers_health_status` is answered by the scheduler's task. -/
def getServersHealthStatus (s : State) : Result (List VkLdapServer) := .ok s.mem.ctx.servers

/-- The dictionary shows the server. -/
structure Shown (server : VkLdapServer) (dict : Dict) : Prop where
  host : dict.lookup "host" = some (getHostString host server)
  healthy : dict.lookup "status" = some "healthy" ↔ server.status = .healthy
  unhealthy : dict.lookup "status" = some "unhealthy" ↔ server.status ≠ .healthy
  error : ∀ msg : String, dict.lookup "error" = some msg ↔ server.status = .unhealthy msg
  ping : dict.lookup "ping_time_ms" = server.pingTime.map fun time => msText (time / 1000)

/-- A dictionary of the section, under the number of its server. -/
def Shows (x : VkLdapServer × ℕ) (d : String × Dict) : Prop :=
  d.1 = "server_" ++ x.2.repr ∧ Shown host msText x.1 d.2

/-- A server has a ping time only while it is healthy. -/
def PingOfHealthy (server : VkLdapServer) : Prop :=
  server.pingTime ≠ none → server.status = .healthy

section
variable (host : Url → Option String) (msText : ℕ → String)
  {refuses : List String → String → Option String}
  (hfresh : ∀ keys name, name ∉ keys → refuses keys name = none)
include hfresh

theorem addField_fresh {β : Type} {fields : List (String × β)} {name : String} (value : β)
    (h : name ∉ fields.map (·.1)) :
    addField refuses fields name value = .ok (fields ++ [(name, value)]) := by
  unfold addField
  rw [hfresh _ _ h]

theorem serverDictionary_shown {server : VkLdapServer} (h : PingOfHealthy server) :
    ∃ dict, serverDictionary host msText refuses server = .ok dict ∧
      Shown host msText server dict := by
  have hhost : addField refuses [] "host" (getHostString host server) =
      .ok [("host", getHostString host server)] := addField_fresh hfresh _ (by simp)
  have hstatus (status : String) :
      addField refuses [("host", getHostString host server)] "status" status =
        .ok [("host", getHostString host server), ("status", status)] :=
    addField_fresh hfresh _ (by simp)
  have hlast (status key value : String) (hkey : key ∉ ["host", "status"]) :
      addField refuses [("host", getHostString host server), ("status", status)] key value =
        .ok [("host", getHostString host server), ("status", status), (key, value)] :=
    addField_fresh hfresh _ hkey
  unfold serverDictionary
  rw [hhost]
  cases hs : server.status with
  | healthy =>
    cases hping : server.pingTime with
    | none =>
      refine ⟨[("host", getHostString host server), ("status", "healthy")], ?_, ?_⟩
      · simp only [bind, Except.bind, hstatus]
        rfl
      · constructor <;> simp [List.lookup, hs, hping]
    | some time =>
      refine ⟨[("host", getHostString host server), ("status", "healthy"),
        ("ping_time_ms", msText (time / 1000))], ?_, ?_⟩
      · simp only [bind, Except.bind, hstatus]
        exact hlast _ _ _ (by simp)
      · constructor <;> simp [List.lookup, hs, hping]
  | unhealthy errMsg =>
    have hping : server.pingTime = none := by
      by_contra hne
      rw [h hne] at hs
      cases hs
    refine ⟨[("host", getHostString host server), ("status", "unhealthy"), ("error", errMsg)],
      ?_, ?_⟩
    · simp only [bind, Except.bind, hstatus]
      exact hlast _ _ _ (by simp)
    · constructor <;> simp [List.lookup, hs, hping, eq_comm]

/-- The loop adds a dictionary for each server, under a number not yet used. -/
theorem addServers_shown : ∀ (servers : List VkLdapServer) (k : ℕ)
    (builder : List (String × Dict)),
    (∀ name ∈ builder.map (·.1), ∃ j < k, name = "server_" ++ j.repr) →
    (∀ server ∈ servers, PingOfHealthy server) →
    ∃ dicts, addServers host msText refuses builder (servers.zipIdx k) = .ok (builder ++ dicts) ∧
      List.Forall₂ (Shows host msText) (servers.zipIdx k) dicts
  | [], k, builder, _, _ => ⟨[], by rw [List.append_nil]; rfl, .nil⟩
  | server :: servers, k, builder, hkeys, hping => by
    obtain ⟨dict, hdict, hshown⟩ :=
      serverDictionary_shown host msText hfresh (hping server (by simp))
    have hnew : "server_" ++ k.repr ∉ builder.map (·.1) := by
      intro hmem
      obtain ⟨j, hj, hname⟩ := hkeys _ hmem
      have hrepr : k.repr = j.repr := by simpa [String.append_right_inj] using hname
      have := Nat.repr_inj.mp hrepr
      omega
    obtain ⟨dicts, hdicts, hall⟩ := addServers_shown servers (k + 1)
      (builder ++ [("server_" ++ k.repr, dict)])
      (fun name hmem => by
        rw [List.map_append, List.mem_append] at hmem
        rcases hmem with hmem | hmem
        · obtain ⟨j, hj, hname⟩ := hkeys name hmem
          exact ⟨j, by omega, hname⟩
        · exact ⟨k, by omega, by simpa using hmem⟩)
      fun s hs => hping s (by simp [hs])
    refine ⟨("server_" ++ k.repr, dict) :: dicts, ?_, .cons ⟨rfl, hshown⟩ hall⟩
    have hfield := addField_fresh hfresh dict hnew
    simp only [List.zipIdx_cons, addServers, hdict, bind, Except.bind, hfield, hdicts]
    simp

end

/-- The entries of the table, and the server about to be listed. -/
structure Pinged (s : State) : Prop where
  table : ∀ e ∈ s.mem.ctx.servers, PingOfHealthy e
  listing : match s.main with
    | .opening server _ _ => server.pingTime = none
    | .listing server _ _ => server.pingTime = none
    | _ => True

theorem pinged_update {u : Update} {m : Mem} (hu : u.pingTime ≠ none → u.status = .healthy)
    (h : ∀ e ∈ m.ctx.servers, PingOfHealthy e) : ∀ e ∈ (u.apply m).ctx.servers, PingOfHealthy e := by
  intro e he
  obtain ⟨i, hi⟩ := List.mem_iff_getElem?.mp he
  rw [Update.apply_servers, List.getElem?_modify] at hi
  obtain ⟨f, hf, rfl⟩ := Option.map_eq_some_iff.mp hi
  split
  · exact hu
  · exact h f (List.mem_of_getElem? hf)

/-- Only a ping that is answered has a time. -/
theorem ping_of_report {s : State} {a : Act} {u : Update} (h : s.updates a = some u) :
    u.pingTime ≠ none → u.status = .healthy := by
  have hrefresh {server : VkLdapServer} {r : Refresh} (h : r.updates server = some u) :
      u.pingTime = none := by
    cases r with
    | report => cases h; rfl
    | _ => cases h
  intro hne
  cases a with
  | task i net =>
    obtain ⟨t, -, ht⟩ := Option.bind_eq_some_iff.mp h
    cases t with
    | op pc =>
      cases pc with
      | fail => cases ht; exact absurd rfl hne
      | _ => cases ht
    | check server pc =>
      cases pc with
      | report res asOf =>
        cases ht
        cases res with
        | ok time => rfl
        | error err => exact absurd rfl hne
      | reportConnect => cases ht; exact absurd rfl hne
      | refresh r => exact absurd (hrefresh ht) hne
      | _ => cases ht
    | _ => cases ht
  | main net =>
    simp only [State.updates] at h
    generalize s.main = main at h
    cases main with
    | refreshing server r rest => exact absurd (hrefresh h) hne
    | _ => cases h
  | _ => cases h

theorem pinged_step {s s' : State} {a : Act} (h : Pinged s) (hs : s.step a = some s') :
    Pinged s' := by
  obtain ⟨htable, hlisting⟩ := h
  have hupdate {u : Update} (hu : s.updates a = some u) :
      ∀ e ∈ s'.mem.ctx.servers, PingOfHealthy e := by
    rw [step_updates hs hu]
    exact pinged_update (ping_of_report hu) htable
  rcases State.step_cases hs with ⟨i, net, rfl⟩ | ⟨net, rfl⟩ | hother
  · have htask {t : Task} {m' : Mem} {next : Next Task} (ht : s.tasks[i]? = some t)
        (hmove : t.Move s.mem m' next) (hmem : s'.mem = m') :
        ∀ e ∈ m'.ctx.servers, PingOfHealthy e := by
      have hkept := hmove.updates
      cases hu : t.updates with
      | some u =>
        have hu' : s.updates (.task i net) = some u := by
          simp only [State.updates, ht, Option.bind_some, hu]
        exact hmem ▸ hupdate hu'
      | none =>
        rw [hu] at hkept
        rw [show m'.ctx = s.mem.ctx from hkept]
        exact htable
    obtain ⟨t, m', ht, ⟨t', spawned, hmove, rfl⟩ | ⟨hmove, rfl⟩⟩ := State.step_task hs
    · exact ⟨htask ht hmove rfl, hlisting⟩
    · exact ⟨htask ht hmove rfl, hlisting⟩
  · obtain ⟨m', main, spawned, hmove, rfl⟩ := State.step_main hs
    generalize hmain : s.main = main₀ at hmove hlisting
    cases hmove with
    | clear => exact ⟨fun _ he => absurd he List.not_mem_nil, trivial⟩
    | add => exact ⟨htable, rfl⟩
    | @opened server settings urls connect =>
      refine ⟨htable, ?_⟩
      show (openServer _ server settings connect).1.pingTime = none
      unfold openServer
      split <;> exact hlisting
    | @list server pool urls =>
      refine ⟨fun e he => ?_, trivial⟩
      rcases List.mem_append.mp he with he | he
      · exact htable e he
      · obtain rfl := List.mem_singleton.mp he
        exact fun hne => absurd hlisting hne
    | read =>
      refine ⟨htable, ?_⟩
      cases s.mem.ctx.servers <;> trivial
    | @refreshReport server rest res asOf =>
      refine ⟨hupdate (u := ⟨server, statusOf res, none⟩) ?_, ?_⟩
      · simp only [State.updates, hmain]
        rfl
      · cases rest <;> trivial
    | _ => exact ⟨htable, trivial⟩
  · cases hother with
    | setServers => exact ⟨htable, trivial⟩
    | setConnectionSettings => exact ⟨htable, trivial⟩
    | _ => exact ⟨htable, hlisting⟩

section
variable {parse : String → Except String Url} {regex : String → Except String (String → Bool)}

theorem pinged_start {o : ValkeyLdap.Options} {cache : Option (String → Bool)}
    (h : Options.Accepted parse regex o cache) (ls : VkLdapSettings) (cs : VkConnectionSettings) :
    Pinged (Options.World.start parse o cache ls cs).sys := by
  obtain ⟨urls, -, hcall⟩ := ServerList.call_valid h.servers (State.init ls cs)
  unfold Options.World.start
  rw [hcall]
  exact ⟨fun _ he => absurd he List.not_mem_nil, trivial⟩

theorem pinged_world {w w' : Options.World} {a : Options.Act} (h : Pinged w.sys)
    (hs : w.step parse regex a = some w') : Pinged w'.sys := by
  rcases Options.World.step_sys hs with hsys | ⟨b, hsys⟩ | ⟨settings, hsys⟩
  · rw [hsys]
    exact h
  · exact pinged_step h hsys
  · rw [hsys]
    exact ⟨h.table, h.listing⟩

theorem map_of_forall₂ {α β γ : Type} {R : α → β → Prop} {f : α → γ} {g : β → γ}
    (hR : ∀ a b, R a b → g b = f a) {l : List α} {l' : List β} (h : List.Forall₂ R l l') :
    l'.map g = l.map f := by
  induction h with
  | nil => rfl
  | cons hab _ ih => rw [List.map_cons, List.map_cons, hR _ _ hab, ih]

end

/-- **`INFO` shows the table**: it does not fail, and shows under its number each
server as it is. Between two `CONFIG SET`s these are the configured ones. All
this whatever settings the load has left in the context. -/
theorem info_shows_table (hfresh : ∀ keys name, name ∉ keys → refuses keys name = none)
    (hwrites : ∀ info, writes info = none)
    (parse : String → Except String Url) (regex : String → Except String (String → Bool))
    (o : ValkeyLdap.Options) (cache : Option (String → Bool))
    (h : Options.Accepted parse regex o cache) (ls : VkLdapSettings) (cs : VkConnectionSettings)
    (tr : List (Options.World × Options.Act)) (w : Options.World)
    (hrun : Run (Options.World.step parse regex) (Options.World.start parse o cache ls cs) tr w) :
    ∃ dicts, addLdapStatusSection host msText refuses writes (getServersHealthStatus w.sys) =
        .ok [("status", dicts)] ∧
      List.Forall₂ (Shows host msText) w.ctx.servers.zipIdx dicts ∧
      (w.Idle → ∃ urls, ServerList.Parsed parse (w.options.getString .servers) urls ∧
        dicts.map (fun d => d.2.lookup "host") = urls.map fun url => some ((host url).getD url)) := by
  have hpinged : Pinged w.sys := hrun.invariant (I := fun w => Pinged w.sys) steps_true
    (pinged_start h ls cs) fun _ _ _ hw _ hs => pinged_world hw hs
  have hinv := hrun.invariant steps_true (Options.inv_start h) fun _ _ _ hw _ hs =>
    Options.inv_step hw hs
  obtain ⟨dicts, hdicts, hshown⟩ := addServers_shown host msText hfresh
    w.ctx.servers 0 [] (by simp) hpinged.table
  refine ⟨dicts, ?_, hshown, fun hidle => ⟨_, hinv.listed hidle, ?_⟩⟩
  · have hdicts : addServers host msText refuses [] w.sys.mem.ctx.servers.zipIdx = .ok dicts := hdicts
    have hsection : addField refuses [] "status" dicts = .ok [("status", dicts)] :=
      addField_fresh hfresh dicts (by simp)
    simp only [getServersHealthStatus, addLdapStatusSection, bind, Except.bind, hdicts, hsection,
      buildInfo, hwrites]
  have hhosts := map_of_forall₂ (f := fun x : VkLdapServer × ℕ => some (getHostString host x.1))
    (g := fun d : String × Dict => d.2.lookup "host") (fun _ _ hx => hx.2.host) hshown
  calc dicts.map (fun d => d.2.lookup "host")
      = (w.ctx.servers.zipIdx.map Prod.fst).map (fun e => some (getHostString host e)) := by
        rw [hhosts, List.map_map]
        rfl
    _ = (w.ctx.servers.map (·.url)).map (fun url => some ((host url).getD url)) := by
        rw [List.zipIdx_map_fst, List.map_map]
        rfl

/-- A server that answers its first ping. -/
def onePing : List Options.Act :=
  [.sys (.main {}), .sys (.main {}),
    .set (.string .servers ⟨Utf8.encode "ldap://a".toList⟩) false, .sys (.main {}), .sys (.main {}),
    .sys (.main {}), .sys (.main {}), .sys (.main {}), .sys .iterate, .sys (.task 2 {}),
    .sys (.task 2 {}), .sys (.task 2 { ping := .ok 1500000 }), .sys (.task 2 {}), .sys (.task 2 {}),
    .sys (.task 2 {})]

theorem info_shows_table_onePing : ∃ (w : Options.World) (dict : Dict),
    exec (Options.World.step ServerList.urlParse fun _ => .error "no pattern")
      (Options.World.start ServerList.urlParse .default none {} { connectionPoolSize := 1 })
      onePing = some w ∧
      addLdapStatusSection (fun _ => none) Nat.repr (fun _ _ => none) (fun _ => none)
        (getServersHealthStatus w.sys) = .ok [("status", [("server_0", dict)])] ∧
      dict.lookup "ping_time_ms" = some "1500" := by
  have hexec : ∃ (w : Options.World) (server : VkLdapServer),
      exec (Options.World.step ServerList.urlParse fun _ => .error "no pattern")
        (Options.World.start ServerList.urlParse .default none {} { connectionPoolSize := 1 })
        onePing = some w ∧
      w.ctx.servers = [server] ∧ server.pingTime = some 1500000 := ⟨_, _, rfl, rfl, rfl⟩
  obtain ⟨w, server, hw, hservers, hping⟩ := hexec
  obtain ⟨dicts, hdicts, hshown, -⟩ := info_shows_table (fun _ => none) Nat.repr (fun _ _ => none)
    (fun _ => none) (fun _ _ _ => rfl) (fun _ => rfl) ServerList.urlParse
    (fun _ => .error "no pattern") .default none (Options.accepted_default _ _) _ _ _ w (exec_run hw)
  rw [hservers] at hshown
  obtain ⟨⟨name, dict⟩, rest, ⟨hname, hdict⟩, hnil, rfl⟩ := List.forall₂_cons_left_iff.mp hshown
  obtain rfl := List.forall₂_nil_left_iff.mp hnil
  obtain rfl : name = "server_0" := hname.trans (show "server_" ++ Nat.repr 0 = "server_0" by decide)
  refine ⟨w, dict, hw, hdicts, ?_⟩
  rw [hdict.ping, hping]
  rfl

end Reports
end System
end ValkeyLdap
