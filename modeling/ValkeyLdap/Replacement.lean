/-
# Replacing the server list

`process_server_list` clears the table and then adds the servers one by one,
each after opening its connections with the context unlocked. An operation
that looks for a server in between sees the table empty or a part of the new
list. `list_seen_whole` says when every operation sees one of the two lists as
a whole: never between the clearing and the last adding, unless a server added
by then is healthy.

Key theorems: `ldapGroupRules_fails`, `whole_step`, `list_seen_whole`.
-/
import ValkeyLdap.Lookups
import ValkeyLdap.UserSearch

namespace ValkeyLdap

open Session

variable {σ : Type}

/-! ### The errors of an operation -/

/-- The error does not say that the table has no server. -/
def VkLdapError.NotOfTable (e : VkLdapError) : Prop :=
  e ≠ .noServerConfigured ∧ e ≠ .noHealthyServerAvailable

theorem fails_awaitLdap {α : Type} (expr : σ → Except LdapError α × σ)
    {errtype : LdapError → VkLdapError} (h : ∀ err, (errtype err).NotOfTable) :
    Fails VkLdapError.NotOfTable (awaitLdap expr errtype) := by
  intro s e t hrun
  obtain ⟨err, rfl | rfl⟩ := UserSearch.error_awaitLdap hrun
  · exact ⟨nofun, nofun⟩
  · exact h err

theorem fails_adminBind (ldapHandler : LdapHandler σ) (settings : VkLdapSettings) :
    Fails VkLdapError.NotOfTable (VkLdapConnection.adminBind ldapHandler settings) := by
  unfold VkLdapConnection.adminBind
  split
  · split
    · exact fails_awaitLdap _ fun _ => ⟨nofun, nofun⟩
    · exact fails_pure _ _
  · exact fails_pure _ _

theorem fails_entryDn (settings : VkLdapSettings) (sentry : SearchEntry) :
    Fails VkLdapError.NotOfTable (UserSearch.entryDn settings sentry : LdapM σ String) := by
  intro s e t h
  unfold UserSearch.entryDn at h
  split at h
  · obtain rfl := Except.error.inj (Prod.mk.inj (Option.some.inj h)).1
    exact ⟨nofun, nofun⟩
  · cases h
  · cases h

theorem fails_foundDn (settings : VkLdapSettings) (username : String) (rs : List ResultEntry) :
    Fails VkLdapError.NotOfTable (UserSearch.foundDn settings username rs : LdapM σ String) := by
  unfold UserSearch.foundDn
  split
  · intro s e t h
    obtain rfl := Except.error.inj (Prod.mk.inj (Option.some.inj h)).1
    exact ⟨nofun, nofun⟩
  · exact (SearchEntry.fails_construct _ _).bind fun sentry => fails_entryDn settings sentry
  · intro s e t h
    obtain rfl := Except.error.inj (Prod.mk.inj (Option.some.inj h)).1
    exact ⟨nofun, nofun⟩

/-- **An operation on a connection says nothing about the table.** -/
theorem ldapGroupRules_fails (ldapEscape : String → String) (settings : VkLdapSettings)
    (username password : String) (mode : LdapAuthMode) (ldapHandler : LdapHandler σ) :
    Fails VkLdapError.NotOfTable
      (ldapGroupRules ldapEscape settings username password mode ldapHandler) := by
  have hsearch : ∀ r, Fails VkLdapError.NotOfTable
      (awaitLdap (ldapHandler.search r) .ldapSearchError) :=
    fun _ => fails_awaitLdap _ fun _ => ⟨nofun, nofun⟩
  have hdn : Fails VkLdapError.NotOfTable (userDn mode settings username ldapHandler) := by
    cases mode with
    | bind => exact fails_pure _ _
    | searchAndBind =>
      show Fails _ (VkLdapConnection.search ldapHandler settings username)
      rw [UserSearch.search_eq]
      exact (fails_adminBind ldapHandler settings).bind fun _ => (hsearch _).bind fun rs =>
        fails_foundDn settings username rs
  have hbind : ∀ dn, Fails VkLdapError.NotOfTable (VkLdapConnection.bind ldapHandler dn password) :=
    fun _ => fails_awaitLdap _ fun _ => ⟨nofun, nofun⟩
  have hrules : ∀ dn, Fails VkLdapError.NotOfTable
      (VkLdapConnection.searchGroupsRules ldapHandler settings ldapEscape dn) := fun _ =>
    ((fails_adminBind ldapHandler settings).bind fun _ => fails_pure _ _).bind fun _ =>
      (hsearch _).bind fun rs => (SearchEntry.fails_constructEach _ rs).bind fun _ => fails_pure _ _
  rw [ldapGroupRules_eq]
  exact hdn.bind fun dn => (hbind dn).bind fun _ => hrules dn

namespace System
namespace Replacement

open Runs

/-! ### What an operation sees -/

/-- What the network answers to an operation is what one of the code's
operations comes to, in some session. -/
def FromOperation (net : Net) : Prop :=
  ∃ (σ : Type) (ldapEscape : String → String) (settings : VkLdapSettings)
    (username password : String) (mode : LdapAuthMode) (ldapHandler : LdapHandler σ) (s : σ),
    net.ldapOp = UserSearch.outcome
      (run (ldapGroupRules ldapEscape settings username password mode ldapHandler) s)

/-- The lists set are not empty, and the operations are those of the code. -/
def Replaces (s : State) : Act → Prop
  | .setServers urls => urls ≠ []
  | .task i net => ∀ server pool conn,
      s.tasks[i]? = some (.op (.ldap server pool conn)) → FromOperation net
  | _ => True

/-- The step ends operation `i` with this error. -/
def EndsWith (s : State) (i : ℕ) (net : Net) (err : VkLdapError) : Prop :=
  ∃ pc m spawned, s.tasks[i]? = some (.op pc) ∧
    pc.step s.mem net = some (m, .go (.done (.error err)) spawned)

/-- The table is cleared for these URLs. -/
def cleared (s : State) : Act → Option (List Url)
  | .main _ =>
    match s.main with
    | .clearing urls => some urls
    | _ => none
  | _ => none

/-- The list in force: the one the table was last cleared for, or the first. -/
def inForce (urls : List Url) (tr : List (State × Act)) : List Url :=
  (events cleared tr).getLast?.getD urls

/-- An operation never ends because no server is configured, and because none
is healthy only if the table is the whole of the list in force and all of it
is unhealthy. -/
def SeesWhole (urls : List Url) (tr : List (State × Act)) (s : State) (a : Act) : Prop :=
  ∀ i net err, a = .task i net → EndsWith s i net err →
    err ≠ .noServerConfigured ∧ (err = .noHealthyServerAvailable →
      s.mem.ctx.servers.map (·.url) = inForce urls tr ∧
        ∀ server ∈ s.mem.ctx.servers, server.isHealthy = false)

/-- The URLs that the table lacks while it is filled. -/
def missing : Main → List Url
  | .adding urls => urls
  | .opening server _ urls => server.url :: urls
  | .listing server _ urls => server.url :: urls
  | _ => []

/-- The main thread is not filling the table, nor lost in that. -/
def Filled (main : Main) : Prop := missing main = [] ∧ main ≠ .hung

/-- An operation that looks for a server finds the table filled, or a healthy
server in what is there. -/
def NotInGap (s : State) : Act → Prop
  | .task i _ => s.tasks[i]? = some (.op .find) →
      Filled s.main ∨ ∃ server ∈ s.mem.ctx.servers, server.isHealthy = true
  | _ => True

/-! ### The table and the list in force -/

/-- The table and what it lacks are the list in force, which is not empty; a
main thread that is lost leaves a part of it out. -/
structure Whole (urls : List Url) (tr : List (State × Act)) (s : State) : Prop where
  linked : s.Linked
  table : ∃ rest, s.mem.ctx.servers.map (·.url) ++ rest = inForce urls tr ∧
    (s.main ≠ .hung → rest = missing s.main) ∧ (s.main = .hung → rest ≠ [])
  nonempty : inForce urls tr ≠ []
  next : ∀ urls, s.main = .clearing urls → urls ≠ []

theorem inForce_snoc (urls : List Url) (tr : List (State × Act)) (s : State) (a : Act) :
    inForce urls (tr ++ [(s, a)]) = (cleared s a).getD (inForce urls tr) := by
  unfold inForce
  rw [events_snoc]
  cases cleared s a with
  | none => simp
  | some urls' => simp

theorem urls_of_keys {servers servers' : List VkLdapServer}
    (h : servers'.map serverKey = servers.map serverKey) :
    servers'.map (·.url) = servers.map (·.url) := by
  have hurls := congrArg (List.map Prod.fst) h
  rwa [List.map_map, List.map_map] at hurls

/-- Where the list in force, the table's URLs and what is missing stay. -/
theorem Whole.keep {urls : List Url} {tr : List (State × Act)} {s s' : State} {a : Act}
    (h : Whole urls tr s) (hlinked : s'.Linked) (hcleared : cleared s a = none)
    (hurls : s'.mem.ctx.servers.map (·.url) = s.mem.ctx.servers.map (·.url))
    (hmain : missing s'.main = missing s.main) (hlost : s'.main = .hung ↔ s.main = .hung)
    (hnext : ∀ urls, s'.main = .clearing urls → urls ≠ []) : Whole urls (tr ++ [(s, a)]) s' := by
  have hforce : inForce urls (tr ++ [(s, a)]) = inForce urls tr := by
    rw [inForce_snoc, hcleared, Option.getD_none]
  obtain ⟨rest, htable, hgoes, hhung⟩ := h.table
  refine ⟨hlinked, ⟨rest, by rw [hurls, hforce, htable], fun hne => ?_, fun he => hhung (hlost.mp he)⟩,
    by rw [hforce]; exact h.nonempty, hnext⟩
  rw [hmain, hgoes fun he => hne (hlost.mpr he)]

theorem missing_refreshNext (rest : List VkLdapServer) : missing (.refreshNext rest) = [] := by
  cases rest <;> rfl

theorem refreshNext_ne_clearing (rest : List VkLdapServer) (urls : List Url) :
    Main.refreshNext rest ≠ .clearing urls := by
  intro he
  cases rest <;> cases he

theorem refreshNext_ne_hung (rest : List VkLdapServer) : Main.refreshNext rest ≠ .hung := by
  intro he
  cases rest <;> cases he

/-- A step of the main thread: it clears the table, moves a URL from what is
missing to the table, is lost with something missing, or leaves both. -/
theorem whole_main {urls : List Url} {tr : List (State × Act)} {s : State} {net : Net} {m' : Mem}
    {main' : Main} {spawned tasks : List Task} (h : Whole urls tr s)
    (hlinked : State.Linked { s with mem := m', main := main', tasks })
    (hmove : s.main.Move s.mem m' main' spawned) :
    Whole urls (tr ++ [(s, .main net)]) { s with mem := m', main := main', tasks } := by
  have hgoing : s.main ≠ .hung := by
    intro he
    rw [he] at hmove
    cases hmove
  have hkeep : cleared s (.main net) = none →
      m'.ctx.servers.map (·.url) = s.mem.ctx.servers.map (·.url) → missing main' = missing s.main →
      main' ≠ .hung → (∀ urls, main' ≠ .clearing urls) →
      Whole urls (tr ++ [(s, .main net)]) { s with mem := m', main := main', tasks } :=
    fun hcleared hurls hmain hne hnext => h.keep hlinked hcleared hurls hmain
      (iff_of_false hne hgoing) fun urls he => absurd he (hnext urls)
  obtain ⟨rest, htable, hrest, -⟩ := h.table
  obtain rfl := hrest hgoing
  have hmain := h.linked.main
  have hlen := h.linked.aligned.1.length
  generalize hm : s.main = main at hmove hkeep htable hmain
  have hcleared : (∀ urls, main ≠ .clearing urls) → cleared s (.main net) = none := by
    intro hne
    unfold cleared
    rw [hm]
    cases main with
    | clearing urls => exact absurd rfl (hne urls)
    | _ => rfl
  have hforce (hne : ∀ urls, main ≠ .clearing urls) :
      inForce urls (tr ++ [(s, .main net)]) = inForce urls tr := by
    rw [inForce_snoc, hcleared hne, Option.getD_none]
  cases hmove with
  | clear =>
    rename_i urls'
    have hforce : inForce urls (tr ++ [(s, .main net)]) = urls' := by
      rw [inForce_snoc]
      unfold cleared
      rw [hm]
      rfl
    exact ⟨hlinked, ⟨urls', hforce.symm, fun _ => rfl, by simp⟩,
      by rw [hforce]; exact h.next urls' hm, by simp⟩
  | added => exact hkeep (hcleared (by simp)) rfl rfl (by simp) (by simp)
  | add => exact hkeep (hcleared (by simp)) rfl rfl (by simp) (by simp)
  | opened =>
    rename_i server settings rest connect
    obtain ⟨-, hurl, -⟩ := openServer_key s.mem.pools.length server settings connect
    refine hkeep (hcleared (by simp)) rfl ?_ (by simp) (by simp)
    rw [missing, missing, hurl]
  | openLost =>
    rename_i server settings rest
    exact ⟨hlinked, ⟨server.url :: rest, by rw [hforce (by simp)]; exact htable, fun hne => absurd rfl hne,
      fun _ => List.cons_ne_nil _ _⟩, by rw [hforce (by simp)]; exact h.nonempty,
      by simp⟩
  | list =>
    rename_i server pool rest
    refine ⟨hlinked, ⟨rest, ?_, fun _ => rfl, by simp⟩, by rw [hforce (by simp)]; exact h.nonempty,
      by simp⟩
    rw [hforce (by simp), ← htable]
    simp [Mem.listServer, VkLdapContext.addServer, missing]
  | store => exact hkeep (hcleared (by simp)) rfl rfl (by simp) (by simp)
  | read =>
    exact hkeep (hcleared (by simp)) rfl (missing_refreshNext _) (refreshNext_ne_hung _)
      (refreshNext_ne_clearing _)
  | refreshLookup => exact hkeep (hcleared (by simp)) rfl rfl (by simp) (by simp)
  | refreshLost hn =>
    -- the main thread refreshes servers of its own list
    have hlt := hmain.2 _ List.mem_cons_self
    rw [← hlen] at hlt
    exact absurd hn (getElem?_ne_none hlt)
  | refreshReset => exact hkeep (hcleared (by simp)) rfl rfl (by simp) (by simp)
  | refreshReport =>
    have hshape := Mem.SameShape.updateServerStatus s.mem
    exact hkeep (hcleared (by simp)) (urls_of_keys (hshape _ _ _).servers) (missing_refreshNext _)
      (refreshNext_ne_hung _) (refreshNext_ne_clearing _)

theorem whole_step {urls : List Url} {tr : List (State × Act)} {s s' : State} {a : Act}
    (h : Whole urls tr s) (hok : Replaces s a) (hs : s.step a = some s') :
    Whole urls (tr ++ [(s, a)]) s' := by
  have hlinked := linked_step h.linked hs
  rcases State.step_cases hs with ⟨i, net, rfl⟩ | ⟨net, rfl⟩ | hother
  · obtain ⟨t, m', -, ⟨t', spawned, ht, rfl⟩ | ⟨ht, rfl⟩⟩ := State.step_task hs
    · exact h.keep hlinked rfl (urls_of_keys ht.shape.servers) rfl Iff.rfl h.next
    · exact h.keep hlinked rfl (urls_of_keys ht.shape.servers) rfl Iff.rfl h.next
  · obtain ⟨m', main', spawned, hmove, rfl⟩ := State.step_main hs
    exact whole_main h hlinked hmove
  · cases hother with
    | submit => exact h.keep hlinked rfl rfl rfl Iff.rfl h.next
    | setServers hidle =>
      refine h.keep hlinked rfl rfl (by rw [hidle]; rfl) (by rw [hidle]; exact ⟨nofun, nofun⟩)
        fun urls he => ?_
      obtain rfl := Main.clearing.inj he
      exact hok
    | setConnectionSettings hidle =>
      exact h.keep hlinked rfl rfl (by rw [hidle]; rfl) (by rw [hidle]; exact ⟨nofun, nofun⟩) nofun
    | iterate => exact h.keep hlinked rfl rfl rfl Iff.rfl h.next
    | deliver => exact h.keep hlinked rfl rfl rfl Iff.rfl h.next

/-! ### How an operation ends -/

/-- An operation ends at the search for a server, or by what it came to on a
connection. -/
theorem ends_cases {s : State} {i : ℕ} {net : Net} {err : VkLdapError} (h : EndsWith s i net err) :
    (s.tasks[i]? = some (.op .find) ∧ s.mem.ctx.findServer = .error err) ∨
      (∃ server pool conn, s.tasks[i]? = some (.op (.ldap server pool conn)) ∧
        net.ldapOp = .returned (.error err)) := by
  obtain ⟨pc, m, spawned, ht, hstep⟩ := h
  cases pc with
  | find =>
    refine .inl ⟨ht, ?_⟩
    simp only [Op.step] at hstep
    split at hstep
    · rename_i err' hfind
      cases hstep
      exact hfind
    · split at hstep
      · cases hstep
      · cases hstep
  | take server pool seen =>
    simp only [Op.step] at hstep
    split at hstep
    · cases hstep
    · cases hstep
    · cases hstep
  | ldap server pool conn =>
    refine .inr ⟨server, pool, conn, ht, ?_⟩
    simp only [Op.step] at hstep
    split at hstep
    · cases hstep
    · rename_i res hres
      cases hstep
      exact hres
    · cases hstep
  | fail server err => cases hstep
  | done res => cases hstep
  | panicked => cases hstep

theorem endsWith_find {s : State} {i : ℕ} {err : VkLdapError} (ht : s.tasks[i]? = some (.op .find))
    (hfind : s.mem.ctx.findServer = .error err) (net : Net) : EndsWith s i net err := by
  refine ⟨.find, s.mem, [], ht, ?_⟩
  simp only [Op.step, hfind]

/-- What one of the code's operations comes to says nothing about the table. -/
theorem notOfTable_of_operation {net : Net} {err : VkLdapError} (h : FromOperation net)
    (hres : net.ldapOp = .returned (.error err)) : err.NotOfTable := by
  obtain ⟨σ, ldapEscape, settings, username, password, mode, ldapHandler, s, hop⟩ := h
  rw [hop] at hres
  cases hrun : run (ldapGroupRules ldapEscape settings username password mode ldapHandler) s with
  | none =>
    rw [hrun] at hres
    cases hres
  | some x =>
    obtain ⟨res, t⟩ := x
    rw [hrun] at hres
    cases res with
    | ok rules => cases hres
    | error e =>
      obtain rfl : e = err := Except.error.inj (Outcome.returned.inj hres)
      exact ldapGroupRules_fails ldapEscape settings username password mode ldapHandler s e t hrun

theorem findServer_empty {ctx : VkLdapContext} (h : ctx.servers = []) :
    ctx.findServer = .error .noServerConfigured := by
  unfold VkLdapContext.findServer
  rw [h]
  rfl

/-- The errors of the search for a server. -/
theorem findServer_error {ctx : VkLdapContext} {err : VkLdapError}
    (h : ctx.findServer = .error err) :
    (ctx.servers = [] ∧ err = .noServerConfigured) ∨
      (ctx.servers ≠ [] ∧ err = .noHealthyServerAvailable ∧
        ∀ server ∈ ctx.servers, server.isHealthy = false) := by
  unfold VkLdapContext.findServer at h
  split at h
  · rename_i hempty
    exact .inl ⟨List.isEmpty_iff.mp hempty, (Except.error.inj h).symm⟩
  · rename_i hne
    split at h
    · cases h
    · rename_i hnone
      refine .inr ⟨fun he => hne (List.isEmpty_iff.mpr he), (Except.error.inj h).symm, ?_⟩
      intro server hserver
      have := List.find?_eq_none.mp hnone server hserver
      exact eq_false_of_ne_true this

/-- Without a healthy server the search fails. -/
theorem findServer_unhealthy {ctx : VkLdapContext}
    (h : ∀ server ∈ ctx.servers, server.isHealthy = false) : ∃ err, ctx.findServer = .error err := by
  cases hfind : ctx.findServer with
  | error err => exact ⟨err, rfl⟩
  | ok server =>
    obtain ⟨hmem, hstatus⟩ := VkLdapContext.findServer_ok hfind
    have hhealthy := (server.isHealthy_iff).mpr hstatus
    rw [h server hmem] at hhealthy
    cases hhealthy

/-! ### Exactly when the list is seen as a whole -/

theorem seesWhole_of_notInGap {urls : List Url} {tr : List (State × Act)} {s : State} {a : Act}
    (h : Whole urls tr s) (hok : Replaces s a) (hgap : NotInGap s a) : SeesWhole urls tr s a := by
  rintro i net err rfl hends
  rcases ends_cases hends with ⟨ht, hfind⟩ | ⟨server, pool, conn, ht, hres⟩
  · rcases hgap ht with ⟨hmissing, hgoing⟩ | ⟨server, hserver, hhealthy⟩
    · obtain ⟨rest, htable, hrest, -⟩ := h.table
      rw [hrest hgoing, hmissing, List.append_nil] at htable
      rcases findServer_error hfind with ⟨hempty, -⟩ | ⟨-, rfl, hall⟩
      · rw [hempty] at htable
        exact absurd htable.symm h.nonempty
      · exact ⟨nofun, fun _ => ⟨htable, hall⟩⟩
    · -- there is a healthy server to be found
      rcases findServer_error hfind with ⟨hempty, -⟩ | ⟨-, -, hall⟩
      · rw [hempty] at hserver
        cases hserver
      · rw [hall server hserver] at hhealthy
        cases hhealthy
  · have herr := notOfTable_of_operation (hok server pool conn ht) hres
    exact ⟨herr.1, fun he => absurd he herr.2⟩

theorem notInGap_of_seesWhole {urls : List Url} {tr : List (State × Act)} {s : State} {a : Act}
    (h : Whole urls tr s) (hsees : SeesWhole urls tr s a) : NotInGap s a := by
  cases a with
  | task i net =>
    intro ht
    by_contra hgap
    obtain ⟨hfilled, hhealthy⟩ := not_or.mp hgap
    have hall : ∀ server ∈ s.mem.ctx.servers, server.isHealthy = false := fun server hserver =>
      eq_false_of_ne_true fun he => hhealthy ⟨server, hserver, he⟩
    obtain ⟨err, hfind⟩ := findServer_unhealthy hall
    obtain ⟨hne, hwhole⟩ := hsees i net err rfl (endsWith_find ht hfind net)
    rcases findServer_error hfind with ⟨-, rfl⟩ | ⟨-, rfl, -⟩
    · exact hne rfl
    · -- the table lacks something, so it is not the list in force
      obtain ⟨rest, htable, hrest, hhung⟩ := h.table
      rw [(hwhole rfl).1] at htable
      have hnil : rest = [] := List.self_eq_append_right.mp htable.symm
      exact hfilled ⟨(hrest fun he => hhung he hnil).symm.trans hnil, fun he => hhung he hnil⟩
  | _ => trivial

theorem booted_urls (ls : VkLdapSettings) (cs : VkConnectionSettings)
    (servers : List (Url × (ℕ → Result Unit))) :
    (State.booted ls cs servers).mem.ctx.servers.map (·.url) = servers.map (·.1) := by
  have hadd : ∀ (m : Mem) (url : Url) (connect : ℕ → Result Unit),
      (m.addServer url connect).ctx.servers.map (·.url) = m.ctx.servers.map (·.url) ++ [url] := by
    intro m url connect
    obtain ⟨-, hurl, -⟩ := openServer_key m.pools.length (m.ctx.newServer url)
      m.ctx.connectionSettings connect
    show ((m.ctx.servers ++ [(openServer _ _ _ _).1]).map (·.url)) = _
    rw [List.map_append, List.map_singleton, hurl]
    rfl
  have hfold : ∀ (servers : List (Url × (ℕ → Result Unit))) (m : Mem),
      (servers.foldl (fun m x => m.addServer x.1 x.2) m).ctx.servers.map (·.url) =
        m.ctx.servers.map (·.url) ++ servers.map (·.1) := by
    intro servers
    induction servers with
    | nil => exact fun m => (List.append_nil _).symm
    | cons x servers ih =>
      intro m
      rw [List.foldl_cons, ih, hadd, List.append_assoc, List.map_cons, List.singleton_append]
  exact hfold servers _

theorem whole_booted (ls : VkLdapSettings) (cs : VkConnectionSettings)
    {servers : List (Url × (ℕ → Result Unit))} (h : servers ≠ []) :
    Whole (servers.map (·.1)) [] (State.booted ls cs servers) where
  linked := linked_booted ls cs servers
  table := ⟨[], (List.append_nil _).trans (booted_urls ls cs servers), fun _ => rfl, nofun⟩
  nonempty := fun he => h (List.map_eq_nil_iff.mp he)
  next := nofun

/-- **A replacement of the server list is seen as atomic exactly if** no
operation looks for a server between the clearing of the table and the last
adding, unless a server added by then is healthy. -/
theorem list_seen_whole (ls : VkLdapSettings) (cs : VkConnectionSettings)
    (servers : List (Url × (ℕ → Result Unit))) (tr : List (State × Act)) (s : State)
    (hne : servers ≠ []) (h : Run State.step (State.booted ls cs servers) tr s)
    (hok : Steps Replaces tr) :
    StepsAfter (SeesWhole (servers.map (·.1))) tr ↔ Steps NotInGap tr := by
  refine h.stepsAfter_iff hok (I := Whole (servers.map (·.1))) (whole_booted ls cs hne) ?_ ?_
  · intro pre t a u ht hokt ha
    exact whole_step ht hokt ha
  · intro pre t a u ht hokt _
    exact ⟨notInGap_of_seesWhole ht, seesWhole_of_notInGap ht hokt⟩

/-! ### An operation after the replacement, and one in the gap -/

/-- One healthy server. -/
def oneServer : State := State.booted {} { connectionPoolSize := 1 } [("ldap://a", fun _ => .ok ())]

/-- The list is replaced, and an operation comes after it. -/
def replaced : List Act :=
  [.setServers ["ldap://b"], .main {}, .main {}, .main {}, .main {}, .main {}, .submit]

/-- An operation comes, and the list is replaced as far as the opening of the
new server's connections. -/
def halfReplaced : List Act := [.setServers ["ldap://b"], .submit, .main {}, .main {}]

/-- Steps that are no task's and set a list that is not empty. -/
theorem replaces_of_mem {acts : List Act} (h : ∀ a ∈ acts, a = .setServers ["ldap://b"] ∨
    a = .main {} ∨ a = .submit) : Steps Replaces (trace State.step oneServer acts) ∧
      Steps NotInGap (trace State.step oneServer acts) := by
  constructor
  all_goals
    intro x hx
    rcases h x.2 (mem_of_trace hx) with ha | ha | ha
    all_goals
      rw [ha]
      first | exact List.cons_ne_nil _ _ | trivial

theorem list_seen_whole_after : ∃ tr s, Run State.step oneServer tr s ∧
    StepsAfter (SeesWhole ["ldap://a"]) tr ∧
    s.mem.ctx.servers.map (·.url) = ["ldap://b"] := by
  obtain ⟨t, s, ht, hs, htask, hmain, hurls⟩ : ∃ t s, exec State.step oneServer replaced = some t ∧
      t.step (.task 1 {}) = some s ∧ t.tasks[1]? = some (.op .find) ∧ t.main = .idle ∧
      s.mem.ctx.servers.map (·.url) = ["ldap://b"] := ⟨_, _, rfl, rfl, rfl, rfl, rfl⟩
  obtain ⟨hreplaces, hgap⟩ := @replaces_of_mem replaced (by simp [replaced])
  have hrun := (exec_run ht).snoc hs
  refine ⟨_, s, hrun, (list_seen_whole {} { connectionPoolSize := 1 }
    [("ldap://a", fun _ => .ok ())] _ s (List.cons_ne_nil _ _) hrun ?_).mpr ?_, hurls⟩
  · refine steps_snoc.mpr ⟨hreplaces, fun server pool conn hldap => ?_⟩
    rw [htask] at hldap
    cases hldap
  · refine steps_snoc.mpr ⟨hgap, fun _ => .inl ?_⟩
    rw [hmain]
    exact ⟨rfl, nofun⟩

/-- The operation ends as without any server, which sends its `AUTH` to the
fallback. -/
theorem searched_in_between : ∃ tr s, Run State.step oneServer tr s ∧ Steps Replaces tr ∧
    s.tasks[0]? = some (.op (.done (.error .noServerConfigured))) ∧
    VkLdapError.noServerConfigured.isServerUnavailable = true ∧
    ¬ StepsAfter (SeesWhole ["ldap://a"]) tr := by
  obtain ⟨t, s, ht, hs, htask, hempty, hdone⟩ : ∃ t s,
      exec State.step oneServer halfReplaced = some t ∧ t.step (.task 0 {}) = some s ∧
      t.tasks[0]? = some (.op .find) ∧ t.mem.ctx.servers = [] ∧
      s.tasks[0]? = some (.op (.done (.error .noServerConfigured))) := ⟨_, _, rfl, rfl, rfl, rfl, rfl⟩
  obtain ⟨hreplaces, -⟩ := @replaces_of_mem halfReplaced (by simp [halfReplaced])
  refine ⟨_, s, (exec_run ht).snoc hs, steps_snoc.mpr ⟨hreplaces, fun server pool conn hldap => ?_⟩,
    hdone, rfl, fun hsees => ?_⟩
  · rw [htask] at hldap
    cases hldap
  · have hlast := (stepsAfter_snoc.mp hsees).2
    have hends := endsWith_find htask (findServer_empty hempty) {}
    exact (hlast 0 {} _ rfl hends).1 rfl

end Replacement
end System
end ValkeyLdap
