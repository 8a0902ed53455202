/-
# Why a server is unhealthy

The text of an unhealthy server is that of an error: of opening a connection
to it, of a ping, or of an operation that lost its connection. Errors pass from
step to step, in a task or in the main thread, until `update_server_status`
writes one of them to the entry at the handle's position.

`unhealthy_has_cause`: over a fixed list, an error so written was got earlier in
the run, over a connection to that very server or on opening one; and of a
round of attempts it is the first that failed, with the step of
`create_ldap_connection` it failed at (`FailsWith`).

Key theorems: `createLdapConnection_error`, `Task.told`, `explained_step`,
`unhealthy_has_cause`.
-/
import ValkeyLdap.StatusUpdates
import ValkeyLdap.Tls

namespace ValkeyLdap

variable {Cert Ident : Type}

/-! ### Where opening a connection fails -/

namespace VkLdapConnection

/-- The CA file is read and loaded, where one is named. -/
def CaLoads (o : Outside Cert Ident) (settings : VkConnectionSettings) : Prop :=
  ∀ path, settings.caCertPath = some path →
    ∃ bytes cert, o.read path = .ok bytes ∧ o.fromPem bytes = .ok cert

/-- The error names the step that failed, and the steps before it succeeded: the
CA file comes first, then the two client files, the connector, and the
connection. -/
inductive FailsWith (o : Outside Cert Ident) (settings : VkConnectionSettings) (url : Url) :
    VkLdapError → Prop
  | readCa {path err : String} : requiresTls settings url = true →
      settings.caCertPath = some path → o.read path = .error err →
      FailsWith o settings url (.ioError "failed to read CA cert file" err)
  | loadCa {path : String} {bytes : List UInt8} {err : String} :
      requiresTls settings url = true → settings.caCertPath = some path →
      o.read path = .ok bytes → o.fromPem bytes = .error err →
      FailsWith o settings url (.tlsError "failed to load CA certificate" err)
  | noKey {path : String} : requiresTls settings url = true → CaLoads o settings →
      settings.clientCertPath = some path → settings.clientKeyPath = none →
      FailsWith o settings url .noTLSKeyPathSet
  | readCert {path keyPath err : String} : requiresTls settings url = true →
      CaLoads o settings → settings.clientCertPath = some path →
      settings.clientKeyPath = some keyPath → o.read path = .error err →
      FailsWith o settings url (.ioError "failed to read client certificate file" err)
  | readKey {path keyPath : String} {certBytes : List UInt8} {err : String} :
      requiresTls settings url = true → CaLoads o settings →
      settings.clientCertPath = some path → settings.clientKeyPath = some keyPath →
      o.read path = .ok certBytes → o.read keyPath = .error err →
      FailsWith o settings url (.ioError "failed to read client key file" err)
  | loadClient {path keyPath : String} {certBytes keyBytes : List UInt8} {err : String} :
      requiresTls settings url = true → CaLoads o settings →
      settings.clientCertPath = some path → settings.clientKeyPath = some keyPath →
      o.read path = .ok certBytes → o.read keyPath = .ok keyBytes →
      o.fromPkcs8 certBytes keyBytes = .error err →
      FailsWith o settings url (.tlsError "failed to load client certificate" err)
  | build {b : TlsConnectorBuilder Cert Ident} {err : String} :
      requiresTls settings url = true → BuiltFrom o settings b → o.build b = .error err →
      FailsWith o settings url (.tlsError "failed to setup TLS connection" err)
  | connect {connSettings : LdapConnSettings Cert Ident} {err : LdapError} :
      AsConfigured o settings url ⟨url, connSettings⟩ →
      (∀ tls, connSettings.connector = some tls → o.build tls.builder = .ok ()) →
      o.connect connSettings url = .error err →
      FailsWith o settings url (.ldapConnectionError err)

theorem handleIoError_error {α : Type} {expr : Except String α} {errmsg : String}
    {e : VkLdapError} : handleIoError expr errmsg = .error e ↔
      ∃ err, expr = .error err ∧ e = .ioError errmsg err := by
  cases expr <;> simp [handleIoError, Except.mapError, eq_comm]

theorem handleTlsError_error {α : Type} {expr : Except String α} {errmsg : String}
    {e : VkLdapError} : handleTlsError expr errmsg = .error e ↔
      ∃ err, expr = .error err ∧ e = .tlsError errmsg err := by
  cases expr <;> simp [handleTlsError, Except.mapError, eq_comm]

/-- A function of two steps fails at the first or, with its result, at the second. -/
theorem error_of_result_bind {α β : Type} {x : Result α} {f : α → Result β} {e : VkLdapError}
    (h : x >>= f = .error e) : x = .error e ∨ ∃ a, x = .ok a ∧ f a = .error e := by
  cases x with
  | error err =>
    cases h
    exact Or.inl rfl
  | ok a => exact Or.inr ⟨a, rfl, h⟩

section
variable {o : Outside Cert Ident} {settings : VkConnectionSettings} {url : Url}
  {b : TlsConnectorBuilder Cert Ident} {e : VkLdapError}

theorem addCaCert_error (hreq : requiresTls settings url = true)
    (h : addCaCert o settings b = .error e) : FailsWith o settings url e := by
  unfold addCaCert at h
  split at h
  · cases h
  · rename_i path hpath
    rcases error_of_result_bind h with h | ⟨bytes, hread, h⟩
    · obtain ⟨err, hread, rfl⟩ := handleIoError_error.mp h
      exact .readCa hreq hpath hread
    · have hread := handleIoError_ok.mp hread
      rcases error_of_result_bind h with h | ⟨cert, -, h⟩
      · obtain ⟨err, hpem, rfl⟩ := handleTlsError_error.mp h
        exact .loadCa hreq hpath hread hpem
      · cases h

theorem caLoads_of_addCaCert {b' : TlsConnectorBuilder Cert Ident}
    (h : addCaCert o settings b = .ok b') : CaLoads o settings := by
  intro path hpath
  obtain ⟨bytes, cert, hread, hpem, -⟩ := (addCaCert_ok h).2.2 path hpath
  exact ⟨bytes, cert, hread, hpem⟩

theorem addClientCert_error (hreq : requiresTls settings url = true) (hca : CaLoads o settings)
    (h : addClientCert o settings b = .error e) : FailsWith o settings url e := by
  unfold addClientCert at h
  split at h
  · cases h
  · rename_i path hpath
    split at h
    · rename_i hnone
      cases h
      exact .noKey hreq hca hpath hnone
    · rename_i keyPath hkey
      rcases error_of_result_bind h with h | ⟨certBytes, hcert, h⟩
      · obtain ⟨err, hcert, rfl⟩ := handleIoError_error.mp h
        exact .readCert hreq hca hpath hkey hcert
      · have hcert := handleIoError_ok.mp hcert
        rcases error_of_result_bind h with h | ⟨keyBytes, hkeyBytes, h⟩
        · obtain ⟨err, hkeyBytes, rfl⟩ := handleIoError_error.mp h
          exact .readKey hreq hca hpath hkey hcert hkeyBytes
        · have hkeyBytes := handleIoError_ok.mp hkeyBytes
          rcases error_of_result_bind h with h | ⟨ident, -, h⟩
          · obtain ⟨err, hident, rfl⟩ := handleTlsError_error.mp h
            exact .loadClient hreq hca hpath hkey hcert hkeyBytes hident
          · cases h

theorem ldapConnSettings_error (h : ldapConnSettings o settings url = .error e) :
    FailsWith o settings url e := by
  unfold ldapConnSettings at h
  split at h
  · rename_i hreq
    rcases error_of_result_bind h with h | ⟨b, hca, h⟩
    · exact addCaCert_error hreq h
    · rcases error_of_result_bind h with h | ⟨b', hclient, h⟩
      · exact addClientCert_error hreq (caLoads_of_addCaCert hca) h
      · rcases error_of_result_bind h with h | ⟨_, -, h⟩
        · obtain ⟨err, hbuild, rfl⟩ := handleTlsError_error.mp h
          exact .build hreq (builtFrom_ok hca hclient) hbuild
        · cases h
  · cases h

/-- The connector that is handed over has been built. -/
theorem built_of_settings {cs : LdapConnSettings Cert Ident}
    (h : ldapConnSettings o settings url = .ok cs) :
    ∀ tls, cs.connector = some tls → o.build tls.builder = .ok () := by
  unfold ldapConnSettings at h
  split at h
  · obtain ⟨b, -, h⟩ := ok_of_result_bind h
    obtain ⟨b', -, h⟩ := ok_of_result_bind h
    obtain ⟨_, hbuild, h⟩ := ok_of_result_bind h
    cases h
    rintro tls ⟨⟩
    exact handleTlsError_ok.mp hbuild
  · cases h
    rintro tls ⟨⟩

/-- **An error of opening a connection names what failed.** -/
theorem createLdapConnection_error (h : createLdapConnection o settings url = .error e) :
    FailsWith o settings url e := by
  rcases error_of_result_bind h with h | ⟨cs, hcs, h⟩
  · exact ldapConnSettings_error h
  · simp only at h
    split at h
    · cases h
    · rename_i err hconnect
      cases h
      have hbuilt : ∀ tls, cs.connector = some tls → o.build tls.builder = .ok () :=
        built_of_settings hcs
      exact .connect (asConfigured_of_settings hcs) hbuilt hconnect

end

end VkLdapConnection

/-! ### The first attempt that fails -/

/-- Attempt `k` is the first of a round that fails. -/
def FirstFails (connect : ℕ → Result Unit) (k : ℕ) (err : VkLdapError) : Prop :=
  (∀ j < k, connect j = .ok ()) ∧ connect k = .error err

theorem ConnectionQueue.openConnections_fails {server : VkLdapServer}
    {settings : VkConnectionSettings} {connect : ℕ → Result Unit} {err : VkLdapError} :
    ∀ (n k : ℕ) (q : ConnectionQueue) (j : Journal), (∀ i < k, connect i = .ok ()) →
      (openConnections server settings connect n k q j).2.2 = .error err →
      ∃ i, FirstFails connect i err
  | 0, _, _, _, _, h => by cases h
  | n + 1, k, q, j, hbefore, h => by
    unfold openConnections at h
    split at h
    · rename_i hk
      refine openConnections_fails n (k + 1) _ _ (fun i hi => ?_) h
      rcases Nat.lt_succ_iff_lt_or_eq.mp hi with hi | rfl
      · exact hbefore i hi
      · exact hk
    · rename_i e hk
      cases h
      exact ⟨k, hbefore, hk⟩

theorem Pool.refreshConnections_fails {p : Pool} {settings : VkConnectionSettings}
    {connect : ℕ → Result Unit} {err : VkLdapError}
    (h : (p.refreshConnections settings connect).2 = .error err) :
    ∃ i, FirstFails connect i err := by
  rw [refreshConnections_snd, reset_eq] at h
  exact ConnectionQueue.openConnections_fails _ _ _ _ (fun i hi => absurd hi (Nat.not_lt_zero i)) h

namespace System

open Runs VkLdapConnection

/-! ### Errors on their way to the table -/

def errorOf {α : Type} : Result α → Option VkLdapError
  | .ok _ => none
  | .error err => some err

theorem errorOf_eq_some {α : Type} {res : Result α} {err : VkLdapError} :
    errorOf res = some err ↔ res = .error err := by
  cases res <;> simp [errorOf]

def Refresh.error? : Refresh → Option VkLdapError
  | .report res _ => errorOf res
  | _ => none

def Check.error? : Check → Option VkLdapError
  | .giveBack _ res => errorOf res
  | .put _ _ res => errorOf res
  | .report res _ => errorOf res
  | .reportConnect err => some err
  | .refresh r => r.error?
  | _ => none

/-- The error that the task will write, and the handle it will name. -/
def Task.tells : Task → Option (VkLdapServer × VkLdapError)
  | .op (.fail server err) => some (server, err)
  | .check server pc => pc.error?.map (server, ·)
  | _ => none

def Main.tells : Main → Option (VkLdapServer × VkLdapError)
  | .refreshing server r _ => r.error?.map (server, ·)
  | _ => none

/-- The error that the step of the task gets. -/
def Task.gets (net : Net) : Task → VkLdapError → Prop
  | .op (.ldap _ _ _), err =>
    (∃ e, err = .ldapConnectionError e) ∧ net.ldapOp = .returned (.error err)
  | .check _ (.ping _), err => net.ping = .error err
  | .check _ (.connect _), err => FirstFails net.connect 0 err
  | .check _ (.refresh (.reset _ _)), err => ∃ k, FirstFails net.connect k err
  | _, _ => False

def Task.handle? : Task → Option VkLdapServer
  | .op (.take server _ _) => some server
  | .op (.ldap server _ _) => some server
  | .op (.fail server _) => some server
  | .check server _ => some server
  | _ => none

theorem Task.handle_of_tells {t : Task} {x : VkLdapServer × VkLdapError}
    (h : t.tells = some x) : t.handle? = some x.1 := by
  cases t with
  | op pc =>
    cases pc with
    | fail server err =>
      cases h
      rfl
    | _ => cases h
  | check server pc =>
    obtain ⟨err, -, rfl⟩ := Option.map_eq_some_iff.mp h
    rfl
  | _ => cases h

theorem Check.told {m m' : Mem} {net : Net} {server : VkLdapServer} {pc pc' : Check}
    {spawned : List Task} (h : pc.step m net server = some (m', .go pc' spawned))
    {err : VkLdapError} (he : pc'.error? = some err) :
    pc.error? = some err ∨ (Task.check server pc).gets net err := by
  cases pc with
  | start =>
    simp only [Check.step] at h
    split at h
    · split at h
      · cases h
        cases he
      · cases h
    · cases h
      cases he
  | take pool seen =>
    simp only [Check.step] at h
    split at h <;> cases h <;> cases he
  | ping conn =>
    cases h
    exact Or.inr (errorOf_eq_some.mp he)
  | giveBack conn res =>
    simp only [Check.step] at h
    split at h <;> cases h
    exact Or.inl he
  | put pool conn res =>
    simp only [Check.step] at h
    split at h <;> cases h
    exact Or.inl he
  | report res asOf => cases h; cases he
  | connect settings =>
    simp only [Check.step] at h
    split at h
    · cases h
      cases he
    · rename_i e hc
      cases h
      cases he
      exact Or.inr ⟨fun j hj => absurd hj (Nat.not_lt_zero j), hc⟩
  | pingNew =>
    simp only [Check.step] at h
    split at h <;> cases h <;> cases he
  | reportConnect e => cases h; cases he
  | refresh r =>
    cases r with
    | lookup =>
      simp only [Check.step, Refresh.step] at h
      split at h
      · rename_i hr
        split at hr <;> cases hr
        cases h
        cases he
      · rename_i hr
        split at hr <;> cases hr
      · cases h
      · cases h
    | reset pool settings =>
      simp only [Check.step, Refresh.step] at h
      cases hp : m.pools[pool]? with
      | none => simp [hp] at h
      | some p =>
        simp only [hp, Option.some.injEq, Prod.mk.injEq, Next.go.injEq] at h
        obtain ⟨-, rfl, -⟩ := h
        exact Or.inr (Pool.refreshConnections_fails (errorOf_eq_some.mp he))
    | report res asOf => cases h; cases he
  | done => cases h

/-- **An error is passed on or got.** -/
theorem Task.told {m m' : Mem} {net : Net} {t t' : Task} {spawned : List Task}
    (h : t.step m net = some (m', .go t' spawned)) {x : VkLdapServer × VkLdapError}
    (hx : t'.tells = some x) :
    t.tells = some x ∨ (t.handle? = some x.1 ∧ t.gets net x.2) := by
  cases t with
  | op pc =>
    cases pc with
    | find =>
      simp only [Task.step, Op.step] at h
      cases hf : m.ctx.findServer with
      | error err => simp only [hf] at h; cases h; cases hx
      | ok server =>
        simp only [hf] at h
        cases hp : m.ctx.getConnectionPool server with
        | none => simp only [hp] at h; cases h; cases hx
        | some pool => simp only [hp] at h; cases h; cases hx
    | take server pool seen =>
      simp only [Task.step, Op.step] at h
      rcases hc : m.takeConnection pool seen with _ | ⟨m₁, conn | calls⟩
      · simp only [hc] at h; cases h
      · simp only [hc] at h; cases h; cases hx
      · simp only [hc] at h; cases h; cases hx
    | ldap server pool conn =>
      simp only [Task.step, Op.step] at h
      split at h
      · rename_i hop
        split at hop
        · rename_i e hldap
          cases hop
          cases h
          cases hx
          exact Or.inr ⟨rfl, ⟨e, rfl⟩, hldap⟩
        · cases hop
          cases h
          cases hx
        · cases hop
      · cases h
        cases hx
      · cases h
    | fail server err =>
      cases h
      cases hx
    | done res => cases h
    | panicked => cases h
  | check server pc =>
    simp only [Task.step] at h
    split at h
    · rename_i hstep
      cases h
      obtain ⟨err, he, rfl⟩ := Option.map_eq_some_iff.mp hx
      rcases Check.told hstep he with he | hget
      · exact Or.inl (Option.map_eq_some_iff.mpr ⟨err, he, rfl⟩)
      · exact Or.inr ⟨rfl, hget⟩
    · cases h
    · cases h
  | ret pool conn =>
    simp only [Task.step] at h
    split at h
    · cases h; cases hx
    · cases h
  | shutdown pools seen =>
    have hmove := Task.step_move h
    cases hmove <;> cases hx
  | ended => cases h

theorem Main.told {m m' : Mem} {net : Net} {main main' : Main} {spawned : List Task}
    (h : main.step m net = some (m', main', spawned)) {x : VkLdapServer × VkLdapError}
    (hx : main'.tells = some x) : ∃ pool settings rest,
      main = .refreshing x.1 (.reset pool settings) rest ∧ ∃ k, FirstFails net.connect k x.2 := by
  have hnext {rest : List VkLdapServer} (h : (Main.refreshNext rest).tells = some x) : False := by
    cases rest <;> cases h
  have hmove := Main.step_move h
  cases main with
  | refreshing server r rest =>
    cases r with
    | reset pool settings =>
      simp only [Main.step, Refresh.step] at h
      cases hp : m.pools[pool]? with
      | none => simp [hp] at h
      | some p =>
        simp only [hp, Option.some.injEq, Prod.mk.injEq] at h
        obtain ⟨-, rfl, -⟩ := h
        obtain ⟨err, he, rfl⟩ := Option.map_eq_some_iff.mp hx
        exact ⟨pool, settings, rest, rfl, Pool.refreshConnections_fails (errorOf_eq_some.mp he)⟩
    | lookup => cases hmove <;> cases hx
    | report res asOf => cases hmove; exact absurd hx hnext
  | reading => cases hmove; exact absurd hx hnext
  | _ => cases hmove <;> cases hx

/-! ### Handles name their servers -/

/-- The entry at the handle's position has its URL. -/
def Mem.Names (m : Mem) (server : VkLdapServer) : Prop :=
  ∃ e, m.ctx.servers[server.id]? = some e ∧ e.url = server.url

theorem Mem.Names.of_keys {m m' : Mem} {server : VkLdapServer} (h : m.Names server)
    (hk : m'.ctx.servers.map serverKey = m.ctx.servers.map serverKey) : m'.Names server := by
  obtain ⟨e, he, hurl⟩ := h
  obtain ⟨e', he', hkey⟩ := SameShape.getElem hk.symm he
  exact ⟨e', he', (congrArg Prod.fst hkey).symm.trans hurl⟩

theorem Aligned.names {m : Mem} (ha : Aligned m) {server : VkLdapServer}
    (h : server ∈ m.ctx.servers) : m.Names server := by
  obtain ⟨i, hi⟩ := List.mem_iff_getElem?.mp h
  exact ⟨server, (ha.entry i server hi).1 ▸ hi, rfl⟩

theorem Task.Move.handle {m m' : Mem} {t t' : Task} {spawned : List Task}
    (h : t.Move m m' (.go t' spawned)) :
    (∀ server, t'.handle? = some server → t.handle? = some server ∨ server ∈ m.ctx.servers) ∧
      ∀ u ∈ spawned, u.handle? = none := by
  have hnil : ∀ u ∈ ([] : List Task), u.handle? = none := fun u hu => by cases hu
  have hret (pool : ℕ) (conn : VkLdapPoolConnection) : ∀ u ∈ [Task.ret pool conn],
      u.handle? = none := by
    intro u hu
    obtain rfl := List.mem_singleton.mp hu
    rfl
  cases h with
  | find hfound =>
    refine ⟨fun server hs => Or.inr ?_, hnil⟩
    cases hs
    exact (VkLdapContext.findServer_ok hfound).1
  | ldapFailed => exact ⟨fun server hs => Or.inl hs, hret _ _⟩
  | ldap => exact ⟨fun server hs => (by cases hs), hret _ _⟩
  | ldapPanicked => exact ⟨fun server hs => (by cases hs), hnil⟩
  | findNone => exact ⟨fun server hs => (by cases hs), hnil⟩
  | findLost => exact ⟨fun server hs => (by cases hs), hnil⟩
  | fail => exact ⟨fun server hs => (by cases hs), hnil⟩
  | ret => exact ⟨fun server hs => (by cases hs), hnil⟩
  | shutdownDone => exact ⟨fun server hs => (by cases hs), hnil⟩
  | shutdown => exact ⟨fun server hs => (by cases hs), hnil⟩
  | shutdownWait => exact ⟨fun server hs => (by cases hs), hnil⟩
  | _ => exact ⟨fun server hs => Or.inl hs, hnil⟩

def Main.handles : Main → List VkLdapServer
  | .refreshing server _ rest => server :: rest
  | _ => []

theorem Main.handles_refreshNext (rest : List VkLdapServer) :
    (Main.refreshNext rest).handles = rest := by
  cases rest <;> rfl

/-! ### Every error has been got -/

/-- The error that the step hears over a connection to this URL. -/
def State.hears (s : State) : Act → Option (Url × VkLdapError)
  | .task i net =>
    match s.tasks[i]? with
    | some (.op (.ldap _ _ conn)) =>
      match net.ldapOp with
      | .returned (.error (.ldapConnectionError err)) =>
        some (conn.conn.url, .ldapConnectionError err)
      | _ => none
    | some (.check _ (.ping conn)) => (errorOf net.ping).map (conn.conn.url, ·)
    | _ => none
  | _ => none

def Act.connect : Act → ℕ → Result Unit
  | .task _ net => net.connect
  | .main net => net.connect
  | _ => fun _ => .ok ()

/-- `E` holds of what the step gets: what it hears, and the first of its
attempts to connect that fails. -/
structure Learns (E : Url → VkLdapError → Prop) (s : State) (a : Act) : Prop where
  hears : ∀ x, s.hears a = some x → E x.1 x.2
  attempts : ∀ d, s.dials a = some d → ∀ k err, FirstFails a.connect k err → E d.1 err

/-- Over a fixed list, `E` holds of the error of every unhealthy entry, and of
those on their way to one. -/
structure State.Explained (n : ℕ) (E : Url → VkLdapError → Prop) (s : State) : Prop where
  fixed : s.Fixed n
  named : ∀ t ∈ s.tasks, ∀ server, t.handle? = some server → s.mem.Names server
  namedMain : ∀ server ∈ s.main.handles, s.mem.Names server
  table : ∀ e ∈ s.mem.ctx.servers, ∀ msg, e.status = .unhealthy msg →
    ∃ err, E e.url err ∧ msg = err.toString
  tasks : ∀ t ∈ s.tasks, ∀ x, t.tells = some x → E x.1.url x.2
  main : ∀ x, s.main.tells = some x → E x.1.url x.2

section
variable {n : ℕ} {E : Url → VkLdapError → Prop} {s s' : State} {a : Act}

/-- The pool at the position of a handle is its server's. -/
theorem State.Fixed.pool_url (hf : s.Fixed n) {server : VkLdapServer} (hn : s.mem.Names server)
    {p : Pool} (hp : s.mem.pools[server.id]? = some p) : p.server.url = server.url := by
  obtain ⟨e, he, hurl⟩ := hn
  obtain ⟨-, k, q, hk, hq, -, hqurl⟩ := hf.linked.aligned.1.entry server.id e he
  obtain rfl := hf.mem.lookup hk
  obtain rfl : p = q := Option.some.inj (hp.symm.trans hq)
  exact hqurl.trans hurl

theorem State.Fixed.pool_of_lt (hf : s.Fixed n) {k : ℕ} (hk : k < n) :
    ∃ p, s.mem.pools[k]? = some p :=
  ⟨_, List.getElem?_eq_getElem (hf.mem.count ▸ hk)⟩

theorem keys_step (hf : s.Fixed n) (h : s.step a = some s') :
    s'.mem.ctx.servers.map serverKey = s.mem.ctx.servers.map serverKey := by
  rcases State.step_cases h with ⟨i, net, rfl⟩ | ⟨net, rfl⟩ | hother
  · obtain ⟨t, m', ht, ⟨t', spawned, hmove, rfl⟩ | ⟨hmove, rfl⟩⟩ := State.step_task h
    · exact hmove.shape.servers
    · exact hmove.shape.servers
  · obtain ⟨m', main, spawned, hmove, rfl⟩ := State.step_main h
    have hmain := hf.main
    generalize s.main = main₀ at hmain hmove
    cases hmove with
    | clear => exact absurd hmain id
    | added => exact absurd hmain id
    | add => exact absurd hmain id
    | opened => exact absurd hmain id
    | list => exact absurd hmain id
    | refreshReport => exact (Mem.SameShape.updateServerStatus s.mem _ _ _).servers
    | _ => rfl
  · rw [hother.mem_eq]

/-- What a task gets is to be written to the server it came from. -/
theorem learned_task (hs : s.Explained n E) {i : ℕ} {net : Net} {t : Task}
    (ht : s.tasks[i]? = some t) (hl : Learns E s (.task i net)) {server : VkLdapServer}
    {err : VkLdapError} (hh : t.handle? = some server) (hget : t.gets net err) :
    E server.url err := by
  have hmem := List.mem_of_getElem? ht
  have hnames := hs.named t hmem server hh
  have hown := hs.fixed.custody.own.tasks t hmem
  have hfixed := hs.fixed.tasks t hmem
  cases t with
  | op pc =>
    cases pc with
    | ldap server₀ pool conn =>
      cases hh
      obtain ⟨⟨e, rfl⟩, hop⟩ := hget
      have hhears : s.hears (.task i net) = some (conn.conn.url, .ldapConnectionError e) := by
        simp only [State.hears, ht, hop]
      rw [← hown.2.1]
      exact hl.hears _ hhears
    | _ => exact absurd hget id
  | check server₀ pc =>
    cases hh
    cases pc with
    | ping conn =>
      have hhears : s.hears (.task i net) = some (conn.conn.url, err) := by
        simp only [State.hears, ht, errorOf_eq_some.mpr hget, Option.map_some]
      obtain ⟨sv, hsv, hurl⟩ := hown
      obtain ⟨p, hp, rfl⟩ := Option.map_eq_some_iff.mp hsv
      rw [show conn.conn.pool = server.id from hfixed.2] at hp
      rw [← hs.fixed.pool_url hnames hp, ← hurl]
      exact hl.hears _ hhears
    | connect settings =>
      have hdials : s.dials (.task i net) = some (server.url, settings) := by
        simp only [State.dials, ht]
      exact hl.attempts _ hdials 0 err hget
    | refresh r =>
      cases r with
      | reset pool settings =>
        obtain ⟨hlt, hpool, -⟩ := hfixed
        obtain ⟨p, hp⟩ := hs.fixed.pool_of_lt hlt
        have hdials : s.dials (.task i net) = some (p.server.url, settings) := by
          simp only [State.dials, ht, hpool, hp, Option.map_some]
        obtain ⟨k, hk⟩ := hget
        rw [← hs.fixed.pool_url hnames hp]
        exact hl.attempts _ hdials k err hk
      | _ => exact absurd hget id
    | _ => exact absurd hget id
  | _ => exact absurd hget id

theorem statusOf_eq_unhealthy {α : Type} {res : Result α} {msg : String}
    (h : statusOf res = .unhealthy msg) : ∃ err, res = .error err ∧ msg = err.toString := by
  cases res with
  | ok a => cases h
  | error err =>
    cases h
    exact ⟨err, rfl, rfl⟩

theorem Refresh.tells_of_updates {server : VkLdapServer} {r : Refresh} {u : Update} {msg : String}
    (hu : r.updates server = some u) (hmsg : u.status = .unhealthy msg) :
    u.server = server ∧ ∃ err, r.error? = some err ∧ msg = err.toString := by
  cases r with
  | report res asOf =>
    cases hu
    obtain ⟨err, hres, rfl⟩ := statusOf_eq_unhealthy hmsg
    exact ⟨rfl, err, errorOf_eq_some.mpr hres, rfl⟩
  | _ => cases hu

theorem Task.tells_of_updates {t : Task} {u : Update} {msg : String} (hu : t.updates = some u)
    (hmsg : u.status = .unhealthy msg) :
    ∃ err, t.tells = some (u.server, err) ∧ msg = err.toString := by
  cases t with
  | op pc =>
    cases pc with
    | fail server err =>
      cases hu
      cases hmsg
      exact ⟨err, rfl, rfl⟩
    | _ => cases hu
  | check server pc =>
    cases pc with
    | report res asOf =>
      cases hu
      obtain ⟨err, hres, rfl⟩ := statusOf_eq_unhealthy hmsg
      refine ⟨err, ?_, rfl⟩
      simp only [Task.tells, Check.error?, errorOf_eq_some.mpr hres, Option.map_some]
    | reportConnect err =>
      cases hu
      cases hmsg
      exact ⟨err, rfl, rfl⟩
    | refresh r =>
      obtain ⟨hserver, err, he, hmsg⟩ := Refresh.tells_of_updates hu hmsg
      refine ⟨err, ?_, hmsg⟩
      simp only [Task.tells, Check.error?, he, Option.map_some, hserver]
    | _ => cases hu
  | _ => cases hu

/-- What a step writes as unhealthy has been told, with a handle that names its
server. -/
theorem told_of_updates (hs : s.Explained n E) {u : Update} {msg : String}
    (hu : s.updates a = some u) (hmsg : u.status = .unhealthy msg) :
    s.mem.Names u.server ∧ ∃ err, E u.server.url err ∧ msg = err.toString := by
  cases a with
  | task i net =>
    obtain ⟨t, ht, hu⟩ := Option.bind_eq_some_iff.mp hu
    obtain ⟨err, htells, hmsg⟩ := Task.tells_of_updates hu hmsg
    have hmem := List.mem_of_getElem? ht
    have hnames := hs.named t hmem _ (Task.handle_of_tells htells)
    exact ⟨hnames, err, hs.tasks t hmem _ htells, hmsg⟩
  | main net =>
    cases hm : s.main with
    | refreshing server r rest =>
      simp only [State.updates, hm, Main.updates] at hu
      obtain ⟨hserver, err, he, hmsg⟩ := Refresh.tells_of_updates hu hmsg
      have htells : s.main.tells = some (u.server, err) := by
        simp only [hm, Main.tells, he, Option.map_some, hserver]
      refine ⟨hs.namedMain _ ?_, err, hs.main _ htells, hmsg⟩
      rw [hm, hserver]
      exact List.mem_cons_self
    | _ => simp [State.updates, hm, Main.updates] at hu
  | _ => cases hu

theorem unhealthyTable_step (hs : s.Explained n E) (h : s.step a = some s') :
    ∀ e ∈ s'.mem.ctx.servers, ∀ msg, e.status = .unhealthy msg →
      ∃ err, E e.url err ∧ msg = err.toString := by
  have hkeys := keys_step hs.fixed h
  cases hu : s.updates a with
  | some u =>
    rw [step_updates h hu]
    intro e' he' msg hmsg
    obtain ⟨i, hi⟩ := List.mem_iff_getElem?.mp he'
    have hlt := (List.getElem?_eq_some_iff.mp hi).1
    rw [Update.apply_servers, List.length_modify] at hlt
    have he := List.getElem?_eq_getElem hlt
    rcases Update.apply_changes he hi with ⟨rfl, rfl⟩ | ⟨-, rfl⟩
    · obtain ⟨⟨e, hentry, hurl⟩, err, hE, rfl⟩ := told_of_updates hs hu hmsg
      have hsame := Option.some.inj (he.symm.trans hentry)
      refine ⟨err, ?_, rfl⟩
      rw [hsame]
      exact hurl ▸ hE
    · exact hs.table _ (List.getElem_mem hlt) msg hmsg
  | none =>
    have hsame : s'.mem.ctx.servers = s.mem.ctx.servers := by
      rcases step_updates_none h hu with hsame | hempty | ⟨server, hadd⟩
      · exact hsame
      · rw [hempty] at hkeys ⊢
        exact (List.map_eq_nil_iff.mp hkeys.symm).symm
      · have hlen := congrArg List.length hkeys
        rw [hadd, List.length_map, List.length_map, List.length_append,
          List.length_singleton] at hlen
        omega
    rw [hsame]
    exact hs.table

theorem named_step (hs : s.Explained n E) (h : s.step a = some s') :
    ∀ t ∈ s'.tasks, ∀ server, t.handle? = some server → s'.mem.Names server := by
  have hkeys := keys_step hs.fixed h
  have ha := hs.fixed.linked.aligned.1
  have hkeep {server : VkLdapServer} (hn : s.mem.Names server) : s'.mem.Names server :=
    hn.of_keys hkeys
  refine State.forall_tasks_step
    (P := fun m t => ∀ server, t.handle? = some server → m.Names server) h hs.named
    (fun t _ ht server hh => hkeep (ht server hh)) ?_ ?_ (fun server hh => by cases hh) ?_
  · intro i net t t' spawned _ ht hmove
    obtain ⟨hgo, hspawned⟩ := hmove.handle
    refine ⟨fun server hh => hkeep ?_, fun u hu server hh => ?_⟩
    · rcases hgo server hh with hh | hmem
      · exact hs.named t (List.mem_of_getElem? ht) server hh
      · exact ha.names hmem
    · rw [hspawned u hu] at hh
      cases hh
  · intro net spawned _ hmove u hu server hh
    have hmain := hs.fixed.main
    generalize s.main = main₀, s'.main = main₁, s'.mem = m₁ at hmain hmove
    cases hmove with
    | clear => exact absurd hmain id
    | _ => cases hu
  · intro e he server hh
    cases hh
    exact hkeep (ha.names he)

theorem namedMain_step (hs : s.Explained n E) (h : s.step a = some s') :
    ∀ server ∈ s'.main.handles, s'.mem.Names server := by
  have hkeep {server : VkLdapServer} (hn : s.mem.Names server) : s'.mem.Names server :=
    hn.of_keys (keys_step hs.fixed h)
  rcases State.step_cases h with ⟨i, net, rfl⟩ | ⟨net, rfl⟩ | hother
  · obtain ⟨t, m', ht, ⟨t', spawned, hmove, rfl⟩ | ⟨hmove, rfl⟩⟩ := State.step_task h
    · exact fun server hm => hkeep (hs.namedMain server hm)
    · exact fun server hm => hkeep (hs.namedMain server hm)
  · obtain ⟨m', main, spawned, hmove, rfl⟩ := State.step_main h
    intro server hm
    refine hkeep ?_
    have hnamed := hs.namedMain
    generalize s.main = main₀ at hnamed hmove
    cases hmove with
    | read =>
      rw [Main.handles_refreshNext] at hm
      exact hs.fixed.linked.aligned.1.names hm
    | refreshReport =>
      rw [Main.handles_refreshNext] at hm
      exact hnamed server (List.mem_cons_of_mem _ hm)
    | refreshLookup => exact hnamed server hm
    | refreshReset => exact hnamed server hm
    | _ => cases hm
  · cases hother with
    | setServers => exact fun server hm => by cases hm
    | setConnectionSettings => exact fun server hm => by cases hm
    | _ => exact fun server hm => hkeep (hs.namedMain server hm)

theorem told_step (hs : s.Explained n E) (hl : Learns E s a) (h : s.step a = some s') :
    ∀ t ∈ s'.tasks, ∀ x, t.tells = some x → E x.1.url x.2 := by
  intro t' ht' x hx
  rcases State.step_cases h with ⟨i, net, rfl⟩ | ⟨net, rfl⟩ | hother
  · obtain ⟨t, m', ht, ⟨t₁, spawned, hstep, rfl⟩ | ⟨hstep, rfl⟩⟩ := State.step_task_step h
    · rcases List.mem_append.mp ht' with hmem | hmem
      · rcases List.mem_or_eq_of_mem_set hmem with hmem | rfl
        · exact hs.tasks t' hmem x hx
        · rcases Task.told hstep hx with htold | ⟨hh, hget⟩
          · exact hs.tasks t (List.mem_of_getElem? ht) x htold
          · exact learned_task hs ht hl hh hget
      · -- what is spawned gives a connection back
        have hnone := (Task.step_move hstep).handle.2 t' hmem
        rw [Task.handle_of_tells hx] at hnone
        cases hnone
    · exact hs.tasks t' (List.mem_filter.mp ht').1 x hx
  · obtain ⟨m', main, spawned, hmove, rfl⟩ := State.step_main h
    rcases List.mem_append.mp ht' with hmem | hmem
    · exact hs.tasks t' hmem x hx
    · generalize s.main = main₀ at hmove
      cases hmove with
      | clear =>
        obtain rfl := List.mem_singleton.mp hmem
        cases hx
      | _ => cases hmem
  · cases hother with
    | submit =>
      rcases List.mem_append.mp ht' with hmem | hmem
      · exact hs.tasks t' hmem x hx
      · obtain rfl := List.mem_singleton.mp hmem
        cases hx
    | iterate =>
      rcases List.mem_append.mp ht' with hmem | hmem
      · exact hs.tasks t' hmem x hx
      · obtain ⟨e, -, rfl⟩ := List.mem_map.mp hmem
        cases hx
    | deliver => exact hs.tasks t' (List.mem_filter.mp ht').1 x hx
    | _ => exact hs.tasks t' ht' x hx

theorem toldMain_step (hs : s.Explained n E) (hl : Learns E s a) (h : s.step a = some s') :
    ∀ x, s'.main.tells = some x → E x.1.url x.2 := by
  intro x hx
  cases a with
  | main net =>
    simp only [State.step] at h
    split at h
    · rename_i m' main spawned hstep
      cases h
      obtain ⟨pool, settings, rest, hmain, k, hk⟩ := Main.told hstep hx
      have hfixed := hs.fixed.main
      rw [hmain] at hfixed
      obtain ⟨hlt, hpool, -⟩ := hfixed
      obtain ⟨p, hp⟩ := hs.fixed.pool_of_lt (hlt x.1 List.mem_cons_self)
      have hnames : s.mem.Names x.1 := hs.namedMain x.1 (by rw [hmain]; exact List.mem_cons_self)
      have hdials : s.dials (.main net) = some (p.server.url, settings) := by
        simp only [State.dials, hmain, hpool, hp, Option.map_some]
      rw [← hs.fixed.pool_url hnames hp]
      exact hl.attempts _ hdials k x.2 hk
    · cases h
  | task i net =>
    obtain ⟨t, m', ht, ⟨t', spawned, hmove, rfl⟩ | ⟨hmove, rfl⟩⟩ := State.step_task h
    · exact hs.main x hx
    · exact hs.main x hx
  | _ =>
    cases State.step_other h (fun _ _ h => by cases h) fun _ h => by cases h
    all_goals first | exact hs.main x hx | cases hx

/-- **Every error is got before it is written.** -/
theorem explained_step (hs : s.Explained n E) (hg : FixedList s a) (hl : Learns E s a)
    (h : s.step a = some s') : s'.Explained n E :=
  ⟨fixed_step hs.fixed hg h, named_step hs h, namedMain_step hs h, unhealthyTable_step hs h,
    told_step hs hl h, toldMain_step hs hl h⟩

theorem State.Explained.imp {F : Url → VkLdapError → Prop} (hs : s.Explained n E)
    (hi : ∀ url err, E url err → F url err) : s.Explained n F := by
  refine ⟨hs.fixed, hs.named, hs.namedMain, fun e he msg hmsg => ?_,
    fun t ht x hx => hi _ _ (hs.tasks t ht x hx), fun x hx => hi _ _ (hs.main x hx)⟩
  obtain ⟨err, hE, htext⟩ := hs.table e he msg hmsg
  exact ⟨err, hi _ _ hE, htext⟩

end

/-! ### Runs -/

/-- An attempt of the round fails, the first that does, with this error, at the
step that the error names. -/
def Round.FailedWith (r : Round Cert Ident) (err : VkLdapError) : Prop :=
  ∃ k, (∀ j < k, ∃ h, createLdapConnection (r.outside j) r.settings r.url = .ok h) ∧
    createLdapConnection (r.outside k) r.settings r.url = .error err ∧
    FailsWith (r.outside k) r.settings r.url err

/-- The error comes from a round of attempts to connect to this URL, or from a
step that spoke over a connection to it. -/
def Cause (rs : List (Round Cert Ident)) (heard : List (Url × VkLdapError)) (url : Url)
    (err : VkLdapError) : Prop :=
  (∃ r ∈ rs, r.url = url ∧ r.FailedWith err) ∨ (url, err) ∈ heard

/-- What the steps of the run have heard. -/
def heard (tr : List (State × Wired Cert Ident)) : List (Url × VkLdapError) :=
  events (fun s x => s.hears (s.act x)) tr

theorem Round.failedWith_of_connect {r : Round Cert Ident} {k : ℕ} {err : VkLdapError}
    (h : FirstFails r.connect k err) : r.FailedWith err := by
  have hfail : createLdapConnection (r.outside k) r.settings r.url = .error err := by
    have herr := h.2
    unfold connect at herr
    cases hc : createLdapConnection (r.outside k) r.settings r.url with
    | error e => rw [hc] at herr; cases herr; rfl
    | ok handle => rw [hc] at herr; cases herr
  refine ⟨k, fun j hj => ?_, hfail, createLdapConnection_error hfail⟩
  have hok := h.1 j hj
  unfold connect at hok
  cases hc : createLdapConnection (r.outside j) r.settings r.url with
  | error e => rw [hc] at hok; cases hok
  | ok handle => exact ⟨handle, rfl⟩

theorem Cause.append {rs rs' : List (Round Cert Ident)} {es es' : List (Url × VkLdapError)}
    {url : Url} {err : VkLdapError} (h : Cause rs es url err) :
    Cause (rs ++ rs') (es ++ es') url err := by
  rcases h with ⟨r, hr, hfail⟩ | h
  · exact Or.inl ⟨r, List.mem_append_left _ hr, hfail⟩
  · exact Or.inr (List.mem_append_left _ h)

@[simp] theorem State.dials_withConnect (s : State) (connect : ℕ → Result Unit) (a : Act) :
    s.dials (a.withConnect connect) = s.dials a := by
  cases a <;> rfl

theorem State.connect_withConnect {s : State} {connect : ℕ → Result Unit} {a : Act}
    {d : Url × VkConnectionSettings} (h : s.dials a = some d) :
    (a.withConnect connect).connect = connect := by
  cases a with
  | task => rfl
  | main => rfl
  | _ => cases h

/-- What a step gets is a cause from then on. -/
theorem learns_act (s : State) (x : Wired Cert Ident) (rs : List (Round Cert Ident))
    (es : List (Url × VkLdapError)) :
    Learns (Cause (rs ++ (s.round? x).toList) (es ++ (s.hears (s.act x)).toList)) s (s.act x) := by
  constructor
  · intro y hy
    rw [hy]
    exact Or.inr (List.mem_append_right _ List.mem_cons_self)
  · intro d hd k err hk
    rw [State.act, State.dials_withConnect] at hd
    rw [State.act, State.connect_withConnect hd] at hk
    have hround : s.round? x = some { url := d.1, settings := d.2, outside := x.2 } := by
      rw [State.round?, hd, Option.map_some]
    rw [hround] at hk ⊢
    exact Or.inl ⟨_, List.mem_append_right _ List.mem_cons_self, rfl,
      Round.failedWith_of_connect hk⟩

/-- A server that is unhealthy from the start. -/
theorem openServer_unhealthy {n : ℕ} {server : VkLdapServer} {settings : VkConnectionSettings}
    {connect : ℕ → Result Unit} {msg : String} (hserver : server.status = .healthy)
    (h : (openServer n server settings connect).1.status = .unhealthy msg) :
    ∃ k err, FirstFails connect k err ∧ msg = err.toString := by
  unfold openServer at h
  split at h
  · rw [hserver] at h
    cases h
  · rename_i pool err heq
    cases h
    have hres : (Pool.new n server settings connect).2 = .error err := by rw [heq]
    unfold Pool.new at hres
    rw [Pool.reset_eq] at hres
    obtain ⟨k, hk⟩ := ConnectionQueue.openConnections_fails _ _ _ _
      (fun i hi => absurd hi (Nat.not_lt_zero i)) hres
    exact ⟨k, err, hk, rfl⟩

theorem table_foldl (rs : List (Round Cert Ident)) :
    ∀ (l : List (Round Cert Ident)) (m : Mem),
      (∀ e ∈ m.ctx.servers, ∀ msg, e.status = .unhealthy msg →
        ∃ err, Cause rs [] e.url err ∧ msg = err.toString) → (∀ r ∈ l, r ∈ rs) →
      ∀ e ∈ (l.foldl (fun m r => m.addServer r.url r.connect) m).ctx.servers, ∀ msg,
        e.status = .unhealthy msg → ∃ err, Cause rs [] e.url err ∧ msg = err.toString := by
  intro l
  induction l with
  | nil => exact fun m hm _ => hm
  | cons r l ih =>
    intro m hm hl
    refine ih _ (fun e he msg hmsg => ?_) fun x hx => hl x (List.mem_cons_of_mem _ hx)
    rcases List.mem_append.mp he with he | he
    · exact hm e he msg hmsg
    · obtain rfl := List.mem_singleton.mp he
      obtain ⟨k, err, hk, rfl⟩ := openServer_unhealthy rfl hmsg
      refine ⟨err, Or.inl ⟨r, hl r List.mem_cons_self, ?_, Round.failedWith_of_connect hk⟩, rfl⟩
      exact (openServer_key m.pools.length (m.ctx.newServer r.url) m.ctx.connectionSettings
        r.connect).2.1.symm

theorem explained_booted (ls : VkLdapSettings) (cs : VkConnectionSettings)
    (servers : List (Url × (ℕ → Outside Cert Ident))) (hs : 1 ≤ cs.connectionPoolSize) :
    (State.bootedWired ls cs servers).Explained
      (State.bootedWired ls cs servers).mem.ctx.servers.length
      (Cause (firstRounds cs servers) []) := by
  have hfold := table_foldl (firstRounds cs servers) (firstRounds cs servers)
    (State.init ls cs).mem (fun e he => by simp [State.init, VkLdapContext.new] at he)
    fun r hr => hr
  refine ⟨fixed_booted ls cs _ hs, fun t ht => (by cases ht), fun e he => (by cases he), ?_,
    fun t ht => (by cases ht), fun x hx => (by cases hx)⟩
  unfold State.bootedWired State.booted
  simp only [List.foldl_map]
  exact hfold

/-- **An unhealthy server has a cause.** In every run over a fixed list, the text
of an unhealthy server is that of an error that was got from this server: heard
over a connection to it, or of a round of attempts to connect to it the first
that failed, at the step of opening that the error names, those before it having
succeeded. -/
theorem unhealthy_has_cause (ls : VkLdapSettings) (cs : VkConnectionSettings)
    (servers : List (Url × (ℕ → Outside Cert Ident))) (hs : 1 ≤ cs.connectionPoolSize)
    (tr : List (State × Wired Cert Ident)) (t : State)
    (h : Run State.stepWired (State.bootedWired ls cs servers) tr t)
    (hfixed : Steps (fun s x => FixedList s (s.act x)) tr) :
    ∀ e ∈ t.mem.ctx.servers, ∀ msg, e.status = .unhealthy msg →
      ∃ err, Cause (rounds cs servers tr) (heard tr) e.url err ∧ msg = err.toString := by
  refine (h.history (I := fun tr (t : State) => t.Explained
    (State.bootedWired ls cs servers).mem.ctx.servers.length
    (Cause (rounds cs servers tr) (heard tr))) hfixed ?_ ?_).table
  · have hnil : rounds cs servers [] = firstRounds cs servers := List.append_nil _
    rw [hnil]
    exact explained_booted ls cs servers hs
  · intro pre s x s' hexp hg hstep
    rw [rounds_snoc, heard, events_snoc]
    refine explained_step (hexp.imp fun _ _ hc => hc.append) hg ?_ hstep
    exact learns_act s x _ _

/-- StartTLS is switched on with a client certificate that has no key. -/
def certWithoutKey : List (Wired (List UInt8) (List UInt8)) :=
  [(.setConnectionSettings
      { useStarttls := true, clientCertPath := some "cert.pem", connectionPoolSize := 1 },
    fun _ => reachable), (.main {}, fun _ => reachable), (.main {}, fun _ => reachable),
    (.main {}, fun _ => reachable), (.main {}, fun _ => reachable), (.main {}, fun _ => reachable)]

theorem unhealthy_has_cause_noKey : ∃ tr t e err, Run State.stepWired onePlain tr t ∧
    tr.length = 6 ∧ t.mem.ctx.servers = [e] ∧ e.status = .unhealthy err.toString ∧
    Cause (rounds { connectionPoolSize := 1 } [("ldap://a", fun _ => reachable)] tr) (heard tr)
      e.url err := by
  obtain ⟨t, e, msg, ht, hservers, hmsg⟩ : ∃ t e msg,
      exec State.stepWired onePlain certWithoutKey = some t ∧ t.mem.ctx.servers = [e] ∧
        e.status = .unhealthy msg := ⟨_, _, _, rfl, rfl, rfl⟩
  have hfixed : Steps (fun s x => FixedList s (s.act x))
      (trace State.stepWired onePlain certWithoutKey) := by
    rintro ⟨s, x⟩ hx
    have ha : x ∈ certWithoutKey := mem_of_trace hx
    simp only [certWithoutKey, List.mem_cons, List.not_mem_nil, or_false] at ha
    rcases ha with rfl | rfl | rfl | rfl | rfl | rfl
    all_goals first | trivial | exact Nat.le_refl 1
  obtain ⟨err, hcause, rfl⟩ := unhealthy_has_cause {} { connectionPoolSize := 1 } _
    (Nat.le_refl 1) _ t (exec_run ht) hfixed e (by rw [hservers]; exact List.mem_cons_self) msg hmsg
  exact ⟨_, t, e, err, exec_run ht, rfl, hservers, hmsg, hcause⟩

end System
end ValkeyLdap
