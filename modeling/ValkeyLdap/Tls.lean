/-
# How connections are opened

`src/vkldap/connection.rs`, `VkLdapConnection::new` and
`create_ldap_connection`: where the URL or StartTLS asks for TLS, the files
that the options name are read and a connector is built from them, and the
client library connects with it. What is read and answered is outside the
module, and may be different at every attempt.

`connections_open_as_configured` follows every connection back to the attempt
that opened it: whichever lists and settings were set meanwhile and whoever
holds it now, the library was given a connector exactly if its URL or its
settings asked for TLS, with the certificates they named and no others, and was
told to do StartTLS exactly if the settings say so. What the library makes of
that is its own: a Unix socket (`ldapi`) it opens without any TLS.
`tls_in_force` adds what the settings stored have to do with it.

Key theorems: `createLdapConnection_ok`, `opens_step`,
`connections_open_as_configured`, `tls_in_force`.
-/
import ValkeyLdap.Waiting

namespace ValkeyLdap

/-- `Url::scheme`: what stands in front of the first colon. -/
def Url.scheme (url : Url) : String := String.ofList (url.toList.takeWhile (· ≠ ':'))

variable {Cert Ident : Type}

/-! ### The libraries -/

/-- `native_tls::TlsConnectorBuilder`: the root certificates added to the
system's, and the identity to show. -/
structure TlsConnectorBuilder (Cert Ident : Type) where
  rootCertificates : List Cert := []
  identity : Option Ident := none
  deriving DecidableEq, Repr

namespace TlsConnectorBuilder

def addRootCertificate (b : TlsConnectorBuilder Cert Ident) (cert : Cert) :
    TlsConnectorBuilder Cert Ident :=
  { b with rootCertificates := b.rootCertificates ++ [cert] }

def setIdentity (b : TlsConnectorBuilder Cert Ident) (identity : Ident) :
    TlsConnectorBuilder Cert Ident :=
  { b with identity := some identity }

end TlsConnectorBuilder

/-- `native_tls::TlsConnector`: what it was built from. -/
structure TlsConnector (Cert Ident : Type) where
  builder : TlsConnectorBuilder Cert Ident
  deriving DecidableEq, Repr

/-- `ldap3::LdapConnSettings`, as far as it is set here. -/
structure LdapConnSettings (Cert Ident : Type) where
  connTimeout : Option Duration := none
  connector : Option (TlsConnector Cert Ident) := none
  starttls : Bool := false
  deriving DecidableEq, Repr

/-- The handle of a connection: where to and with which settings it was opened. -/
structure Ldap (Cert Ident : Type) where
  url : Url
  connSettings : LdapConnSettings Cert Ident
  deriving DecidableEq, Repr

/-- What an attempt to connect meets: the files, the TLS library, and the
client library with the server behind it. An error is its text. -/
structure Outside (Cert Ident : Type) where
  read : String → Except String (List UInt8)
  fromPem : List UInt8 → Except String Cert
  fromPkcs8 : List UInt8 → List UInt8 → Except String Ident
  build : TlsConnectorBuilder Cert Ident → Except String Unit
  connect : LdapConnSettings Cert Ident → Url → Except LdapError Unit

/-! ### create_ldap_connection -/

/-- `handle_io_error!`. -/
def handleIoError {α : Type} (expr : Except String α) (errmsg : String) : Result α :=
  expr.mapError (.ioError errmsg)

/-- `handle_tls_error!`. -/
def handleTlsError {α : Type} (expr : Except String α) (errmsg : String) : Result α :=
  expr.mapError (.tlsError errmsg)

namespace VkLdapConnection

/-- The first `if let` of `create_ldap_connection`. -/
def addCaCert (o : Outside Cert Ident) (settings : VkConnectionSettings)
    (tlsBuilder : TlsConnectorBuilder Cert Ident) : Result (TlsConnectorBuilder Cert Ident) :=
  match settings.caCertPath with
  | none => .ok tlsBuilder
  | some path => do
    let caCertBytes ← handleIoError (o.read path) "failed to read CA cert file"
    let caCert ← handleTlsError (o.fromPem caCertBytes) "failed to load CA certificate"
    .ok (tlsBuilder.addRootCertificate caCert)

/-- The second one. -/
def addClientCert (o : Outside Cert Ident) (settings : VkConnectionSettings)
    (tlsBuilder : TlsConnectorBuilder Cert Ident) : Result (TlsConnectorBuilder Cert Ident) :=
  match settings.clientCertPath with
  | none => .ok tlsBuilder
  | some certPath =>
    match settings.clientKeyPath with
    | none => .error .noTLSKeyPathSet
    | some keyPath => do
      let certBytes ← handleIoError (o.read certPath) "failed to read client certificate file"
      let keyBytes ← handleIoError (o.read keyPath) "failed to read client key file"
      let clientCert ←
        handleTlsError (o.fromPkcs8 certBytes keyBytes) "failed to load client certificate"
      .ok (tlsBuilder.setIdentity clientCert)

def requiresTls (settings : VkConnectionSettings) (serverUrl : Url) : Bool :=
  serverUrl.scheme == "ldaps" || settings.useStarttls

/-- The settings handed to the client library, their timeout apart. -/
def ldapConnSettings (o : Outside Cert Ident) (settings : VkConnectionSettings)
    (serverUrl : Url) : Result (LdapConnSettings Cert Ident) :=
  if requiresTls settings serverUrl then do
    let tlsBuilder ← addCaCert o settings {}
    let tlsBuilder ← addClientCert o settings tlsBuilder
    handleTlsError (o.build tlsBuilder) "failed to setup TLS connection"
    .ok { connector := some ⟨tlsBuilder⟩, starttls := settings.useStarttls }
  else .ok {}

def createLdapConnection (o : Outside Cert Ident) (settings : VkConnectionSettings)
    (serverUrl : Url) : Result (Ldap Cert Ident) := do
  let connSettings ← ldapConnSettings o settings serverUrl
  let connSettings := { connSettings with connTimeout := some settings.timeoutConnection }
  match o.connect connSettings serverUrl with
  | .ok () => .ok { url := serverUrl, connSettings }
  | .error err => .error (.ldapConnectionError err)

/-! ### What a connection that was opened is -/

/-- The connector has the certificate of the CA file, where one is named, and
the identity of the two client files, where a certificate is. -/
structure BuiltFrom (o : Outside Cert Ident) (settings : VkConnectionSettings)
    (b : TlsConnectorBuilder Cert Ident) : Prop where
  noCa : settings.caCertPath = none → b.rootCertificates = []
  ca : ∀ path, settings.caCertPath = some path → ∃ bytes cert, o.read path = .ok bytes ∧
    o.fromPem bytes = .ok cert ∧ b.rootCertificates = [cert]
  noClient : settings.clientCertPath = none → b.identity = none
  client : ∀ path, settings.clientCertPath = some path →
    ∃ keyPath certBytes keyBytes ident, settings.clientKeyPath = some keyPath ∧
      o.read path = .ok certBytes ∧ o.read keyPath = .ok keyBytes ∧
      o.fromPkcs8 certBytes keyBytes = .ok ident ∧ b.identity = some ident

/-- The handle is to this URL; the client library was given the timeout and the
StartTLS flag of the settings, and a connector exactly if the URL or the
settings ask for TLS, built from the files that the settings name. -/
structure AsConfigured (o : Outside Cert Ident) (settings : VkConnectionSettings) (url : Url)
    (h : Ldap Cert Ident) : Prop where
  url_eq : h.url = url
  timeout : h.connSettings.connTimeout = some settings.timeoutConnection
  starttls : h.connSettings.starttls = settings.useStarttls
  connector : url.scheme = "ldaps" ∨ settings.useStarttls = true →
    ∃ tls, h.connSettings.connector = some tls ∧ BuiltFrom o settings tls.builder
  plain : ¬ (url.scheme = "ldaps" ∨ settings.useStarttls = true) → h.connSettings.connector = none

/-- The two macros go on with a result only. -/
theorem handleIoError_ok {α : Type} {expr : Except String α} {errmsg : String} {a : α} :
    handleIoError expr errmsg = .ok a ↔ expr = .ok a := by
  cases expr <;> simp [handleIoError, Except.mapError]

theorem handleTlsError_ok {α : Type} {expr : Except String α} {errmsg : String} {a : α} :
    handleTlsError expr errmsg = .ok a ↔ expr = .ok a := by
  cases expr <;> simp [handleTlsError, Except.mapError]

/-- A step of the function that goes on has had a result to go on with. -/
theorem ok_of_result_bind {α β : Type} {x : Result α} {f : α → Result β} {b : β}
    (h : x >>= f = .ok b) : ∃ a, x = .ok a ∧ f a = .ok b := by
  cases x with
  | error err => cases h
  | ok a => exact ⟨a, rfl, h⟩

section
variable {o : Outside Cert Ident} {settings : VkConnectionSettings} {url : Url}
  {b b' : TlsConnectorBuilder Cert Ident}

theorem addCaCert_ok (h : addCaCert o settings b = .ok b') :
    b'.identity = b.identity ∧
      (settings.caCertPath = none → b'.rootCertificates = b.rootCertificates) ∧
      ∀ path, settings.caCertPath = some path → ∃ bytes cert, o.read path = .ok bytes ∧
        o.fromPem bytes = .ok cert ∧ b'.rootCertificates = b.rootCertificates ++ [cert] := by
  unfold addCaCert at h
  split at h
  · rename_i hnone
    cases h
    exact ⟨rfl, fun _ => rfl, fun path hp => by rw [hnone] at hp; cases hp⟩
  · rename_i path hsome
    obtain ⟨bytes, hread, h⟩ := ok_of_result_bind h
    obtain ⟨cert, hpem, h⟩ := ok_of_result_bind h
    have hread := handleIoError_ok.mp hread
    have hpem := handleTlsError_ok.mp hpem
    cases h
    refine ⟨rfl, fun hn => (by rw [hsome] at hn; cases hn), fun p hp => ?_⟩
    obtain rfl : path = p := Option.some.inj (hsome.symm.trans hp)
    exact ⟨bytes, cert, hread, hpem, rfl⟩

theorem addClientCert_ok (h : addClientCert o settings b = .ok b') :
    b'.rootCertificates = b.rootCertificates ∧
      (settings.clientCertPath = none → b'.identity = b.identity) ∧
      ∀ path, settings.clientCertPath = some path →
        ∃ keyPath certBytes keyBytes ident, settings.clientKeyPath = some keyPath ∧
          o.read path = .ok certBytes ∧ o.read keyPath = .ok keyBytes ∧
          o.fromPkcs8 certBytes keyBytes = .ok ident ∧ b'.identity = some ident := by
  unfold addClientCert at h
  split at h
  · rename_i hnone
    cases h
    exact ⟨rfl, fun _ => rfl, fun path hp => by rw [hnone] at hp; cases hp⟩
  · rename_i path hsome
    split at h
    · cases h
    · rename_i keyPath hkey
      obtain ⟨certBytes, hcert, h⟩ := ok_of_result_bind h
      obtain ⟨keyBytes, hkeyBytes, h⟩ := ok_of_result_bind h
      obtain ⟨ident, hident, h⟩ := ok_of_result_bind h
      have hcert := handleIoError_ok.mp hcert
      have hkeyBytes := handleIoError_ok.mp hkeyBytes
      have hident := handleTlsError_ok.mp hident
      cases h
      refine ⟨rfl, fun hn => (by rw [hsome] at hn; cases hn), fun p hp => ?_⟩
      obtain rfl : path = p := Option.some.inj (hsome.symm.trans hp)
      exact ⟨keyPath, certBytes, keyBytes, ident, hkey, hcert, hkeyBytes, hident, rfl⟩

/-- The builder starts without certificates. -/
theorem builtFrom_ok (hca : addCaCert o settings {} = .ok b)
    (hclient : addClientCert o settings b = .ok b') : BuiltFrom o settings b' := by
  obtain ⟨hident, hnoCa, hca⟩ := addCaCert_ok hca
  obtain ⟨hroots, hnoClient, hclient⟩ := addClientCert_ok hclient
  refine ⟨fun h => ?_, fun path h => ?_, fun h => ?_, hclient⟩
  · rw [hroots, hnoCa h]
  · obtain ⟨bytes, cert, hread, hpem, hb⟩ := hca path h
    exact ⟨bytes, cert, hread, hpem, by rw [hroots, hb]; rfl⟩
  · rw [hnoClient h, hident]

theorem requiresTls_iff :
    requiresTls settings url = true ↔ url.scheme = "ldaps" ∨ settings.useStarttls = true := by
  simp [requiresTls]

/-- With TLS the settings have a connector, and StartTLS as configured. -/
theorem ldapConnSettings_tls {cs : LdapConnSettings Cert Ident}
    (hreq : requiresTls settings url = true) (h : ldapConnSettings o settings url = .ok cs) :
    cs.starttls = settings.useStarttls ∧ ∃ tls, cs.connector = some tls ∧
      BuiltFrom o settings tls.builder := by
  unfold ldapConnSettings at h
  rw [if_pos hreq] at h
  obtain ⟨b, hca, h⟩ := ok_of_result_bind h
  obtain ⟨b', hclient, h⟩ := ok_of_result_bind h
  obtain ⟨_, _, h⟩ := ok_of_result_bind h
  cases h
  exact ⟨rfl, ⟨b'⟩, rfl, builtFrom_ok hca hclient⟩

/-- Without TLS nothing is read, and no connector is handed over. -/
theorem ldapConnSettings_plain (o : Outside Cert Ident)
    (hreq : requiresTls settings url = false) : ldapConnSettings o settings url = .ok {} := by
  unfold ldapConnSettings
  rw [hreq]
  rfl

/-- What is handed to the client library is as configured. -/
theorem asConfigured_of_settings {cs : LdapConnSettings Cert Ident}
    (hcs : ldapConnSettings o settings url = .ok cs) : AsConfigured o settings url
      ⟨url, { cs with connTimeout := some settings.timeoutConnection }⟩ := by
  cases hreq : requiresTls settings url with
  | true =>
    obtain ⟨hstart, hconn⟩ := ldapConnSettings_tls hreq hcs
    exact ⟨rfl, rfl, hstart, fun _ => hconn, fun hne => absurd (requiresTls_iff.mp hreq) hne⟩
  | false =>
    obtain rfl : {} = cs := Except.ok.inj ((ldapConnSettings_plain o hreq).symm.trans hcs)
    have hno : ¬ (url.scheme = "ldaps" ∨ settings.useStarttls = true) := by
      rw [← requiresTls_iff, hreq]
      exact Bool.false_ne_true
    have hstart : settings.useStarttls = false :=
      eq_false_of_ne_true fun htrue => hno (Or.inr htrue)
    exact ⟨rfl, rfl, hstart.symm, fun h => absurd h hno, fun _ => rfl⟩

/-- **What is opened is as configured.** -/
theorem createLdapConnection_ok {h : Ldap Cert Ident}
    (hc : createLdapConnection o settings url = .ok h) : AsConfigured o settings url h := by
  obtain ⟨cs, hcs, hc⟩ := ok_of_result_bind hc
  simp only at hc
  split at hc
  · cases hc
    exact asConfigured_of_settings hcs
  · cases hc

end

end VkLdapConnection

/-! ### The pools -/

/-- What holds of the queued connections, and of every one a successful attempt
opens in this epoch, holds of the queue afterwards. -/
theorem ConnectionQueue.openConnections_opened {server : VkLdapServer}
    {settings : VkConnectionSettings} {connect : ℕ → Result Unit}
    (P : VkLdapConnection → Prop) :
    ∀ (n k : ℕ) (q : ConnectionQueue) (j : Journal), (∀ c ∈ q.queue, P c) →
      (∀ k, connect k = .ok () → ∀ c, c.url = server.url → c.settings = settings → P c) →
      ∀ c ∈ (openConnections server settings connect n k q j).1.queue, P c
  | 0, _, _, _, hq, _ => hq
  | n + 1, k, q, j, hq, hnew => by
    unfold openConnections
    split
    · rename_i hk
      refine openConnections_opened P n (k + 1) _ _ (fun c hc => ?_) hnew
      rcases List.mem_cons.mp hc with rfl | hc
      · exact hnew k hk _ rfl rfl
      · exact hq c hc
    · simp [closeConnections]

namespace Pool

variable {P : VkLdapConnection → Prop} {p q : Pool}

/-- `P` holds of the connections that wait in the pool. -/
def All (P : VkLdapConnection → Prop) (p : Pool) : Prop := ∀ c ∈ p.queue.queue, P c

theorem all_reset {settings : VkConnectionSettings} {connect : ℕ → Result Unit}
    (hnew : ∀ k, connect k = .ok () →
      ∀ c, c.url = p.server.url → c.settings = settings → P c) :
    (p.reset settings connect).1.All P :=
  ConnectionQueue.openConnections_opened P _ _ _ _ (fun c hc => by cases hc) hnew

theorem all_refreshConnections {settings : VkConnectionSettings} {connect : ℕ → Result Unit}
    (hnew : ∀ k, connect k = .ok () →
      ∀ c, c.url = p.server.url → c.settings = settings → P c) :
    (p.refreshConnections settings connect).1.All P := by
  rw [refreshConnections_fst]
  exact all_reset hnew

theorem All.takeConnection {c : VkLdapPoolConnection} (h : p.All P)
    (ht : p.takeConnection = some (c, q)) : q.All P ∧ P c.conn := by
  obtain ⟨hq, -, -, -⟩ := takeConnection_eq ht
  refine ⟨fun d hd => h d ?_, h c.conn ?_⟩
  · rw [hq]
    exact List.mem_append_left _ hd
  · rw [hq]
    exact List.mem_append_right _ List.mem_cons_self

theorem All.returnConnection {c : VkLdapPoolConnection} (h : p.All P) (hc : P c.conn) :
    (p.returnConnection c).All P := by
  unfold Pool.returnConnection
  simp only
  split
  · intro d hd
    rcases List.mem_cons.mp hd with rfl | hd
    · exact hc
    · exact h d hd
  · exact h

theorem all_shutdown (ht : p.shutdown = some q) : q.All P := by
  unfold shutdown at ht
  split at ht
  · obtain rfl := Option.some.inj ht
    exact fun c hc => by cases hc
  · cases ht

end Pool

namespace System

open Runs VkLdapConnection

/-! ### Where connections are -/

section
variable {P : VkLdapConnection → Prop} {m m' : Mem}

def Mem.All (P : VkLdapConnection → Prop) (m : Mem) : Prop :=
  ∀ (k : ℕ) (p : Pool), m.pools[k]? = some p → p.All P

/-- `P` holds of the connection the task holds. -/
def Task.All (P : VkLdapConnection → Prop) (t : Task) : Prop := ∀ c, t.conn? = some c → P c.conn

/-- `P` holds of the connections of the pool about to be listed. -/
def Main.All (P : VkLdapConnection → Prop) : Main → Prop
  | .listing _ pool _ => pool.All P
  | _ => True

/-- `P` holds of every connection there is: in a pool of this list or of an
earlier one, in the pool about to be listed, and in the hands of a task. -/
structure State.All (P : VkLdapConnection → Prop) (s : State) : Prop where
  mem : s.mem.All P
  tasks : ∀ t ∈ s.tasks, t.All P
  main : s.main.All P

theorem Mem.All.setPool {k : ℕ} {p : Pool} (h : m.All P) (hp : p.All P) :
    (m.setPool k p).All P := by
  intro i q hq
  rcases Mem.setPool_cases hq with ⟨-, rfl⟩ | ⟨-, hq⟩
  · exact hp
  · exact h i q hq

/-- A task that resets no pool has its connections from the pools. -/
theorem Task.Move.all {t : Task} {next : Next Task} (h : t.Move m m' next)
    (hr : t.reset? = none) (hm : m.All P) (ht : t.All P) : m'.All P ∧
      ∀ t' spawned, next = .go t' spawned → t'.All P ∧ ∀ u ∈ spawned, u.All P := by
  -- a task that goes on with no connection in its hands
  have hfree {t₁ : Task} (hn : t₁.conn? = none) : ∀ t' spawned,
      Next.go t₁ [] = .go t' spawned → t'.All P ∧ ∀ u ∈ spawned, u.All P := by
    intro t' spawned he
    cases he
    exact ⟨fun c hc => (by rw [hn] at hc; cases hc), fun u hu => by cases hu⟩
  have hholds {t₁ : Task} {c : VkLdapPoolConnection} (hc : t₁.conn? = some c) (hP : P c.conn) :
      t₁.All P := by
    intro d hd
    obtain rfl : c = d := Option.some.inj (hc.symm.trans hd)
    exact hP
  have hgo {t₁ : Task} {c : VkLdapPoolConnection} (hc : t₁.conn? = some c) (hP : P c.conn) :
      ∀ t' spawned, Next.go t₁ [] = .go t' spawned → t'.All P ∧ ∀ u ∈ spawned, u.All P := by
    intro t' spawned he
    cases he
    exact ⟨hholds hc hP, fun u hu => by cases hu⟩
  have hret {t₁ : Task} {pool : ℕ} {c : VkLdapPoolConnection} (hn : t₁.conn? = none)
      (hP : P c.conn) : ∀ t' spawned, Next.go t₁ [.ret pool c] = .go t' spawned →
        t'.All P ∧ ∀ u ∈ spawned, u.All P := by
    intro t' spawned he
    cases he
    refine ⟨fun d hd => (by rw [hn] at hd; cases hd), fun u hu => ?_⟩
    obtain rfl := List.mem_singleton.mp hu
    exact hholds rfl hP
  have hpanic : ∀ t' spawned, (Next.panic : Next Task) = .go t' spawned →
      t'.All P ∧ ∀ u ∈ spawned, u.All P := by
    intro t' spawned he
    cases he
  cases h with
  | take hp _ hc =>
    obtain ⟨hq, hP⟩ := (hm _ _ hp).takeConnection hc
    exact ⟨hm.setPool hq, hgo rfl hP⟩
  | ldapFailed => exact ⟨hm, hret rfl (ht _ rfl)⟩
  | ldap => exact ⟨hm, hret rfl (ht _ rfl)⟩
  | checkTake hp _ hc =>
    obtain ⟨hq, hP⟩ := (hm _ _ hp).takeConnection hc
    exact ⟨hm.setPool hq, hgo rfl hP⟩
  | checkLost => exact ⟨hm, hpanic⟩
  | ping => exact ⟨hm, hgo rfl (ht _ rfl)⟩
  | giveBack => exact ⟨hm, hgo rfl (ht _ rfl)⟩
  | giveBackLost => exact ⟨hm, hpanic⟩
  | put hp => exact ⟨hm.setPool ((hm _ _ hp).returnConnection (ht _ rfl)), hfree rfl⟩
  | refreshLost => exact ⟨hm, hpanic⟩
  | refreshReset => cases hr
  | ret hp => exact ⟨hm.setPool ((hm _ _ hp).returnConnection (ht _ rfl)), hfree rfl⟩
  | shutdown _ _ hs => exact ⟨hm.setPool (Pool.all_shutdown hs), hfree rfl⟩
  | _ => exact ⟨hm, hfree rfl⟩

theorem Main.all_refreshNext (rest : List VkLdapServer) : (Main.refreshNext rest).All P := by
  cases rest <;> trivial

/-- The main thread's moves that open no connection. -/
theorem Main.Move.all {main main' : Main} {spawned : List Task}
    (h : main.Move m m' main' spawned) (hr : main.reset? = none)
    (ho : ∀ server settings urls, main ≠ .opening server settings urls) (hm : m.All P)
    (hmain : main.All P) : m'.All P ∧ main'.All P ∧ ∀ u ∈ spawned, u.All P := by
  have hnil : ∀ u ∈ ([] : List Task), u.All P := fun u hu => by cases hu
  cases h with
  | clear =>
    refine ⟨hm, trivial, fun u hu => ?_⟩
    obtain rfl := List.mem_singleton.mp hu
    exact fun c hc => by cases hc
  | opened => exact absurd rfl (ho _ _ _)
  | list =>
    refine ⟨fun k p hp => ?_, trivial, hnil⟩
    rcases Mem.listServer_cases hp with hp | ⟨-, rfl⟩
    · exact hm k p hp
    · exact hmain
  | read => exact ⟨hm, Main.all_refreshNext _, hnil⟩
  | refreshReset => cases hr
  | refreshReport => exact ⟨hm, Main.all_refreshNext _, hnil⟩
  | _ => exact ⟨hm, trivial, hnil⟩

end

/-! ### Steps that connect -/

/-- What a step opens connections to, and with which settings. -/
def State.dials (s : State) : Act → Option (Url × VkConnectionSettings)
  | .task i _ =>
    match s.tasks[i]? with
    | some (.check server (.connect settings)) => some (server.url, settings)
    | some (.check _ (.refresh (.reset pool settings))) =>
      s.mem.pools[pool]?.map fun p => (p.server.url, settings)
    | _ => none
  | .main _ =>
    match s.main with
    | .opening server settings _ => some (server.url, settings)
    | .refreshing _ (.reset pool settings) _ =>
      s.mem.pools[pool]?.map fun p => (p.server.url, settings)
    | _ => none
  | _ => none

/-- The step with these outcomes of its attempts to connect. -/
def Act.withConnect (connect : ℕ → Result Unit) : Act → Act
  | .task i net => .task i { net with connect }
  | .main net => .main { net with connect }
  | a => a

/-- Every successful attempt of the step opens connections with `P`. -/
def State.Opens (P : VkLdapConnection → Prop) (s : State) (a : Act)
    (connect : ℕ → Result Unit) : Prop :=
  ∀ x, s.dials a = some x → ∀ k, connect k = .ok () →
    ∀ c : VkLdapConnection, c.url = x.1 → c.settings = x.2 → P c

section
variable {P : VkLdapConnection → Prop} {s s' : State} {connect : ℕ → Result Unit}

theorem opens_task {i : ℕ} {net : Net} (hs : s.All P) (ho : s.Opens P (.task i net) connect)
    (h : s.step (.task i { net with connect }) = some s') : s'.All P := by
  obtain ⟨t, m', ht, hmove⟩ := State.step_task h
  have hmem := List.mem_of_getElem? ht
  cases hr : t.reset? with
  | none =>
    rcases hmove with ⟨t', spawned, hmove, rfl⟩ | ⟨hmove, rfl⟩
    · obtain ⟨hm, hgo⟩ := hmove.all hr hs.mem (hs.tasks t hmem)
      obtain ⟨ht', hspawned⟩ := hgo t' spawned rfl
      refine ⟨hm, fun u hu => ?_, hs.main⟩
      rcases List.mem_append.mp hu with hu | hu
      · rcases List.mem_or_eq_of_mem_set hu with hu | rfl
        · exact hs.tasks u hu
        · exact ht'
      · exact hspawned u hu
    · exact ⟨(hmove.all hr hs.mem (hs.tasks t hmem)).1,
        fun u hu => hs.tasks u (List.mem_filter.mp hu).1, hs.main⟩
  | some x =>
    obtain ⟨pool, settings⟩ := x
    obtain ⟨server, rfl⟩ := Task.reset?_eq hr
    obtain ⟨p, hp, rfl⟩ := State.step_reset ht h
    have hdials : s.dials (.task i net) = some (p.server.url, settings) := by
      simp only [State.dials, ht, hp, Option.map_some]
    refine ⟨hs.mem.setPool (Pool.all_refreshConnections (ho _ hdials)), fun u hu => ?_, hs.main⟩
    rcases List.mem_or_eq_of_mem_set hu with hu | rfl
    · exact hs.tasks u hu
    · exact fun c hc => by cases hc

theorem openServer_all {n : ℕ} {server : VkLdapServer} {settings : VkConnectionSettings}
    (hnew : ∀ k, connect k = .ok () →
      ∀ c : VkLdapConnection, c.url = server.url → c.settings = settings → P c) :
    (openServer n server settings connect).2.All P := by
  rw [openServer_snd]
  exact Pool.all_reset hnew

theorem opens_main {net : Net} (hs : s.All P) (ho : s.Opens P (.main net) connect)
    (h : s.step (.main { net with connect }) = some s') : s'.All P := by
  obtain ⟨m', main, spawned, hmove, hs'⟩ := State.step_main h
  cases hr : s.main.reset? with
  | some x =>
    obtain ⟨pool, settings⟩ := x
    obtain ⟨server, rest, hmain⟩ := Main.reset?_eq hr
    obtain ⟨p, hp, hmem, htasks⟩ := State.step_main_reset hmain h
    have hdials : s.dials (.main net) = some (p.server.url, settings) := by
      simp only [State.dials, hmain, hp, Option.map_some]
    refine ⟨?_, ?_, ?_⟩
    · rw [hmem]
      exact hs.mem.setPool (Pool.all_refreshConnections (ho _ hdials))
    · rw [htasks]
      exact hs.tasks
    · rw [hs']
      rw [hmain] at hmove
      cases hmove
      trivial
  | none =>
    by_cases hopen : ∃ server settings urls, s.main = .opening server settings urls
    · obtain ⟨server, settings, urls, hmain⟩ := hopen
      have hdials : s.dials (.main net) = some (server.url, settings) := by
        simp only [State.dials, hmain]
      simp only [State.step, hmain, Main.step] at h
      split at h
      · rename_i m' main' spawned' hopened
        obtain rfl := Option.some.inj h
        split at hopened <;> cases hopened
        · exact ⟨hs.mem, fun u hu => hs.tasks u (by simpa using hu), trivial⟩
        · exact ⟨hs.mem, fun u hu => hs.tasks u (by simpa using hu), openServer_all (ho _ hdials)⟩
      · cases h
    · subst hs'
      obtain ⟨hm, hmain, hspawned⟩ := hmove.all hr
        (fun server settings urls he => hopen ⟨server, settings, urls, he⟩) hs.mem hs.main
      refine ⟨hm, fun u hu => ?_, hmain⟩
      rcases List.mem_append.mp hu with hu | hu
      · exact hs.tasks u hu
      · exact hspawned u hu

theorem opens_other {a : Act} (hs : s.All P) (h : s.Other a s') : s'.All P := by
  refine ⟨h.mem_eq ▸ hs.mem, ?_, ?_⟩
  · cases h with
    | submit =>
      intro u hu
      rcases List.mem_append.mp hu with hu | hu
      · exact hs.tasks u hu
      · obtain rfl := List.mem_singleton.mp hu
        exact fun c hc => by cases hc
    | iterate =>
      intro u hu
      rcases List.mem_append.mp hu with hu | hu
      · exact hs.tasks u hu
      · obtain ⟨e, -, rfl⟩ := List.mem_map.mp hu
        exact fun c hc => by cases hc
    | deliver => exact fun u hu => hs.tasks u (List.mem_filter.mp hu).1
    | _ => exact hs.tasks
  · cases h with
    | setServers => trivial
    | setConnectionSettings => trivial
    | _ => exact hs.main

/-- **What a step opens is all that is new.** -/
theorem opens_step {a : Act} (hs : s.All P) (ho : s.Opens P a connect)
    (h : s.step (a.withConnect connect) = some s') : s'.All P := by
  cases a with
  | task i net => exact opens_task hs ho h
  | main net => exact opens_main hs ho h
  | _ => exact opens_other hs (State.step_other h (fun _ _ h => by cases h) fun _ h => by cases h)

end

/-! ### Runs -/

/-- A round of attempts to connect to one server with the same settings. -/
structure Round (Cert Ident : Type) where
  url : Url
  settings : VkConnectionSettings
  outside : ℕ → Outside Cert Ident

namespace Round

/-- The outcomes, attempt by attempt. -/
def connect (r : Round Cert Ident) : ℕ → Result Unit :=
  fun k => (createLdapConnection (r.outside k) r.settings r.url).map fun _ => ()

/-- An attempt of this round opened the connection, as configured. -/
def Opened (r : Round Cert Ident) (c : VkLdapConnection) : Prop :=
  c.url = r.url ∧ c.settings = r.settings ∧
    ∃ k h, createLdapConnection (r.outside k) c.settings c.url = .ok h ∧
      AsConfigured (r.outside k) c.settings c.url h

theorem opened_of_connect {r : Round Cert Ident} {k : ℕ} (h : r.connect k = .ok ())
    {c : VkLdapConnection} (hurl : c.url = r.url) (hset : c.settings = r.settings) :
    r.Opened c := by
  refine ⟨hurl, hset, k, ?_⟩
  rw [hurl, hset]
  unfold connect at h
  cases hc : createLdapConnection (r.outside k) r.settings r.url with
  | error err => rw [hc] at h; cases h
  | ok handle => exact ⟨handle, rfl, createLdapConnection_ok hc⟩

end Round

/-- A step, and what its attempts to connect meet. -/
abbrev Wired (Cert Ident : Type) := Act × (ℕ → Outside Cert Ident)

/-- The round of attempts that the step makes, if it makes any. -/
def State.round? (s : State) (x : Wired Cert Ident) : Option (Round Cert Ident) :=
  (s.dials x.1).map fun d => { url := d.1, settings := d.2, outside := x.2 }

/-- The step's attempts to connect as they come out; where it makes none, the
outcomes do not matter. -/
def State.act (s : State) (x : Wired Cert Ident) : Act :=
  x.1.withConnect (((s.round? x).map (·.connect)).getD fun _ => .ok ())

def State.stepWired (s : State) (x : Wired Cert Ident) : Option State := s.step (s.act x)

/-- The rounds for the first list. -/
def firstRounds (cs : VkConnectionSettings) (servers : List (Url × (ℕ → Outside Cert Ident))) :
    List (Round Cert Ident) :=
  servers.map fun x => { url := x.1, settings := cs, outside := x.2 }

def State.bootedWired (ls : VkLdapSettings) (cs : VkConnectionSettings)
    (servers : List (Url × (ℕ → Outside Cert Ident))) : State :=
  State.booted ls cs ((firstRounds cs servers).map fun r => (r.url, r.connect))

/-- All rounds of a run. -/
def rounds (cs : VkConnectionSettings) (servers : List (Url × (ℕ → Outside Cert Ident)))
    (tr : List (State × Wired Cert Ident)) : List (Round Cert Ident) :=
  firstRounds cs servers ++ tr.filterMap fun x => x.1.round? x.2

/-- One of these rounds opened the connection. -/
def Traced (rs : List (Round Cert Ident)) (c : VkLdapConnection) : Prop := ∃ r ∈ rs, r.Opened c

theorem Traced.append {rs : List (Round Cert Ident)} {c : VkLdapConnection} (h : Traced rs c)
    (rs' : List (Round Cert Ident)) : Traced (rs ++ rs') c := by
  obtain ⟨r, hr, hc⟩ := h
  exact ⟨r, List.mem_append_left _ hr, hc⟩

theorem State.All.imp {P Q : VkLdapConnection → Prop} {s : State} (h : s.All P)
    (hi : ∀ c, P c → Q c) : s.All Q := by
  refine ⟨fun k p hp c hc => hi c (h.mem k p hp c hc),
    fun t ht c hc => hi c.conn (h.tasks t ht c hc), ?_⟩
  have hmain := h.main
  cases hs : s.main with
  | listing server pool urls =>
    rw [hs] at hmain
    exact fun c hc => hi c (hmain c hc)
  | _ => trivial

theorem rounds_snoc (cs : VkConnectionSettings)
    (servers : List (Url × (ℕ → Outside Cert Ident)))
    (tr : List (State × Wired Cert Ident)) (s : State) (x : Wired Cert Ident) :
    rounds cs servers (tr ++ [(s, x)]) = rounds cs servers tr ++ (s.round? x).toList := by
  unfold rounds
  rw [List.filterMap_append, ← List.append_assoc]
  cases h : s.round? x <;> simp [h]

/-- A step opens connections in the round it makes. -/
theorem traced_step {s s' : State} {x : Wired Cert Ident} {rs : List (Round Cert Ident)}
    (hs : s.All (Traced rs)) (h : s.stepWired x = some s') :
    s'.All (Traced (rs ++ (s.round? x).toList)) := by
  refine opens_step (hs.imp fun c hc => hc.append _) ?_ h
  intro d hd k hk c hurl hset
  have hround : s.round? x = some { url := d.1, settings := d.2, outside := x.2 } := by
    rw [State.round?, hd, Option.map_some]
  rw [hround, Option.map_some, Option.getD_some] at hk
  rw [hround]
  exact ⟨_, List.mem_append_right _ List.mem_cons_self,
    Round.opened_of_connect hk hurl hset⟩

/-- The pools of the first list are opened in its rounds. -/
theorem traced_foldl (rs : List (Round Cert Ident)) (cs : VkConnectionSettings) :
    ∀ (l : List (Round Cert Ident)) (m : Mem), m.All (Traced rs) →
      m.ctx.connectionSettings = cs → (∀ r ∈ l, r ∈ rs ∧ r.settings = cs) →
      (l.foldl (fun m r => m.addServer r.url r.connect) m).All (Traced rs) := by
  intro l
  induction l with
  | nil => exact fun m hm _ _ => hm
  | cons r l ih =>
    intro m hm hcs hl
    obtain ⟨hr, hset⟩ := hl r List.mem_cons_self
    refine ih _ (fun k p hp => ?_) hcs fun x hx => hl x (List.mem_cons_of_mem _ hx)
    rcases Mem.listServer_cases hp with hp | ⟨-, rfl⟩
    · exact hm k p hp
    · refine openServer_all fun i hi c hurl hc => ?_
      exact ⟨r, hr, Round.opened_of_connect hi hurl (by rw [hc, hcs, hset])⟩

theorem traced_booted (ls : VkLdapSettings) (cs : VkConnectionSettings)
    (servers : List (Url × (ℕ → Outside Cert Ident))) :
    (State.bootedWired ls cs servers).All (Traced (firstRounds cs servers)) := by
  have hfold := traced_foldl (firstRounds cs servers) cs (firstRounds cs servers)
    (State.init ls cs).mem (fun k p hp => by simp [State.init] at hp) rfl fun r hr => ⟨hr, by
      obtain ⟨x, -, rfl⟩ := List.mem_map.mp hr
      rfl⟩
  refine ⟨?_, fun t ht => (by cases ht), trivial⟩
  unfold State.bootedWired State.booted
  simp only [List.foldl_map]
  exact hfold

theorem traced_run {ls : VkLdapSettings} {cs : VkConnectionSettings}
    {servers : List (Url × (ℕ → Outside Cert Ident))} {tr : List (State × Wired Cert Ident)}
    {t : State} (h : Run State.stepWired (State.bootedWired ls cs servers) tr t) :
    t.All (Traced (rounds cs servers tr)) := by
  refine h.history (I := fun tr t => t.All (Traced (rounds cs servers tr))) steps_true ?_ ?_
  · have hnil : rounds cs servers [] = firstRounds cs servers := List.append_nil _
    rw [hnil]
    exact traced_booted ls cs servers
  · intro pre s x s' hs _ hstep
    rw [rounds_snoc]
    exact traced_step hs hstep

/-- **Every connection was opened as configured.** In every run, whatever lists
and settings are set, files change and attempts fail on the way: each connection
in a pool, in the pool about to be listed or in a task's hands was opened by an
attempt made to its URL with its settings, which gave the library a connector
exactly if these ask for TLS, with the certificates they name. -/
theorem connections_open_as_configured (ls : VkLdapSettings) (cs : VkConnectionSettings)
    (servers : List (Url × (ℕ → Outside Cert Ident))) (tr : List (State × Wired Cert Ident))
    (t : State) (h : Run State.stepWired (State.bootedWired ls cs servers) tr t) :
    t.All (Traced (rounds cs servers tr)) := by
  exact traced_run h

/-- The certificate file is there; the server accepts every connection. -/
def reachable : Outside (List UInt8) (List UInt8) where
  read path := if path = "ca.pem" then .ok [67, 65] else .error "No such file or directory"
  fromPem bytes := .ok bytes
  fromPkcs8 certBytes keyBytes := .ok (certBytes ++ keyBytes)
  build _ := .ok ()
  connect _ _ := .ok ()

/-- The server refuses StartTLS. -/
def noStartTls : Outside (List UInt8) (List UInt8) :=
  { reachable with connect := fun _ _ => .error ⟨.other, "no StartTLS"⟩ }

/-- An operation works on a connection while `CONFIG SET` switches StartTLS on,
which the server refuses. -/
def startTlsRefused : List (Wired (List UInt8) (List UInt8)) :=
  [(.submit, fun _ => reachable), (.task 0 {}, fun _ => reachable),
    (.task 0 {}, fun _ => reachable),
    (.setConnectionSettings { useStarttls := true, connectionPoolSize := 1 }, fun _ => reachable),
    (.main {}, fun _ => reachable), (.main {}, fun _ => reachable),
    (.main {}, fun _ => reachable), (.main {}, fun _ => noStartTls)]

def oneTls : State :=
  State.bootedWired {} { caCertPath := some "ca.pem", connectionPoolSize := 1 }
    [("ldaps://a", fun _ => reachable)]

theorem connections_open_as_configured_ldaps : ∃ tr t server conn,
    Run State.stepWired oneTls tr t ∧ tr.length = 8 ∧
      .op (.ldap server 0 conn) ∈ t.tasks ∧
      t.All (Traced (rounds { caCertPath := some "ca.pem", connectionPoolSize := 1 }
        [("ldaps://a", fun _ => reachable)] tr)) := by
  obtain ⟨t, ht, server, conn, htasks⟩ : ∃ t, exec State.stepWired oneTls startTlsRefused = some t ∧
      ∃ server conn, .op (.ldap server 0 conn) ∈ t.tasks :=
    ⟨_, rfl, _, _, List.mem_cons_self⟩
  exact ⟨_, t, server, conn, exec_run ht, rfl, htasks,
    connections_open_as_configured {} _ _ _ t (exec_run ht)⟩

/-! ### The settings in force -/

/-- What a healthy server's pool holds, and what its operations work on in this
epoch, was opened to that server as the settings stored say. -/
def State.TlsInForce (s : State) (rs : List (Round Cert Ident)) : Prop :=
  ∀ (i : ℕ) (e : VkLdapServer), s.mem.ctx.servers[i]? = some e → e.status = .healthy →
    ∃ (k : ℕ) (p : Pool), s.mem.ctx.connPools[i]? = some k ∧ s.mem.pools[k]? = some p ∧
      ∀ c, (c ∈ p.queue.queue ∨ ∃ server conn, .op (.ldap server k conn) ∈ s.tasks ∧
          conn.fromEpoch = p.queue.epoch ∧ conn.conn = c) →
        c.url = e.url ∧ c.settings = s.mem.ctx.connectionSettings ∧ Traced rs c

theorem Kept.tlsInForce {n : ℕ} {s : State} {rs : List (Round Cert Ident)} (hk : s.Kept n)
    (hall : s.All (Traced rs)) (hq : s.NoRefresh) : s.TlsInForce rs := by
  intro i e he hst
  obtain ⟨k, p, htable, hp, hqueued, hout, -⟩ := Kept.settingsKept hk hq i e he hst
  refine ⟨k, p, htable, hp, ?_⟩
  have hown := hk.fixed.custody.own
  -- the pool at the server's position is that server's
  have hserver : p.server.url = e.url := by
    obtain ⟨-, k', p', hk', hp', -, hurl⟩ := hown.aligned.1.entry i e he
    obtain rfl : k = k' := Option.some.inj (htable.symm.trans hk')
    obtain rfl : p = p' := Option.some.inj (hp.symm.trans hp')
    exact hurl
  rintro c (hc | ⟨server, conn, ht, hepoch, rfl⟩)
  · exact ⟨((hown.pools k p hp c hc).2).trans hserver, hqueued c hc, hall.mem k p hp c hc⟩
  · obtain ⟨hpool, -, hopened⟩ := hown.tasks _ ht
    have hmem : conn ∈ p.out :=
      mem_out_of_handedOut hp hpool (hk.fixed.custody.handedOut ht conn rfl)
    have hurl := (returned_own hown.aligned.1 hp hpool hopened).2
    exact ⟨hurl.trans hserver, hout conn hmem hepoch, hall.tasks _ ht conn rfl⟩

/-- **The TLS options are in force.** In every run over a fixed list in which no
check puts old settings back, and no server is marked healthy whose pool is
down, of another size and left so: when no refresh is in progress, whatever a
healthy server is asked over was opened to it as the settings stored say. -/
theorem tls_in_force (ls : VkLdapSettings) (cs : VkConnectionSettings)
    (servers : List (Url × (ℕ → Outside Cert Ident))) (hs : 1 ≤ cs.connectionPoolSize)
    (tr : List (State × Wired Cert Ident)) (t : State)
    (h : Run State.stepWired (State.bootedWired ls cs servers) tr t)
    (hfixed : Steps (fun s x => FixedList s (s.act x)) tr)
    (hreset : Steps (fun s x => FreshReset s (s.act x)) tr)
    (hmark : Steps (fun s x => SizedMark s (s.act x)) tr) (hq : t.NoRefresh) :
    t.TlsInForce (rounds cs servers tr) := by
  have hkept := h.invariant ((hfixed.and hreset).and hmark)
    (kept_booted ls cs ((firstRounds cs servers).map fun r => (r.url, r.connect)) hs)
    fun _ _ _ hk hg hstep => kept_step hk hg.1.1 hg.1.2 hg.2 hstep
  exact Kept.tlsInForce hkept (traced_run h) hq

def onePlain : State :=
  State.bootedWired {} { connectionPoolSize := 1 } [("ldap://a", fun _ => reachable)]

/-- StartTLS is switched on, then an operation takes a connection. -/
def startTlsThenSubmit : List (Wired (List UInt8) (List UInt8)) :=
  [(.setConnectionSettings
      { useStarttls := true, caCertPath := some "ca.pem", connectionPoolSize := 1 },
    fun _ => reachable), (.main {}, fun _ => reachable), (.main {}, fun _ => reachable),
    (.main {}, fun _ => reachable), (.main {}, fun _ => reachable), (.main {}, fun _ => reachable),
    (.submit, fun _ => reachable), (.task 0 {}, fun _ => reachable),
    (.task 0 {}, fun _ => reachable)]

theorem tls_in_force_startTls : ∃ tr t server conn, Run State.stepWired onePlain tr t ∧
    tr.length = 9 ∧ t.mem.ctx.connectionSettings.useStarttls = true ∧
    .op (.ldap server 0 conn) ∈ t.tasks ∧
    t.TlsInForce (rounds { connectionPoolSize := 1 } [("ldap://a", fun _ => reachable)] tr) := by
  obtain ⟨t, ht, htls, hmain, server, conn, htasks⟩ : ∃ t,
      exec State.stepWired onePlain startTlsThenSubmit = some t ∧
        t.mem.ctx.connectionSettings.useStarttls = true ∧ t.main = .idle ∧
        ∃ server conn, t.tasks = [.op (.ldap server 0 conn)] := ⟨_, rfl, rfl, rfl, _, _, rfl⟩
  have hreset : (trace State.stepWired onePlain startTlsThenSubmit).all (fun x =>
      x.1.tasks.all fun u => u.reset?.isNone) = true := by decide +kernel
  have hmark : (trace State.stepWired onePlain startTlsThenSubmit).all (fun x =>
      (x.1.marksHealthy (x.1.act x.2)).all fun y =>
        x.1.mem.pools[y.1]?.all fun p => p.resetOk) = true := by
    decide +kernel
  refine ⟨_, t, server, conn, exec_run ht, rfl, htls, by rw [htasks]; exact List.mem_cons_self,
    tls_in_force {} { connectionPoolSize := 1 } _ (Nat.le_refl 1) _ t (exec_run ht) ?_ ?_
      (fun x hx y hy p hp => ?_) ⟨hmain, ?_⟩⟩
  · rintro ⟨s, x⟩ hx
    have ha : x ∈ startTlsThenSubmit := mem_of_trace hx
    simp only [startTlsThenSubmit, List.mem_cons, List.not_mem_nil, or_false] at ha
    rcases ha with rfl | rfl | rfl | rfl | rfl | rfl | rfl | rfl | rfl
    all_goals first | trivial | exact Nat.le_refl 1
  · rintro ⟨s, ⟨a, outside⟩⟩ hx
    cases a with
    | task i net =>
      intro y hy
      obtain ⟨u, hu, hy⟩ := Option.bind_eq_some_iff.mp hy
      have := List.all_eq_true.mp (List.all_eq_true.mp hreset _ hx) u (List.mem_of_getElem? hu)
      rw [hy] at this
      cases this
    | _ => trivial
  · have := List.all_eq_true.mp hmark x hx
    rw [hy] at this
    simp only [Option.all_some, hp] at this
    exact Or.inr (Or.inl this)
  · intro e r he
    rw [htasks] at he
    cases List.mem_singleton.mp he

end System
end ValkeyLdap
