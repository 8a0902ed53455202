/-
# The options and what is made of them

`src/configs.rs` and the table of options in `src/lib.rs`: the options of the
module, what is read of them, and which hook runs when one of them is set. The
context holds a copy of the LDAP settings and of the connection settings, the
failure detector its interval, the mutex of the exempted users a compiled
pattern, and the server table the parsed list; the hooks keep these copies,
each through a sync task that `CONFIG SET` waits for.

Valkey sets an option only to a value in its range. Where a set callback
returns an error it puts the old value back, for which it may run the callback
again. `Url::parse` and `Regex::new` are parameters.

`configuration_in_force`: between two `CONFIG SET`s, whatever else runs, every
copy is the one of the options as they are. So no option lacks its hook.

Key theorems: `inv_step`, `configuration_in_force`.
-/
import ValkeyLdap.Auth
import ValkeyLdap.ServerList
import ValkeyLdap.Startup

namespace ValkeyLdap

/-! ### The enumerations -/

inductive LdapSearchScope
  | base
  | oneLevel
  | subTree
  deriving DecidableEq, Repr

namespace LdapSearchScope

def toI32 : LdapSearchScope → ℤ
  | .base => 1
  | .oneLevel => 2
  | .subTree => 3

def tryFrom (v : ℤ) : Except String LdapSearchScope :=
  if v = 1 then .ok .base
  else if v = 2 then .ok .oneLevel
  else if v = 3 then .ok .subTree
  else .error "Value is not supported"

def toScope : LdapSearchScope → Scope
  | .base => .base
  | .oneLevel => .oneLevel
  | .subTree => .subtree

theorem tryFrom_eq_ok {v : ℤ} {scope : LdapSearchScope} : tryFrom v = .ok scope ↔ v = scope.toI32 := by
  unfold tryFrom
  cases scope <;> simp only [toI32] <;> split_ifs <;> simp <;> omega

end LdapSearchScope

namespace LdapAuthMode

def toI32 : LdapAuthMode → ℤ
  | .bind => 1
  | .searchAndBind => 2

def tryFrom (v : ℤ) : Except String LdapAuthMode :=
  if v = 1 then .ok .bind
  else if v = 2 then .ok .searchAndBind
  else .error "Value is not supported"

theorem tryFrom_eq_ok {v : ℤ} {mode : LdapAuthMode} : tryFrom v = .ok mode ↔ v = mode.toI32 := by
  unfold tryFrom
  cases mode <;> simp only [toI32] <;> split_ifs <;> simp <;> omega

end LdapAuthMode

/-! ### The options -/

inductive StringOption
  | servers
  | bindDnPrefix
  | bindDnSuffix
  | tlsCaCertPath
  | tlsCertPath
  | tlsKeyPath
  | searchBase
  | searchFilter
  | searchAttribute
  | searchBindDn
  | searchBindPasswd
  | searchDnAttribute
  | groupsSearchBase
  | groupsFilter
  | groupsMemberAttribute
  | groupsNameAttribute
  | groupsRulesAttribute
  | groupAclUserMap
  | groupAclRulesMap
  | defaultAclRules
  | exemptedUsersRegex
  deriving DecidableEq, Repr

inductive IntOption
  | connectionPoolSize
  | failureDetectorInterval
  | timeoutConnection
  | timeoutLdapOperation
  deriving DecidableEq, Repr

namespace IntOption

def min : IntOption → ℤ
  | .connectionPoolSize => 1
  | _ => 0

def max : IntOption → ℤ
  | .connectionPoolSize => 8192
  | _ => 9223372036854775807

/-- A value in the range of the option. -/
structure Value (o : IntOption) where
  n : ℤ
  min_le : o.min ≤ n
  le_max : n ≤ o.max

def default : (o : IntOption) → o.Value
  | .connectionPoolSize => ⟨2, by decide, by decide⟩
  | .failureDetectorInterval => ⟨1, by decide, by decide⟩
  | .timeoutConnection => ⟨10, by decide, by decide⟩
  | .timeoutLdapOperation => ⟨10, by decide, by decide⟩

end IntOption

structure Options where
  string : StringOption → ValkeyString
  int : (o : IntOption) → o.Value
  useStarttls : Bool
  aclFallbackEnabled : Bool
  authMode : LdapAuthMode
  searchScope : LdapSearchScope

namespace StringOption

def default : StringOption → String
  | .bindDnPrefix => "cn="
  | .searchFilter => "objectClass=*"
  | .searchAttribute => "uid"
  | .searchDnAttribute => "entryDN"
  | .groupsFilter => "objectClass=groupOfNames"
  | .groupsMemberAttribute => "member"
  | .groupsNameAttribute => "cn"
  | .groupsRulesAttribute => "valkeyACL"
  | .defaultAclRules => "on resetpass"
  | _ => ""

end StringOption

/-- The options unless set. -/
def Options.default : Options where
  string := fun k => ⟨Utf8.encode k.default.toList⟩
  int := IntOption.default
  useStarttls := false
  aclFallbackEnabled := false
  authMode := .bind
  searchScope := .subTree

/-- The hook that runs when an option has been set. -/
inductive Hook
  | none
  | ldapSetting
  | connectionSetting
  | failureDetectorInterval
  deriving DecidableEq, Repr

def StringOption.onChanged : StringOption → Hook
  | .servers => .none
  | .bindDnPrefix => .ldapSetting
  | .bindDnSuffix => .ldapSetting
  | .tlsCaCertPath => .connectionSetting
  | .tlsCertPath => .connectionSetting
  | .tlsKeyPath => .connectionSetting
  | .searchBase => .ldapSetting
  | .searchFilter => .ldapSetting
  | .searchAttribute => .ldapSetting
  | .searchBindDn => .ldapSetting
  | .searchBindPasswd => .ldapSetting
  | .searchDnAttribute => .ldapSetting
  | .groupsSearchBase => .ldapSetting
  | .groupsFilter => .ldapSetting
  | .groupsMemberAttribute => .ldapSetting
  | .groupsNameAttribute => .ldapSetting
  | .groupsRulesAttribute => .ldapSetting
  | .groupAclUserMap => .ldapSetting
  | .groupAclRulesMap => .ldapSetting
  | .defaultAclRules => .ldapSetting
  | .exemptedUsersRegex => .none

def IntOption.onChanged : IntOption → Hook
  | .connectionPoolSize => .connectionSetting
  | .failureDetectorInterval => .failureDetectorInterval
  | .timeoutConnection => .connectionSetting
  | .timeoutLdapOperation => .ldapSetting

/-! ### What is read of them -/

/-- `as usize` and `as u64`, of an `i64`. -/
def asU64 (n : ℤ) : ℕ := (n % 18446744073709551616).toNat

/-- `Duration::from_secs`. -/
def fromSecs (secs : ℕ) : Duration := secs * 10 ^ 9

/-- An empty text is none. -/
def emptyNone (s : String) : Option String := if s = "" then none else some s

namespace Options

variable (o : Options)

def getString (k : StringOption) : String := (o.string k).toString

def getBindDnPrefix : String := o.getString .bindDnPrefix

def getBindDnSuffix : String := o.getString .bindDnSuffix

def getTlsCaCertPath : Option String := emptyNone (o.getString .tlsCaCertPath)

def getTlsCertPath : Option String := emptyNone (o.getString .tlsCertPath)

def getTlsKeyPath : Option String := emptyNone (o.getString .tlsKeyPath)

def isStarttlsEnabled : Bool := o.useStarttls

def isAuthEnabled : Bool := !(o.string .servers).bytes.isEmpty

def isBindMode : Bool := o.authMode == .bind

def getSearchBase : Option String := emptyNone (o.getString .searchBase)

def getSearchScope : LdapSearchScope := o.searchScope

def getSearchFilter : Option String := emptyNone (o.getString .searchFilter)

def getSearchAttribute : Option String := emptyNone (o.getString .searchAttribute)

def getSearchBindDn : Option String := emptyNone (o.getString .searchBindDn)

def getSearchBindPasswd : Option String := emptyNone (o.getString .searchBindPasswd)

def getSearchDnAttribute : String := o.getString .searchDnAttribute

def getGroupsSearchBase : Option String :=
  let base := o.getString .groupsSearchBase
  if base = "" then o.getSearchBase else some base

def getGroupsFilter : Option String := emptyNone (o.getString .groupsFilter)

def getGroupsMemberAttribute : String := o.getString .groupsMemberAttribute

def getGroupsNameAttribute : String := o.getString .groupsNameAttribute

def getGroupsRulesAttribute : String := o.getString .groupsRulesAttribute

def getConnectionPoolSize : ℕ := asU64 (o.int .connectionPoolSize).n

def getFailureDetectorIntervalSecs : ℕ := asU64 (o.int .failureDetectorInterval).n

def getTimeoutConnection : Duration := fromSecs (asU64 (o.int .timeoutConnection).n)

def getTimeoutLdapOperation : Duration := fromSecs (asU64 (o.int .timeoutLdapOperation).n)

def getExemptedUsersRegexPattern : String := o.getString .exemptedUsersRegex

/-- What `refresh_ldap_settings_cache` stores. -/
def ldapSettings : VkLdapSettings where
  bindDbPrefix := o.getBindDnPrefix
  bindDbSuffix := o.getBindDnSuffix
  searchBase := o.getSearchBase
  searchScope := o.getSearchScope.toScope
  searchFilter := o.getSearchFilter
  searchAttribute := o.getSearchAttribute
  searchBindDn := o.getSearchBindDn
  searchBindPasswd := o.getSearchBindPasswd
  searchDnAttribute := o.getSearchDnAttribute
  timeoutLdapOperation := o.getTimeoutLdapOperation
  groupsSearchBase := o.getGroupsSearchBase
  groupsFilter := o.getGroupsFilter
  groupsMemberAttribute := o.getGroupsMemberAttribute
  groupsNameAttribute := o.getGroupsNameAttribute
  groupsRulesAttribute := o.getGroupsRulesAttribute

/-- What `refresh_connection_settings_cache` stores. -/
def connectionSettings : VkConnectionSettings where
  useStarttls := o.isStarttlsEnabled
  caCertPath := o.getTlsCaCertPath
  clientCertPath := o.getTlsCertPath
  clientKeyPath := o.getTlsKeyPath
  connectionPoolSize := o.getConnectionPoolSize
  timeoutConnection := o.getTimeoutConnection

/-- What the callbacks of `AUTH` read, with the compiled pattern. -/
def authConfigs (exemptedUsersRegexCache : Option (String → Bool)) : Auth.Configs where
  ldapServerList := o.getString .servers
  ldapAuthMode := o.authMode
  ldapDefaultAclRules := o.getString .defaultAclRules
  ldapAclFallbackEnabled := o.aclFallbackEnabled
  exemptedUsersRegexCache

end Options

/-- `exempted_users_regex_set_callback`: the new pattern in the mutex, or the
error. -/
def exemptedUsersRegexSetCallback (regex : String → Except String (String → Bool))
    (pattern : String) : Except String (Option (String → Bool)) :=
  if pattern = "" then .ok none
  else match regex pattern with
    | .ok regex => .ok (some regex)
    | .error err => .error ("Invalid regex pattern: " ++ err)

namespace System
namespace Options

open Runs

/-! ### The machine -/

/-- A `CONFIG SET` of one option; an enumeration is set to a number. -/
inductive Change
  | string (k : StringOption) (v : ValkeyString)
  | int (k : IntOption) (v : k.Value)
  | useStarttls (v : Bool)
  | aclFallbackEnabled (v : Bool)
  | authMode (v : ℤ)
  | searchScope (v : ℤ)

def Change.onChanged : Change → Hook
  | .string k _ => k.onChanged
  | .int k _ => k.onChanged
  | .useStarttls _ => .connectionSetting
  | .aclFallbackEnabled _ => .none
  | .authMode _ => .none
  | .searchScope _ => .ldapSetting

/-- The options with the new value. -/
def Change.apply (o : ValkeyLdap.Options) : Change → Except String ValkeyLdap.Options
  | .string k v => .ok { o with string := Function.update o.string k v }
  | .int k v => .ok { o with int := Function.update o.int k v }
  | .useStarttls v => .ok { o with useStarttls := v }
  | .aclFallbackEnabled v => .ok { o with aclFallbackEnabled := v }
  | .authMode v => (LdapAuthMode.tryFrom v).map fun authMode => { o with authMode }
  | .searchScope v => (LdapSearchScope.tryFrom v).map fun searchScope => { o with searchScope }

/-- The options and the copies made of them: the mutex of the exempted users,
the detector's interval, and the context in the system. `storing` is the sync
task of `refresh_ldap_settings` that `CONFIG SET` waits for; those of the other
hooks are the main thread's of the system. -/
structure World where
  options : ValkeyLdap.Options
  exemptedUsersRegexCache : Option (String → Bool)
  interval : ℕ
  sys : State
  storing : Option VkLdapSettings

inductive Act
  /-- `CONFIG SET`; `again` runs the set callback for the old value put back. -/
  | set (change : Change) (again : Bool)
  /-- The sync task stores the LDAP settings. -/
  | store
  /-- Anything else goes on. -/
  | sys (a : System.Act)

namespace World

def ctx (w : World) : VkLdapContext := w.sys.mem.ctx

/-- No `CONFIG SET` waits for a sync task. -/
def Idle (w : World) : Prop := w.sys.main = .idle ∧ w.storing = none

instance (w : World) : Decidable w.Idle := by unfold Idle; infer_instance

/-- The hook that runs once the option has its new value. -/
def runHook (w : World) : Hook → World
  | .none => w
  | .ldapSetting => { w with storing := some w.options.ldapSettings }
  | .connectionSetting =>
    { w with sys := { w.sys with main := .storing w.options.connectionSettings } }
  | .failureDetectorInterval => { w with interval := w.options.getFailureDetectorIntervalSecs }

variable (parse : String → Except String Url) (regex : String → Except String (String → Bool))

/-- `ldap_server_list_set_callback`. -/
def ldapServerListSetCallback (w : World) (v : ValkeyString) : ServerList.World :=
  ServerList.processServerList parse w.sys v.toString

/-- `CONFIG SET` up to the sync task it waits for. -/
def set (w : World) (again : Bool) : Change → World
  | .string .servers v =>
    let call := w.ldapServerListSetCallback parse v
    match call.returned with
    | none =>
      { w with
        options := { w.options with string := Function.update w.options.string .servers v }
        sys := call.sys }
    | some _ =>
      if again then
        { w with sys := (w.ldapServerListSetCallback parse (w.options.string .servers)).sys }
      else w
  | .string .exemptedUsersRegex v =>
    match exemptedUsersRegexSetCallback regex v.toString with
    | .ok cache =>
      { w with
        options := { w.options with
          string := Function.update w.options.string .exemptedUsersRegex v }
        exemptedUsersRegexCache := cache }
    | .error _ => w
  | change =>
    match change.apply w.options with
    | .ok options => { w with options }.runHook change.onChanged
    | .error _ => w

def step (w : World) : Act → Option World
  | .set change again => if w.Idle then some (w.set parse regex again change) else none
  | .store => w.storing.map fun settings =>
      { w with
        sys := { w.sys with
          mem := { w.sys.mem with ctx := w.ctx.refreshLdapSettings settings } }
        storing := none }
  | .sys (.setServers _) => none
  | .sys (.setConnectionSettings _) => none
  | .sys a => (w.sys.step a).map fun sys => { w with sys }

/-- Loaded with these options: the server list about to be set, over the
settings that the load has left in the context (`Startup` says which). -/
def start (o : ValkeyLdap.Options) (exemptedUsersRegexCache : Option (String → Bool))
    (ldapSettings : VkLdapSettings) (connectionSettings : VkConnectionSettings) : World where
  options := o
  exemptedUsersRegexCache
  interval := o.getFailureDetectorIntervalSecs
  sys := (ServerList.processServerList parse (State.init ldapSettings connectionSettings)
    (o.getString .servers)).sys
  storing := none

end World

/-- Options that the set callbacks have accepted. -/
structure Accepted (parse : String → Except String Url)
    (regex : String → Except String (String → Bool)) (o : ValkeyLdap.Options)
    (cache : Option (String → Bool)) : Prop where
  servers : ¬ ServerList.Invalid parse (o.getString .servers)
  exempted : exemptedUsersRegexSetCallback regex o.getExemptedUsersRegexPattern = .ok cache

/-- What is in force is what the options say; where LDAP is on, there is a server
to ask, and a pool has room for a connection. -/
structure InForce (parse : String → Except String Url)
    (regex : String → Except String (String → Bool)) (w : World) : Prop where
  ldapSettings : w.ctx.ldapSettings = w.options.ldapSettings
  connectionSettings : w.ctx.connectionSettings = w.options.connectionSettings
  interval : w.interval = w.options.getFailureDetectorIntervalSecs
  exempted : exemptedUsersRegexSetCallback regex w.options.getExemptedUsersRegexPattern =
    .ok w.exemptedUsersRegexCache
  servers : ServerList.Parsed parse (w.options.getString .servers) (w.ctx.servers.map (·.url))
  enabled : w.options.isAuthEnabled = true ↔ w.ctx.servers ≠ []
  poolSize : 1 ≤ w.ctx.connectionSettings.connectionPoolSize ∧
    w.ctx.connectionSettings.connectionPoolSize ≤ 8192

/-! ### The invariant -/

/-- The connection settings in the context, or about to be. -/
def Stored (settings : VkConnectionSettings) (m : Mem) : Main → Prop
  | .storing new => new = settings
  | _ => m.ctx.connectionSettings = settings

/-- The URLs in the table, and those about to be; a main thread that is lost has
listed the first of them. -/
def Listed (urls : List Url) (m : Mem) : Main → Prop
  | .clearing rest => rest = urls
  | .adding rest => m.ctx.servers.map (·.url) ++ rest = urls
  | .opening server _ rest => m.ctx.servers.map (·.url) ++ server.url :: rest = urls
  | .listing server _ rest => m.ctx.servers.map (·.url) ++ server.url :: rest = urls
  | .hung => m.ctx.servers.map (·.url) <+: urls
  | _ => m.ctx.servers.map (·.url) = urls

/-- What the context holds, or is about to; of the settings, if the load has
stored them. -/
structure Inv (parse : String → Except String Url)
    (regex : String → Except String (String → Bool)) (loaded : Prop) (w : World) : Prop where
  idle : w.storing ≠ none → w.sys.main = .idle
  ldapSettings : loaded → w.storing.getD w.ctx.ldapSettings = w.options.ldapSettings
  connectionSettings : loaded → Stored w.options.connectionSettings w.sys.mem w.sys.main
  interval : w.interval = w.options.getFailureDetectorIntervalSecs
  exempted : exemptedUsersRegexSetCallback regex w.options.getExemptedUsersRegexPattern =
    .ok w.exemptedUsersRegexCache
  servers : ∃ urls, ServerList.Parsed parse (w.options.getString .servers) urls ∧
    Listed urls w.sys.mem w.sys.main

variable {parse : String → Except String Url} {regex : String → Except String (String → Bool)}
  {loaded : Prop} {w w' : World}

theorem stored_refreshNext {settings : VkConnectionSettings} {m : Mem}
    (h : m.ctx.connectionSettings = settings) (rest : List VkLdapServer) :
    Stored settings m (Main.refreshNext rest) := by
  cases rest <;> exact h

theorem listed_refreshNext {urls : List Url} {m : Mem} (h : m.ctx.servers.map (·.url) = urls)
    (rest : List VkLdapServer) : Listed urls m (Main.refreshNext rest) := by
  cases rest <;> exact h

theorem urls_of_shape {m m' : Mem} (h : m.SameShape m') :
    m'.ctx.servers.map (·.url) = m.ctx.servers.map (·.url) := by
  have hkeys := congrArg (List.map Prod.fst) h.servers
  rw [List.map_map, List.map_map] at hkeys
  exact hkeys

/-- The tasks of the main thread bring the settings into the context. -/
theorem Stored.move {settings : VkConnectionSettings} {m m' : Mem} {main main' : Main}
    {spawned : List Task} (h : Stored settings m main) (hmove : main.Move m m' main' spawned) :
    Stored settings m' main' := by
  cases hmove with
  | read => exact stored_refreshNext h _
  | refreshReport =>
    refine stored_refreshNext ?_ _
    unfold Mem.updateServerStatus
    rw [VkLdapContext.updateServerStatus_eq]
    exact h
  | _ => exact h

/-- They bring the server list into the table, URL by URL. -/
theorem Listed.move {urls : List Url} {m m' : Mem} {main main' : Main} {spawned : List Task}
    (h : Listed urls m main) (hmove : main.Move m m' main' spawned) : Listed urls m' main' := by
  cases hmove with
  | added => exact (List.append_nil _).symm.trans h
  | @opened server _ rest connect =>
    show _ ++ (openServer _ _ _ connect).1.url :: rest = urls
    rw [(openServer_key _ _ _ connect).2.1]
    exact h
  | openLost => exact ⟨_, h⟩
  | refreshLost => exact ⟨[], (List.append_nil _).trans h⟩
  | @list server pool rest =>
    show (m.ctx.servers ++ [server]).map (·.url) ++ rest = urls
    rw [List.map_append, List.append_assoc]
    exact h
  | read => exact listed_refreshNext h _
  | @refreshReport server rest res asOf =>
    exact listed_refreshNext ((urls_of_shape (.updateServerStatus m server (statusOf res) none)).trans
      h) _
  | _ => exact h

theorem ldapSettings_of_move {m m' : Mem} {main main' : Main} {spawned : List Task}
    (hmove : main.Move m m' main' spawned) : m'.ctx.ldapSettings = m.ctx.ldapSettings := by
  cases hmove with
  | refreshReport =>
    unfold Mem.updateServerStatus
    rw [VkLdapContext.updateServerStatus_eq]
  | _ => rfl

/-- What the main thread waits for sees the context as it was. -/
theorem Stored.congr {settings : VkConnectionSettings} {m m' : Mem} {main : Main}
    (h : Stored settings m main) (hctx : m'.ctx.connectionSettings = m.ctx.connectionSettings) :
    Stored settings m' main := by
  cases main with
  | storing => exact h
  | _ => exact hctx.trans h

theorem Listed.congr {urls : List Url} {m m' : Mem} {main : Main} (h : Listed urls m main)
    (hctx : m'.ctx.servers.map (·.url) = m.ctx.servers.map (·.url)) : Listed urls m' main := by
  cases main with
  | clearing => exact h
  | adding => exact (congrArg (· ++ _) hctx).trans h
  | opening => exact (congrArg (· ++ _) hctx).trans h
  | listing => exact (congrArg (· ++ _) hctx).trans h
  | hung =>
    show _ <+: urls
    rw [hctx]
    exact h
  | _ => exact hctx.trans h

/-- The system goes on, the options as they are. -/
theorem Inv.sys (h : Inv parse regex loaded w) {a : System.Act} {sys : State}
    (hs : w.sys.step a = some sys) (hservers : ∀ urls, a ≠ .setServers urls)
    (hsettings : ∀ settings, a ≠ .setConnectionSettings settings) :
    Inv parse regex loaded { w with sys } := by
  obtain ⟨urls, hparsed, hlisted⟩ := h.servers
  have htask {m' : Mem} {t : Task} {next : Next Task} (hmove : t.Move w.sys.mem m' next) :
      (loaded → w.storing.getD m'.ctx.ldapSettings = w.options.ldapSettings) ∧
        (loaded → Stored w.options.connectionSettings m' w.sys.main) ∧
        Listed urls m' w.sys.main := by
    obtain ⟨servers, hctx⟩ := hmove.ctx_eq
    refine ⟨?_, fun hloaded => (h.connectionSettings hloaded).congr (by rw [hctx]),
      hlisted.congr (urls_of_shape hmove.shape)⟩
    rw [hctx]
    exact h.ldapSettings
  rcases State.step_cases hs with ⟨i, net, rfl⟩ | ⟨net, rfl⟩ | hother
  · obtain ⟨t, m', -, ⟨t', spawned, hmove, rfl⟩ | ⟨hmove, rfl⟩⟩ := State.step_task hs
    · obtain ⟨hldap, hstored, hlisted'⟩ := htask hmove
      exact ⟨h.idle, hldap, hstored, h.interval, h.exempted, urls, hparsed, hlisted'⟩
    · obtain ⟨hldap, hstored, hlisted'⟩ := htask hmove
      exact ⟨h.idle, hldap, hstored, h.interval, h.exempted, urls, hparsed, hlisted'⟩
  · obtain ⟨m', main, spawned, hmove, rfl⟩ := State.step_main hs
    refine ⟨fun hstoring => ?_, fun hloaded => ?_,
      fun hloaded => (h.connectionSettings hloaded).move hmove, h.interval, h.exempted, urls,
      hparsed, hlisted.move hmove⟩
    · rw [h.idle hstoring] at hmove
      cases hmove
    · exact (congrArg w.storing.getD (ldapSettings_of_move hmove)).trans (h.ldapSettings hloaded)
  · cases hother with
    | submit => exact ⟨h.idle, h.ldapSettings, h.connectionSettings, h.interval, h.exempted, h.servers⟩
    | setServers => exact absurd rfl (hservers _)
    | setConnectionSettings => exact absurd rfl (hsettings _)
    | iterate => exact ⟨h.idle, h.ldapSettings, h.connectionSettings, h.interval, h.exempted, h.servers⟩
    | deliver => exact ⟨h.idle, h.ldapSettings, h.connectionSettings, h.interval, h.exempted, h.servers⟩

/-! ### Each option has its hook -/

theorem Except.map_eq_ok {α β : Type} {f : α → β} {x : Except String α} {b : β}
    (h : x.map f = .ok b) : ∃ a, x = .ok a ∧ f a = b := by
  cases x with
  | error e => cases h
  | ok a => exact ⟨a, rfl, Except.ok.inj h⟩

variable {o o' : ValkeyLdap.Options} {change : Change} {k : IntOption}

/-- An option is set by its own `CONFIG SET` alone. -/
theorem Change.string_kept (h : change.apply o = .ok o') {k : StringOption}
    (hk : ∀ v, change ≠ .string k v) : o'.string k = o.string k := by
  cases change with
  | string l v =>
    cases h
    refine Function.update_of_ne (fun hkl => ?_) v o.string
    subst hkl
    exact hk v rfl
  | int l v => cases h; rfl
  | useStarttls v => cases h; rfl
  | aclFallbackEnabled v => cases h; rfl
  | authMode v =>
    obtain ⟨mode, -, rfl⟩ := Except.map_eq_ok h
    rfl
  | searchScope v =>
    obtain ⟨scope, -, rfl⟩ := Except.map_eq_ok h
    rfl

theorem Change.int_kept (h : change.apply o = .ok o') {k : IntOption}
    (hk : ∀ v, change ≠ .int k v) : o'.int k = o.int k := by
  cases change with
  | string l v => cases h; rfl
  | int l v =>
    cases h
    refine Function.update_of_ne (fun hkl => ?_) v o.int
    subst hkl
    exact hk v rfl
  | useStarttls v => cases h; rfl
  | aclFallbackEnabled v => cases h; rfl
  | authMode v =>
    obtain ⟨mode, -, rfl⟩ := Except.map_eq_ok h
    rfl
  | searchScope v =>
    obtain ⟨scope, -, rfl⟩ := Except.map_eq_ok h
    rfl

theorem Change.ne_int (hhook : change.onChanged ≠ k.onChanged) (v : k.Value) :
    change ≠ .int k v := by
  rintro rfl
  exact hhook rfl

/-- The LDAP settings are made of options with their hook. -/
theorem Change.ldapSettings_kept (h : change.apply o = .ok o')
    (hhook : change.onChanged ≠ .ldapSetting) : o'.ldapSettings = o.ldapSettings := by
  have htimeout := Change.int_kept h (Change.ne_int (k := .timeoutLdapOperation) hhook)
  unfold ValkeyLdap.Options.ldapSettings ValkeyLdap.Options.getTimeoutLdapOperation
  rw [htimeout]
  cases change with
  | string k v =>
    cases h
    cases k
    all_goals first | rfl | exact absurd rfl hhook
  | int k v => cases h; rfl
  | useStarttls v => cases h; rfl
  | aclFallbackEnabled v => cases h; rfl
  | authMode v =>
    obtain ⟨mode, -, rfl⟩ := Except.map_eq_ok h
    rfl
  | searchScope v => exact absurd rfl hhook

theorem Change.connectionSettings_kept (h : change.apply o = .ok o')
    (hhook : change.onChanged ≠ .connectionSetting) :
    o'.connectionSettings = o.connectionSettings := by
  have htimeout := Change.int_kept h (Change.ne_int (k := .timeoutConnection) hhook)
  have hpool := Change.int_kept h (Change.ne_int (k := .connectionPoolSize) hhook)
  unfold ValkeyLdap.Options.connectionSettings ValkeyLdap.Options.getTimeoutConnection
    ValkeyLdap.Options.getConnectionPoolSize
  rw [htimeout, hpool]
  cases change with
  | string k v =>
    cases h
    cases k
    all_goals first | rfl | exact absurd rfl hhook
  | int k v => cases h; rfl
  | useStarttls v => exact absurd rfl hhook
  | aclFallbackEnabled v => cases h; rfl
  | authMode v =>
    obtain ⟨mode, -, rfl⟩ := Except.map_eq_ok h
    rfl
  | searchScope v =>
    obtain ⟨scope, -, rfl⟩ := Except.map_eq_ok h
    rfl

theorem Change.interval_kept (h : change.apply o = .ok o')
    (hhook : change.onChanged ≠ .failureDetectorInterval) :
    o'.getFailureDetectorIntervalSecs = o.getFailureDetectorIntervalSecs :=
  congrArg (fun v : IntOption.failureDetectorInterval.Value => asU64 v.n)
    (Change.int_kept h (Change.ne_int (k := .failureDetectorInterval) hhook))

/-! ### A `CONFIG SET` keeps the invariant -/

theorem Inv.runHook (h : Inv parse regex loaded w) (hidle : w.Idle) (happly : change.apply w.options = .ok o')
    (hservers : ∀ v, change ≠ .string .servers v)
    (hexempted : ∀ v, change ≠ .string .exemptedUsersRegex v) :
    Inv parse regex loaded (World.runHook { w with options := o' } change.onChanged) := by
  obtain ⟨hmain, hstoring⟩ := hidle
  obtain ⟨-, hldap, hstored, hinterval, hregex, urls, hparsed, hlisted⟩ := h
  rw [hstoring] at hldap
  rw [hmain] at hstored hlisted
  have hparsed' : ServerList.Parsed parse (o'.getString .servers) urls := by
    unfold ValkeyLdap.Options.getString
    rw [Change.string_kept happly hservers]
    exact hparsed
  have hregex' : exemptedUsersRegexSetCallback regex o'.getExemptedUsersRegexPattern =
      .ok w.exemptedUsersRegexCache := by
    unfold ValkeyLdap.Options.getExemptedUsersRegexPattern ValkeyLdap.Options.getString
    rw [Change.string_kept happly hexempted]
    exact hregex
  cases hhook : change.onChanged with
  | none =>
    refine ⟨fun _ => hmain, ?_, ?_, ?_, hregex', urls, hparsed', ?_⟩
    · show loaded → w.storing.getD w.ctx.ldapSettings = o'.ldapSettings
      rw [hstoring, Change.ldapSettings_kept happly (by simp [hhook])]
      exact hldap
    · show loaded → Stored o'.connectionSettings w.sys.mem w.sys.main
      rw [hmain, Change.connectionSettings_kept happly (by simp [hhook])]
      exact hstored
    · exact hinterval.trans (Change.interval_kept happly (by simp [hhook])).symm
    · show Listed urls w.sys.mem w.sys.main
      rw [hmain]
      exact hlisted
  | ldapSetting =>
    refine ⟨fun _ => hmain, fun _ => rfl, ?_, ?_, hregex', urls, hparsed', ?_⟩
    · show loaded → Stored o'.connectionSettings w.sys.mem w.sys.main
      rw [hmain, Change.connectionSettings_kept happly (by simp [hhook])]
      exact hstored
    · exact hinterval.trans (Change.interval_kept happly (by simp [hhook])).symm
    · show Listed urls w.sys.mem w.sys.main
      rw [hmain]
      exact hlisted
  | connectionSetting =>
    refine ⟨fun hne => absurd hstoring hne, ?_, fun _ => rfl, ?_, hregex', urls, hparsed',
      hlisted⟩
    · show loaded → w.storing.getD w.ctx.ldapSettings = o'.ldapSettings
      rw [hstoring, Change.ldapSettings_kept happly (by simp [hhook])]
      exact hldap
    · exact hinterval.trans (Change.interval_kept happly (by simp [hhook])).symm
  | failureDetectorInterval =>
    refine ⟨fun _ => hmain, ?_, ?_, rfl, hregex', urls, hparsed', ?_⟩
    · show loaded → w.storing.getD w.ctx.ldapSettings = o'.ldapSettings
      rw [hstoring, Change.ldapSettings_kept happly (by simp [hhook])]
      exact hldap
    · show loaded → Stored o'.connectionSettings w.sys.mem w.sys.main
      rw [hmain, Change.connectionSettings_kept happly (by simp [hhook])]
      exact hstored
    · show Listed urls w.sys.mem w.sys.main
      rw [hmain]
      exact hlisted

/-- The set callback of the server list, for the list in force or a new one. -/
theorem Inv.setServers (h : Inv parse regex loaded w) (hidle : w.Idle) {v : ValkeyString}
    (hvalid : ¬ ServerList.Invalid parse v.toString) :
    Inv parse regex loaded { w with
      options := { w.options with string := Function.update w.options.string .servers v }
      sys := (w.ldapServerListSetCallback parse v).sys } := by
  obtain ⟨hmain, hstoring⟩ := hidle
  obtain ⟨-, hldap, hstored, hinterval, hregex, -⟩ := h
  obtain ⟨urls, hparsed, hcall⟩ := ServerList.call_valid hvalid w.sys
  unfold World.ldapServerListSetCallback
  rw [hcall]
  rw [hmain] at hstored
  refine ⟨fun hne => absurd hstoring hne, hldap, hstored, hinterval, hregex, urls, ?_, rfl⟩
  show ServerList.Parsed parse (Function.update w.options.string .servers v .servers).toString urls
  rw [Function.update_self]
  exact hparsed

theorem Inv.set (h : Inv parse regex loaded w) (hidle : w.Idle) (again : Bool) (change : Change) :
    Inv parse regex loaded (w.set parse regex again change) := by
  have hchange (hservers : ∀ v, change ≠ .string .servers v)
      (hexempted : ∀ v, change ≠ .string .exemptedUsersRegex v)
      (hset : w.set parse regex again change = match change.apply w.options with
        | .ok options => World.runHook { w with options } change.onChanged
        | .error _ => w) : Inv parse regex loaded (w.set parse regex again change) := by
    rw [hset]
    cases happly : change.apply w.options with
    | error e => exact h
    | ok o' => exact h.runHook hidle happly hservers hexempted
  cases change with
  | string k v =>
    by_cases hservers : k = .servers
    · subst hservers
      show Inv parse regex loaded (match (w.ldapServerListSetCallback parse v).returned with
        | none => _
        | some _ => _)
      by_cases hvalid : ServerList.Invalid parse v.toString
      · obtain ⟨e, hcall⟩ := ServerList.call_invalid hvalid w.sys
        have hret : (w.ldapServerListSetCallback parse v).returned = some (.error e) := by
          unfold World.ldapServerListSetCallback
          rw [hcall]
        rw [hret]
        cases again with
        | false => exact h
        | true =>
          -- the old value put back, its callback run again
          obtain ⟨urls, hparsed, -⟩ := h.servers
          have hold : ¬ ServerList.Invalid parse (w.options.string .servers).toString := by
            rintro ⟨hne, piece, hmem, e, he⟩
            unfold ServerList.Parsed at hparsed
            rw [if_neg (show w.options.getString .servers ≠ "" from hne)] at hparsed
            have : parse piece ∈ urls.map Except.ok := hparsed ▸ List.mem_map_of_mem hmem
            rw [he] at this
            obtain ⟨url, -, hurl⟩ := List.mem_map.mp this
            cases hurl
          have hset := h.setServers hidle hold
          rw [Function.update_eq_self] at hset
          exact hset
      · obtain ⟨urls, -, hcall⟩ := ServerList.call_valid hvalid w.sys
        have hret : (w.ldapServerListSetCallback parse v).returned = none := by
          unfold World.ldapServerListSetCallback
          rw [hcall]
        rw [hret]
        exact h.setServers hidle hvalid
    · by_cases hexempted : k = .exemptedUsersRegex
      · subst hexempted
        show Inv parse regex loaded (match exemptedUsersRegexSetCallback regex v.toString with
          | .ok _ => _
          | .error _ => _)
        cases hcall : exemptedUsersRegexSetCallback regex v.toString with
        | error e => exact h
        | ok cache =>
          refine ⟨h.idle, h.ldapSettings, h.connectionSettings, h.interval, ?_, h.servers⟩
          show exemptedUsersRegexSetCallback regex (Function.update w.options.string
            .exemptedUsersRegex v .exemptedUsersRegex).toString = .ok cache
          rw [Function.update_self]
          exact hcall
      · refine hchange ?_ ?_ ?_
        · rintro v' ⟨⟩
          exact hservers rfl
        · rintro v' ⟨⟩
          exact hexempted rfl
        · cases k with
          | servers => exact absurd rfl hservers
          | exemptedUsersRegex => exact absurd rfl hexempted
          | _ => rfl
  | int k v => exact hchange nofun nofun rfl
  | useStarttls v => exact hchange nofun nofun rfl
  | aclFallbackEnabled v => exact hchange nofun nofun rfl
  | authMode v => exact hchange nofun nofun rfl
  | searchScope v => exact hchange nofun nofun rfl

theorem inv_step (h : Inv parse regex loaded w) {a : Act} (hs : w.step parse regex a = some w') :
    Inv parse regex loaded w' := by
  cases a with
  | set change again =>
    simp only [World.step] at hs
    by_cases hidle : w.Idle
    · rw [if_pos hidle] at hs
      cases hs
      exact h.set hidle again change
    · rw [if_neg hidle] at hs
      cases hs
  | store =>
    simp only [World.step] at hs
    cases hstoring : w.storing with
    | none =>
      rw [hstoring] at hs
      cases hs
    | some settings =>
      rw [hstoring] at hs
      cases hs
      have hmain := h.idle (by simp [hstoring])
      obtain ⟨-, hldap, hstored, hinterval, hregex, urls, hparsed, hlisted⟩ := h
      rw [hstoring] at hldap
      refine ⟨fun hne => absurd rfl hne, hldap, fun hloaded => (hstored hloaded).congr rfl,
        hinterval, hregex, urls, hparsed, hlisted.congr rfl⟩
  | sys a =>
    have hsys (hservers : ∀ urls, a ≠ .setServers urls)
        (hsettings : ∀ settings, a ≠ .setConnectionSettings settings)
        (hs : (w.sys.step a).map (fun sys => { w with sys }) = some w') : Inv parse regex loaded w' := by
      obtain ⟨sys, hstep, rfl⟩ := Option.map_eq_some_iff.mp hs
      exact h.sys hstep hservers hsettings
    cases a with
    | setServers urls => cases hs
    | setConnectionSettings settings => cases hs
    | submit => exact hsys nofun nofun hs
    | iterate => exact hsys nofun nofun hs
    | task i net => exact hsys nofun nofun hs
    | main net => exact hsys nofun nofun hs
    | deliver => exact hsys nofun nofun hs

/-- What a step does to the system: nothing, a step of its own, or the LDAP
settings stored. -/
theorem World.step_sys {a : Act} (hs : w.step parse regex a = some w') :
    w'.sys = w.sys ∨ (∃ b, w.sys.step b = some w'.sys) ∨ ∃ settings, w'.sys = { w.sys with
      mem := { w.sys.mem with ctx := w.ctx.refreshLdapSettings settings } } := by
  cases a with
  | set change again =>
    simp only [World.step] at hs
    by_cases hidle : w.Idle
    · rw [if_pos hidle] at hs
      cases hs
      have hservers (v : ValkeyString) : (w.ldapServerListSetCallback parse v).sys = w.sys ∨
          ∃ b, w.sys.step b = some (w.ldapServerListSetCallback parse v).sys := by
        unfold World.ldapServerListSetCallback
        by_cases hvalid : ServerList.Invalid parse v.toString
        · obtain ⟨e, hcall⟩ := ServerList.call_invalid hvalid w.sys
          exact Or.inl (by rw [hcall])
        · obtain ⟨urls, -, hcall⟩ := ServerList.call_valid hvalid w.sys
          exact Or.inr ⟨.setServers urls, by rw [hcall]; exact if_pos hidle.1⟩
      have hhook (o : ValkeyLdap.Options) (hook : Hook) :
          (World.runHook { w with options := o } hook).sys = w.sys ∨
            ∃ b, w.sys.step b = some (World.runHook { w with options := o } hook).sys := by
        cases hook with
        | connectionSetting => exact Or.inr ⟨.setConnectionSettings _, if_pos hidle.1⟩
        | _ => exact Or.inl rfl
      have hchange (hset : w.set parse regex again change = match change.apply w.options with
          | .ok options => World.runHook { w with options } change.onChanged
          | .error _ => w) : (w.set parse regex again change).sys = w.sys ∨
          ∃ b, w.sys.step b = some (w.set parse regex again change).sys := by
        rw [hset]
        cases change.apply w.options with
        | error e => exact Or.inl rfl
        | ok o => exact hhook o _
      have hcases : (w.set parse regex again change).sys = w.sys ∨
          ∃ b, w.sys.step b = some (w.set parse regex again change).sys := by
        cases change with
        | string k v =>
          cases k with
          | servers =>
            simp only [World.set]
            split
            · exact hservers v
            · split
              · exact hservers _
              · exact Or.inl rfl
          | exemptedUsersRegex =>
            simp only [World.set]
            split <;> exact Or.inl rfl
          | _ => exact hchange rfl
        | _ => exact hchange rfl
      exact hcases.imp id Or.inl
    · rw [if_neg hidle] at hs
      cases hs
  | store =>
    obtain ⟨settings, -, rfl⟩ := Option.map_eq_some_iff.mp hs
    exact Or.inr (Or.inr ⟨settings, rfl⟩)
  | sys a =>
    have hsys (hs : (w.sys.step a).map (fun sys => { w with sys }) = some w') :
        w.sys.step a = some w'.sys := by
      obtain ⟨sys, hstep, rfl⟩ := Option.map_eq_some_iff.mp hs
      exact hstep
    cases a with
    | setServers urls => cases hs
    | setConnectionSettings settings => cases hs
    | _ => exact Or.inr (Or.inl ⟨_, hsys hs⟩)

theorem inv_start {cache : Option (String → Bool)} (h : Accepted parse regex o cache)
    {ls : VkLdapSettings} {cs : VkConnectionSettings} :
    Inv parse regex (ls = o.ldapSettings ∧ cs = o.connectionSettings)
      (World.start parse o cache ls cs) := by
  obtain ⟨urls, hparsed, hcall⟩ := ServerList.call_valid h.servers (State.init ls cs)
  unfold World.start
  rw [hcall]
  exact ⟨fun hne => absurd rfl hne, And.left, And.right, rfl, h.exempted, urls, hparsed, rfl⟩

theorem asU64_of_range {n : ℤ} (h0 : 0 ≤ n) (hmax : n ≤ 9223372036854775807) :
    asU64 n = n.toNat := by
  unfold asU64
  omega

theorem poolSize_range (o : ValkeyLdap.Options) :
    1 ≤ o.getConnectionPoolSize ∧ o.getConnectionPoolSize ≤ 8192 := by
  have hmin : 1 ≤ (o.int .connectionPoolSize).n := (o.int .connectionPoolSize).min_le
  have hmax : (o.int .connectionPoolSize).n ≤ 8192 := (o.int .connectionPoolSize).le_max
  unfold ValkeyLdap.Options.getConnectionPoolSize
  rw [asU64_of_range (by omega) (by omega)]
  omega

/-- LDAP is on for the callbacks of `AUTH` when the option is set. -/
theorem isAuthEnabled_authConfigs (o : ValkeyLdap.Options) (cache : Option (String → Bool)) :
    (o.authConfigs cache).isAuthEnabled = o.isAuthEnabled := by
  have : (o.getString .servers).isEmpty = (o.string .servers).bytes.isEmpty := by
    rw [Bool.eq_iff_iff, List.isEmpty_iff, ← ValkeyString.toString_eq_empty, String.isEmpty_iff]
    rfl
  exact congrArg not this

theorem enabled_iff {urls : List Url} (h : ServerList.Parsed parse (o.getString .servers) urls) :
    o.isAuthEnabled = true ↔ urls ≠ [] := by
  unfold ServerList.Parsed at h
  have henabled : o.isAuthEnabled = true ↔ o.getString .servers ≠ "" := by
    unfold ValkeyLdap.Options.isAuthEnabled ValkeyLdap.Options.getString
    rw [Bool.not_eq_true', ← Bool.not_eq_true, List.isEmpty_iff, ne_eq,
      ValkeyString.toString_eq_empty]
  rw [henabled]
  by_cases hempty : o.getString .servers = ""
  · rw [if_pos hempty] at h
    exact ⟨fun hne => absurd hempty hne, fun hne => absurd h hne⟩
  · rw [if_neg hempty] at h
    refine ⟨fun _ hnil => ?_, fun _ => hempty⟩
    rw [hnil, List.map_nil, List.map_eq_nil_iff] at h
    unfold ServerList.pieces at h
    rw [List.map_eq_nil_iff] at h
    exact List.splitOn_ne_nil _ _ h

/-- Between two `CONFIG SET`s the table lists the configured servers. -/
theorem Inv.listed (h : Inv parse regex loaded w) (hidle : w.Idle) :
    ServerList.Parsed parse (w.options.getString .servers) (w.ctx.servers.map (·.url)) := by
  obtain ⟨urls, hparsed, hlisted⟩ := h.servers
  rw [hidle.1] at hlisted
  exact (show w.ctx.servers.map (·.url) = urls from hlisted) ▸ hparsed

theorem Inv.inForce (h : Inv parse regex loaded w) (hloaded : loaded) (hidle : w.Idle) :
    InForce parse regex w := by
  have hparsed := h.listed hidle
  obtain ⟨hmain, hstoring⟩ := hidle
  have hldap := h.ldapSettings hloaded
  have hstored := h.connectionSettings hloaded
  rw [hstoring] at hldap
  rw [hmain] at hstored
  have hconnection : w.ctx.connectionSettings = w.options.connectionSettings := hstored
  refine ⟨hldap, hconnection, h.interval, h.exempted, hparsed, ?_, ?_⟩
  · rw [enabled_iff hparsed, ne_eq, List.map_eq_nil_iff]
  · rw [hconnection]
    exact poolSize_range w.options

/-- **Between two `CONFIG SET`s the configuration in force is that of the
options**, after every run from a load that has stored the settings, whatever was
set in it, accepted or not. The mutex of the exempted users and the detector's
interval are never behind. -/
theorem configuration_in_force (parse : String → Except String Url)
    (regex : String → Except String (String → Bool)) (o : ValkeyLdap.Options)
    (cache : Option (String → Bool)) (h : Accepted parse regex o cache) (tr : List (World × Act))
    (w : World) (hrun : Run (World.step parse regex)
      (World.start parse o cache o.ldapSettings o.connectionSettings) tr w) :
    (w.Idle → InForce parse regex w) ∧ w.interval = w.options.getFailureDetectorIntervalSecs ∧
      exemptedUsersRegexSetCallback regex w.options.getExemptedUsersRegexPattern =
        .ok w.exemptedUsersRegexCache := by
  have hinv := hrun.invariant steps_true (inv_start h) fun _ _ _ hw _ hs => inv_step hw hs
  exact ⟨hinv.inForce ⟨rfl, rfl⟩, hinv.interval, hinv.exempted⟩

/-- The set callbacks accept the options unless set. -/
theorem accepted_default (parse : String → Except String Url)
    (regex : String → Except String (String → Bool)) :
    Accepted parse regex .default none where
  servers := fun h => h.1 rfl
  exempted := rfl

/-- The list cleared at the load, then more connections, a suffix, and a list
that is refused. -/
def threeSets : List Act :=
  [.sys (.main {}), .sys (.main {}), .set (.int .connectionPoolSize ⟨4, by decide, by decide⟩) false,
    .sys (.main {}), .sys (.main {}),
    .set (.string .bindDnSuffix ⟨Utf8.encode ",dc=example".toList⟩) false, .store,
    .set (.string .servers ⟨Utf8.encode "a".toList⟩) true, .sys (.main {}), .sys (.main {})]

theorem configuration_in_force_threeSets : ∃ w : World,
    exec (World.step ServerList.urlParse fun _ => .error "no pattern")
      (World.start ServerList.urlParse .default none ValkeyLdap.Options.default.ldapSettings
        ValkeyLdap.Options.default.connectionSettings) threeSets = some w ∧ w.Idle ∧
      w.ctx.connectionSettings.connectionPoolSize = 4 ∧
      w.ctx.ldapSettings = w.options.ldapSettings := by
  have hexec : ∃ w : World, exec (World.step ServerList.urlParse fun _ => .error "no pattern")
      (World.start ServerList.urlParse .default none ValkeyLdap.Options.default.ldapSettings
        ValkeyLdap.Options.default.connectionSettings) threeSets = some w ∧ w.Idle ∧
      w.options.getConnectionPoolSize = 4 := ⟨_, rfl, ⟨rfl, rfl⟩, rfl⟩
  obtain ⟨w, hw, hidle, hsize⟩ := hexec
  have hforce := (configuration_in_force ServerList.urlParse (fun _ => .error "no pattern") .default
    none (accepted_default _ _) _ w (exec_run hw)).1 hidle
  refine ⟨w, hw, hidle, ?_, hforce.ldapSettings⟩
  rw [hforce.connectionSettings]
  exact hsize

end Options
end System
end ValkeyLdap
