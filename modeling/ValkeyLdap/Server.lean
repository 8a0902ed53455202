/-
# Servers and settings

`src/vkldap/server.rs` and `src/vkldap/settings.rs`: an entry of the server
table, and the two groups of settings the context caches.
-/
import Mathlib.Data.List.Basic

namespace ValkeyLdap

/-- A parsed `url::Url`, as its serialization: two are equal iff these are. -/
abbrev Url := String

/-- `std::time::Duration`, in nanoseconds. -/
abbrev Duration := ℕ

inductive VkLdapServerStatus
  | healthy
  | unhealthy (msg : String)
  deriving DecidableEq, Repr

/-- `PartialEq`: the same variant, whatever the message. -/
def VkLdapServerStatus.eq : VkLdapServerStatus → VkLdapServerStatus → Bool
  | .healthy, .healthy => true
  | .unhealthy _, .unhealthy _ => true
  | _, _ => false

/-- `VkLdapServer`: an entry of the table, and, cloned out of it, the handle a
task works with. -/
structure VkLdapServer where
  url : Url
  id : ℕ
  status : VkLdapServerStatus
  pingTime : Option Duration
  deriving DecidableEq, Repr

namespace VkLdapServer

protected def new (url : Url) (id : ℕ) (status : VkLdapServerStatus) : VkLdapServer :=
  { url, id, status, pingTime := none }

def isHealthy (s : VkLdapServer) : Bool := s.status.eq .healthy

def setStatus (s : VkLdapServer) (status : VkLdapServerStatus) : VkLdapServer := { s with status }

def setPingTime (s : VkLdapServer) (pingTime : Option Duration) : VkLdapServer :=
  { s with pingTime }

theorem isHealthy_iff (s : VkLdapServer) : s.isHealthy = true ↔ s.status = .healthy := by
  unfold isHealthy
  cases s.status <;> simp [VkLdapServerStatus.eq]

end VkLdapServer

/-- `ldap3::Scope`. -/
inductive Scope
  | base
  | oneLevel
  | subtree
  deriving DecidableEq, Repr

structure VkLdapSettings where
  bindDbPrefix : String := ""
  bindDbSuffix : String := ""
  searchBase : Option String := none
  searchScope : Scope := .subtree
  searchFilter : Option String := none
  searchAttribute : Option String := none
  searchBindDn : Option String := none
  searchBindPasswd : Option String := none
  searchDnAttribute : String := ""
  timeoutLdapOperation : Duration := 0
  groupsSearchBase : Option String := none
  groupsFilter : Option String := none
  groupsMemberAttribute : String := "member"
  groupsNameAttribute : String := "cn"
  groupsRulesAttribute : String := "valkeyACL"
  deriving DecidableEq, Repr

structure VkConnectionSettings where
  useStarttls : Bool := false
  caCertPath : Option String := none
  clientCertPath : Option String := none
  clientKeyPath : Option String := none
  connectionPoolSize : ℕ := 0
  timeoutConnection : Duration := 0
  deriving DecidableEq, Repr

end ValkeyLdap
