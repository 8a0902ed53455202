/-
# The context: server table, pools, settings

`src/vkldap/context.rs`, `VkLdapContext`: the state behind the one lock that
all tasks share. Its methods have no await inside, so each is a function. A
pool is an `Arc` there; here the number of the pool among all pools ever
created (`System`).
-/
import Mathlib.Data.List.Basic
import ValkeyLdap.Errors
import ValkeyLdap.Server

namespace ValkeyLdap

structure VkLdapContext where
  servers : List VkLdapServer
  connPools : List ℕ
  ldapSettings : VkLdapSettings
  connectionSettings : VkConnectionSettings
  deriving DecidableEq, Repr

namespace VkLdapContext

protected def new : VkLdapContext :=
  { servers := [], connPools := [], ldapSettings := {}, connectionSettings := {} }

def refreshLdapSettings (ctx : VkLdapContext) (settings : VkLdapSettings) : VkLdapContext :=
  { ctx with ldapSettings := settings }

def refreshConnectionSettings (ctx : VkLdapContext) (settings : VkConnectionSettings) :
    VkLdapContext :=
  { ctx with connectionSettings := settings }

/-- `clear_server_list`: the emptied context, and the pools it held. -/
def clearServerList (ctx : VkLdapContext) : VkLdapContext × List ℕ :=
  ({ ctx with servers := [], connPools := [] }, ctx.connPools)

def newServer (ctx : VkLdapContext) (serverUrl : Url) : VkLdapServer :=
  .new serverUrl ctx.servers.length .healthy

def addServer (ctx : VkLdapContext) (server : VkLdapServer) (pool : ℕ) : VkLdapContext :=
  { ctx with servers := ctx.servers ++ [server], connPools := ctx.connPools ++ [pool] }

/-- `get_connection_pool`; `none` is the panic of an index out of bounds. -/
def getConnectionPool (ctx : VkLdapContext) (server : VkLdapServer) : Option ℕ :=
  ctx.connPools[server.id]?

/-- `update_server_status`. The entry shadows the handle, so the guard after it
compares the entry's URL with itself. -/
def updateServerStatus (ctx : VkLdapContext) (server : VkLdapServer)
    (status : VkLdapServerStatus) (pingTime : Option Duration) : VkLdapContext :=
  let i := server.id
  match ctx.servers[i]? with
  | none => ctx
  | some server =>
    if server.url ≠ server.url then ctx
    else { ctx with
      servers := ctx.servers.set i ((server.setStatus status).setPingTime pingTime) }

def findServer (ctx : VkLdapContext) : Result VkLdapServer :=
  if ctx.servers.isEmpty then .error .noServerConfigured
  else match ctx.servers.find? (·.isHealthy) with
    | some server => .ok server
    | none => .error .noHealthyServerAvailable

/-- The table entry an update writes. -/
def written (entry : VkLdapServer) (status : VkLdapServerStatus) (pingTime : Option Duration) :
    VkLdapServer :=
  { entry with status, pingTime }

theorem updateServerStatus_eq (ctx : VkLdapContext) (server : VkLdapServer)
    (status : VkLdapServerStatus) (pingTime : Option Duration) :
    ctx.updateServerStatus server status pingTime =
      { ctx with servers := ctx.servers.modify server.id (written · status pingTime) } := by
  unfold updateServerStatus
  simp only
  split
  · rename_i h
    rw [List.modify_eq_self (List.getElem?_eq_none_iff.mp h)]
  · rename_i entry h
    rw [List.modify_eq_set_getElem?, h, if_neg (fun h => h rfl)]
    rfl

theorem findServer_ok {ctx : VkLdapContext} {server : VkLdapServer}
    (h : ctx.findServer = .ok server) : server ∈ ctx.servers ∧ server.status = .healthy := by
  unfold findServer at h
  split at h
  · cases h
  · cases hf : ctx.servers.find? (·.isHealthy) with
    | none => rw [hf] at h; cases h
    | some s =>
      rw [hf] at h
      obtain rfl : s = server := by simpa using h
      exact ⟨List.mem_of_find?_eq_some hf, (s.isHealthy_iff).mp (List.find?_some hf)⟩

/-- The ids of the servers are their positions, and each has its pool. -/
structure Aligned (ctx : VkLdapContext) : Prop where
  length : ctx.connPools.length = ctx.servers.length
  id : ∀ (i : ℕ) (server : VkLdapServer), ctx.servers[i]? = some server → server.id = i

theorem Aligned.id_lt {ctx : VkLdapContext} (h : ctx.Aligned) {server : VkLdapServer}
    (hs : server ∈ ctx.servers) : server.id < ctx.servers.length := by
  obtain ⟨i, hi⟩ := List.mem_iff_getElem?.mp hs
  rw [h.id i server hi]
  exact (List.getElem?_eq_some_iff.mp hi).1

theorem Aligned.getConnectionPool {ctx : VkLdapContext} (h : ctx.Aligned) {server : VkLdapServer}
    (hs : server ∈ ctx.servers) : ∃ pool, ctx.getConnectionPool server = some pool := by
  have hlt : server.id < ctx.connPools.length := h.length ▸ h.id_lt hs
  exact ⟨_, List.getElem?_eq_getElem hlt⟩

end VkLdapContext
end ValkeyLdap
