/-
# LDAP operations with failover

`src/vkldap/context.rs`: the two operations an `AUTH` submits, and the loop
that runs one on a connection of a healthy server, and on another server's
after a connection error. What a pass of the loop finds, the context under the
lock and the connection its pool hands out, is up to the other tasks: an
operation runs over the list of what its passes find.
-/
import ValkeyLdap.Connection
import ValkeyLdap.Context

namespace ValkeyLdap

variable {σ α : Type}

/-! ### The operations -/

inductive LdapAuthMode
  | bind
  | searchAndBind
  deriving DecidableEq, Repr

/-- The name that bind mode makes of the username. -/
def bindDn (settings : VkLdapSettings) (username : String) : String :=
  settings.bindDbPrefix ++ username ++ settings.bindDbSuffix

section
variable (ldapEscape : String → String) (settings : VkLdapSettings) (username password : String)

/-- The closure of `ldap_bind_and_group_rules`. The rules it leaves in
`rules_out` are its value: it ends well only after it has left them. -/
def ldapBindAndGroupRules (ldapHandler : LdapHandler σ) : LdapM σ (List String) := do
  let userDn := bindDn settings username
  VkLdapConnection.bind ldapHandler userDn password
  VkLdapConnection.searchGroupsRules ldapHandler settings ldapEscape userDn

/-- The closure of `ldap_search_bind_and_group_rules`. -/
def ldapSearchBindAndGroupRules (ldapHandler : LdapHandler σ) : LdapM σ (List String) := do
  let userDn ← VkLdapConnection.search ldapHandler settings username
  VkLdapConnection.bind ldapHandler userDn password
  VkLdapConnection.searchGroupsRules ldapHandler settings ldapEscape userDn

/-- The operation of a mode. -/
def ldapGroupRules (mode : LdapAuthMode) (ldapHandler : LdapHandler σ) : LdapM σ (List String) :=
  match mode with
  | .bind => ldapBindAndGroupRules ldapEscape settings username password ldapHandler
  | .searchAndBind => ldapSearchBindAndGroupRules ldapEscape settings username password ldapHandler

end

/-- The name a mode binds: made of the username, or found by the search. -/
def userDn (mode : LdapAuthMode) (settings : VkLdapSettings) (username : String)
    (ldapHandler : LdapHandler σ) : LdapM σ String :=
  match mode with
  | .bind => pure (bindDn settings username)
  | .searchAndBind => VkLdapConnection.search ldapHandler settings username

/-- Both modes bind the user's name and then search the rules of its groups. -/
theorem ldapGroupRules_eq (ldapEscape : String → String) (settings : VkLdapSettings)
    (username password : String) (mode : LdapAuthMode) (ldapHandler : LdapHandler σ) :
    ldapGroupRules ldapEscape settings username password mode ldapHandler = (do
      let dn ← userDn mode settings username ldapHandler
      VkLdapConnection.bind ldapHandler dn password
      VkLdapConnection.searchGroupsRules ldapHandler settings ldapEscape dn) := by
  cases mode with
  | bind => rfl
  | searchAndBind => rfl

/-! ### The loop -/

/-- A context with one healthy server. -/
def VkLdapContext.oneServer : VkLdapContext :=
  { VkLdapContext.new with servers := [.new "ldap://a" 0 .healthy], connPools := [0] }

/-- What one pass of the loop finds: the context, the connection, and the
state its session is in. -/
structure Attempt (σ : Type) where
  ctx : VkLdapContext
  ldapHandler : LdapHandler σ
  session : σ

/-- How far a submitted operation has come. -/
inductive Progress (α : Type)
  | running
  | panicked
  | returned (res : Result α)
  deriving DecidableEq, Repr

def runLdapOpWithFailover (ldapOp : LdapHandler σ → LdapM σ α) : List (Attempt σ) → Progress α
  | [] => .running
  | a :: attempts =>
    match a.ctx.findServer with
    | .error err => .returned (.error err)
    | .ok server =>
      match a.ctx.getConnectionPool server with
      | none => .panicked
      | some _ =>
        match Session.run (ldapOp a.ldapHandler) a.session with
        | none => .panicked
        | some (.error (.ldapConnectionError _), _) => runLdapOpWithFailover ldapOp attempts
        | some (res, _) => .returned res

/-- The loop's result is that of its pass `a`: the connections of the passes
before broke, and `a` found a server of the list. -/
structure EndsOn (ldapOp : LdapHandler σ → LdapM σ α) (attempts : List (Attempt σ))
    (a : Attempt σ) (res : Result α) : Prop where
  last : ∃ before after, attempts = before ++ a :: after ∧ ∀ b ∈ before, ∃ err t,
    Session.run (ldapOp b.ldapHandler) b.session = some (.error (.ldapConnectionError err), t)
  server : ∃ server ∈ a.ctx.servers, a.ctx.findServer = .ok server
  ended : ∃ t, Session.run (ldapOp a.ldapHandler) a.session = some (res, t)

/-- **Success comes from one connection**, on which the whole operation
succeeded. -/
theorem runLdapOpWithFailover_ok {ldapOp : LdapHandler σ → LdapM σ α} {v : α} :
    ∀ {attempts : List (Attempt σ)}, runLdapOpWithFailover ldapOp attempts = .returned (.ok v) →
      ∃ a, EndsOn ldapOp attempts a (.ok v)
  | [], h => by cases h
  | a :: attempts, h => by
    unfold runLdapOpWithFailover at h
    split at h
    · cases h
    · rename_i server hserver
      split at h
      · cases h
      · split at h
        · cases h
        · rename_i err t hbroken
          obtain ⟨b, ⟨before, after, rfl, hbefore⟩, hfound, hended⟩ := runLdapOpWithFailover_ok h
          refine ⟨b, ⟨a :: before, after, rfl, fun c hc => ?_⟩, hfound, hended⟩
          rcases List.mem_cons.mp hc with rfl | hc
          · exact ⟨err, t, hbroken⟩
          · exact hbefore c hc
        · rename_i res t _ hrun
          obtain rfl := Progress.returned.inj h
          exact ⟨a, ⟨[], attempts, rfl, fun b hb => by cases hb⟩,
            ⟨server, (VkLdapContext.findServer_ok hserver).1, hserver⟩, t, hrun⟩

/-- A pass that finds a server and ends in anything but a connection error is
the last. -/
theorem runLdapOpWithFailover_cons (ldapOp : LdapHandler σ → LdapM σ α) (a : Attempt σ)
    (attempts : List (Attempt σ)) {server : VkLdapServer} {pool : ℕ} {res : Result α} {t : σ}
    (hserver : a.ctx.findServer = .ok server) (hpool : a.ctx.getConnectionPool server = some pool)
    (hrun : Session.run (ldapOp a.ldapHandler) a.session = some (res, t))
    (hres : ∀ err, res ≠ .error (.ldapConnectionError err)) :
    runLdapOpWithFailover ldapOp (a :: attempts) = .returned res := by
  unfold runLdapOpWithFailover
  rw [hserver]
  simp only [hpool, hrun]

end ValkeyLdap
