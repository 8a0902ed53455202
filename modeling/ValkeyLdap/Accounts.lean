/-
# The users of the store

What the calls of the reply callback do to the users of the store, whose rule
language is `Lib.Acl`: `ACL SETUSER` and `ACL DELUSER` name a user by text, and
answer as the table of users says. A reply makes at most one of the two calls
(`changed`), and the table after it is what that call leaves (`usersAfter_eq`).
`World` is the machine of `Auth` with the table; other clients may change it
too.

Key theorems: `usersAfter_eq`, `World.step_move`.
-/
import ValkeyLdap.Replies
import ValkeyLdap.Lib.Acl

namespace ValkeyLdap

/-- The name by which the module calls a user. -/
def ValkeyString.aclName (username : ValkeyString) : List UInt8 := Acl.bytes username.toString

namespace Auth

open Acl (Table Store User)

variable {ι ρ σ η : Type} [DecidableEq σ] [DecidableEq η]

/-! ### Calls -/

/-- `ACL`, as the module calls it. `none` is an error. -/
def acl (V : Store ρ σ η) (t : Table ρ σ η) : List String → Option (Table ρ σ η)
  | "SETUSER" :: name :: rules => V.setUser t (Acl.bytes name) rules
  | ["DELUSER", name] => V.delUser t (Acl.bytes name)
  | _ => none

/-- How calls are answered when the table is `t`; whether a client can be
authenticated is up to `valkey`. -/
def answers (V : Store ρ σ η) (t : Table ρ σ η) (valkey : Valkey) : Valkey
  | .acl args => (acl V t args).isSome
  | .authenticateClientWithAclUser username => valkey (.authenticateClientWithAclUser username)

/-- The table after a call. -/
def call (V : Store ρ σ η) (t : Table ρ σ η) : Call → Table ρ σ η
  | .acl args => (acl V t args).getD t
  | .authenticateClientWithAclUser _ => t

section

variable (V : Store ρ σ η) (ctx : Configs) (t : Table ρ σ η) (valkey : Valkey)
  (username password : ValkeyString) (privData : Option (Result (List String)))

/-- The reply callback, on the store. -/
def replyOn : Reply := authReplyCallback ctx (answers V t valkey) username password privData

/-- The table after it. -/
def usersAfter : Table ρ σ η := (replyOn V ctx t valkey username password privData).1.foldl (call V) t

/-- The reply callback deletes its user after this error. -/
def deletes (err : VkLdapError) : Bool :=
  if err.isUserNotFound then !ctx.isUserExemptedFromLdap username.toString
  else !err.isServerUnavailable

/-- The table that the one call of a reply leaves, if there is a call and it is
no error. -/
def changed : Option (Table ρ σ η) :=
  match privData with
  | some (.ok ldapTokens) => V.setUser t username.aclName (aclRules ctx password ldapTokens)
  | some (.error err) => if deletes ctx username err then V.delUser t username.aclName else none
  | none => none

variable {V ctx t valkey username password}

/-- A call changes the user whose name the reply calls. -/
theorem changed_eq_some {privData : Option (Result (List String))} {t' : Table ρ σ η}
    (h : changed V ctx t username password privData = some t') :
    ∃ user, t' = Function.update t username.aclName user := by
  cases privData with
  | none => cases h
  | some res =>
    cases res with
    | ok ldapTokens =>
      obtain ⟨user, -, rfl⟩ := Store.setUser_eq_some h
      exact ⟨some user, rfl⟩
    | error err =>
      simp only [changed] at h
      split at h
      · obtain rfl := Store.delUser_eq_some h
        exact ⟨none, rfl⟩
      · cases h

/-- The calls of `apply_ldap_user_acl`. -/
theorem applyLdapUserAcl_fst (ctx : Configs) (valkey : Valkey) (username password : ValkeyString)
    (ldapTokens : List String) : (applyLdapUserAcl ctx valkey username password ldapTokens).1 =
      .acl ("SETUSER" :: username.toString :: aclRules ctx password ldapTokens) ::
        if valkey (.acl ("SETUSER" :: username.toString :: aclRules ctx password ldapTokens)) then
          [.authenticateClientWithAclUser username] else [] := by
  unfold applyLdapUserAcl
  simp only
  by_cases hset : valkey (.acl ("SETUSER" :: username.toString ::
      aclRules ctx password ldapTokens)) = true
  · by_cases hauth : valkey (.authenticateClientWithAclUser username) = true
    · simp [hset, hauth]
    · simp [hset, hauth]
  · simp [hset]

/-- `apply_ldap_user_acl`, on the store. -/
theorem applyLdapUserAcl_users (ldapTokens : List String) :
    (applyLdapUserAcl ctx valkey username password ldapTokens).1.foldl (call V) t =
      (V.setUser t username.aclName (aclRules ctx password ldapTokens)).getD t := by
  rw [applyLdapUserAcl_fst, List.foldl_cons]
  by_cases hset : valkey (.acl ("SETUSER" :: username.toString ::
      aclRules ctx password ldapTokens)) = true
  · rw [if_pos hset]
    rfl
  · rw [if_neg hset]
    rfl

/-- Its answer. -/
theorem applyLdapUserAcl_snd (ctx : Configs) (valkey : Valkey) (username password : ValkeyString)
    (ldapTokens : List String) : (applyLdapUserAcl ctx valkey username password ldapTokens).2 =
      if valkey (.acl ("SETUSER" :: username.toString :: aclRules ctx password ldapTokens)) then
        if valkey (.authenticateClientWithAclUser username) then .ok .authHandled
        else .error "Failed to authenticate with ACL"
      else .error "Failed to apply ACL rules" := by
  unfold applyLdapUserAcl
  simp only
  by_cases hset : valkey (.acl ("SETUSER" :: username.toString ::
      aclRules ctx password ldapTokens)) = true
  · by_cases hauth : valkey (.authenticateClientWithAclUser username) = true
    · simp [hset, hauth]
    · simp [hset, hauth]
  · simp [hset]

theorem setUser_of_applyLdapUserAcl_ok {ctx : Configs} {valkey : Valkey}
    {username password : ValkeyString} {ldapTokens : List String} {result : AuthResult}
    (h : (applyLdapUserAcl ctx valkey username password ldapTokens).2 = .ok result) :
    valkey (.acl ("SETUSER" :: username.toString :: aclRules ctx password ldapTokens)) = true := by
  by_contra hset
  rw [applyLdapUserAcl_snd, if_neg hset] at h
  cases h

/-- A login that is answered with success has set its user by the rules. -/
theorem user_of_login {ldapTokens : List String} {result : AuthResult}
    (h : (replyOn V ctx t valkey username password (some (.ok ldapTokens))).2 = .ok result) :
    ∃ user, Acl.setUser V.toRules (t.userOrNew V username.aclName)
        (aclRules ctx password ldapTokens) = some user ∧
      usersAfter V ctx t valkey username password (some (.ok ldapTokens)) =
        Function.update t username.aclName (some user) := by
  obtain ⟨t', ht'⟩ := Option.isSome_iff_exists.mp (setUser_of_applyLdapUserAcl_ok h)
  have ht' : V.setUser t username.aclName (aclRules ctx password ldapTokens) = some t' := ht'
  obtain ⟨user, huser, rfl⟩ := Store.setUser_eq_some ht'
  refine ⟨user, huser, ?_⟩
  show (applyLdapUserAcl ctx _ username password ldapTokens).1.foldl (call V) t = _
  rw [applyLdapUserAcl_users, ht']
  rfl

/-- Tokens that make the same of the user make the same login. -/
theorem login_congr {ldapTokens ldapTokens' : List String}
    (h : ∀ u : User ρ σ η, Acl.setUser V.toRules u (aclRules ctx password ldapTokens) =
      Acl.setUser V.toRules u (aclRules ctx password ldapTokens')) :
    usersAfter V ctx t valkey username password (some (.ok ldapTokens)) =
        usersAfter V ctx t valkey username password (some (.ok ldapTokens')) ∧
      (replyOn V ctx t valkey username password (some (.ok ldapTokens))).2 =
        (replyOn V ctx t valkey username password (some (.ok ldapTokens'))).2 := by
  have hset : V.setUser t username.aclName (aclRules ctx password ldapTokens) =
      V.setUser t username.aclName (aclRules ctx password ldapTokens') := by
    unfold Store.setUser
    rw [h]
  constructor
  · exact (applyLdapUserAcl_users ldapTokens).trans
      ((congrArg (·.getD t) hset).trans (applyLdapUserAcl_users ldapTokens').symm)
  · have hans : answers V t valkey (.acl ("SETUSER" :: username.toString ::
        aclRules ctx password ldapTokens)) = answers V t valkey (.acl ("SETUSER" ::
          username.toString :: aclRules ctx password ldapTokens')) := congrArg Option.isSome hset
    show (applyLdapUserAcl ..).2 = (applyLdapUserAcl ..).2
    rw [applyLdapUserAcl_snd, applyLdapUserAcl_snd, hans]

/-- **What a reply does to the users.** -/
theorem usersAfter_eq : usersAfter V ctx t valkey username password privData =
    (changed V ctx t username password privData).getD t := by
  cases privData with
  | none => rfl
  | some res =>
    cases res with
    | ok ldapTokens => exact applyLdapUserAcl_users ldapTokens
    | error err =>
      simp only [usersAfter, replyOn, authReplyCallback, changed, deletes]
      by_cases hfound : err.isUserNotFound = true
      · simp only [hfound, if_true]
        unfold handleUserNotFound
        by_cases hexempted : ctx.isUserExemptedFromLdap username.toString = true
        · simp only [hexempted, if_true, Bool.not_true, Bool.false_eq_true, if_false]
          rfl
        · simp only [hexempted, Bool.false_eq_true, if_false, Bool.not_false, if_true]
          rfl
      · simp only [hfound, Bool.false_eq_true, if_false]
        by_cases hav : err.isServerUnavailable = true
        · simp only [hav, if_true, Bool.not_true, Bool.false_eq_true, if_false]
          unfold handleServerUnavailable
          by_cases hfall : ctx.isAclFallbackEnabled = true
          · simp only [hfall, if_true]
            rfl
          · simp only [hfall, Bool.false_eq_true, if_false]
            rfl
        · simp only [hav, Bool.false_eq_true, if_false, Bool.not_false, if_true]
          rfl

end

/-! ### The machine with its users -/

structure World (ι ρ σ η : Type) where
  auth : State ι
  users : Table ρ σ η

inductive World.Act (ι ρ σ η : Type)
  | auth (a : Auth.Act ι)
  /-- Another client sets or deletes a user. -/
  | admin (name : List UInt8) (user : Option (User ρ σ η))

namespace World

def init (configs : Configs) (ldapSettings : VkLdapSettings) (users : Table ρ σ η) :
    World ι ρ σ η :=
  ⟨.init configs ldapSettings, users⟩

/-- The users after a step of the machine: only replies call. -/
def usersAfter (V : Store ρ σ η) (w : World ι ρ σ η) : Auth.Act ι → Table ρ σ η
  | .reply i valkey =>
    match w.auth.reply i (answers V w.users valkey) with
    | some (_, reply) => reply.1.foldl (call V) w.users
    | none => w.users
  | _ => w.users

def step (V : Store ρ σ η) (job : Job ι) (w : World ι ρ σ η) :
    World.Act ι ρ σ η → Option (World ι ρ σ η)
  | .auth a => (w.auth.step job a).map fun s => ⟨s, w.usersAfter V a⟩
  | .admin name user => some { w with users := Function.update w.users name user }

/-- The steps, by what they do to the users. -/
inductive Move (V : Store ρ σ η) (job : Job ι) (w : World ι ρ σ η) :
    World.Act ι ρ σ η → World ι ρ σ η → Prop
  | admin {name : List UInt8} {user : Option (User ρ σ η)} :
      Move V job w (.admin name user) { w with users := Function.update w.users name user }
  | reply {i : ℕ} {valkey : Valkey} {r : Request ι} {privData : Option (Result (List String))}
      (hr : w.auth.requests[i]? = some r) (hdata : r.privData = some privData) :
      Move V job w (.auth (.reply i valkey)) ⟨w.auth.setPhase i r .replied,
        (changed V w.auth.configs w.users r.username r.password privData).getD w.users⟩
  | other {a : Auth.Act ι} {s : State ι} (hs : w.auth.step job a = some s)
      (hreply : ∀ i valkey, a ≠ .reply i valkey) : Move V job w (.auth a) ⟨s, w.users⟩

/-- A reply leaves what it changes, if it changes anything. -/
theorem usersAfter_reply {V : Store ρ σ η} {w : World ι ρ σ η} {i : ℕ} {r : Request ι}
    {privData : Option (Result (List String))} (hr : w.auth.requests[i]? = some r)
    (hdata : r.privData = some privData) (valkey : Valkey) : w.usersAfter V (.reply i valkey) =
      (changed V w.auth.configs w.users r.username r.password privData).getD w.users := by
  have hreply := reply_of_privData hr hdata (answers V w.users valkey)
  have heq : Auth.usersAfter V w.auth.configs w.users valkey r.username r.password privData =
      (changed V w.auth.configs w.users r.username r.password privData).getD w.users :=
    usersAfter_eq privData
  rw [← heq]
  simp only [usersAfter, hreply]
  rfl

theorem step_move {V : Store ρ σ η} {job : Job ι} {w w' : World ι ρ σ η}
    {a : World.Act ι ρ σ η} (h : w.step V job a = some w') : w.Move V job a w' := by
  cases a with
  | admin name user =>
    obtain rfl := Option.some.inj h
    exact .admin
  | auth a =>
    obtain ⟨s, hs, rfl⟩ := Option.map_eq_some_iff.mp h
    cases a with
    | reply i valkey =>
      obtain ⟨⟨r, reply⟩, hreply, rfl⟩ := Option.map_eq_some_iff.mp hs
      obtain ⟨hr, privData, hdata, -⟩ := reply_eq hreply
      rw [usersAfter_reply hr hdata]
      exact .reply hr hdata
    | _ => exact .other hs (by rintro _ _ ⟨⟩)

end World

end Auth
end ValkeyLdap
