/-
# Who used the connection before

A pooled connection keeps the identity of the last bind on it. Bind mode binds
the user first, and the searches bind the configured account first if there is
one; without one, the user search runs as whoever was bound before.
`result_ignores_history` says for which settings the result of an operation
does not depend on the binds made earlier on the connections it is given, for
directories that answer by the identity and the request alone.
-/
import ValkeyLdap.Failover

namespace ValkeyLdap
namespace Histories

open Session

abbrev LdapDirectory := Directory SearchRequest (List ResultEntry) LdapError

/-- A pass of the failover loop in two worlds: the same context and directory,
but a connection on which other binds were made before. -/
structure Visit where
  ctx : VkLdapContext
  directory : LdapDirectory
  binds : List (String × String)
  otherBinds : List (String × String)

def Visit.attempt (v : Visit) : Attempt Identity :=
  ⟨v.ctx, v.directory.handle, v.directory.after v.binds⟩

def Visit.otherAttempt (v : Visit) : Attempt Identity :=
  ⟨v.ctx, v.directory.handle, v.directory.after v.otherBinds⟩

/-- Two histories of binds never make a difference to the result. -/
def HistoryFree (ldapEscape : String → String) (settings : VkLdapSettings)
    (username password : String) (mode : LdapAuthMode) : Prop :=
  ∀ visits : List Visit,
    let ldapOp := ldapGroupRules ldapEscape settings username password mode
    runLdapOpWithFailover ldapOp (visits.map Visit.attempt) =
      runLdapOpWithFailover ldapOp (visits.map Visit.otherAttempt)

/-- Without a configured account, the user search runs as nobody: that is the
identity on the connection once the bind before it is done. -/
def SearchesAnonymously (settings : VkLdapSettings) : Prop :=
  settings.searchBindDn = none ∨ settings.searchBindPasswd = none →
    ∀ (d : LdapDirectory) (binds : List (String × String)),
      run (VkLdapConnection.adminBind d.handle settings) (d.after binds) =
        some (.ok (), .anonymous)

/-- Both options of the account are set. -/
def HasAccount (settings : VkLdapSettings) : Prop :=
  settings.searchBindDn.isSome = true ∧ settings.searchBindPasswd.isSome = true

/-! ### Operations that forget -/

theorem bind_forgets (d : LdapDirectory) (userDn password : String) :
    Forgets (VkLdapConnection.bind d.handle userDn password) := by
  intro i j
  have h := d.simpleBind_forgets userDn password i j
  simp only [run_request, Option.some.injEq] at h
  show some _ = some _
  simp only [Directory.handle, h]

theorem adminBind_forgets (d : LdapDirectory) {settings : VkLdapSettings}
    (h : HasAccount settings) : Forgets (VkLdapConnection.adminBind d.handle settings) := by
  obtain ⟨dn, hdn⟩ := Option.isSome_iff_exists.mp h.1
  obtain ⟨passwd, hpasswd⟩ := Option.isSome_iff_exists.mp h.2
  intro i j
  have hb := d.simpleBind_forgets dn passwd i j
  simp only [run_request, Option.some.injEq] at hb
  unfold VkLdapConnection.adminBind
  rw [hdn, hpasswd]
  show some _ = some _
  simp only [Directory.handle, hb]

theorem groupRules_forgets (ldapEscape : String → String) {settings : VkLdapSettings}
    (username password : String) (mode : LdapAuthMode) (h : mode = .bind ∨ HasAccount settings)
    (d : LdapDirectory) :
    Forgets (ldapGroupRules ldapEscape settings username password mode d.handle) := by
  cases mode with
  | bind => exact (bind_forgets d _ _).bind _
  | searchAndBind =>
    have h : HasAccount settings := h.resolve_left (by rintro ⟨⟩)
    exact ((adminBind_forgets d h).bind _).bind _

/-- The failover loop tells two worlds apart only where an operation does. -/
theorem failover_forgets {α : Type} {ldapOp : LdapHandler Identity → LdapM Identity α}
    (h : ∀ d : LdapDirectory, Forgets (ldapOp d.handle)) :
    ∀ visits : List Visit, runLdapOpWithFailover ldapOp (visits.map Visit.attempt) =
      runLdapOpWithFailover ldapOp (visits.map Visit.otherAttempt)
  | [] => rfl
  | v :: visits => by
    have ih := failover_forgets h visits
    have hrun := h v.directory (v.directory.after v.binds) (v.directory.after v.otherBinds)
    show runLdapOpWithFailover ldapOp (v.attempt :: _) =
      runLdapOpWithFailover ldapOp (v.otherAttempt :: _)
    unfold runLdapOpWithFailover
    simp only [Visit.attempt, Visit.otherAttempt, hrun] at ih ⊢
    rw [ih]

theorem history_free (ldapEscape : String → String) {settings : VkLdapSettings}
    (username password : String) (mode : LdapAuthMode) (h : mode = .bind ∨ HasAccount settings) :
    HistoryFree ldapEscape settings username password mode :=
  failover_forgets (groupRules_forgets ldapEscape username password mode h)

/-! ### Searches that do not -/

/-- A directory that shows an anonymous search nothing, and refuses others. -/
def twoFaced : LdapDirectory where
  bind := fun _ _ _ => .ok ()
  search := fun i _ =>
    match i with
    | .anonymous => .ok []
    | .user _ => .error ⟨.ldapResult 50, "rc=50 (insufficientAccessRights)"⟩

theorem adminBind_none {settings : VkLdapSettings} (h : ¬ HasAccount settings)
    (d : LdapDirectory) (i : Identity) :
    run (VkLdapConnection.adminBind d.handle settings) i = some (.ok (), i) := by
  unfold VkLdapConnection.adminBind
  split
  · rename_i dn hdn
    split
    · rename_i passwd hpasswd
      exact absurd ⟨by rw [hdn]; rfl, by rw [hpasswd]; rfl⟩ h
    · rfl
  · rfl

/-- Without an account, the search answers `twoFaced` differently to nobody
and to somebody. -/
theorem search_twoFaced {settings : VkLdapSettings} (username : String)
    (h : ¬ HasAccount settings) (i : Identity) :
    run (VkLdapConnection.search twoFaced.handle settings username) i =
      some (.error (match i with
        | .anonymous => .noLdapEntryFound (VkLdapConnection.searchFilter settings username)
        | .user _ => .ldapSearchError ⟨.ldapResult 50, "rc=50 (insufficientAccessRights)"⟩), i) := by
  unfold VkLdapConnection.search
  rw [run_bind_ok (adminBind_none h twoFaced i)]
  cases i with
  | anonymous => rfl
  | user dn => rfl

theorem not_history_free (ldapEscape : String → String) {settings : VkLdapSettings}
    (username password : String) (h : ¬ HasAccount settings) :
    ¬ HistoryFree ldapEscape settings username password .searchAndBind := by
  intro hfree
  have hnobody := search_twoFaced username h .anonymous
  have hbob := search_twoFaced username h (.user "cn=bob")
  have heq := hfree [⟨.oneServer, twoFaced, [], [("cn=bob", "secret")]⟩]
  have hserver : VkLdapContext.oneServer.findServer = .ok (.new "ldap://a" 0 .healthy) := rfl
  have hpool : VkLdapContext.oneServer.getConnectionPool (.new "ldap://a" 0 .healthy) = some 0 :=
    rfl
  have hnew := runLdapOpWithFailover_cons
    (ldapGroupRules ldapEscape settings username password .searchAndBind)
    ⟨.oneServer, twoFaced.handle, .anonymous⟩ [] hserver hpool
    (run_bind_error hnobody) (by rintro _ ⟨⟩)
  have hused := runLdapOpWithFailover_cons
    (ldapGroupRules ldapEscape settings username password .searchAndBind)
    ⟨.oneServer, twoFaced.handle, .user "cn=bob"⟩ [] hserver hpool
    (run_bind_error hbob) (by rintro _ ⟨⟩)
  cases hnew.symm.trans (heq.trans hused)

/-- **A result does not depend on who used the connections before exactly if**
an account to search with is configured, its name and its password. -/
theorem result_ignores_history (ldapEscape : String → String) (settings : VkLdapSettings)
    (username password : String) :
    ((∀ mode, HistoryFree ldapEscape settings username password mode) ∧
        SearchesAnonymously settings) ↔ HasAccount settings := by
  constructor
  · rintro ⟨hfree, -⟩
    by_contra h
    exact not_history_free ldapEscape username password h (hfree .searchAndBind)
  · intro h
    refine ⟨fun mode => history_free ldapEscape username password mode (.inr h), fun hnone => ?_⟩
    obtain ⟨hdn, hpasswd⟩ := h
    rcases hnone with hnone | hnone
    · rw [hnone] at hdn
      cases hdn
    · rw [hnone] at hpasswd
      cases hpasswd

/-- A directory that only `cn=bob` may search. -/
def bobMaySearch : LdapDirectory where
  bind := fun _ _ passwd =>
    if passwd = "secret" then .ok () else .error ⟨.ldapResult 49, "rc=49 (invalidCredentials)"⟩
  search := fun i _ =>
    if i = .user "cn=bob" then .ok [⟨some ⟨[("entryDN", ["cn=alice"])]⟩⟩] else .ok []

/-- Alice is not found on a new connection, and logs in on one that Bob has
used. -/
theorem alice_depends_on_bob :
    ¬ HistoryFree id { searchDnAttribute := "entryDN" } "alice" "secret" .searchAndBind := by
  intro h
  have heq := h [⟨.oneServer, bobMaySearch, [], [("cn=bob", "secret")]⟩]
  revert heq
  decide

end Histories
end ValkeyLdap
