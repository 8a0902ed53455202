/-
# Success means a verified password

The whole way of an `AUTH` that is answered with success: the operation ended
well (`Replies`), on the last connection of the failover loop (`Failover`), so
its directory accepted a simple bind of the user's DN with the text of the
password given. By RFC 4513 that says that the text is the DN's credential only
if neither is empty: a bind without a password is not checked. The callbacks
submit any password, and bytes that are no UTF-8 reach the directory as other
bytes, so `success_is_verified` holds exactly for the others.

Key theorems: `ldapGroupRules_ok`, `verified_iff`, `success_is_verified`.
-/
import ValkeyLdap.Replies

namespace ValkeyLdap
namespace Auth

open Runs Session

variable {σ : Type}

/-! ### From the answer to the bind -/

/-- `dn` is the name that an attempt binds for the user. -/
def Names (mode : LdapAuthMode) (settings : VkLdapSettings) (username : String) (a : Attempt σ)
    (dn : String) : Prop :=
  ∃ t, run (userDn mode settings username a.ldapHandler) a.session = some (.ok dn, t)

/-- A request is answered with success only if its operation ended well. -/
theorem authReplyCallback_handled {ctx : Configs} {valkey : Valkey}
    {username password : ValkeyString} {privData : Option (Result (List String))}
    (h : (authReplyCallback ctx valkey username password privData).2 = .ok .authHandled) :
    ∃ ldapTokens, privData = some (.ok ldapTokens) := by
  cases privData with
  | none => cases h
  | some res =>
    cases res with
    | ok ldapTokens => exact ⟨ldapTokens, rfl⟩
    | error err =>
      simp only [authReplyCallback, handleUserNotFound, handleServerUnavailable,
        handleCredentialRejection] at h
      repeat' split at h
      all_goals cases h

theorem bind_ok {ldapHandler : LdapHandler σ} {dn password : String} {s t : σ}
    (h : run (VkLdapConnection.bind ldapHandler dn password) s = some (.ok (), t)) :
    (ldapHandler.simpleBind dn password s).1 = .ok () := by
  rw [run_awaitLdap_ok.mp h]

/-- A successful operation has bound the user's name with the password. -/
theorem ldapGroupRules_ok {ldapEscape : String → String} {settings : VkLdapSettings}
    {username password : String} {mode : LdapAuthMode} {a : Attempt σ} {rules : List String}
    {t : σ} (h : run (ldapGroupRules ldapEscape settings username password mode a.ldapHandler)
      a.session = some (.ok rules, t)) :
    ∃ dn, Names mode settings username a dn ∧
      ∃ s, (a.ldapHandler.simpleBind dn password s).1 = .ok () := by
  rw [ldapGroupRules_eq] at h
  obtain ⟨dn, s, hdn, h⟩ := ok_of_bind h
  obtain ⟨_, _, hbind, -⟩ := ok_of_bind h
  exact ⟨dn, ⟨s, hdn⟩, s, bind_ok hbind⟩

/-! ### Soundness -/

/-- On the connection of pass `a`, the last of the operation, the user was
bound as `dn`. -/
structure LoggedInOn (ldapEscape : String → String) (mode : LdapAuthMode)
    (settings : VkLdapSettings) (username password : ValkeyString) (attempts : List (Attempt σ))
    (a : Attempt σ) (dn : String) : Prop where
  ends : ∃ rules, EndsOn
    (ldapGroupRules ldapEscape settings username.toString password.toString mode) attempts a
      (.ok rules)
  names : Names mode settings username.toString a dn

/-- The server of the connection verified that the password, these bytes, is
the credential of `dn`: it is, whatever credentials there are, if the server
obeys RFC 4513. -/
def Verified (a : Attempt σ) (dn : String) (password : List UInt8) : Prop :=
  ∀ credential : String → List UInt8 → Prop,
    a.ldapHandler.Verifies (fun d p => credential d (Utf8.encode p.toList)) →
      credential dn password

theorem toString_bytes {s : ValkeyString} :
    Utf8.encode s.toString.toList = s.bytes ↔ Utf8.Valid s.bytes := by
  rw [ValkeyString.toString, String.toList_ofList]
  exact Utf8.encode_lossy

/-- What a bind that succeeded has verified. -/
theorem verified_iff {a : Attempt σ} {dn : String} {password : ValkeyString} {s : σ}
    (hbind : (a.ldapHandler.simpleBind dn password.toString s).1 = .ok ()) :
    Verified a dn password.bytes ↔
      dn ≠ "" ∧ password.bytes ≠ [] ∧ Utf8.Valid password.bytes := by
  constructor
  · intro h
    -- the fewest credentials that a server which obeys can have
    obtain ⟨hdn, text, htext, hbytes⟩ := h
      (fun d p => d ≠ "" ∧ ∃ text : String, text ≠ "" ∧ Utf8.encode text.toList = p)
      fun d p _ _ hd hp => ⟨hd, p, hp, rfl⟩
    refine ⟨hdn, fun hempty => htext ?_, text.toList, hbytes⟩
    rw [hempty] at hbytes
    rw [← String.toList_inj]
    exact Utf8.encode_injective hbytes
  · rintro ⟨hdn, hpasswd, hvalid⟩ credential hverifies
    have hcredential : credential dn (Utf8.encode password.toString.toList) :=
      hverifies dn password.toString s hbind hdn fun he =>
        hpasswd (ValkeyString.toString_eq_empty.mp he)
    rwa [toString_bytes.mpr hvalid] at hcredential

/-- **An `AUTH` answered with success was verified by a configured server
exactly if** neither the password nor the DN bound is empty, and the password
is valid UTF-8. The DN is the username between prefix and suffix in bind mode,
and what the search finds in the other, on the connection on which the operation
succeeded. -/
theorem success_is_verified (ldapEscape : String → String) (configs : Configs)
    (ldapSettings : VkLdapSettings) (tr : List (State (List (Attempt σ)) × Act (List (Attempt σ))))
    (s : State (List (Attempt σ)))
    (h : Run (State.step (ldapJob ldapEscape)) (State.init configs ldapSettings) tr s)
    (t : State (List (Attempt σ))) (i : ℕ) (valkey : Valkey) (username password : ValkeyString)
    (mode : LdapAuthMode) (settings : VkLdapSettings) (attempts : List (Attempt σ))
    (res : Result (List String)) (reply : Reply) (hmem : (t, .reply i valkey) ∈ tr)
    (hreply : t.reply i valkey = some (⟨username, password, mode, .ended settings attempts res⟩, reply))
    (hsuccess : reply.2 = .ok .authHandled) :
    (∃ a dn, LoggedInOn ldapEscape mode settings username password attempts a dn) ∧
    ∀ a dn, LoggedInOn ldapEscape mode settings username password attempts a dn →
      (Verified a dn password.bytes ↔
        dn ≠ "" ∧ password.bytes ≠ [] ∧ Utf8.Valid password.bytes) := by
  obtain ⟨hr, privData, hdata, rfl⟩ := reply_eq hreply
  obtain ⟨ldapTokens, rfl⟩ := authReplyCallback_handled hsuccess
  obtain rfl := Option.some.inj (Option.some.inj hdata)
  have hjob := honest_steps h _ hmem _ (List.mem_of_getElem? hr) settings attempts _ rfl
  refine ⟨?_, fun a dn hon => ?_⟩
  · obtain ⟨a, hends⟩ := runLdapOpWithFailover_ok hjob
    obtain ⟨u, hrun⟩ := hends.ended
    obtain ⟨dn, hnames, -⟩ := ldapGroupRules_ok hrun
    exact ⟨a, dn, ⟨_, hends⟩, hnames⟩
  · obtain ⟨⟨rules, hends⟩, v, hv⟩ := hon
    obtain ⟨u, hrun⟩ := hends.ended
    obtain ⟨d, ⟨w, hw⟩, x, hbind⟩ := ldapGroupRules_ok hrun
    obtain rfl : dn = d := Except.ok.inj (Prod.mk.inj (Option.some.inj (hv.symm.trans hw))).1
    exact verified_iff hbind

/-! ### A server that lets the empty password pass -/

/-- A server where Bob's password is `secret`, and which lets a bind without a
password pass. -/
def lenient : LdapHandler Unit where
  simpleBind := fun dn passwd s =>
    if passwd = "" ∨ (dn = "cn=bob" ∧ passwd = "secret") then (.ok (), s)
    else (.error wrongPassword, s)
  search := fun _ s => (.ok [], s)

def secret : ValkeyString := ⟨Utf8.encode "secret".toList⟩

def cnSettings : VkLdapSettings := { bindDbPrefix := "cn=" }

/-- The one pass of such a login, and the name that is bound on it. -/
theorem loggedInOn_lenient {password : ValkeyString} {a : Attempt Unit} {dn : String}
    (h : LoggedInOn id .bind cnSettings bob password [⟨.oneServer, lenient, ()⟩] a dn) :
    a = ⟨.oneServer, lenient, ()⟩ ∧ dn = "cn=bob" := by
  obtain ⟨⟨rules, ⟨before, after, hlist, -⟩, -, -⟩, t, hnames⟩ := h
  obtain rfl := Except.ok.inj (Prod.mk.inj (Option.some.inj hnames)).1
  have ha : a ∈ [(⟨.oneServer, lenient, ()⟩ : Attempt Unit)] := by
    rw [hlist]
    exact List.mem_append_right _ List.mem_cons_self
  exact ⟨List.mem_singleton.mp ha, by decide⟩

/-- Bob's password is verified. -/
theorem success_is_verified_bob : ∃ a dn,
    LoggedInOn id .bind cnSettings bob secret [⟨.oneServer, lenient, ()⟩] a dn ∧
      Verified a dn secret.bytes := by
  have hjob : ldapJob id .bind cnSettings bob.toString secret.toString [⟨.oneServer, lenient, ()⟩] =
      .returned (.ok []) := by decide
  obtain ⟨tr, s, hrun, hmem, -⟩ := exists_login (ldapJob id) { ldapServerList := "ldap://a" }
    cnSettings bob secret .bind _ _ (fun _ => true) rfl hjob
  obtain ⟨⟨a, dn, hon⟩, hverified⟩ := success_is_verified id _ _ tr s hrun _ 0 _ bob secret .bind
    cnSettings _ _ _ hmem rfl rfl
  obtain ⟨rfl, rfl⟩ := loggedInOn_lenient hon
  exact ⟨_, _, hon, (hverified _ _ hon).mpr ⟨by decide, by decide, _, rfl⟩⟩

/-- The empty password logs in as Bob, and nobody verified it. -/
theorem empty_password_logs_in : ∃ tr s t reply,
    Run (State.step (ldapJob id)) (State.init { ldapServerList := "ldap://a" } cnSettings) tr s ∧
      (t, Act.reply 0 fun _ => true) ∈ tr ∧
      t.reply 0 (fun _ => true) = some (⟨bob, ⟨[]⟩, .bind,
        .ended cnSettings [⟨.oneServer, lenient, ()⟩] (.ok [])⟩, reply) ∧
      reply.2 = .ok .authHandled ∧
      ¬ ∃ a dn, LoggedInOn id .bind cnSettings bob ⟨[]⟩ [⟨.oneServer, lenient, ()⟩] a dn ∧
        Verified a dn [] := by
  have hjob : ldapJob id .bind cnSettings bob.toString (ValkeyString.mk []).toString
      [⟨.oneServer, lenient, ()⟩] = .returned (.ok []) := rfl
  obtain ⟨tr, s, hrun, hmem, -⟩ := exists_login (ldapJob id) { ldapServerList := "ldap://a" }
    cnSettings bob ⟨[]⟩ .bind _ _ (fun _ => true) rfl hjob
  refine ⟨tr, s, _, _, hrun, hmem, rfl, rfl, ?_⟩
  rintro ⟨a, dn, hon, hverified⟩
  obtain ⟨rfl, rfl⟩ := loggedInOn_lenient hon
  have hsecret := hverified (fun d p => d = "cn=bob" ∧ p = Utf8.encode "secret".toList)
    fun d p t hbind hd hp => by
      have hchecked : d = "cn=bob" ∧ p = "secret" := by
        by_contra hne
        have hif : ¬ (p = "" ∨ (d = "cn=bob" ∧ p = "secret")) := fun he => he.elim hp hne
        simp only [lenient, if_neg hif] at hbind
        cases hbind
      exact ⟨hchecked.1, by rw [hchecked.2]⟩
  revert hsecret
  decide

end Auth
end ValkeyLdap
