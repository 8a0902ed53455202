/-
# Passwords in the log

The password of an `AUTH` and the one of the search user (`search_bind_passwd`)
go to the directory in a bind, and with the fallback on the first goes to
Valkey in an `ACL SETUSER`. Nothing else is made of them: two `AUTH`s that
differ in the passwords alone, with directories that tell the passwords apart
no more than by what both answer, log the same, come to the same result, and
are replied to alike. What `ACL SETUSER` answers is logged when it is an error,
so Valkey has to answer it alike for both passwords, by an error text that does
not quote them: of a text that does the log tells.

Key theorems: `alike_ldapGroupRules`, `failover_alike`, `passwords_not_told`.
-/
import ValkeyLdap.Lib.Alike
import ValkeyLdap.Logging

namespace ValkeyLdap
namespace Logging

open Session
open Session.Logged (Alike AlikeHandles silent erase records)

variable {σ τ : Type} {R : σ → τ → Prop} {Q : String → String → Prop}

/-! ### The operations -/

/-- The settings, with a related password of the search user. -/
structure SettingsAlike (Q : String → String → Prop) (settings settings' : VkLdapSettings) :
    Prop where
  passwd : Option.Rel Q settings.searchBindPasswd settings'.searchBindPasswd
  rest : settings' = { settings with searchBindPasswd := settings'.searchBindPasswd }

theorem alike_awaitLdap {α : Type} {f : σ → Except LdapError α × σ} {g : τ → Except LdapError α × τ}
    (errtype : LdapError → VkLdapError) (h : ∀ s t, R s t → (f s).1 = (g t).1 ∧ R (f s).2 (g t).2) :
    Alike R (silent (awaitLdap f errtype) : LogM σ α) (silent (awaitLdap g errtype)) := by
  refine Logged.alike_request fun s t hst => ?_
  obtain ⟨hanswer, hR⟩ := h s t hst
  exact ⟨by rw [hanswer], hR⟩

theorem alike_debug (site : Site) (args : String) :
    Alike R (debug site args : LogM σ Unit) (debug site args) := Logged.alike_log _

section
variable {h : LdapHandler σ} {h' : LdapHandler τ} {settings settings' : VkLdapSettings}

theorem alike_bind (hh : AlikeHandles R Q h h') (userDn : String) {password password' : String}
    (hp : Q password password') :
    Alike R (Logging.bind h userDn password) (Logging.bind h' userDn password') :=
  (alike_debug _ _).bind fun _ => alike_awaitLdap _ fun s t hst => hh.bind _ _ _ s t hp hst

theorem alike_adminBind (hh : AlikeHandles R Q h h') (hs : SettingsAlike Q settings settings')
    (site : Site) : Alike R (adminBind h settings site) (adminBind h' settings' site) := by
  have hdn : settings'.searchBindDn = settings.searchBindDn := by rw [hs.rest]
  unfold adminBind
  rw [hdn]
  cases settings.searchBindDn with
  | none => exact Logged.alike_pure _
  | some bindDn =>
    have hpasswd := hs.passwd
    generalize settings.searchBindPasswd = passwd at hpasswd
    generalize settings'.searchBindPasswd = passwd' at hpasswd
    cases hpasswd with
    | none => exact Logged.alike_pure _
    | some hp =>
      exact (alike_debug _ _).bind fun _ => alike_awaitLdap _ fun s t hst =>
        hh.bind _ _ _ s t hp hst

theorem alike_construct (entry : ResultEntry) :
    Alike R (silent (SearchEntry.construct entry) : LogM σ SearchEntry)
      (silent (SearchEntry.construct entry)) := by
  unfold SearchEntry.construct
  split
  · exact Logged.alike_pure _
  · exact Logged.alike_crash

theorem alike_constructEach (rs : List ResultEntry) :
    Alike R (silent (SearchEntry.constructEach rs) : LogM σ (List SearchEntry))
      (silent (SearchEntry.constructEach rs)) := by
  induction rs with
  | nil => exact Logged.alike_pure _
  | cons entry rs ih =>
    exact (alike_construct entry).silent_bind fun sentry => ih.silent_bind fun _ =>
      Logged.alike_pure _

theorem alike_foundDn (settings : VkLdapSettings) (username : String) (rs : List ResultEntry) :
    Alike R (silent (UserSearch.foundDn settings username rs) : LogM σ String)
      (silent (UserSearch.foundDn settings username rs)) := by
  have hdn (sentry : SearchEntry) : Alike R
      (silent (UserSearch.entryDn settings sentry) : LogM σ String)
        (silent (UserSearch.entryDn settings sentry)) := by
    unfold UserSearch.entryDn
    split
    · exact Logged.alike_throw _
    · exact Logged.alike_pure _
    · exact Logged.alike_crash
  unfold UserSearch.foundDn
  split
  · exact Logged.alike_throw _
  · exact (alike_construct _).silent_bind hdn
  · exact Logged.alike_throw _

theorem alike_search (hh : AlikeHandles R Q h h') (hs : SettingsAlike Q settings settings')
    (username : String) : Alike R (search h settings username) (search h' settings' username) := by
  have hadmin := alike_adminBind hh hs (connectionSite "283" rfl)
  unfold search
  rw [hs.rest] at hadmin ⊢
  exact hadmin.bind fun _ => (alike_debug _ _).bind fun _ =>
    (alike_awaitLdap _ fun s t hst => hh.search _ s t hst).bind fun rs => alike_foundDn settings _ rs

theorem alike_searchGroupsRules (hh : AlikeHandles R Q h h')
    (hs : SettingsAlike Q settings settings') (ldapEscape : String → String) (userDn : String) :
    Alike R (searchGroupsRules h settings ldapEscape userDn)
      (searchGroupsRules h' settings' ldapEscape userDn) := by
  have hadmin := alike_adminBind hh hs (connectionSite "360" rfl)
  unfold searchGroupsRules prepareGroupSearch
  rw [hs.rest] at hadmin ⊢
  exact (hadmin.bind fun _ => Logged.alike_pure _).bind fun _ => (alike_debug _ _).bind fun _ =>
    (alike_awaitLdap _ fun s t hst => hh.search _ s t hst).bind fun rs =>
      (alike_constructEach rs).bind fun _ => Logged.alike_pure _

/-- **The operations use a password in binds alone.** -/
theorem alike_ldapGroupRules (hh : AlikeHandles R Q h h') (hs : SettingsAlike Q settings settings')
    (ldapEscape : String → String) (username : String) {password password' : String}
    (hp : Q password password') (mode : LdapAuthMode) :
    Alike R (ldapGroupRules h settings ldapEscape username password mode)
      (ldapGroupRules h' settings' ldapEscape username password' mode) := by
  have hdn : Alike R (userDn h settings mode username) (userDn h' settings' mode username) := by
    cases mode with
    | bind =>
      have hname : bindDn settings' username = bindDn settings username := by rw [hs.rest]; rfl
      unfold userDn
      rw [hname]
      exact Logged.alike_pure _
    | searchAndBind => exact alike_search hh hs username
  exact hdn.bind fun dn => (alike_bind hh dn hp).bind fun _ =>
    alike_searchGroupsRules hh hs ldapEscape dn

end

/-! ### The loop -/

/-- Two passes of the loop find the same, and alike connections. -/
structure AttemptAlike (R : σ → τ → Prop) (Q : String → String → Prop) (a : Attempt σ)
    (b : Attempt τ) : Prop where
  ctx : a.ctx = b.ctx
  ldapHandler : AlikeHandles R Q a.ldapHandler b.ldapHandler
  session : R a.session b.session

theorem failover_alike {α : Type} {op : LdapHandler σ → LogM σ α} {op' : LdapHandler τ → LogM τ α}
    (hop : ∀ h h', AlikeHandles R Q h h' → Alike R (op h) (op' h'))
    {attempts : List (Attempt σ × VkLdapContext)} {attempts' : List (Attempt τ × VkLdapContext)}
    (h : List.Forall₂ (fun x y => AttemptAlike R Q x.1 y.1 ∧ x.2 = y.2) attempts attempts') :
    failoverRecords op attempts = failoverRecords op' attempts' ∧
      runLdapOpWithFailover (fun h => erase (op h)) (attempts.map (·.1)) =
        runLdapOpWithFailover (fun h => erase (op' h)) (attempts'.map (·.1)) := by
  induction h with
  | nil => exact ⟨rfl, rfl⟩
  | @cons x y _ _ hxy _ ih =>
    obtain ⟨a, later⟩ := x
    obtain ⟨b, later'⟩ := y
    obtain ⟨⟨hctx, hhandler, hsession⟩, hlater⟩ := hxy
    obtain rfl : later = later' := hlater
    have hctx : a.ctx = b.ctx := hctx
    obtain ⟨hrecords, hend⟩ := hop _ _ hhandler a.session b.session hsession
    simp only [failoverRecords, List.map_cons, runLdapOpWithFailover]
    rw [← hctx, hrecords]
    cases a.ctx.findServer with
    | error err => exact ⟨rfl, rfl⟩
    | ok server =>
      simp only
      cases a.ctx.getConnectionPool server with
      | none => exact ⟨rfl, rfl⟩
      | some pool =>
        cases hx : run (erase (op a.ldapHandler)) a.session with
        | none =>
          rw [hx] at hend
          cases hy : run (erase (op' b.ldapHandler)) b.session with
          | none => exact ⟨rfl, rfl⟩
          | some _ =>
            rw [hy] at hend
            cases hend
        | some r =>
          obtain ⟨res, u⟩ := r
          rw [hx] at hend
          obtain ⟨v, hv, -⟩ := hend.of_left
          rw [hv]
          cases res with
          | ok v => exact ⟨rfl, rfl⟩
          | error err =>
            -- a connection error goes on with the passes that are left
            cases err with
            | ldapConnectionError err => simp only [ih.1, ih.2, and_self]
            | _ => exact ⟨rfl, rfl⟩

/-! ### The reply -/

open Auth

/-- The same call; or, with the fallback on, an `ACL SETUSER` with another
password. -/
def CallAlike (ctx : Configs) (c c' : Call) : Prop :=
  c = c' ∨ ctx.isAclFallbackEnabled = true ∧
    ∃ (uname : String) (p p' : ValkeyString) (tokens : List String),
      c = .acl ("SETUSER" :: uname :: aclRules ctx p tokens) ∧
        c' = .acl ("SETUSER" :: uname :: aclRules ctx p' tokens)

/-- What two `AUTH`s meet: alike connections, and a Valkey that answers alike
calls the same, errors and their texts included. -/
structure WorldAlike (R : σ → τ → Prop) (Q : String → String → Prop) (w : World σ) (w' : World τ) :
    Prop where
  attempts : List.Forall₂ (fun x y => AttemptAlike R Q x.1 y.1 ∧ x.2 = y.2) w.attempts w'.attempts
  handOver : w.handOver = w'.handOver
  configs : w.configs = w'.configs
  valkey : ∀ c c', CallAlike w.configs c c' → w.valkey c = w'.valkey c'
  answer : ∀ c c', CallAlike w.configs c c' → w.answer c = w'.answer c'

theorem setUser_alike (ctx : Configs) (uname : String) (p p' : ValkeyString)
    (tokens : List String) : CallAlike ctx (.acl ("SETUSER" :: uname :: aclRules ctx p tokens))
      (.acl ("SETUSER" :: uname :: aclRules ctx p' tokens)) := by
  by_cases hfall : ctx.isAclFallbackEnabled = true
  · exact Or.inr ⟨hfall, uname, p, p', tokens, rfl, rfl⟩
  · left
    simp [aclRules, hfall]

theorem replyRecords_alike {w : World σ} {w' : World τ} (hw : WorldAlike R Q w w')
    (username password password' : ValkeyString) (privData : Option (Result (List String))) :
    replyRecords w.configs w.valkey w.answer username password privData =
      replyRecords w'.configs w'.valkey w'.answer username password' privData := by
  have hvalkey : w.valkey = w'.valkey := funext fun c => hw.valkey c c (Or.inl rfl)
  have hanswer : w.answer = w'.answer := funext fun c => hw.answer c c (Or.inl rfl)
  have hset (uname : String) (tokens : List String) :=
    setUser_alike w.configs uname password password' tokens
  unfold replyRecords
  split
  · rename_i tokens
    simp only [applyRecords]
    rw [hw.valkey _ _ (hset _ tokens), hw.answer _ _ (hset _ tokens), hw.configs, hvalkey]
  · rw [hw.configs, hvalkey, hanswer]
  · rfl

/-- The replies to two `AUTH`s: the same result, by alike calls. -/
theorem reply_alike {ctx : Configs} {valkey valkey' : Valkey}
    (hvalkey : ∀ c c', CallAlike ctx c c' → valkey c = valkey' c')
    (username password password' : ValkeyString) (privData : Option (Result (List String))) :
    (authReplyCallback ctx valkey username password privData).2 =
        (authReplyCallback ctx valkey' username password' privData).2 ∧
      List.Forall₂ (CallAlike ctx) (authReplyCallback ctx valkey username password privData).1
        (authReplyCallback ctx valkey' username password' privData).1 := by
  have hsame (calls : List Call) : List.Forall₂ (CallAlike ctx) calls calls :=
    List.forall₂_same.mpr fun c _ => Or.inl rfl
  unfold authReplyCallback
  split
  · rename_i tokens
    have hset := setUser_alike ctx username.toString password password' tokens
    have hauth : CallAlike ctx (.authenticateClientWithAclUser username)
        (.authenticateClientWithAclUser username) := Or.inl rfl
    simp only [applyLdapUserAcl]
    rw [hvalkey _ _ hset, hvalkey _ _ hauth]
    split
    · exact ⟨rfl, .cons hset .nil⟩
    · split <;> exact ⟨rfl, .cons hset (.cons hauth .nil)⟩
  · exact ⟨rfl, hsame _⟩
  · exact ⟨rfl, .nil⟩

/-- **The log tells nothing of the passwords**, nor do the result and the reply,
but what the answers of the directory and of Valkey tell: two `AUTH`s that differ
in them alone, and are answered alike by both, show the same. -/
theorem passwords_not_told (ldapEscape : String → String) (configs : Configs)
    (scheduler : Scheduler) (settings settings' : VkLdapSettings)
    (username password password' : ValkeyString) (w : World σ) (w' : World τ)
    (hs : SettingsAlike Q settings settings') (hp : Q password.toString password'.toString)
    (hw : WorldAlike R Q w w') :
    authRecords ldapEscape configs scheduler settings username password w =
        authRecords ldapEscape configs scheduler settings' username password' w' ∧
      (∀ mode, ldapJob ldapEscape mode settings username.toString password.toString
          (w.attempts.map (·.1)) =
        ldapJob ldapEscape mode settings' username.toString password'.toString
          (w'.attempts.map (·.1))) ∧
      ∀ privData,
        (authReplyCallback w.configs w.valkey username password privData).2 =
          (authReplyCallback w'.configs w'.valkey username password' privData).2 ∧
        List.Forall₂ (CallAlike w.configs)
          (authReplyCallback w.configs w.valkey username password privData).1
          (authReplyCallback w'.configs w'.valkey username password' privData).1 := by
  have hop (mode : LdapAuthMode) := failover_alike (fun h h' hh =>
    alike_ldapGroupRules hh hs ldapEscape username.toString hp mode) hw.attempts
  have hjob (mode : LdapAuthMode) : ldapJob ldapEscape mode settings username.toString
      password.toString (w.attempts.map (·.1)) = ldapJob ldapEscape mode settings'
        username.toString password'.toString (w'.attempts.map (·.1)) := by
    have hrun := (hop mode).2
    simp only [erase_ldapGroupRules] at hrun
    exact hrun
  refine ⟨?_, hjob, fun privData => hw.configs ▸ reply_alike hw.valkey _ _ _ privData⟩
  unfold authRecords
  congr 1
  split
  · rename_i mode _
    unfold submittedRecords
    simp only
    rw [(hop mode).1, hjob mode, ← hw.handOver]
    congr 1
    split
    · split
      · exact replyRecords_alike hw username password password' _
      · exact congrArg _ (replyRecords_alike hw username password password' _)
    · exact replyRecords_alike hw username password password' _
  · rfl

/-- Bob logs in with either of two passwords, at a server that accepts any. -/
theorem passwords_not_told_bob :
    authRecords VkLdapConnection.ldapEscape { ldapServerList := "ldap://a" } .running
        { bindDbPrefix := "cn=" } bob ⟨[97]⟩ (.one (accepting "entryDN" "cn=bob") ()) =
      authRecords VkLdapConnection.ldapEscape { ldapServerList := "ldap://a" } .running
        { bindDbPrefix := "cn=" } bob ⟨[98]⟩ (.one (accepting "entryDN" "cn=bob") ()) :=
  (passwords_not_told (R := fun _ _ => True) (Q := fun _ _ => True) _ _ _ _ _ _ _ _ _ _
    ⟨.none, rfl⟩ trivial
    { attempts := .cons ⟨⟨rfl, ⟨fun _ _ _ _ _ _ _ => ⟨rfl, trivial⟩, fun _ _ _ _ => ⟨rfl, trivial⟩⟩,
        trivial⟩, rfl⟩ .nil
      handOver := rfl
      configs := rfl
      valkey := fun _ _ _ => rfl
      answer := fun _ _ _ => rfl }).1

end Logging
end ValkeyLdap
