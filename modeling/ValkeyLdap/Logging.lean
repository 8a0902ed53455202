/-
# What the authentication path logs

`src/logging.rs` hands every message to Valkey as a C string and panics where
that fails, on a NUL. The log calls of `src/auth.rs`, `src/vkldap/context.rs`
and `src/vkldap/connection.rs` write usernames, options, DNs and error texts
into their messages; `VkLdapError`'s `Display` strips NULs from the texts of
the client library, and nothing else does. Here the operations of `Failover`
run with their log calls, and without them are what they are there
(`erase_ldapGroupRules`).

`log_calls_accepted` says for which usernames and options no answer of a
directory makes a log call panic; `nul_username_panics` is a username that
does.

Key theorems: `logInternal_record`, `erase_ldapGroupRules`,
`safe_ldapGroupRules`, `log_calls_accepted`.
-/
import ValkeyLdap.Auth
import ValkeyLdap.GroupFilter
import ValkeyLdap.Lib.Logged
import ValkeyLdap.Replies
import ValkeyLdap.UserSearch

namespace ValkeyLdap
namespace Logging

open Session
open Session.Logged (Safe silent erase records)

variable {σ : Type}

/-! ### The logger -/

/-- The text holds no NUL. -/
def clean (s : String) : Bool := s.toList.all (· != Char.ofNat 0)

/-- `CString::new`; an error is unwrapped. -/
def cStringNew (s : String) : Option String := if clean s then some s else none

/-- `log::Level`, and the name of the level of Valkey it is logged at. -/
inductive Level
  | error
  | info
  | debug
  deriving DecidableEq, Repr

def Level.asRef : Level → String
  | .error => "warning"
  | .info => "notice"
  | .debug => "verbose"

/-- `log_internal`; `none` is its panic. -/
def logInternal (level : Level) (message : String) : Option Unit := do
  let _ ← cStringNew level.asRef
  let _ ← cStringNew message
  pure ()

/-- The module, file and line of a log call, as a debug message begins. -/
structure Site where
  text : String
  text_clean : clean text = true

/-- `log::Record`. -/
structure Record where
  level : Level
  site : Site
  args : String

/-- The message that `ValkeyGlobalLogger::log` makes of a record. -/
def Record.message (r : Record) : String :=
  match r.level with
  | .debug => r.site.text ++ r.args
  | _ => r.args

/-- The call does not panic. -/
def Record.Accepted (r : Record) : Prop := (logInternal r.level r.message).isSome = true

theorem clean_append (a b : String) : clean (a ++ b) = (clean a && clean b) := by
  unfold clean
  rw [String.toList_append, List.all_append]

/-- A record is accepted exactly if what the call formats holds no NUL. -/
theorem logInternal_record (r : Record) : r.Accepted ↔ clean r.args = true := by
  have hlevel : cStringNew r.level.asRef = some r.level.asRef := by
    cases r.level <;> rfl
  have hmessage : clean r.message = clean r.args := by
    unfold Record.message
    split
    · rw [clean_append, r.site.text_clean, Bool.true_and]
    · rfl
  unfold Record.Accepted logInternal
  rw [hlevel]
  unfold cStringNew
  rw [hmessage]
  cases clean r.args <;> simp

/-- A text between two that hold no NUL. -/
theorem clean_between {pre post : String} (x : String) (hpre : clean pre = true)
    (hpost : clean post = true) : clean (pre ++ x ++ post) = clean x := by
  rw [clean_append, clean_append, hpre, hpost, Bool.true_and, Bool.and_true]

/-- A text with two others in it. -/
theorem clean_two {pre mid x y : String} (hpre : clean pre = true) (hmid : clean mid = true)
    (hx : clean x = true) (hy : clean y = true) : clean (pre ++ x ++ mid ++ y) = true := by
  rw [clean_append, clean_between x hpre hmid, hx, hy]
  rfl

theorem clean_after {pre : String} (x : String) (hpre : clean pre = true) :
    clean (pre ++ x) = clean x := by
  rw [clean_append, hpre, Bool.true_and]

def connectionSite (line : String) (h : clean line = true) : Site :=
  ⟨"'valkey_ldap::vkldap::connection' src/vkldap/connection.rs:" ++ line ++ ": ",
    (clean_between line rfl rfl).trans h⟩

def contextSite (line : String) (h : clean line = true) : Site :=
  ⟨"'valkey_ldap::vkldap::context' src/vkldap/context.rs:" ++ line ++ ": ",
    (clean_between line rfl rfl).trans h⟩

def authSite (line : String) (h : clean line = true) : Site :=
  ⟨"'valkey_ldap::auth' src/auth.rs:" ++ line ++ ": ", (clean_between line rfl rfl).trans h⟩

/-! ### Texts of errors -/

theorem clean_ldapErrorToString (err : LdapError) : clean (ldapErrorToString err) = true := by
  unfold clean ldapErrorToString
  rw [String.toList_ofList, List.all_filter, List.all_eq_true]
  intro c _
  by_cases hc : c = Char.ofNat 0 <;> simp [hc]

/-- The texts of the client library are stripped. -/
theorem clean_ldapError {err : LdapError} {e : VkLdapError}
    (h : e = .ldapBindError err ∨ e = .ldapAdminBindError err ∨ e = .ldapSearchError err ∨
      e = .ldapConnectionError err) : clean e.toString = true := by
  have herr := clean_ldapErrorToString err
  rcases h with rfl | rfl | rfl | rfl
  · exact (clean_after _ rfl).trans herr
  · exact (clean_after _ rfl).trans herr
  · exact (clean_after _ rfl).trans herr
  · exact (clean_after _ rfl).trans herr

/-! ### The operations with their log calls -/

abbrev LogM (σ α : Type) := Logged Record σ VkLdapError α

def debug (site : Site) (args : String) : LogM σ Unit := Logged.log ⟨.debug, site, args⟩

/-- `format!("{:?}")` of a scope. -/
def scopeDebug : Scope → String
  | .base => "Base"
  | .oneLevel => "OneLevel"
  | .subtree => "Subtree"

def bindArgs (userDn : String) : String := "running ldap bind with DN='" ++ userDn ++ "'"

def adminBindArgs (bindDn : String) : String := "running ldap admin bind with DN='" ++ bindDn ++ "'"

def searchArgs (what filter : String) (scope : Scope) (attrs attr : String) : String :=
  "running ldap " ++ what ++ " with filter='" ++ filter ++ "' scope='" ++ scopeDebug scope ++ "' " ++
    attrs ++ "='" ++ attr ++ "'"

section
variable (ldapHandler : LdapHandler σ) (settings : VkLdapSettings)

protected def bind (userDn password : String) : LogM σ Unit := do
  debug (connectionSite "264" rfl) (bindArgs userDn)
  silent (VkLdapConnection.bind ldapHandler userDn password)

/-- The bind that precedes a search; the two places that make it differ in the
line. -/
def adminBind (site : Site) : LogM σ Unit :=
  match settings.searchBindDn with
  | some bindDn =>
    match settings.searchBindPasswd with
    | some bindPasswd => do
      debug site (adminBindArgs bindDn)
      silent (awaitLdap (ldapHandler.simpleBind bindDn bindPasswd) .ldapAdminBindError)
    | none => pure ()
  | none => pure ()

def search (username : String) : LogM σ String := do
  adminBind ldapHandler settings (connectionSite "283" rfl)
  debug (connectionSite "313" rfl)
    (searchArgs "search" (VkLdapConnection.searchFilter settings username) settings.searchScope
      "attribute" settings.searchDnAttribute)
  let rs ← silent (awaitLdap (ldapHandler.search (UserSearch.request settings username))
    .ldapSearchError)
  silent (UserSearch.foundDn settings username rs)

def prepareGroupSearch : LogM σ (String × String) := do
  adminBind ldapHandler settings (connectionSite "360" rfl)
  let base := (settings.groupsSearchBase.or settings.searchBase).getD ""
  let filter := settings.groupsFilter.getD "objectClass=groupOfNames"
  pure (base, filter)

def searchGroupsRules (ldapEscape : String → String) (userDn : String) : LogM σ (List String) := do
  let (base, filter) ← prepareGroupSearch ldapHandler settings
  let memberAttr := settings.groupsMemberAttribute
  let rulesAttr := settings.groupsRulesAttribute
  let searchFilter := VkLdapConnection.andFilter filter memberAttr (ldapEscape userDn)
  debug (connectionSite "445" rfl)
    (searchArgs "group rules search" searchFilter settings.searchScope "attrs" rulesAttr)
  let rs ← silent (awaitLdap
    (ldapHandler.search
      { base, scope := settings.searchScope, filter := searchFilter, attrs := [rulesAttr] })
    .ldapSearchError)
  let sentries ← silent (SearchEntry.constructEach rs)
  pure (collectRules rulesAttr sentries)

/-- The name a mode binds. -/
def userDn (mode : LdapAuthMode) (username : String) : LogM σ String :=
  match mode with
  | .bind => pure (bindDn settings username)
  | .searchAndBind => search ldapHandler settings username

/-- The operation of a mode. -/
def ldapGroupRules (ldapEscape : String → String) (username password : String)
    (mode : LdapAuthMode) : LogM σ (List String) := do
  let dn ← userDn ldapHandler settings mode username
  Logging.bind ldapHandler dn password
  searchGroupsRules ldapHandler settings ldapEscape dn

end

/-! ### Without the log calls -/

theorem erase_debug (site : Site) (args : String) :
    erase (debug site args : LogM σ Unit) = pure () := rfl

theorem erase_adminBind (ldapHandler : LdapHandler σ) (settings : VkLdapSettings) (site : Site) :
    erase (adminBind ldapHandler settings site) = VkLdapConnection.adminBind ldapHandler settings := by
  unfold adminBind VkLdapConnection.adminBind
  rcases settings.searchBindDn with _ | bindDn
  · rfl
  · rcases settings.searchBindPasswd with _ | bindPasswd
    · rfl
    · show erase (debug site _ >>= fun _ => silent _) = _
      rw [Logged.erase_bind, erase_debug, pure_bind, Logged.erase_silent]

theorem erase_search (ldapHandler : LdapHandler σ) (settings : VkLdapSettings) (username : String) :
    erase (search ldapHandler settings username) =
      VkLdapConnection.search ldapHandler settings username := by
  rw [UserSearch.search_eq]
  unfold search
  simp only [Logged.erase_bind, erase_adminBind, erase_debug, pure_bind, Logged.erase_silent]

theorem erase_userDn (ldapHandler : LdapHandler σ) (settings : VkLdapSettings)
    (mode : LdapAuthMode) (username : String) :
    erase (userDn ldapHandler settings mode username) =
      ValkeyLdap.userDn mode settings username ldapHandler := by
  cases mode with
  | bind => rfl
  | searchAndBind => exact erase_search ldapHandler settings username

theorem erase_searchGroupsRules (ldapHandler : LdapHandler σ) (settings : VkLdapSettings)
    (ldapEscape : String → String) (userDn : String) :
    erase (searchGroupsRules ldapHandler settings ldapEscape userDn) =
      VkLdapConnection.searchGroupsRules ldapHandler settings ldapEscape userDn := by
  unfold searchGroupsRules prepareGroupSearch VkLdapConnection.searchGroupsRules
    VkLdapConnection.prepareGroupSearch
  simp only [Logged.erase_bind, erase_adminBind, erase_debug, pure_bind, Logged.erase_silent,
    Logged.erase_pure, bind_assoc]

/-- **Without its log calls the operation is that of `Failover`.** -/
theorem erase_ldapGroupRules (ldapHandler : LdapHandler σ) (settings : VkLdapSettings)
    (ldapEscape : String → String) (username password : String) (mode : LdapAuthMode) :
    erase (ldapGroupRules ldapHandler settings ldapEscape username password mode) =
      ValkeyLdap.ldapGroupRules ldapEscape settings username password mode ldapHandler := by
  rw [ldapGroupRules_eq]
  unfold ldapGroupRules Logging.bind
  simp only [Logged.erase_bind, erase_userDn, erase_searchGroupsRules, erase_debug, pure_bind,
    Logged.erase_silent]

/-! ### Options without a NUL -/

def AdminTexts (settings : VkLdapSettings) : Prop :=
  ∀ bindDn bindPasswd, settings.searchBindDn = some bindDn →
    settings.searchBindPasswd = some bindPasswd → clean bindDn = true

/-- The options that the group search formats. -/
def GroupTexts (settings : VkLdapSettings) : Prop :=
  AdminTexts settings ∧ clean (settings.groupsFilter.getD "objectClass=groupOfNames") = true ∧
    clean settings.groupsMemberAttribute = true ∧ clean settings.groupsRulesAttribute = true

/-- The options that the user search formats. -/
def UserTexts (settings : VkLdapSettings) : Prop :=
  AdminTexts settings ∧ clean (settings.searchFilter.getD "objectClass=*") = true ∧
    clean (settings.searchAttribute.getD "uid") = true ∧ clean settings.searchDnAttribute = true

/-- What the operation of a mode formats, the username apart; `dns` are the
DNs that the directory may give its users. -/
def OpTexts (settings : VkLdapSettings) (dns : String → Prop) : LdapAuthMode → Prop
  | .bind =>
    clean settings.bindDbPrefix = true ∧ clean settings.bindDbSuffix = true ∧ GroupTexts settings
  | .searchAndBind => UserTexts settings ∧ ∀ dn, dns dn → clean dn = true ∧ GroupTexts settings

/-- The DNs that the directory gives its users are among `dns`. -/
def AnswersWithin (settings : VkLdapSettings) (dns : String → Prop) (ldapHandler : LdapHandler σ) :
    Prop :=
  ∀ r s t rs entry sentry dn vals, ldapHandler.search r s = (.ok rs, t) → entry ∈ rs →
    entry.constructed = some sentry →
      sentry.attrs.lookup settings.searchDnAttribute = some (dn :: vals) → dns dn

theorem clean_andFilter (filter attr value : String) :
    clean (VkLdapConnection.andFilter filter attr value) =
      (clean filter && clean attr && clean value) := by
  unfold VkLdapConnection.andFilter
  simp only [clean_append]
  generalize clean filter = f
  generalize clean attr = a
  generalize clean value = v
  cases f <;> cases a <;> cases v <;> rfl

theorem clean_searchArgs {what attrs : String} (filter : String) (scope : Scope) (attr : String)
    (hwhat : clean what = true) (hattrs : clean attrs = true) :
    clean (searchArgs what filter scope attrs attr) = (clean filter && clean attr) := by
  have hscope : clean (scopeDebug scope) = true := by cases scope <;> rfl
  unfold searchArgs
  simp only [clean_append, hwhat, hattrs, hscope]
  generalize clean filter = f
  generalize clean attr = a
  cases f <;> cases a <;> rfl

theorem clean_bindDn (settings : VkLdapSettings) (username : String) :
    clean (bindDn settings username) =
      (clean settings.bindDbPrefix && clean username && clean settings.bindDbSuffix) := by
  unfold bindDn
  rw [clean_append, clean_append]

theorem ne_nul_of_hexValue {c : Char} {n : ℕ} (h : LdapFilter.hexValue c = some n) :
    c ≠ Char.ofNat 0 := by
  rintro rfl
  have hnone : LdapFilter.hexValue (Char.ofNat 0) = none := by decide
  rw [hnone] at h
  cases h

/-- `ldap_escape` leaves no NUL. -/
theorem clean_ldapEscape {ldapEscape : String → String}
    (hescape : LdapFilter.Escapes (VkLdapConnection.onChars ldapEscape)) (s : String) :
    clean (ldapEscape s) = true := by
  obtain ⟨code, hcode, hflat⟩ := hescape
  have hflat := hflat s.toList
  rw [VkLdapConnection.onChars, String.ofList_toList] at hflat
  unfold clean
  rw [hflat, List.all_eq_true]
  intro c hc
  rw [bne_iff_ne]
  obtain ⟨d, -, hc⟩ := List.mem_flatMap.mp hc
  by_cases hd : LdapFilter.special d = true
  · rw [if_pos hd] at hc
    obtain ⟨h, l, a, b, hw, ha, hb, -⟩ := hcode d hd
    rw [hw] at hc
    -- a NUL is neither the backslash nor a digit of the code
    rcases List.mem_cons.mp hc with rfl | hc
    · decide
    · rcases List.mem_cons.mp hc with rfl | hc
      · exact ne_nul_of_hexValue ha
      · rw [List.mem_singleton.mp hc]
        exact ne_nul_of_hexValue hb
  · rw [if_neg hd, List.mem_singleton] at hc
    rintro rfl
    rw [← hc] at hd
    exact hd (by decide)

/-! ### What an operation logs -/

/-- The error's text holds no NUL. -/
def CleanError (e : VkLdapError) : Prop := clean e.toString = true

theorem accepted_debug {site : Site} {args : String} :
    Record.Accepted ⟨.debug, site, args⟩ ↔ clean args = true := logInternal_record _

theorem safe_debug {site : Site} {args : String} (h : clean args = true) :
    Safe Record.Accepted CleanError (fun _ => True) (debug site args : LogM σ Unit) :=
  Logged.safe_log (accepted_debug.mpr h)

theorem safe_awaitLdap {α : Type} {expr : σ → Except LdapError α × σ}
    {errtype : LdapError → VkLdapError} {post : α → Prop}
    (herr : ∀ err, CleanError (errtype err)) (hpost : ∀ s a t, expr s = (.ok a, t) → post a) :
    Safe Record.Accepted CleanError post (silent (awaitLdap expr errtype) : LogM σ α) := by
  refine Logged.safe_silent (fun s a t h => hpost s a t (run_awaitLdap_ok.mp h))
    fun s e t h => ?_
  obtain ⟨err, rfl | rfl⟩ := UserSearch.error_awaitLdap h
  · exact clean_ldapError (.inr (.inr (.inr rfl)))
  · exact herr err

theorem safe_adminBind (ldapHandler : LdapHandler σ) {settings : VkLdapSettings} (site : Site)
    (h : AdminTexts settings) :
    Safe Record.Accepted CleanError (fun _ => True) (adminBind ldapHandler settings site) := by
  unfold adminBind
  split
  · rename_i bindDn hdn
    split
    · rename_i bindPasswd hpasswd
      have hargs : clean (adminBindArgs bindDn) = true :=
        (clean_between _ rfl rfl).trans (h bindDn bindPasswd hdn hpasswd)
      exact (safe_debug hargs).bind fun _ _ =>
        safe_awaitLdap (fun _ => clean_ldapError (.inr (.inl rfl))) fun _ _ _ _ => trivial
    · exact Logged.safe_pure trivial
  · exact Logged.safe_pure trivial

theorem safe_bind (ldapHandler : LdapHandler σ) {dn : String} (password : String)
    (h : clean dn = true) :
    Safe Record.Accepted CleanError (fun _ => True) (Logging.bind ldapHandler dn password) :=
  (safe_debug ((clean_between _ rfl rfl).trans h)).bind fun _ _ =>
    safe_awaitLdap (fun _ => clean_ldapError (.inl rfl)) fun _ _ _ _ => trivial

/-- What the search makes of the entries: a DN of theirs, or an error about the
filter or the attribute. -/
theorem safe_foundDn {settings : VkLdapSettings} {username : String} {rs : List ResultEntry}
    {post : String → Prop} (hfilter : clean (VkLdapConnection.searchFilter settings username) = true)
    (hattr : clean settings.searchDnAttribute = true)
    (hpost : ∀ entry ∈ rs, ∀ sentry dn vals, entry.constructed = some sentry →
      sentry.attrs.lookup settings.searchDnAttribute = some (dn :: vals) → post dn) :
    Safe Record.Accepted CleanError post
      (silent (UserSearch.foundDn settings username rs) : LogM σ String) := by
  refine Logged.safe_silent (fun s dn t h => ?_) fun s e t h => ?_
  · unfold UserSearch.foundDn at h
    split at h
    · cases h
    · rename_i entry
      obtain ⟨sentry, u, hsentry, h⟩ := ok_of_bind h
      unfold UserSearch.entryDn at h
      split at h
      · cases h
      · rename_i v vals hv
        obtain rfl := Except.ok.inj (Prod.mk.inj (Option.some.inj h)).1
        exact hpost _ (List.mem_singleton.mpr rfl) _ _ _ (SearchEntry.construct_ok hsentry) hv
      · cases h
    · cases h
  · have hfound : ∀ pre post : String, clean pre = true → clean post = true →
        clean (pre ++ VkLdapConnection.searchFilter settings username ++ post) = true :=
      fun pre post h₁ h₂ => (clean_between _ h₁ h₂).trans hfilter
    unfold UserSearch.foundDn at h
    split at h
    · obtain rfl := Except.error.inj (Prod.mk.inj (Option.some.inj h)).1
      exact hfound _ _ rfl rfl
    · rcases error_of_bind h with h | ⟨sentry, u, -, h⟩
      · exact (SearchEntry.fails_construct (fun _ => False) _ s e t h).elim
      · unfold UserSearch.entryDn at h
        split at h
        · obtain rfl := Except.error.inj (Prod.mk.inj (Option.some.inj h)).1
          exact (clean_between _ rfl rfl).trans hattr
        · cases h
        · cases h
    · obtain rfl := Except.error.inj (Prod.mk.inj (Option.some.inj h)).1
      exact hfound _ _ rfl rfl

theorem clean_searchFilter {settings : VkLdapSettings} {username : String}
    (h : UserTexts settings) (husername : clean username = true) :
    clean (VkLdapConnection.searchFilter settings username) = true := by
  obtain ⟨-, hfilter, hattr, -⟩ := h
  unfold VkLdapConnection.searchFilter
  rw [clean_andFilter, hfilter, hattr, husername]
  rfl

theorem safe_search {ldapHandler : LdapHandler σ} {settings : VkLdapSettings} {username : String}
    {dns : String → Prop} (h : UserTexts settings) (husername : clean username = true)
    (hdns : AnswersWithin settings dns ldapHandler) :
    Safe Record.Accepted CleanError dns (search ldapHandler settings username) := by
  have hfilter := clean_searchFilter h husername
  have hattr := h.2.2.2
  have hargs : clean (searchArgs "search" (VkLdapConnection.searchFilter settings username)
      settings.searchScope "attribute" settings.searchDnAttribute) = true := by
    rw [clean_searchArgs _ _ _ rfl rfl, hfilter, hattr]
    rfl
  have hrs : Safe Record.Accepted CleanError (fun rs => ∀ entry ∈ rs, ∀ sentry dn vals,
      entry.constructed = some sentry →
        sentry.attrs.lookup settings.searchDnAttribute = some (dn :: vals) → dns dn)
      (silent (awaitLdap (ldapHandler.search (UserSearch.request settings username))
        .ldapSearchError) : LogM σ (List ResultEntry)) := by
    refine safe_awaitLdap (fun _ => clean_ldapError (.inr (.inr (.inl rfl)))) ?_
    intro s rs t hrs entry hentry sentry dn vals hsentry hlookup
    exact hdns _ s t rs entry sentry dn vals hrs hentry hsentry hlookup
  exact (safe_adminBind ldapHandler _ h.1).bind fun _ _ => (safe_debug hargs).bind fun _ _ =>
    hrs.bind fun _ hdn => safe_foundDn hfilter hattr hdn

/-- The group search's message: the filter and the attribute of the rules. -/
theorem clean_groupArgs {ldapEscape : String → String}
    (hescape : LdapFilter.Escapes (VkLdapConnection.onChars ldapEscape)) (settings : VkLdapSettings)
    (dn : String) :
    clean (searchArgs "group rules search" (VkLdapConnection.andFilter
      (settings.groupsFilter.getD "objectClass=groupOfNames") settings.groupsMemberAttribute
      (ldapEscape dn)) settings.searchScope "attrs" settings.groupsRulesAttribute) =
    (clean (settings.groupsFilter.getD "objectClass=groupOfNames") &&
      clean settings.groupsMemberAttribute && clean settings.groupsRulesAttribute) := by
  rw [clean_searchArgs _ _ _ rfl rfl, clean_andFilter, clean_ldapEscape hescape, Bool.and_true]

theorem safe_searchGroupsRules {ldapEscape : String → String}
    (hescape : LdapFilter.Escapes (VkLdapConnection.onChars ldapEscape))
    (ldapHandler : LdapHandler σ) {settings : VkLdapSettings} (dn : String)
    (h : GroupTexts settings) :
    Safe Record.Accepted CleanError (fun _ => True)
      (searchGroupsRules ldapHandler settings ldapEscape dn) := by
  obtain ⟨hadmin, hfilter, hmember, hrules⟩ := h
  have hprepare : Safe Record.Accepted CleanError
      (fun x => x.2 = settings.groupsFilter.getD "objectClass=groupOfNames")
      (prepareGroupSearch ldapHandler settings) :=
    (safe_adminBind ldapHandler _ hadmin).bind fun _ _ => Logged.safe_pure rfl
  refine hprepare.bind ?_
  rintro ⟨base, filter⟩ rfl
  have hargs := clean_groupArgs hescape settings dn
  rw [hfilter, hmember, hrules] at hargs
  have hrs : ∀ r, Safe Record.Accepted CleanError (fun _ => True)
      (silent (awaitLdap (ldapHandler.search r) .ldapSearchError) : LogM σ (List ResultEntry)) :=
    fun _ => safe_awaitLdap (fun _ => clean_ldapError (.inr (.inr (.inl rfl))))
      fun _ _ _ _ => trivial
  have hconstruct : ∀ rs, Safe Record.Accepted CleanError (fun _ => True)
      (silent (SearchEntry.constructEach rs) : LogM σ (List SearchEntry)) := fun rs =>
    Logged.safe_silent (fun _ _ _ _ => trivial) (SearchEntry.fails_constructEach CleanError rs)
  exact (safe_debug hargs).bind fun _ _ => (hrs _).bind fun rs _ => (hconstruct rs).bind fun _ _ =>
    Logged.safe_pure trivial

/-- **An operation logs nothing that is refused.** -/
theorem safe_ldapGroupRules {ldapEscape : String → String}
    (hescape : LdapFilter.Escapes (VkLdapConnection.onChars ldapEscape))
    {ldapHandler : LdapHandler σ} {settings : VkLdapSettings} {username : String}
    {dns : String → Prop} {mode : LdapAuthMode} (password : String)
    (h : OpTexts settings dns mode) (husername : clean username = true)
    (hdns : AnswersWithin settings dns ldapHandler) :
    Safe Record.Accepted CleanError (fun _ => True)
      (ldapGroupRules ldapHandler settings ldapEscape username password mode) := by
  have hdn : Safe Record.Accepted CleanError (fun dn => clean dn = true ∧ GroupTexts settings)
      (userDn ldapHandler settings mode username) := by
    cases mode with
    | bind =>
      obtain ⟨hpre, hsuffix, hgroup⟩ := h
      refine Logged.safe_pure ⟨?_, hgroup⟩
      rw [clean_bindDn, hpre, hsuffix, husername]
      rfl
    | searchAndBind => exact (safe_search h.1 husername hdns).imp h.2
  exact hdn.bind fun dn ⟨hclean, hgroup⟩ => (safe_bind ldapHandler password hclean).bind fun _ _ =>
    safe_searchGroupsRules hescape ldapHandler dn hgroup

/-! ### The loop -/

/-- `Display`. -/
def statusToString : VkLdapServerStatus → String
  | .healthy => "HEALTHY"
  | .unhealthy msg => "UNHEALTHY: [" ++ msg ++ "]"

/-- What `update_server_status` logs. -/
def transitionRecords (ctx : VkLdapContext) (server : VkLdapServer) (status : VkLdapServerStatus) :
    List Record :=
  match ctx.servers[server.id]? with
  | none => []
  | some server =>
    if server.status.eq status then []
    else [⟨.info, contextSite "104" rfl, "transition server " ++ server.url ++ " " ++
      statusToString server.status ++ " -> " ++ statusToString status⟩]

def failoverRecord : Record := ⟨.debug, contextSite "281" rfl,
  "got connection error during ldap operation, failing over to other available server..."⟩

/-- What `run_ldap_op_with_failover` logs over what its passes find: an
attempt, and the context in which a connection error is reported. -/
def failoverRecords {α : Type} (ldapOp : LdapHandler σ → LogM σ α) :
    List (Attempt σ × VkLdapContext) → List Record
  | [] => []
  | (a, later) :: attempts =>
    match a.ctx.findServer with
    | .error _ => []
    | .ok server =>
      match a.ctx.getConnectionPool server with
      | none => []
      | some _ =>
        records (ldapOp a.ldapHandler) a.session ++
          match run (erase (ldapOp a.ldapHandler)) a.session with
          | some (.error (.ldapConnectionError err), _) =>
            transitionRecords later server (.unhealthy (VkLdapError.ldapConnectionError err).toString) ++
              failoverRecord :: failoverRecords ldapOp attempts
          | _ => []

/-! ### The callbacks -/

open Auth

def authDebug (line : String) (h : clean line = true) (args : String) : Record :=
  ⟨.debug, authSite line h, args⟩

def authError (line : String) (h : clean line = true) (args : String) : Record :=
  ⟨.error, authSite line h, args⟩

/-- What `ldap_auth_blocking_callback` logs. -/
def blockingRecords (ctx : Configs) (scheduler : Scheduler) (username : ValkeyString) :
    List Record :=
  if !ctx.isAuthEnabled then []
  else
    let userStr := username.toString
    if ctx.isUserExemptedFromLdap userStr then
      [authDebug "158" rfl ("user " ++ userStr ++ " is exempted from LDAP authentication")]
    else
      authDebug "162" rfl ("starting authentication for user=" ++ username.toString) ::
        match ldapAuthBlockingCallback ctx scheduler username with
        | .failed err =>
          [authError "188" rfl ("failed to submit ldap bind request: " ++ err.toString)]
        | _ => []

section
variable (ctx : Configs) (valkey : Valkey) (answer : Call → String)

/-- What `apply_ldap_user_acl` logs; `answer` is what Valkey's answer to a
call reads. -/
def applyRecords (username password : ValkeyString) (ldapTokens : List String) : List Record :=
  let uname := username.toString
  let setUser := .acl ("SETUSER" :: uname :: aclRules ctx password ldapTokens)
  if !valkey setUser then
    [authError "45" rfl ("failed to set ACL for user " ++ uname ++ ": " ++ answer setUser)]
  else if valkey (.authenticateClientWithAclUser username) then
    [authDebug "51" rfl ("successfully authenticated LDAP user " ++ username.toString)]
  else []

def notFoundRecords (username : String) : List Record :=
  if ctx.isUserExemptedFromLdap username then []
  else
    authDebug "64" rfl ("user " ++ username ++ " not found in LDAP, deleting from ACL") ::
      if valkey (delUser username) then
        [authDebug "66" rfl ("successfully deleted user " ++ username ++ " from ACL")]
      else
        [authDebug "67" rfl
          ("could not delete user " ++ username ++ " from ACL: " ++ answer (delUser username))]

def unavailableRecords (username : String) : List Record :=
  if ctx.isAclFallbackEnabled then
    [authDebug "76" rfl
      ("LDAP server unavailable, falling back to ACL authentication for user " ++ username)]
  else
    [authDebug "79" rfl
      ("LDAP server unavailable and fallback disabled, rejecting authentication for user " ++
        username)]

def rejectionRecords (username : String) : List Record :=
  authError "96" rfl
      ("LDAP rejected credentials for user " ++ username ++ ", attempting to delete from ACL") ::
    if valkey (delUser username) then
      [authDebug "99" rfl ("ACL DELUSER returned: " ++ answer (delUser username)),
        authDebug "100" rfl ("successfully deleted user " ++ username ++ " from ACL")]
    else
      [authError "103" rfl
        ("ACL DELUSER failed for user " ++ username ++ ": " ++ answer (delUser username))]

/-- What `auth_reply_callback` logs. -/
def replyRecords (username password : ValkeyString) (privData : Option (Result (List String))) :
    List Record :=
  match privData with
  | some (.ok ldapTokens) => applyRecords ctx valkey answer username password ldapTokens
  | some (.error err) =>
    let uname := username.toString
    authDebug "124" rfl ("failed to authenticate LDAP user " ++ uname) ::
      authError "125" rfl ("LDAP authentication failure: " ++ err.toString) ::
      if err.isUserNotFound then notFoundRecords ctx valkey answer uname
      else if err.isServerUnavailable then unavailableRecords ctx uname
      else rejectionRecords valkey answer uname
  | none => []

end

/-! ### The way of a request -/

/-- What an `AUTH` meets: what its passes of the loop find, the error of
handing the result over if there is one, and the configuration and Valkey's
answers at the reply. -/
structure World (σ : Type) where
  attempts : List (Attempt σ × VkLdapContext)
  handOver : Option String
  configs : Configs
  valkey : Valkey
  answer : Call → String

/-- What an `AUTH` logs in the operation it submits and in its reply. -/
def submittedRecords (ldapEscape : String → String) (settings : VkLdapSettings)
    (username password : ValkeyString) (mode : LdapAuthMode) (w : World σ) : List Record :=
  let user := username.toString
  let passwd := password.toString
  failoverRecords (fun h => ldapGroupRules h settings ldapEscape user passwd mode) w.attempts ++
    match ldapJob ldapEscape mode settings user passwd (w.attempts.map (·.1)) with
    | .returned res =>
      match w.handOver with
      | none => replyRecords w.configs w.valkey w.answer username password (some res)
      | some e =>
        authError "175" rfl ("failed to set the auth callback result: " ++ e) ::
          replyRecords w.configs w.valkey w.answer username password none
    | _ => replyRecords w.configs w.valkey w.answer username password none

/-- What an `AUTH` logs. -/
def authRecords (ldapEscape : String → String) (configs : Configs) (scheduler : Scheduler)
    (settings : VkLdapSettings) (username password : ValkeyString) (w : World σ) : List Record :=
  blockingRecords configs scheduler username ++
    match ldapAuthBlockingCallback configs scheduler username with
    | .submitted mode => submittedRecords ldapEscape settings username password mode w
    | _ => []

/-! ### Usernames and options that are never refused -/

/-- What `dns` and the documentation of Valkey and of the URL parser say of
what an `AUTH` meets. -/
structure World.Within (settings : VkLdapSettings) (dns : String → Prop) (w : World σ) : Prop where
  directory : ∀ x ∈ w.attempts, AnswersWithin settings dns x.1.ldapHandler
  url : ∀ x ∈ w.attempts, ∀ server ∈ x.2.servers, clean server.url = true
  handOver : ∀ e, w.handOver = some e → clean e = true
  answer : ∀ call, clean (w.answer call) = true

theorem transition_accepted {ctx : VkLdapContext} (hurl : ∀ server ∈ ctx.servers,
    clean server.url = true) (server : VkLdapServer) {err : VkLdapError} (herr : CleanError err) :
    ∀ r ∈ transitionRecords ctx server (.unhealthy err.toString), r.Accepted := by
  intro r hr
  unfold transitionRecords at hr
  split at hr
  · cases hr
  · rename_i entry hentry
    have hurl := hurl entry (List.mem_of_getElem? hentry)
    cases hstatus : entry.status with
    | unhealthy msg =>
      rw [hstatus] at hr
      cases hr
    | healthy =>
      rw [hstatus] at hr
      rw [List.mem_singleton.mp hr, logInternal_record]
      simp only [statusToString, clean_append, hurl]
      rw [show clean err.toString = true from herr]
      rfl

theorem findServer_clean {ctx : VkLdapContext} {err : VkLdapError}
    (h : ctx.findServer = .error err) : CleanError err := by
  unfold VkLdapContext.findServer at h
  split at h
  · obtain rfl := Except.error.inj h
    rfl
  · split at h
    · cases h
    · obtain rfl := Except.error.inj h
      rfl

/-- The loop logs what its operations log and the transitions. -/
theorem failoverRecords_accepted {α : Type} {ldapOp : LdapHandler σ → LogM σ α} :
    ∀ {attempts : List (Attempt σ × VkLdapContext)},
      (∀ x ∈ attempts, Safe Record.Accepted CleanError (fun _ => True) (ldapOp x.1.ldapHandler)) →
      (∀ x ∈ attempts, ∀ server ∈ x.2.servers, clean server.url = true) →
      ∀ r ∈ failoverRecords ldapOp attempts, r.Accepted
  | [], _, _, r, hr => by cases hr
  | (a, later) :: attempts, hop, hurl, r, hr => by
    obtain ⟨hrecords, -, herr⟩ := hop _ List.mem_cons_self a.session
    unfold failoverRecords at hr
    split at hr
    · cases hr
    · rename_i server _
      split at hr
      · cases hr
      · rcases List.mem_append.mp hr with hr | hr
        · exact hrecords r hr
        · split at hr
          · rename_i err t hrun
            rcases List.mem_append.mp hr with hr | hr
            · exact transition_accepted (hurl _ List.mem_cons_self) server (herr _ t hrun) r hr
            · rcases List.mem_cons.mp hr with rfl | hr
              · exact (logInternal_record _).mpr (by decide)
              · exact failoverRecords_accepted (fun x hx => hop x (List.mem_cons_of_mem _ hx))
                  (fun x hx => hurl x (List.mem_cons_of_mem _ hx)) r hr
          · cases hr

/-- The loop ends in an error of the table or of an operation. -/
theorem runLdapOpWithFailover_clean {α : Type} (ldapOp : LdapHandler σ → LogM σ α)
    {err : VkLdapError} : ∀ {attempts : List (Attempt σ)},
      (∀ a ∈ attempts, Safe Record.Accepted CleanError (fun _ => True) (ldapOp a.ldapHandler)) →
      runLdapOpWithFailover (fun h => erase (ldapOp h)) attempts = .returned (.error err) →
      CleanError err
  | [], _, h => by cases h
  | a :: attempts, hop, h => by
    obtain ⟨-, -, herr⟩ := hop _ List.mem_cons_self a.session
    unfold runLdapOpWithFailover at h
    split at h
    · rename_i hfind
      obtain rfl := Except.error.inj (Progress.returned.inj h)
      exact findServer_clean hfind
    · split at h
      · cases h
      · split at h
        · cases h
        · exact runLdapOpWithFailover_clean ldapOp (fun b hb => hop b (List.mem_cons_of_mem _ hb)) h
        · rename_i res t _ hrun
          obtain rfl := Progress.returned.inj h
          exact herr err t hrun

/-- Every record of the list is accepted. -/
def AllAccepted (rs : List Record) : Prop := ∀ r ∈ rs, r.Accepted

theorem allAccepted_nil : AllAccepted [] := fun _ h => by cases h

theorem allAccepted_cons {r : Record} {rs : List Record} :
    AllAccepted (r :: rs) ↔ clean r.args = true ∧ AllAccepted rs := by
  unfold AllAccepted
  rw [List.forall_mem_cons, logInternal_record]

theorem allAccepted_append {rs rs' : List Record} :
    AllAccepted (rs ++ rs') ↔ AllAccepted rs ∧ AllAccepted rs' := List.forall_mem_append

theorem submit_clean {mode : LdapAuthMode} {scheduler : Scheduler} {err : VkLdapError}
    (h : submitLdapOp mode scheduler = .error err) : CleanError err := by
  cases scheduler with
  | stopped =>
    obtain rfl := Except.error.inj h
    rfl
  | running => cases h
  | closed =>
    obtain rfl := Except.error.inj h
    rfl

theorem blocking_failed_clean {ctx : Configs} {scheduler : Scheduler} {username : ValkeyString}
    {err : VkLdapError} (h : ldapAuthBlockingCallback ctx scheduler username = .failed err) :
    CleanError err := by
  have hres : ∃ mode, submitLdapOp mode scheduler = .error err := by
    unfold ldapAuthBlockingCallback at h
    split at h
    · cases h
    · simp only at h
      split at h
      · cases h
      · split at h
        · cases h
        · rename_i err' hres
          obtain rfl := Blocking.failed.inj h
          split at hres
          · exact ⟨.bind, hres⟩
          · exact ⟨.searchAndBind, hres⟩
  obtain ⟨mode, hres⟩ := hres
  exact submit_clean hres

/-- The blocking callback logs the username, if authentication is on. -/
theorem blockingRecords_accepted {ctx : Configs} {scheduler : Scheduler} {username : ValkeyString} :
    AllAccepted (blockingRecords ctx scheduler username) ↔
      (ctx.isAuthEnabled = true → clean username.toString = true) := by
  unfold blockingRecords
  by_cases henabled : ctx.isAuthEnabled = true
  · rw [if_neg (by simp [henabled])]
    simp only
    split
    · rw [allAccepted_cons]
      simp only [authDebug, clean_between _ (show clean "user " = true from rfl)
        (show clean " is exempted from LDAP authentication" = true from rfl)]
      exact ⟨fun h _ => h.1, fun h => ⟨h henabled, allAccepted_nil⟩⟩
    · rw [allAccepted_cons]
      simp only [authDebug, clean_after _ (show clean "starting authentication for user=" = true
        from rfl)]
      refine ⟨fun h _ => h.1, fun h => ⟨h henabled, ?_⟩⟩
      split
      · rename_i err herr
        have herr : clean err.toString = true := blocking_failed_clean herr
        exact allAccepted_cons.mpr ⟨(clean_after _ rfl).trans herr, allAccepted_nil⟩
      · exact allAccepted_nil
  · rw [if_pos (by simp [henabled])]
    exact ⟨fun _ h => absurd h henabled, fun _ => allAccepted_nil⟩

section
variable {ctx : Configs} {valkey : Valkey} {answer : Call → String}

theorem applyRecords_accepted {username : ValkeyString} (husername : clean username.toString = true)
    (hanswer : ∀ call, clean (answer call) = true) (password : ValkeyString)
    (ldapTokens : List String) :
    AllAccepted (applyRecords ctx valkey answer username password ldapTokens) := by
  unfold applyRecords
  simp only
  split
  · exact allAccepted_cons.mpr ⟨clean_two rfl rfl husername (hanswer _), allAccepted_nil⟩
  · split
    · exact allAccepted_cons.mpr ⟨(clean_after _ rfl).trans husername, allAccepted_nil⟩
    · exact allAccepted_nil

theorem notFoundRecords_accepted {username : String} (husername : clean username = true)
    (hanswer : ∀ call, clean (answer call) = true) :
    AllAccepted (notFoundRecords ctx valkey answer username) := by
  unfold notFoundRecords
  split
  · exact allAccepted_nil
  · refine allAccepted_cons.mpr ⟨(clean_between _ rfl rfl).trans husername, ?_⟩
    split
    · exact allAccepted_cons.mpr ⟨(clean_between _ rfl rfl).trans husername, allAccepted_nil⟩
    · exact allAccepted_cons.mpr ⟨clean_two rfl rfl husername (hanswer _), allAccepted_nil⟩

theorem unavailableRecords_accepted {username : String} (husername : clean username = true) :
    AllAccepted (unavailableRecords ctx username) := by
  unfold unavailableRecords
  split
  · exact allAccepted_cons.mpr ⟨(clean_after _ rfl).trans husername, allAccepted_nil⟩
  · exact allAccepted_cons.mpr ⟨(clean_after _ rfl).trans husername, allAccepted_nil⟩

theorem rejectionRecords_accepted {username : String} (husername : clean username = true)
    (hanswer : ∀ call, clean (answer call) = true) :
    AllAccepted (rejectionRecords valkey answer username) := by
  unfold rejectionRecords
  refine allAccepted_cons.mpr ⟨(clean_between _ rfl rfl).trans husername, ?_⟩
  split
  · exact allAccepted_cons.mpr ⟨(clean_after _ rfl).trans (hanswer _),
      allAccepted_cons.mpr ⟨(clean_between _ rfl rfl).trans husername, allAccepted_nil⟩⟩
  · exact allAccepted_cons.mpr ⟨clean_two rfl rfl husername (hanswer _), allAccepted_nil⟩

/-- The reply callback logs the username, the error and Valkey's answers. -/
theorem replyRecords_accepted {username password : ValkeyString}
    {privData : Option (Result (List String))} (husername : clean username.toString = true)
    (hanswer : ∀ call, clean (answer call) = true)
    (herr : ∀ err, privData = some (.error err) → CleanError err) :
    AllAccepted (replyRecords ctx valkey answer username password privData) := by
  unfold replyRecords
  split
  · exact applyRecords_accepted husername hanswer password _
  · rename_i err
    have herr : clean err.toString = true := herr err rfl
    refine allAccepted_cons.mpr ⟨(clean_after _ rfl).trans husername,
      allAccepted_cons.mpr ⟨(clean_after _ rfl).trans herr, ?_⟩⟩
    split
    · exact notFoundRecords_accepted husername hanswer
    · split
      · exact unavailableRecords_accepted husername
      · exact rejectionRecords_accepted husername hanswer
  · exact allAccepted_nil

end

/-- **Nothing an operation and its reply log is refused.** -/
theorem submittedRecords_accepted {ldapEscape : String → String}
    (hescape : LdapFilter.Escapes (VkLdapConnection.onChars ldapEscape))
    {settings : VkLdapSettings} {username : ValkeyString} {dns : String → Prop}
    {mode : LdapAuthMode} (password : ValkeyString) {w : World σ}
    (h : OpTexts settings dns mode) (husername : clean username.toString = true)
    (hw : w.Within settings dns) :
    AllAccepted (submittedRecords ldapEscape settings username password mode w) := by
  have hop : ∀ ldapHandler : LdapHandler σ, AnswersWithin settings dns ldapHandler →
      Safe Record.Accepted CleanError (fun _ => True) (ldapGroupRules ldapHandler settings ldapEscape
        username.toString password.toString mode) :=
    fun ldapHandler hdns => safe_ldapGroupRules hescape password.toString h husername hdns
  unfold submittedRecords
  refine allAccepted_append.mpr
    ⟨failoverRecords_accepted (fun x hx => hop _ (hw.directory x hx)) hw.url, ?_⟩
  have hreply : ∀ privData : Option (Result (List String)),
      (∀ err, privData = some (.error err) → CleanError err) →
      AllAccepted (replyRecords w.configs w.valkey w.answer username password privData) :=
    fun privData => replyRecords_accepted husername hw.answer
  split
  · rename_i res hjob
    split
    · refine hreply _ fun err herr => ?_
      obtain rfl := Option.some.inj herr
      have hops : ∀ a ∈ w.attempts.map (·.1), Safe Record.Accepted CleanError (fun _ => True)
          (ldapGroupRules a.ldapHandler settings ldapEscape username.toString password.toString
            mode) := by
        intro a ha
        obtain ⟨x, hx, rfl⟩ := List.mem_map.mp ha
        exact hop _ (hw.directory x hx)
      refine runLdapOpWithFailover_clean (fun h => ldapGroupRules h settings ldapEscape
        username.toString password.toString mode) hops ?_
      rw [← hjob]
      unfold ldapJob
      simp only [erase_ldapGroupRules]
    · rename_i e he
      exact allAccepted_cons.mpr ⟨(clean_after _ rfl).trans (hw.handOver e he),
        hreply none fun _ h => by cases h⟩
  · exact hreply none fun _ h => by cases h

/-! ### Usernames and options that are refused -/

/-- A directory that accepts every bind and finds nobody. -/
def nobody : LdapHandler σ where
  simpleBind := fun _ _ s => (.ok (), s)
  search := fun _ s => (.ok [], s)

theorem nobody_within (settings : VkLdapSettings) (dns : String → Prop) :
    AnswersWithin settings dns (nobody : LdapHandler σ) := by
  intro r s t rs entry sentry dn vals hrs hentry _ _
  obtain rfl := Except.ok.inj (Prod.mk.inj hrs).1
  cases hentry

/-- A directory that accepts every bind and names everybody `dn`. -/
def accepting (dnAttribute dn : String) : LdapHandler σ where
  simpleBind := fun _ _ s => (.ok (), s)
  search := fun _ s => (.ok [⟨some ⟨[(dnAttribute, [dn])]⟩⟩], s)

theorem accepting_within {settings : VkLdapSettings} {dns : String → Prop} {dn : String}
    (hdn : dns dn) :
    AnswersWithin settings dns (accepting settings.searchDnAttribute dn : LdapHandler σ) := by
  intro r s t rs entry sentry d vals hrs hentry hsentry hlookup
  obtain rfl := Except.ok.inj (Prod.mk.inj hrs).1
  rw [List.mem_singleton.mp hentry] at hsentry
  rw [← Option.some.inj hsentry, List.lookup_cons_self] at hlookup
  obtain ⟨rfl, -⟩ := List.cons.inj (Option.some.inj hlookup)
  exact hdn

/-- A server that accepts every bind. -/
def BindsAll (ldapHandler : LdapHandler σ) : Prop :=
  ∀ dn passwd s, ldapHandler.simpleBind dn passwd s = (.ok (), s)

theorem run_adminBind {ldapHandler : LdapHandler σ} (hbinds : BindsAll ldapHandler)
    (settings : VkLdapSettings) (site : Site) (s : σ) :
    run (erase (adminBind ldapHandler settings site)) s = some (.ok (), s) := by
  rw [erase_adminBind]
  unfold VkLdapConnection.adminBind
  split
  · split
    · exact run_awaitLdap_ok.mpr (hbinds _ _ s)
    · rfl
  · rfl

theorem search_accepting (settings : VkLdapSettings) (username dn : String) (s : σ) :
    run (VkLdapConnection.search (accepting settings.searchDnAttribute dn) settings username) s =
      some (.ok dn, s) := by
  have hadmin := run_adminBind (fun _ _ _ => rfl : BindsAll
    (accepting settings.searchDnAttribute dn : LdapHandler σ)) settings (connectionSite "283" rfl) s
  rw [erase_adminBind] at hadmin
  have hfound : run (awaitLdap ((accepting settings.searchDnAttribute dn).search
      (UserSearch.request settings username)) .ldapSearchError) s =
        some (.ok [⟨some ⟨[(settings.searchDnAttribute, [dn])]⟩⟩], s) := rfl
  rw [UserSearch.search_eq, run_bind_ok hadmin, run_bind_ok hfound]
  show run (UserSearch.entryDn settings ⟨[(settings.searchDnAttribute, [dn])]⟩) s = _
  unfold UserSearch.entryDn
  simp only [List.lookup_cons_self, run_pure]

theorem run_userBind {ldapHandler : LdapHandler σ} (hbinds : BindsAll ldapHandler)
    (dn password : String) (s : σ) :
    run (erase (Logging.bind ldapHandler dn password)) s = some (.ok (), s) :=
  run_awaitLdap_ok.mpr (hbinds _ _ s)

/-- All that the operation logs is accepted only if the texts of the bind that
precedes a search are harmless. -/
theorem adminTexts_of_accepted {ldapHandler : LdapHandler σ} {settings : VkLdapSettings}
    {site : Site} {s : σ} (h : AllAccepted (records (adminBind ldapHandler settings site) s)) :
    AdminTexts settings := by
  intro bindDn bindPasswd hdn hpasswd
  unfold adminBind at h
  rw [hdn, hpasswd] at h
  have hclean := (logInternal_record _).mp (h _ List.mem_cons_self)
  exact (clean_between _ rfl rfl).symm.trans hclean

theorem userTexts_of_accepted {ldapHandler : LdapHandler σ} (hbinds : BindsAll ldapHandler)
    {settings : VkLdapSettings} {username : String} {s : σ}
    (h : AllAccepted (records (search ldapHandler settings username) s)) : UserTexts settings := by
  have hargs := h _ (Logged.mem_records_bind_ok (run_adminBind hbinds settings _ s)
    List.mem_cons_self)
  rw [logInternal_record, clean_searchArgs _ _ _ rfl rfl, VkLdapConnection.searchFilter,
    clean_andFilter] at hargs
  simp only [Bool.and_eq_true] at hargs
  obtain ⟨⟨⟨hfilter, hattr⟩, -⟩, hdnAttr⟩ := hargs
  exact ⟨adminTexts_of_accepted fun r hr => h r (Logged.mem_records_bind hr _), hfilter, hattr,
    hdnAttr⟩

theorem groupTexts_of_accepted {ldapEscape : String → String}
    (hescape : LdapFilter.Escapes (VkLdapConnection.onChars ldapEscape))
    {ldapHandler : LdapHandler σ} (hbinds : BindsAll ldapHandler) {settings : VkLdapSettings}
    {dn : String} {s : σ}
    (h : AllAccepted (records (searchGroupsRules ldapHandler settings ldapEscape dn) s)) :
    GroupTexts settings := by
  have hprepare : run (erase (prepareGroupSearch ldapHandler settings)) s =
      some (.ok ((settings.groupsSearchBase.or settings.searchBase).getD "",
        settings.groupsFilter.getD "objectClass=groupOfNames"), s) := by
    unfold prepareGroupSearch
    rw [Logged.erase_bind, run_bind_ok (run_adminBind hbinds settings _ s)]
    rfl
  have hargs := h _ (Logged.mem_records_bind_ok hprepare List.mem_cons_self)
  rw [logInternal_record] at hargs
  simp only [clean_groupArgs hescape, Bool.and_eq_true] at hargs
  obtain ⟨⟨hfilter, hmember⟩, hrules⟩ := hargs
  have hadmin : AllAccepted
      (records (adminBind ldapHandler settings (connectionSite "360" rfl)) s) :=
    fun r hr => h r (Logged.mem_records_bind (Logged.mem_records_bind hr _) _)
  exact ⟨adminTexts_of_accepted hadmin, hfilter, hmember, hrules⟩

/-! ### What is refused, and what is not -/

/-- An `AUTH` that meets one server. -/
def World.one (ldapHandler : LdapHandler σ) (s : σ) : World σ :=
  { attempts := [(⟨.oneServer, ldapHandler, s⟩, .new)], handOver := none, configs := {}
    valkey := fun _ => true, answer := fun _ => "" }

theorem World.one_within {ldapHandler : LdapHandler σ} {settings : VkLdapSettings}
    {dns : String → Prop} (h : AnswersWithin settings dns ldapHandler) (s : σ) :
    (World.one ldapHandler s).Within settings dns where
  directory := fun x hx => by
    rw [List.mem_singleton.mp hx]
    exact h
  url := fun x hx server hserver => by
    rw [List.mem_singleton.mp hx] at hserver
    cases hserver
  handOver := fun _ he => by cases he
  answer := fun _ => rfl

/-- What the operation logs at the one server is logged. -/
theorem records_subset_one (ldapEscape : String → String) (settings : VkLdapSettings)
    (username password : ValkeyString) (mode : LdapAuthMode) (ldapHandler : LdapHandler σ) (s : σ) :
    records (ldapGroupRules ldapHandler settings ldapEscape username.toString password.toString mode)
      s ⊆ submittedRecords ldapEscape settings username password mode (.one ldapHandler s) := by
  intro r hr
  have hserver : VkLdapContext.oneServer.findServer = .ok (.new "ldap://a" 0 .healthy) := rfl
  have hpool : VkLdapContext.oneServer.getConnectionPool (.new "ldap://a" 0 .healthy) = some 0 :=
    rfl
  apply List.mem_append_left
  unfold World.one failoverRecords
  simp only [hserver, hpool]
  exact List.mem_append_left _ hr

/-- Whatever the options, an operation logs the DN it binds and the texts of
the group search. -/
theorem clean_of_accepted {ldapEscape : String → String}
    (hescape : LdapFilter.Escapes (VkLdapConnection.onChars ldapEscape))
    {ldapHandler : LdapHandler σ} (hbinds : BindsAll ldapHandler) {settings : VkLdapSettings}
    {username password dn : String} {mode : LdapAuthMode} {s : σ}
    (hdn : run (ValkeyLdap.userDn mode settings username ldapHandler) s = some (.ok dn, s))
    (h : AllAccepted (records
      (ldapGroupRules ldapHandler settings ldapEscape username password mode) s)) :
    clean dn = true ∧ GroupTexts settings := by
  rw [← erase_userDn] at hdn
  have hbind : AllAccepted (records (Logging.bind ldapHandler dn password) s) := fun r hr =>
    h r (Logged.mem_records_bind_ok hdn (Logged.mem_records_bind hr _))
  have hgroup : AllAccepted (records (searchGroupsRules ldapHandler settings ldapEscape dn) s) :=
    fun r hr => h r (Logged.mem_records_bind_ok hdn
      (Logged.mem_records_bind_ok (run_userBind hbinds dn password s) hr))
  have hargs := (logInternal_record _).mp (hbind _ List.mem_cons_self)
  exact ⟨(clean_between _ rfl rfl).symm.trans hargs, groupTexts_of_accepted hescape hbinds hgroup⟩

/-- An operation of which nothing is ever refused formats no NUL. -/
theorem opTexts_of_accepted [Inhabited σ] {ldapEscape : String → String}
    (hescape : LdapFilter.Escapes (VkLdapConnection.onChars ldapEscape))
    {settings : VkLdapSettings} {username : ValkeyString} {dns : String → Prop}
    {mode : LdapAuthMode} (password : ValkeyString)
    (h : ∀ w : World σ, w.Within settings dns →
      AllAccepted (submittedRecords ldapEscape settings username password mode w)) :
    OpTexts settings dns mode := by
  have hone : ∀ ldapHandler : LdapHandler σ, AnswersWithin settings dns ldapHandler →
      AllAccepted (records (ldapGroupRules ldapHandler settings ldapEscape username.toString
        password.toString mode) default) :=
    fun ldapHandler hdns r hr => h _ (World.one_within hdns default) r
      (records_subset_one ldapEscape settings username password mode ldapHandler default hr)
  have hbinds : ∀ dn, BindsAll (accepting settings.searchDnAttribute dn : LdapHandler σ) :=
    fun _ _ _ _ => rfl
  cases mode with
  | bind =>
    obtain ⟨hdn, hgroup⟩ := clean_of_accepted hescape (fun _ _ _ => rfl) rfl
      (hone nobody (nobody_within settings dns))
    rw [clean_bindDn] at hdn
    simp only [Bool.and_eq_true] at hdn
    exact ⟨hdn.1.1, hdn.2, hgroup⟩
  | searchAndBind =>
    refine ⟨?_, fun dn hdn => ?_⟩
    · exact userTexts_of_accepted (fun _ _ _ => rfl) fun r hr =>
        hone nobody (nobody_within settings dns) r (Logged.mem_records_bind hr _)
    · have hname : run (ValkeyLdap.userDn .searchAndBind settings username.toString
          (accepting settings.searchDnAttribute dn)) (default : σ) = some (.ok dn, default) :=
        search_accepting settings username.toString dn default
      exact clean_of_accepted hescape (hbinds dn) hname (hone _ (accepting_within hdn))

/-! ### The claim about every request -/

/-- Authentication is off; or the username holds no NUL and, if its operation
is submitted, neither does what the operation formats. -/
def LogSafe (configs : Configs) (scheduler : Scheduler) (settings : VkLdapSettings)
    (username : ValkeyString) (dns : String → Prop) : Prop :=
  configs.isAuthEnabled = true → 0 ∉ username.bytes ∧
    (configs.isUserExemptedFromLdap username.toString = false → scheduler = .running →
      OpTexts settings dns configs.ldapAuthMode)

theorem clean_toString (s : ValkeyString) : clean s.toString = true ↔ 0 ∉ s.bytes := by
  have hmem : Char.ofNat 0 ∈ Utf8.lossy s.bytes ↔ 0 ∈ s.bytes :=
    Utf8.mem_lossy_ascii (by decide) s.bytes
  unfold clean ValkeyString.toString
  rw [String.toList_ofList, List.all_eq_true, ← hmem]
  constructor
  · intro h hnul
    have hnul := h _ hnul
    simp at hnul
  · rintro h c hc
    rw [bne_iff_ne]
    rintro rfl
    exact h hc

theorem callback_submitted {configs : Configs} {scheduler : Scheduler} {username : ValkeyString}
    {mode : LdapAuthMode} :
    ldapAuthBlockingCallback configs scheduler username = .submitted mode ↔
      configs.isAuthEnabled = true ∧ configs.isUserExemptedFromLdap username.toString = false ∧
        scheduler = .running ∧ configs.ldapAuthMode = mode := by
  unfold ldapAuthBlockingCallback
  cases configs.isAuthEnabled with
  | false => simp
  | true =>
    simp only [Bool.not_true, Bool.false_eq_true, if_false, true_and]
    cases configs.isUserExemptedFromLdap username.toString with
    | true => simp
    | false =>
      have hres : (if configs.isBindMode = true then vkLdapBindAndGroupRules scheduler
          else vkLdapSearchBindAndGroupRules scheduler) =
          submitLdapOp configs.ldapAuthMode scheduler := by
        unfold Configs.isBindMode
        cases configs.ldapAuthMode <;> rfl
      simp only [Bool.false_eq_true, if_false, true_and, hres]
      cases scheduler <;> simp [submitLdapOp, isSchedulerReady, submitAsyncTask]

/-- **No log call of an `AUTH` panics, whatever it meets, exactly if** the
username, the options that are formatted and the DNs the directory gives hold
no NUL. -/
theorem log_calls_accepted [Inhabited σ] (ldapEscape : String → String)
    (hescape : LdapFilter.Escapes (VkLdapConnection.onChars ldapEscape)) (configs : Configs)
    (scheduler : Scheduler) (settings : VkLdapSettings) (username password : ValkeyString)
    (dns : String → Prop) :
    (∀ w : World σ, w.Within settings dns →
      ∀ r ∈ authRecords ldapEscape configs scheduler settings username password w, r.Accepted) ↔
      LogSafe configs scheduler settings username dns := by
  have hblocking := @blockingRecords_accepted configs scheduler username
  rw [clean_toString] at hblocking
  constructor
  · intro h henabled
    have hnobody : AnswersWithin settings dns (nobody : LdapHandler σ) := nobody_within settings dns
    have hone := World.one_within hnobody default
    refine ⟨hblocking.mp (allAccepted_append.mp (h _ hone)).1 henabled, fun hexempt hrunning => ?_⟩
    have hsubmit := callback_submitted.mpr ⟨henabled, hexempt, hrunning, rfl⟩
    have hop : ∀ w : World σ, w.Within settings dns → AllAccepted
        (submittedRecords ldapEscape settings username password configs.ldapAuthMode w) := by
      intro w hw
      have hrecords := (allAccepted_append.mp (h w hw)).2
      rw [hsubmit] at hrecords
      exact hrecords
    exact opTexts_of_accepted hescape password hop
  · intro h w hw
    refine allAccepted_append.mpr ⟨hblocking.mpr fun henabled => (h henabled).1, ?_⟩
    split
    · rename_i mode hsubmit
      obtain ⟨henabled, hexempt, hrunning, rfl⟩ := callback_submitted.mp hsubmit
      obtain ⟨husername, htexts⟩ := h henabled
      exact submittedRecords_accepted hescape password (htexts hexempt hrunning)
        ((clean_toString username).mpr husername) hw
    · exact allAccepted_nil

/-- Bob logs in, at a server that names him `cn=bob`. -/
theorem log_calls_accepted_bob :
    AllAccepted (authRecords VkLdapConnection.ldapEscape { ldapServerList := "ldap://a" } .running
      { bindDbPrefix := "cn=" } bob bob (.one (accepting "entryDN" "cn=bob") ())) :=
  (@log_calls_accepted Unit _ VkLdapConnection.ldapEscape VkLdapConnection.escapes_ldapEscape
    { ldapServerList := "ldap://a" } .running { bindDbPrefix := "cn=" } bob bob fun _ => True).mpr
    (fun _ => ⟨by decide, fun _ _ => ⟨rfl, rfl, ⟨fun _ _ h => by (cases h), rfl, rfl, rfl⟩⟩⟩) _
    (World.one_within (fun _ _ _ _ _ _ _ _ _ _ _ _ => trivial) ())

/-- A username of one byte, a NUL: the first message is refused, before
anything is known of the client. -/
theorem nul_username_panics : ∃ r ∈ authRecords VkLdapConnection.ldapEscape
    { ldapServerList := "ldap://a" } .running {} ⟨[0]⟩ ⟨[]⟩ (.one nobody () : World Unit),
    logInternal r.level r.message = none := by
  refine ⟨_, List.mem_cons_self, ?_⟩
  decide

end Logging
end ValkeyLdap
