/-
# The requests on a connection

`src/vkldap/connection.rs`, `VkLdapConnection`: the bind, the search for a
user and the search for the rules of the user's groups. The client library is
a parameter: the handle of the connection (`Session.Handle`), and
`ldap_escape`. A request is awaited as one step of the session; the time limit
is the library's and shows as one of its errors.
-/
import ValkeyLdap.Errors
import ValkeyLdap.Lib.Session
import ValkeyLdap.Server

namespace ValkeyLdap

structure SearchRequest where
  base : String
  scope : Scope
  filter : String
  attrs : List String
  deriving DecidableEq, Repr

/-- `ldap3::SearchEntry`: the attributes with their values. -/
structure SearchEntry where
  attrs : List (String × List String)
  deriving DecidableEq, Repr

/-- `ldap3::ResultEntry`, an entry as it came: what `SearchEntry::construct`
makes of it, or nothing where that panics (a DN or the name of an attribute is
not UTF-8). An attribute with an empty set of values is constructed with an
empty list. -/
structure ResultEntry where
  constructed : Option SearchEntry
  deriving DecidableEq, Repr

/-- `ldap3::Ldap`. -/
abbrev LdapHandler (σ : Type) := Session.Handle σ SearchRequest (List ResultEntry) LdapError

abbrev LdapM (σ : Type) := Session.M σ VkLdapError

variable {σ : Type}

/-- A request awaited inside `handle_ldap_error!`. -/
def awaitLdap {α : Type} (expr : σ → Except LdapError α × σ) (errtype : LdapError → VkLdapError) :
    LdapM σ α :=
  Session.request fun s => (handleLdapError (expr s).1 errtype, (expr s).2)

/-- An awaited request succeeds with what the library answers. -/
theorem run_awaitLdap_ok {α : Type} {expr : σ → Except LdapError α × σ}
    {errtype : LdapError → VkLdapError} {s t : σ} {a : α} :
    Session.run (awaitLdap expr errtype) s = some (.ok a, t) ↔ expr s = (.ok a, t) := by
  unfold awaitLdap
  rw [Session.run_request]
  rcases h : expr s with ⟨r, u⟩
  cases r with
  | ok b => simp [handleLdapError]
  | error err =>
    simp only [handleLdapError]
    split <;> simp

/-! ### Entries -/

def SearchEntry.construct (entry : ResultEntry) : LdapM σ SearchEntry :=
  match entry.constructed with
  | some sentry => pure sentry
  | none => Session.crash

/-- The loops of the group searches construct each entry before they read it. -/
def SearchEntry.constructEach : List ResultEntry → LdapM σ (List SearchEntry)
  | [] => pure []
  | entry :: rs => do
    let sentry ← SearchEntry.construct entry
    let sentries ← constructEach rs
    pure (sentry :: sentries)

theorem SearchEntry.run_construct (entry : ResultEntry) (s : σ) :
    Session.run (SearchEntry.construct entry) s =
      entry.constructed.map fun sentry => (.ok sentry, s) := by
  unfold SearchEntry.construct
  cases entry.constructed <;> rfl

/-- A loop over the entries gets to its end if none of them panics. -/
theorem SearchEntry.run_constructEach (rs : List ResultEntry) (s : σ) :
    Session.run (SearchEntry.constructEach rs) s =
      (rs.mapM ResultEntry.constructed).map fun sentries => (.ok sentries, s) := by
  induction rs with
  | nil => rfl
  | cons entry rs ih =>
    rw [constructEach, Session.run_bind, run_construct, List.mapM_cons]
    cases entry.constructed with
    | none => rfl
    | some sentry =>
      show Session.run (constructEach rs >>= fun sentries => pure (sentry :: sentries)) s = _
      rw [Session.run_bind, ih]
      cases rs.mapM ResultEntry.constructed <;> rfl

theorem SearchEntry.fails_construct (P : VkLdapError → Prop) (entry : ResultEntry) :
    Session.Fails P (SearchEntry.construct entry : LdapM σ SearchEntry) := by
  intro s e t h
  rw [SearchEntry.run_construct] at h
  obtain ⟨_, -, h⟩ := Option.map_eq_some_iff.mp h
  cases h

theorem SearchEntry.fails_constructEach (P : VkLdapError → Prop) (rs : List ResultEntry) :
    Session.Fails P (SearchEntry.constructEach rs : LdapM σ (List SearchEntry)) := by
  intro s e t h
  rw [SearchEntry.run_constructEach] at h
  obtain ⟨_, -, h⟩ := Option.map_eq_some_iff.mp h
  cases h

theorem SearchEntry.construct_ok {entry : ResultEntry} {sentry : SearchEntry} {s t : σ}
    (h : Session.run (SearchEntry.construct entry) s = some (.ok sentry, t)) :
    entry.constructed = some sentry := by
  rw [SearchEntry.run_construct] at h
  obtain ⟨_, hentry, h⟩ := Option.map_eq_some_iff.mp h
  rw [hentry, Except.ok.inj (Prod.mk.inj h).1]

theorem ResultEntry.mapM_eq_none {rs : List ResultEntry} :
    rs.mapM ResultEntry.constructed = none ↔ ∃ entry ∈ rs, entry.constructed = none := by
  induction rs with
  | nil => simp
  | cons entry rs ih =>
    rw [List.mapM_cons, List.exists_mem_cons_iff, ← ih]
    cases entry.constructed with
    | none => simp
    | some sentry => cases rs.mapM ResultEntry.constructed <;> simp

/-! ### Tokens -/

/-- `char::is_whitespace`. -/
def isWhitespace (c : Char) : Bool :=
  let n := c.toNat
  (0x9 ≤ n && n ≤ 0xD) || n == 0x20 || n == 0x85 || n == 0xA0 || n == 0x1680 ||
    (0x2000 ≤ n && n ≤ 0x200A) || n == 0x2028 || n == 0x2029 || n == 0x202F || n == 0x205F ||
    n == 0x3000

/-- `str::split_whitespace`. -/
def splitWhitespace (s : String) : List String :=
  ((s.toList.splitOnP isWhitespace).filter (!·.isEmpty)).map String.ofList

/-- `str::trim`. -/
def trim (s : String) : String :=
  String.ofList (((s.toList.dropWhile isWhitespace).reverse.dropWhile isWhitespace).reverse)

/-- The rules collected so far, and the set of those seen. -/
structure Rules where
  rules : List String
  seen : List String
  deriving DecidableEq, Repr

def Rules.insert (r : Rules) (tok : String) : Rules :=
  let t := trim tok
  if t.isEmpty then r
  else if r.seen.contains t then r
  else { rules := r.rules ++ [t], seen := t :: r.seen }

/-- The loop of `search_groups_rules` over the entries found. -/
def collectRules (rulesAttr : String) (rs : List SearchEntry) : List String :=
  (rs.foldl (fun r sentry =>
    match sentry.attrs.lookup rulesAttr with
    | some vals => vals.foldl (fun r v => (splitWhitespace v).foldl .insert r) r
    | none => r) (⟨[], []⟩ : Rules)).rules

/-- The loop of `search_groups` over the entries found. -/
def collectGroups (nameAttr : String) (rs : List SearchEntry) : List String :=
  rs.foldl (fun groups sentry =>
    match sentry.attrs.lookup nameAttr with
    | some vals => vals.foldl (fun groups v => groups ++ [v]) groups
    | none => groups) []

namespace VkLdapConnection

variable (ldapHandler : LdapHandler σ) (settings : VkLdapSettings)

protected def bind (userDn password : String) : LdapM σ Unit :=
  awaitLdap (ldapHandler.simpleBind userDn password) .ldapBindError

/-- The bind that precedes a search, if both options are set. -/
def adminBind : LdapM σ Unit :=
  match settings.searchBindDn with
  | some bindDn =>
    match settings.searchBindPasswd with
    | some bindPasswd => awaitLdap (ldapHandler.simpleBind bindDn bindPasswd) .ldapAdminBindError
    | none => pure ()
  | none => pure ()

/-- `format!("(&({filter})({attribute}={value}))")`. -/
def andFilter (filter attr value : String) : String :=
  "(&(" ++ filter ++ ")(" ++ attr ++ "=" ++ value ++ "))"

/-- The filter of the user search. -/
def searchFilter (username : String) : String :=
  let filter := settings.searchFilter.getD "objectClass=*"
  let attr := settings.searchAttribute.getD "uid"
  andFilter filter attr username

def search (username : String) : LdapM σ String := do
  adminBind ldapHandler settings
  let base := settings.searchBase.getD ""
  let searchFilter := searchFilter settings username
  let dnAttribute := settings.searchDnAttribute
  let rs ← awaitLdap
    (ldapHandler.search
      { base, scope := settings.searchScope, filter := searchFilter, attrs := [dnAttribute] })
    .ldapSearchError
  match rs with
  | [] => throw (.noLdapEntryFound searchFilter)
  | [entry] =>
    let sentry ← SearchEntry.construct entry
    match sentry.attrs.lookup dnAttribute with
    | none => throw (.invalidDNAttribute dnAttribute)
    | some (v :: _) => pure v
    | some [] => Session.crash
  | _ => throw (.multipleEntryFound searchFilter)

def prepareGroupSearch : LdapM σ (String × String) := do
  adminBind ldapHandler settings
  let base := (settings.groupsSearchBase.or settings.searchBase).getD ""
  let filter := settings.groupsFilter.getD "objectClass=groupOfNames"
  pure (base, filter)

def searchGroups (ldapEscape : String → String) (userDn : String) : LdapM σ (List String) := do
  let (base, filter) ← prepareGroupSearch ldapHandler settings
  let memberAttr := settings.groupsMemberAttribute
  let nameAttr := settings.groupsNameAttribute
  let searchFilter := andFilter filter memberAttr (ldapEscape userDn)
  let rs ← awaitLdap
    (ldapHandler.search
      { base, scope := settings.searchScope, filter := searchFilter, attrs := [nameAttr] })
    .ldapSearchError
  let sentries ← SearchEntry.constructEach rs
  pure (collectGroups nameAttr sentries)

def searchGroupsRules (ldapEscape : String → String) (userDn : String) :
    LdapM σ (List String) := do
  let (base, filter) ← prepareGroupSearch ldapHandler settings
  let memberAttr := settings.groupsMemberAttribute
  let rulesAttr := settings.groupsRulesAttribute
  let searchFilter := andFilter filter memberAttr (ldapEscape userDn)
  let rs ← awaitLdap
    (ldapHandler.search
      { base, scope := settings.searchScope, filter := searchFilter, attrs := [rulesAttr] })
    .ldapSearchError
  let sentries ← SearchEntry.constructEach rs
  pure (collectRules rulesAttr sentries)

end VkLdapConnection
end ValkeyLdap
