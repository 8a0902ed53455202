/-
# The user search and the answers of the directory

`search` constructs the one entry found and takes the first value of its DN
attribute. Constructing panics on a DN or a name of an attribute that is not
UTF-8, and an attribute may come without values, and then there is no first.
`user_search_survives` says that these are the only answers the search does not
survive; with any other, and with entries for the groups that can be
constructed, the connection goes back to its pool and the loop of
`run_ldap_op_with_failover` goes on or returns, so that the callback of the
`AUTH` is called.

Key theorems: `search_panics`, `operation_panics`, `loop_panics`,
`user_search_survives`.
-/
import ValkeyLdap.Aligned
import ValkeyLdap.Failover
import ValkeyLdap.RuleTokens
import ValkeyLdap.SearchFilter

namespace ValkeyLdap
namespace UserSearch

open Session VkLdapConnection

variable {σ α : Type}

/-! ### The search -/

/-- The request of the user search. -/
def request (settings : VkLdapSettings) (username : String) : SearchRequest :=
  { base := settings.searchBase.getD "", scope := settings.searchScope
    filter := searchFilter settings username, attrs := [settings.searchDnAttribute] }

/-- No DN can be taken from the entry: it cannot be constructed, or it has the
DN attribute without a value. -/
def NoDn (settings : VkLdapSettings) (entry : ResultEntry) : Prop :=
  entry.constructed = none ∨ ∃ sentry, entry.constructed = some sentry ∧
    sentry.attrs.lookup settings.searchDnAttribute = some []

/-- The directory answers the user search with one entry that gives no DN. -/
def Unread (settings : VkLdapSettings) (username : String) (ldapHandler : LdapHandler σ)
    (s : σ) : Prop :=
  ∃ t entry u, run (adminBind ldapHandler settings) s = some (.ok (), t) ∧
    ldapHandler.search (request settings username) t = (.ok [entry], u) ∧ NoDn settings entry

/-- The directory answers the search for the groups' rules with an entry that
cannot be constructed. -/
def GroupsUnread (ldapEscape : String → String) (settings : VkLdapSettings)
    (ldapHandler : LdapHandler σ) (dn : String) (s : σ) : Prop :=
  ∃ t rs u, run (adminBind ldapHandler settings) s = some (.ok (), t) ∧
    ldapHandler.search (groupRulesRequest settings ldapEscape dn) t = (.ok rs, u) ∧
      ∃ entry ∈ rs, entry.constructed = none

/-- One of the two searches of the operation is answered so. -/
def AnswersUnread (ldapEscape : String → String) (settings : VkLdapSettings)
    (username password : String) (ldapHandler : LdapHandler σ) (s : σ) : Prop :=
  Unread settings username ldapHandler s ∨ ∃ dn t u,
    run (search ldapHandler settings username) s = some (.ok dn, t) ∧
      run (VkLdapConnection.bind ldapHandler dn password) t = some (.ok (), u) ∧
        GroupsUnread ldapEscape settings ldapHandler dn u

theorem total_awaitLdap (expr : σ → Except LdapError α × σ) (errtype : LdapError → VkLdapError) :
    Total (awaitLdap expr errtype) := total_request _

theorem total_adminBind (settings : VkLdapSettings) (ldapHandler : LdapHandler σ) :
    Total (adminBind ldapHandler settings) := by
  unfold adminBind
  split
  · split
    · exact total_awaitLdap _ _
    · exact total_pure _
  · exact total_pure _

theorem total_bind (ldapHandler : LdapHandler σ) (dn passwd : String) :
    Total (VkLdapConnection.bind ldapHandler dn passwd) := total_awaitLdap _ _

theorem error_awaitLdap {expr : σ → Except LdapError α × σ}
    {errtype : LdapError → VkLdapError} {s t : σ} {e : VkLdapError}
    (h : run (awaitLdap expr errtype) s = some (.error e, t)) :
    ∃ err, e = .ldapConnectionError err ∨ e = errtype err := by
  unfold awaitLdap at h
  rw [run_request] at h
  have h := (Prod.mk.inj (Option.some.inj h)).1
  unfold handleLdapError at h
  split at h
  · cases h
  · rename_i err _
    split at h
    · exact ⟨err, .inl (Except.error.inj h).symm⟩
    · exact ⟨err, .inr (Except.error.inj h).symm⟩

/-- The DN of the entry. -/
def entryDn (settings : VkLdapSettings) (sentry : SearchEntry) : LdapM σ String :=
  match sentry.attrs.lookup settings.searchDnAttribute with
  | none => throw (.invalidDNAttribute settings.searchDnAttribute)
  | some (v :: _) => pure v
  | some [] => Session.crash

/-- What the search makes of the entries found. -/
def foundDn (settings : VkLdapSettings) (username : String) (rs : List ResultEntry) :
    LdapM σ String :=
  match rs with
  | [] => throw (.noLdapEntryFound (searchFilter settings username))
  | [entry] => SearchEntry.construct entry >>= entryDn settings
  | _ => throw (.multipleEntryFound (searchFilter settings username))

theorem search_eq (settings : VkLdapSettings) (username : String) (ldapHandler : LdapHandler σ) :
    search ldapHandler settings username = (do
      adminBind ldapHandler settings
      let rs ← awaitLdap (ldapHandler.search (request settings username)) .ldapSearchError
      foundDn settings username rs) := rfl

theorem entryDn_panics {settings : VkLdapSettings} {sentry : SearchEntry} {s : σ} :
    run (entryDn settings sentry) s = none ↔
      sentry.attrs.lookup settings.searchDnAttribute = some [] := by
  unfold entryDn
  split
  · rename_i h
    exact iff_of_false (fun h => by cases h) (by simp [h])
  · rename_i h
    exact iff_of_false (fun h => by cases h) (by simp [h])
  · rename_i h
    exact iff_of_true rfl h

theorem foundDn_panics {settings : VkLdapSettings} {username : String} {rs : List ResultEntry}
    {s : σ} : run (foundDn settings username rs) s = none ↔
      ∃ entry, rs = [entry] ∧ NoDn settings entry := by
  unfold foundDn
  split
  · exact iff_of_false (fun h => by cases h) (by simp)
  · rename_i entry
    rw [run_bind_eq_none, SearchEntry.run_construct]
    unfold NoDn
    cases hentry : entry.constructed with
    | none => simp [hentry]
    | some sentry => simp [hentry, entryDn_panics]
  · rename_i h
    refine iff_of_false (fun h => by cases h) ?_
    rintro ⟨entry, rfl, -⟩
    exact h entry rfl

/-- **The search panics on an entry that gives no DN, and on nothing else.** -/
theorem search_panics (settings : VkLdapSettings) (username : String)
    (ldapHandler : LdapHandler σ) (s : σ) :
    run (search ldapHandler settings username) s = none ↔
      Unread settings username ldapHandler s := by
  rw [search_eq, run_bind_eq_none]
  constructor
  · rintro (h | ⟨_, t, hbind, h⟩)
    · exact absurd h (total_adminBind settings ldapHandler s)
    · rcases run_bind_eq_none.mp h with h | ⟨rs, u, hsearch, h⟩
      · exact absurd h (total_awaitLdap _ _ t)
      · obtain ⟨entry, rfl, hdn⟩ := foundDn_panics.mp h
        exact ⟨t, entry, u, hbind, run_awaitLdap_ok.mp hsearch, hdn⟩
  · rintro ⟨t, entry, u, hbind, hsearch, hdn⟩
    refine .inr ⟨(), t, hbind, run_bind_eq_none.mpr (.inr ⟨[entry], u, ?_, ?_⟩)⟩
    · exact run_awaitLdap_ok.mpr hsearch
    · exact foundDn_panics.mpr ⟨entry, rfl, hdn⟩

/-- The search for the groups' rules panics on an entry that cannot be
constructed. -/
theorem searchGroupsRules_panics (ldapEscape : String → String) (settings : VkLdapSettings)
    (ldapHandler : LdapHandler σ) (dn : String) (s : σ) :
    run (searchGroupsRules ldapHandler settings ldapEscape dn) s = none ↔
      GroupsUnread ldapEscape settings ldapHandler dn s := by
  have hloop (rs : List ResultEntry) (u : σ) : run (SearchEntry.constructEach rs >>= fun sentries =>
      pure (collectRules settings.groupsRulesAttribute sentries)) u = none ↔
        ∃ entry ∈ rs, entry.constructed = none := by
    rw [run_bind_eq_none, SearchEntry.run_constructEach]
    simp [ResultEntry.mapM_eq_none]
  rw [searchGroupsRules_eq, run_bind_eq_none]
  constructor
  · rintro (h | ⟨_, t, hbind, h⟩)
    · exact absurd h (total_adminBind settings ldapHandler s)
    · rcases run_bind_eq_none.mp h with h | ⟨rs, u, hsearch, h⟩
      · exact absurd h (total_awaitLdap _ _ t)
      · exact ⟨t, rs, u, hbind, run_awaitLdap_ok.mp hsearch, (hloop rs u).mp h⟩
  · rintro ⟨t, rs, u, hbind, hsearch, hentry⟩
    exact .inr ⟨(), t, hbind, run_bind_eq_none.mpr
      (.inr ⟨rs, u, run_awaitLdap_ok.mpr hsearch, (hloop rs u).mpr hentry⟩)⟩

/-- The operation panics where one of its searches does. -/
theorem operation_panics (ldapEscape : String → String) (settings : VkLdapSettings)
    (username password : String) (ldapHandler : LdapHandler σ) (s : σ) :
    run (ldapSearchBindAndGroupRules ldapEscape settings username password ldapHandler) s = none ↔
      AnswersUnread ldapEscape settings username password ldapHandler s := by
  unfold ldapSearchBindAndGroupRules AnswersUnread
  rw [run_bind_eq_none, search_panics]
  refine or_congr Iff.rfl ⟨?_, ?_⟩
  · rintro ⟨dn, t, hsearch, h⟩
    rcases run_bind_eq_none.mp h with h | ⟨_, u, hbind, h⟩
    · exact absurd h (total_bind ldapHandler dn password t)
    · exact ⟨dn, t, u, hsearch, hbind, (searchGroupsRules_panics _ _ _ _ _).mp h⟩
  · rintro ⟨dn, t, u, hsearch, hbind, h⟩
    exact ⟨dn, t, hsearch, run_bind_eq_none.mpr
      (.inr ⟨(), u, hbind, (searchGroupsRules_panics _ _ _ _ _).mpr h⟩)⟩

/-! ### The connection -/

/-- How the operation ends, for the task that awaits it. -/
def outcome : Option (Result α × σ) → System.Outcome
  | some (res, _) => .returned (res.map fun _ => ())
  | none => .panicked

/-- After the operation the task goes on, and a new one gives the connection
back. -/
def GivesBack (out : System.Outcome) : Prop :=
  ∀ (m : System.Mem) (net : System.Net) (server : VkLdapServer) (pool : ℕ) (conn : VkLdapPoolConnection),
    net.ldapOp = out →
    ∃ pc, System.Op.step m net (.ldap server pool conn) = some (m, .go pc [.ret pool conn])

theorem givesBack_iff (r : Option (Result α × σ)) : GivesBack (outcome r) ↔ r ≠ none := by
  cases r with
  | none =>
    refine iff_of_false (fun h => ?_) (fun h => h rfl)
    have server : VkLdapServer := .new "ldap://a" 0 .healthy
    have conn : VkLdapPoolConnection :=
      { conn := { pool := 0, id := 0, url := server.url, settings := {}, epoch := 0 }
        server, fromEpoch := 0 }
    obtain ⟨pc, h⟩ := h ⟨.new, []⟩ { ldapOp := .panicked } server 0 conn rfl
    cases h
  | some r =>
    refine iff_of_true (fun m net server pool conn hout => ?_) (fun h => by cases h)
    unfold System.Op.step
    rw [hout]
    obtain ⟨res, t⟩ := r
    simp only [outcome]
    split
    · exact ⟨_, rfl⟩
    · exact ⟨_, rfl⟩
    · rename_i h
      cases h

/-! ### The loop -/

/-- The passes of the loop that come to run the operation. -/
def passes (ldapOp : LdapHandler σ → LdapM σ α) : List (Attempt σ) → List (Attempt σ)
  | [] => []
  | a :: attempts =>
    match a.ctx.findServer with
    | .error _ => []
    | .ok _ =>
      match run (ldapOp a.ldapHandler) a.session with
      | some (.error (.ldapConnectionError _), _) => a :: passes ldapOp attempts
      | _ => [a]

/-- A pass that finds a server and ends in anything but a connection error is
the last. -/
theorem passes_last {ldapOp : LdapHandler σ → LdapM σ α} {a : Attempt σ}
    (attempts : List (Attempt σ)) {server : VkLdapServer} {res : Result α} {t : σ}
    (hserver : a.ctx.findServer = .ok server)
    (hrun : run (ldapOp a.ldapHandler) a.session = some (res, t))
    (hres : ∀ err, res ≠ .error (.ldapConnectionError err)) :
    passes ldapOp (a :: attempts) = [a] := by
  unfold passes
  rw [hserver, hrun]
  simp only
  split
  · rename_i err _ he
    exact absurd (Prod.mk.inj (Option.some.inj he)).1 (hres err)
  · rfl

theorem loop_panics {ldapOp : LdapHandler σ → LdapM σ α} {attempts : List (Attempt σ)}
    (h : ∀ a ∈ attempts, a.ctx.Aligned) :
    runLdapOpWithFailover ldapOp attempts = .panicked ↔
      ∃ a ∈ passes ldapOp attempts, run (ldapOp a.ldapHandler) a.session = none := by
  induction attempts with
  | nil => simp [passes, runLdapOpWithFailover]
  | cons a attempts ih =>
    have ih := ih fun b hb => h b (List.mem_cons_of_mem _ hb)
    cases hserver : a.ctx.findServer with
    | error err => simp [passes, runLdapOpWithFailover, hserver]
    | ok server =>
      obtain ⟨pool, hpool⟩ := (h a List.mem_cons_self).getConnectionPool
        (VkLdapContext.findServer_ok hserver).1
      rcases hrun : run (ldapOp a.ldapHandler) a.session with _ | ⟨res, t⟩
      · simp [passes, runLdapOpWithFailover, hserver, hpool, hrun]
      · by_cases hres : ∃ err, res = .error (.ldapConnectionError err)
        · obtain ⟨err, rfl⟩ := hres
          simp [passes, runLdapOpWithFailover, hserver, hpool, hrun, ih]
        · have hres : ∀ err, res ≠ .error (.ldapConnectionError err) := fun err he => hres ⟨err, he⟩
          rw [runLdapOpWithFailover_cons ldapOp a attempts hserver hpool hrun hres,
            passes_last attempts hserver hrun hres]
          simp [hrun]

/-- **The user search survives every answer that gives a DN.** The search ends
if and only if it is not answered with one entry that gives none. The connection
is given back, and the operation's loop goes on or returns, so that its callback
is called, if and only if, besides, the groups found can be constructed. -/
theorem user_search_survives (ldapEscape : String → String) (settings : VkLdapSettings)
    (username password : String) :
    (∀ (ldapHandler : LdapHandler σ) (s : σ),
      (run (search ldapHandler settings username) s ≠ none ↔
        ¬ Unread settings username ldapHandler s) ∧
      (GivesBack (outcome (run (ldapSearchBindAndGroupRules ldapEscape settings username password
          ldapHandler) s)) ↔
        ¬ AnswersUnread ldapEscape settings username password ldapHandler s)) ∧
    ∀ attempts : List (Attempt σ), (∀ a ∈ attempts, a.ctx.Aligned) →
      (runLdapOpWithFailover (ldapSearchBindAndGroupRules ldapEscape settings username password)
          attempts ≠ .panicked ↔
        ∀ a ∈ passes (ldapSearchBindAndGroupRules ldapEscape settings username password) attempts,
          ¬ AnswersUnread ldapEscape settings username password a.ldapHandler a.session) := by
  refine ⟨fun ldapHandler s => ⟨(search_panics settings username ldapHandler s).not, ?_⟩,
    fun attempts h => ?_⟩
  · rw [givesBack_iff]
    exact (operation_panics ldapEscape settings username password ldapHandler s).not
  · rw [Ne, loop_panics h]
    constructor
    · intro hnone a ha hunread
      exact hnone ⟨a, ha, (operation_panics ldapEscape settings username password _ _).mpr hunread⟩
    · rintro hall ⟨a, ha, hnone⟩
      exact hall a ha ((operation_panics ldapEscape settings username password _ _).mp hnone)

/-! ### An entry with a DN, and one without -/

/-- A directory that answers every search with the one entry. -/
def oneEntry (entry : ResultEntry) : LdapHandler Unit where
  simpleBind := fun _ _ s => (.ok (), s)
  search := fun _ s => (.ok [entry], s)

def withDn (vals : List String) : ResultEntry := ⟨some ⟨[("entryDN", vals)]⟩⟩

def dnSettings : VkLdapSettings := { searchDnAttribute := "entryDN" }

theorem aligned_oneServer : VkLdapContext.oneServer.Aligned := by
  refine ⟨rfl, fun i server h => ?_⟩
  match i with
  | 0 => cases h; rfl
  | i + 1 => cases h

/-- One pass, on which the entry has its DN. -/
theorem user_search_survives_bob :
    runLdapOpWithFailover (ldapSearchBindAndGroupRules id dnSettings "bob" "secret")
      [⟨.oneServer, oneEntry (withDn ["cn=bob"]), ()⟩] ≠ .panicked := by
  refine ((user_search_survives id dnSettings "bob" "secret").2 _ fun a ha => ?_).mpr
    fun a ha => ?_
  · obtain rfl := List.mem_singleton.mp ha
    exact aligned_oneServer
  · have hpasses : passes (ldapSearchBindAndGroupRules id dnSettings "bob" "secret")
        [⟨.oneServer, oneEntry (withDn ["cn=bob"]), ()⟩] =
          [⟨.oneServer, oneEntry (withDn ["cn=bob"]), ()⟩] := rfl
    rw [hpasses] at ha
    obtain rfl := List.mem_singleton.mp ha
    rw [← operation_panics]
    exact fun h => by cases h

/-- An entry with an empty DN attribute makes the search panic, and so does one
that cannot be constructed. -/
theorem empty_dn_panics :
    (¬ ∀ (ldapHandler : LdapHandler Unit) (settings : VkLdapSettings) (username : String),
      run (search ldapHandler settings username) () ≠ none) ∧
    run (search (oneEntry (withDn [])) dnSettings "bob") () = none ∧
    run (search (oneEntry ⟨none⟩) dnSettings "bob") () = none :=
  ⟨fun h => h (oneEntry (withDn [])) dnSettings "bob" rfl, rfl, rfl⟩

end UserSearch
end ValkeyLdap
