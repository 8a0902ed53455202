/-
# The AUTH callbacks

`src/auth.rs`, the entry points of `src/vkldap/mod.rs` and the scheduler they
submit to (`src/vkldap/scheduler.rs`), and the configuration they read
(`src/configs.rs`). `ldap_auth_blocking_callback` blocks the client and
submits an LDAP operation; when the operation has ended, or the blocked client
was dropped without a result, Valkey runs `auth_reply_callback`.

The callbacks run on Valkey's main thread, one at a time; between them an
operation runs on the scheduler's threads and the configuration may change.
What an operation comes to is a parameter of the machine: any outcome at all,
or what the operations of `Failover` make of the servers' answers (`ldapJob`).

Key theorems: `State.step_move`, `exists_login`.
-/
import ValkeyLdap.Failover
import ValkeyLdap.Lib.Runs
import ValkeyLdap.Lib.Utf8

namespace ValkeyLdap

/-- A string of Valkey, any bytes. -/
structure ValkeyString where
  bytes : List UInt8
  deriving DecidableEq, Repr

/-- `to_string`: the bytes read as text, with replacement characters. -/
protected def ValkeyString.toString (s : ValkeyString) : String :=
  String.ofList (Utf8.lossy s.bytes)

theorem ValkeyString.toString_eq_empty {s : ValkeyString} : s.toString = "" ↔ s.bytes = [] := by
  unfold ValkeyString.toString
  rw [← String.toList_inj, String.toList_ofList]
  exact Utf8.lossy_eq_nil

namespace Auth

/-! ### Configuration -/

/-- The configuration the callbacks read. The compiled pattern of exempted
users is its `is_match`. -/
structure Configs where
  ldapServerList : String := ""
  ldapAuthMode : LdapAuthMode := .bind
  ldapDefaultAclRules : String := "on resetpass"
  ldapAclFallbackEnabled : Bool := false
  exemptedUsersRegexCache : Option (String → Bool) := none

namespace Configs

def isAuthEnabled (c : Configs) : Bool := !c.ldapServerList.isEmpty

def isBindMode (c : Configs) : Bool := c.ldapAuthMode == .bind

def getDefaultAclRules (c : Configs) : List String :=
  ((splitWhitespace c.ldapDefaultAclRules).map trim).filter (!·.isEmpty)

def isUserExemptedFromLdap (c : Configs) (username : String) : Bool :=
  match c.exemptedUsersRegexCache with
  | some regex => regex username
  | none => false

def isAclFallbackEnabled (c : Configs) : Bool := c.ldapAclFallbackEnabled

end Configs

/-! ### Submitting -/

/-- The job scheduler: not started or stopped, running, or with its thread
gone, so that the channel to it is closed. -/
inductive Scheduler
  | stopped
  | running
  | closed
  deriving DecidableEq, Repr

def isSchedulerReady : Scheduler → Bool
  | .stopped => false
  | .running => true
  | .closed => true

/-- `submit_async_task`: the send to the scheduler. -/
def submitAsyncTask {α : Type} (scheduler : Scheduler) (task : α) : Result α :=
  match scheduler with
  | .running => .ok task
  | _ => .error (.failedToSendJobToScheduler "sending on a closed channel")

/-- The two entry points differ in the operation they submit. -/
def submitLdapOp (mode : LdapAuthMode) (scheduler : Scheduler) : Result LdapAuthMode :=
  if !isSchedulerReady scheduler then .error .schedulerNotReady
  else submitAsyncTask scheduler mode

def vkLdapBindAndGroupRules : Scheduler → Result LdapAuthMode := submitLdapOp .bind

def vkLdapSearchBindAndGroupRules : Scheduler → Result LdapAuthMode := submitLdapOp .searchAndBind

/-! ### The blocking callback -/

inductive AuthResult
  | authHandled
  | authNotHandled
  deriving DecidableEq, Repr

/-- How the blocking callback ends: not LDAP's to answer; with the operation
submitted; with the error of the submission. -/
inductive Blocking
  | passed
  | submitted (mode : LdapAuthMode)
  | failed (err : VkLdapError)
  deriving DecidableEq, Repr

/-- What the callback returns then. -/
def Blocking.result : Blocking → AuthResult
  | .passed => .authNotHandled
  | .submitted _ => .authHandled
  | .failed _ => .authNotHandled

def ldapAuthBlockingCallback (ctx : Configs) (scheduler : Scheduler) (username : ValkeyString) :
    Blocking :=
  if !ctx.isAuthEnabled then .passed
  else
    let userStr := username.toString
    if ctx.isUserExemptedFromLdap userStr then .passed
    else
      let res :=
        if ctx.isBindMode then vkLdapBindAndGroupRules scheduler
        else vkLdapSearchBindAndGroupRules scheduler
      match res with
      | .ok mode => .submitted mode
      | .error err => .failed err

/-! ### The reply callback -/

/-- What a callback asks of Valkey. -/
inductive Call
  | acl (args : List String)
  | authenticateClientWithAclUser (username : ValkeyString)
  deriving DecidableEq, Repr

/-- Whether Valkey does what it is asked. -/
abbrev Valkey := Call → Bool

/-- A callback's calls, and what it returns. -/
abbrev Reply := List Call × Except String AuthResult

def aclRules (ctx : Configs) (password : ValkeyString) (ldapTokens : List String) : List String :=
  ["resetkeys", "resetchannels", "-@all"] ++ ctx.getDefaultAclRules ++ ldapTokens ++
    if ctx.isAclFallbackEnabled then ["resetpass", ">" ++ password.toString] else []

def applyLdapUserAcl (ctx : Configs) (valkey : Valkey) (username password : ValkeyString)
    (ldapTokens : List String) : Reply :=
  let setUser := .acl ("SETUSER" :: username.toString :: aclRules ctx password ldapTokens)
  if !valkey setUser then ([setUser], .error "Failed to apply ACL rules")
  else
    let authenticate := .authenticateClientWithAclUser username
    if valkey authenticate then ([setUser, authenticate], .ok .authHandled)
    else ([setUser, authenticate], .error "Failed to authenticate with ACL")

/-- `ACL DELUSER`; how it ends is only logged. -/
def delUser (username : String) : Call := .acl ["DELUSER", username]

def handleUserNotFound (ctx : Configs) (username : String) : Reply :=
  if ctx.isUserExemptedFromLdap username then ([], .error "User not found in LDAP")
  else ([delUser username], .error "User not found in LDAP")

def handleServerUnavailable (ctx : Configs) : Reply :=
  if ctx.isAclFallbackEnabled then ([], .ok .authNotHandled)
  else ([], .error "LDAP server unavailable")

def handleCredentialRejection (username : String) : Reply :=
  ([delUser username], .error "LDAP authentication failed")

def authReplyCallback (ctx : Configs) (valkey : Valkey) (username password : ValkeyString)
    (privData : Option (Result (List String))) : Reply :=
  match privData with
  | some (.ok ldapTokens) => applyLdapUserAcl ctx valkey username password ldapTokens
  | some (.error err) =>
    let uname := username.toString
    if err.isUserNotFound then handleUserNotFound ctx uname
    else if err.isServerUnavailable then handleServerUnavailable ctx
    else handleCredentialRejection uname
  | none => ([], .error "Unknown error during authentication, check the server logs")

/-! ### The machine -/

/-- A blocked client: its operation in the scheduler's queue; running, with
the settings it has read; ended, and what it ended by; dropped without a
result; replied to. -/
inductive Phase (ι : Type)
  | queued
  | running (settings : VkLdapSettings)
  | ended (settings : VkLdapSettings) (found : ι) (res : Result (List String))
  | dropped
  | replied

structure Request (ι : Type) where
  username : ValkeyString
  password : ValkeyString
  mode : LdapAuthMode
  phase : Phase ι

/-- The data the reply callback is given, once it runs. -/
def Request.privData {ι : Type} (r : Request ι) : Option (Option (Result (List String))) :=
  match r.phase with
  | .ended _ _ res => some (some res)
  | .dropped => some none
  | _ => none

structure State (ι : Type) where
  configs : Configs
  ldapSettings : VkLdapSettings
  scheduler : Scheduler
  requests : List (Request ι)

def State.init {ι : Type} (configs : Configs) (ldapSettings : VkLdapSettings) : State ι :=
  { configs, ldapSettings, scheduler := .running, requests := [] }

inductive Act (ι : Type)
  | auth (username password : ValkeyString)
  /-- Operation `i` starts and reads the settings. -/
  | start (i : ℕ)
  /-- Operation `i` ends, after what it found. -/
  | finish (i : ℕ) (found : ι)
  /-- Operation `i` panics or is dropped with the scheduler. -/
  | drop (i : ℕ)
  | reply (i : ℕ) (valkey : Valkey)
  | setConfigs (configs : Configs)
  | setLdapSettings (ldapSettings : VkLdapSettings)
  | setScheduler (scheduler : Scheduler)

/-- What an operation comes to over what it finds. -/
abbrev Job (ι : Type) :=
  LdapAuthMode → VkLdapSettings → String → String → ι → Progress (List String)

/-- Operations that come to any outcome at all. -/
def anyJob : Job (Result (List String)) := fun _ _ _ _ res => .returned res

/-- The operations of `Failover`, over what the passes of the loop find. -/
def ldapJob {σ : Type} (ldapEscape : String → String) : Job (List (Attempt σ)) :=
  fun mode settings username password attempts =>
    runLdapOpWithFailover (ldapGroupRules ldapEscape settings username password mode) attempts

namespace State

variable {ι : Type}

def setPhase (s : State ι) (i : ℕ) (r : Request ι) (phase : Phase ι) : State ι :=
  { s with requests := s.requests.set i { r with phase } }

/-- What the reply callback does for request `i`, if it can run. -/
def reply (s : State ι) (i : ℕ) (valkey : Valkey) : Option (Request ι × Reply) :=
  match s.requests[i]? with
  | none => none
  | some r =>
    r.privData.map fun privData =>
      (r, authReplyCallback s.configs valkey r.username r.password privData)

def step (job : Job ι) (s : State ι) : Act ι → Option (State ι)
  | .auth username password =>
    match ldapAuthBlockingCallback s.configs s.scheduler username with
    | .passed => some s
    | .submitted mode =>
      some { s with requests := s.requests ++ [⟨username, password, mode, .queued⟩] }
    | .failed _ =>
      -- the blocked client is dropped with the task that was not sent
      some { s with requests := s.requests ++
        [⟨username, password, s.configs.ldapAuthMode, .dropped⟩] }
  | .start i =>
    match s.requests[i]? with
    | some r =>
      match r.phase with
      | .queued => some (s.setPhase i r (.running s.ldapSettings))
      | _ => none
    | none => none
  | .finish i found =>
    match s.requests[i]? with
    | some r =>
      match r.phase with
      | .running settings =>
        match job r.mode settings r.username.toString r.password.toString found with
        | .returned res => some (s.setPhase i r (.ended settings found res))
        | _ => none
      | _ => none
    | none => none
  | .drop i =>
    match s.requests[i]? with
    | some r =>
      match r.phase with
      | .queued | .running _ => some (s.setPhase i r .dropped)
      | _ => none
    | none => none
  | .reply i valkey => (s.reply i valkey).map fun x => s.setPhase i x.1 .replied
  | .setConfigs configs => some { s with configs }
  | .setLdapSettings ldapSettings => some { s with ldapSettings }
  | .setScheduler scheduler => some { s with scheduler }

/-! ### What holds of all requests -/

theorem forall_setPhase {P : Request ι → Prop} {s : State ι} (h : ∀ r ∈ s.requests, P r) {i : ℕ}
    {r : Request ι} {phase : Phase ι} (hr : P { r with phase }) :
    ∀ r' ∈ (s.setPhase i r phase).requests, P r' := by
  intro r' hr'
  rcases List.mem_or_eq_of_mem_set hr' with hr' | rfl
  · exact h r' hr'
  · exact hr

theorem forall_append {P : Request ι → Prop} {s : State ι} (h : ∀ r ∈ s.requests, P r)
    {r : Request ι} (hr : P r) : ∀ r' ∈ s.requests ++ [r], P r' := by
  intro r' hr'
  rcases List.mem_append.mp hr' with hr' | hr'
  · exact h r' hr'
  · rw [List.mem_singleton.mp hr']
    exact hr

/-! ### What a step does -/

/-- The steps of the machine, each with what it found and what it leaves. -/
inductive Move (job : Job ι) (s : State ι) : Act ι → State ι → Prop
  | passed {username password : ValkeyString}
      (h : ldapAuthBlockingCallback s.configs s.scheduler username = .passed) :
      Move job s (.auth username password) s
  | submitted {username password : ValkeyString} {mode : LdapAuthMode}
      (h : ldapAuthBlockingCallback s.configs s.scheduler username = .submitted mode) :
      Move job s (.auth username password)
        { s with requests := s.requests ++ [⟨username, password, mode, .queued⟩] }
  | failed {username password : ValkeyString} {err : VkLdapError}
      (h : ldapAuthBlockingCallback s.configs s.scheduler username = .failed err) :
      Move job s (.auth username password)
        { s with requests := s.requests ++
          [⟨username, password, s.configs.ldapAuthMode, .dropped⟩] }
  | start {i : ℕ} {r : Request ι} (hr : s.requests[i]? = some r) (hp : r.phase = .queued) :
      Move job s (.start i) (s.setPhase i r (.running s.ldapSettings))
  | finish {i : ℕ} {r : Request ι} {settings : VkLdapSettings} {found : ι}
      {res : Result (List String)} (hr : s.requests[i]? = some r)
      (hp : r.phase = .running settings)
      (hjob : job r.mode settings r.username.toString r.password.toString found = .returned res) :
      Move job s (.finish i found) (s.setPhase i r (.ended settings found res))
  | drop {i : ℕ} {r : Request ι} (hr : s.requests[i]? = some r)
      (hp : r.phase = .queued ∨ ∃ settings, r.phase = .running settings) :
      Move job s (.drop i) (s.setPhase i r .dropped)
  | reply {i : ℕ} {valkey : Valkey} {r : Request ι} {reply : Reply}
      (hreply : s.reply i valkey = some (r, reply)) :
      Move job s (.reply i valkey) (s.setPhase i r .replied)
  | setConfigs {configs : Configs} : Move job s (.setConfigs configs) { s with configs }
  | setLdapSettings {ldapSettings : VkLdapSettings} :
      Move job s (.setLdapSettings ldapSettings) { s with ldapSettings }
  | setScheduler {scheduler : Scheduler} :
      Move job s (.setScheduler scheduler) { s with scheduler }

theorem step_move {job : Job ι} {s s' : State ι} {a : Act ι} (h : s.step job a = some s') :
    s.Move job a s' := by
  cases a with
  | auth username password =>
    simp only [step] at h
    split at h
    all_goals rename_i hcallback; obtain rfl := Option.some.inj h
    · exact .passed hcallback
    · exact .submitted hcallback
    · exact .failed hcallback
  | start i =>
    simp only [step] at h
    split at h
    · rename_i r hr
      split at h
      · rename_i hp
        obtain rfl := Option.some.inj h
        exact .start hr hp
      · cases h
    · cases h
  | finish i found =>
    simp only [step] at h
    split at h
    · rename_i r hr
      split at h
      · rename_i settings hp
        split at h
        · rename_i res hjob
          obtain rfl := Option.some.inj h
          exact .finish hr hp hjob
        · cases h
      · cases h
    · cases h
  | drop i =>
    simp only [step] at h
    split at h
    · rename_i r hr
      split at h
      · rename_i hp
        obtain rfl := Option.some.inj h
        exact .drop hr (.inl hp)
      · rename_i settings hp
        obtain rfl := Option.some.inj h
        exact .drop hr (.inr ⟨settings, hp⟩)
      · cases h
    · cases h
  | reply i valkey =>
    obtain ⟨⟨r, reply⟩, hreply, rfl⟩ := Option.map_eq_some_iff.mp h
    exact .reply hreply
  | setConfigs configs =>
    obtain rfl := Option.some.inj h
    exact .setConfigs
  | setLdapSettings ldapSettings =>
    obtain rfl := Option.some.inj h
    exact .setLdapSettings
  | setScheduler scheduler =>
    obtain rfl := Option.some.inj h
    exact .setScheduler

end State

open Runs

/-- Its operation ended and it not replied to, in a machine of its own. -/
def State.alone {ι : Type} (configs : Configs) (settings : VkLdapSettings)
    (username password : ValkeyString) (mode : LdapAuthMode) (found : ι)
    (res : Result (List String)) : State ι :=
  ⟨configs, settings, .running, [⟨username, password, mode, .ended settings found res⟩]⟩

/-- **An `AUTH` with nobody else there**: submitted, started, ended by what its
operation comes to, and replied to. -/
theorem exists_login {ι : Type} (job : Job ι) (configs : Configs) (settings : VkLdapSettings)
    (username password : ValkeyString) (mode : LdapAuthMode) (found : ι)
    (res : Result (List String)) (valkey : Valkey)
    (hsubmit : ldapAuthBlockingCallback configs .running username = .submitted mode)
    (hjob : job mode settings username.toString password.toString found = .returned res) :
    ∃ tr s, Run (State.step job) (State.init configs settings) tr s ∧
      (State.alone configs settings username password mode found res, .reply 0 valkey) ∈ tr ∧
      ∀ x ∈ tr, x = (State.init configs settings, .auth username password) ∨ x.2 = .start 0 ∨
        x.2 = .finish 0 found ∨
        x = (State.alone configs settings username password mode found res, .reply 0 valkey) := by
  have hauth : (State.init configs settings).step job (.auth username password) =
      some ⟨configs, settings, .running, [⟨username, password, mode, .queued⟩]⟩ := by
    simp only [State.step, State.init, hsubmit]
    rfl
  have hfinish : State.step job
      ⟨configs, settings, .running, [⟨username, password, mode, .running settings⟩]⟩
      (.finish 0 found) = some (State.alone configs settings username password mode found res) := by
    show (match job mode settings username.toString password.toString found with
      | .returned res => _
      | _ => _) = _
    rw [hjob]
    rfl
  refine ⟨_, _, (((Run.refl.snoc hauth).snoc (a := .start 0) rfl).snoc hfinish).snoc
    (a := .reply 0 valkey) rfl, List.mem_append_right _ (.head _), fun x hx => ?_⟩
  simp only [List.nil_append, List.mem_append, List.mem_singleton] at hx
  rcases hx with ((rfl | rfl) | rfl) | rfl
  · exact .inl rfl
  · exact .inr (.inl rfl)
  · exact .inr (.inr (.inl rfl))
  · exact .inr (.inr (.inr rfl))

end Auth
end ValkeyLdap
