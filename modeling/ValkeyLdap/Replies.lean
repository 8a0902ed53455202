/-
# What the callbacks do with an outcome

The reply callback branches on the outcome of the LDAP operation: it deletes
the ACL user for a user that does not exist, hands the `AUTH` on to the local
ACL when no server could be asked, and takes everything else for a rejection,
which also deletes. `mem_authReplyCallback` and `authReplyCallback_notHandled`
are that table. The data it is given is what the operation came to
(`honest_steps`), so what it does is a matter of the operations' outcomes.

Key theorems: `deletes_only_unknown`, `local_only_by_documented_doors`.
-/
import ValkeyLdap.Auth

namespace ValkeyLdap
namespace Auth

open Runs

variable {ι : Type}

/-! ### The reply callback, by outcome -/

theorem delUser_inj {u v : String} (h : delUser u = delUser v) : u = v := by
  have h := Call.acl.inj h
  simpa using h

theorem delUser_ne_setUser (u v : String) (rules : List String) :
    delUser u ≠ .acl ("SETUSER" :: v :: rules) := by
  intro h
  have h := Call.acl.inj h
  simp at h

theorem applyLdapUserAcl_calls {ctx : Configs} {valkey : Valkey} {username password : ValkeyString}
    {ldapTokens : List String} {call : Call}
    (h : call ∈ (applyLdapUserAcl ctx valkey username password ldapTokens).1) :
    call = .acl ("SETUSER" :: username.toString :: aclRules ctx password ldapTokens) ∨
      call = .authenticateClientWithAclUser username := by
  unfold applyLdapUserAcl at h
  simp only at h
  split at h
  · exact .inl (List.mem_singleton.mp h)
  · split at h
    · simpa using h
    · simpa using h

theorem applyLdapUserAcl_result (ctx : Configs) (valkey : Valkey)
    (username password : ValkeyString) (ldapTokens : List String) :
    (applyLdapUserAcl ctx valkey username password ldapTokens).2 ≠ .ok .authNotHandled := by
  unfold applyLdapUserAcl
  simp only
  split
  · rintro ⟨⟩
  · split
    · rintro ⟨⟩
    · rintro ⟨⟩

/-- All that the reply callback calls. -/
theorem authReplyCallback_calls {ctx : Configs} {valkey : Valkey} {username password : ValkeyString}
    {privData : Option (Result (List String))} {call : Call}
    (h : call ∈ (authReplyCallback ctx valkey username password privData).1) :
    (∃ rules, call = .acl ("SETUSER" :: username.toString :: rules)) ∨
      call = .authenticateClientWithAclUser username ∨ call = delUser username.toString := by
  cases privData with
  | none => cases h
  | some res =>
    cases res with
    | ok ldapTokens =>
      rcases applyLdapUserAcl_calls h with h | h
      · exact Or.inl ⟨_, h⟩
      · exact Or.inr (Or.inl h)
    | error err =>
      refine Or.inr (Or.inr ?_)
      simp only [authReplyCallback, handleUserNotFound, handleServerUnavailable,
        handleCredentialRejection] at h
      repeat' split at h
      all_goals first | exact List.mem_singleton.mp h | cases h

/-- The outcome is neither a user not found nor a server unavailable. -/
def Rejected (err : VkLdapError) : Prop :=
  err.isUserNotFound = false ∧ err.isServerUnavailable = false

instance : DecidablePred Rejected := fun err => by unfold Rejected; infer_instance

/-- **When the reply callback deletes**: after a user not found that is not
exempted, and after a rejection. -/
theorem mem_authReplyCallback {ctx : Configs} {valkey : Valkey} {username password : ValkeyString}
    {privData : Option (Result (List String))} {name : String} :
    delUser name ∈ (authReplyCallback ctx valkey username password privData).1 ↔
      name = username.toString ∧ ∃ err, privData = some (.error err) ∧
        ((err.isUserNotFound = true ∧ ctx.isUserExemptedFromLdap username.toString = false) ∨
          Rejected err) := by
  cases privData with
  | none => simp [authReplyCallback]
  | some res =>
    cases res with
    | ok ldapTokens =>
      constructor
      · intro h
        rcases applyLdapUserAcl_calls h with h | h
        · exact absurd h (delUser_ne_setUser _ _ _)
        · cases h
      · rintro ⟨-, err, h, -⟩
        cases h
    | error err =>
      simp only [authReplyCallback, Option.some.injEq, Except.error.injEq, exists_eq_left']
      have hdel : ∀ u, delUser name ∈ [delUser u] ↔ name = u := fun u =>
        ⟨fun h => delUser_inj (List.mem_singleton.mp h), fun h => by rw [h]; exact .head _⟩
      by_cases hfound : err.isUserNotFound = true
      · rw [if_pos hfound]
        unfold handleUserNotFound
        by_cases hex : ctx.isUserExemptedFromLdap username.toString = true
        · simp [hex, hfound, Rejected]
        · rw [if_neg hex, hdel]
          simp [hfound, hex]
      · rw [if_neg hfound]
        by_cases hav : err.isServerUnavailable = true
        · rw [if_pos hav]
          unfold handleServerUnavailable
          have hcalls : ∀ b : Bool, delUser name ∉ (if b = true then
              (([], .ok .authNotHandled) : Reply) else ([], .error "LDAP server unavailable")).1 := by
            intro b
            cases b <;> simp
          simp [hfound, hav, Rejected, hcalls]
        · rw [if_neg hav]
          simp [handleCredentialRejection, hdel, hfound, hav, Rejected]

/-- **When the reply callback hands the client on**: after a server
unavailable, with the fallback enabled. -/
theorem authReplyCallback_notHandled {ctx : Configs} {valkey : Valkey}
    {username password : ValkeyString} {privData : Option (Result (List String))} :
    (authReplyCallback ctx valkey username password privData).2 = .ok .authNotHandled ↔
      ctx.isAclFallbackEnabled = true ∧
        ∃ err, privData = some (.error err) ∧ err.isServerUnavailable = true := by
  cases privData with
  | none => simp [authReplyCallback]
  | some res =>
    cases res with
    | ok ldapTokens =>
      constructor
      · intro h
        exact absurd h (applyLdapUserAcl_result ctx valkey username password ldapTokens)
      · rintro ⟨-, err, h, -⟩
        cases h
    | error err =>
      simp only [authReplyCallback, Option.some.injEq, Except.error.injEq, exists_eq_left']
      by_cases hfound : err.isUserNotFound = true
      · have hav := VkLdapError.not_unavailable_of_notFound hfound
        rw [if_pos hfound]
        unfold handleUserNotFound
        split <;> simp [hav]
      · rw [if_neg hfound]
        by_cases hav : err.isServerUnavailable = true
        · rw [if_pos hav]
          unfold handleServerUnavailable
          by_cases hfall : ctx.isAclFallbackEnabled = true
          · simp [hfall, hav]
          · simp [hfall]
        · rw [if_neg hav]
          simp [handleCredentialRejection, hav]

/-! ### The data is the outcome -/

/-- What a request is said to have ended by, its operation came to. -/
def Honest (job : Job ι) (s : State ι) : Prop :=
  ∀ r ∈ s.requests, ∀ settings found res, r.phase = .ended settings found res →
    job r.mode settings r.username.toString r.password.toString found = .returned res

/-- A step ends a request only by what its operation came to. -/
theorem honest_set {job : Job ι} {s : State ι} (h : Honest job s) {i : ℕ} {r : Request ι}
    {phase : Phase ι}
    (hphase : ∀ settings found res, phase = .ended settings found res →
      job r.mode settings r.username.toString r.password.toString found = .returned res) :
    Honest job (s.setPhase i r phase) :=
  State.forall_setPhase h hphase

theorem honest_append {job : Job ι} {s : State ι} (h : Honest job s) {r : Request ι}
    (hr : ∀ settings found res, r.phase ≠ .ended settings found res) :
    Honest job { s with requests := s.requests ++ [r] } := by
  apply State.forall_append h
  intro settings found res hp
  exact absurd hp (hr settings found res)

theorem honest_step {job : Job ι} {s s' : State ι} {a : Act ι} (h : Honest job s)
    (hs : s.step job a = some s') : Honest job s' := by
  cases State.step_move hs with
  | submitted => exact honest_append h (by rintro _ _ _ ⟨⟩)
  | failed => exact honest_append h (by rintro _ _ _ ⟨⟩)
  | finish _ _ hjob => exact honest_set h (by rintro _ _ _ ⟨⟩; exact hjob)
  | start | drop | reply => exact honest_set h (by rintro _ _ _ ⟨⟩)
  | passed | setConfigs | setLdapSettings | setScheduler => exact h

/-- In every state that a run goes through, requests ended by what their
operations came to. -/
theorem honest_steps {job : Job ι} {configs : Configs} {ldapSettings : VkLdapSettings}
    {tr : List (State ι × Act ι)} {s : State ι}
    (h : Run (State.step job) (State.init configs ldapSettings) tr s) :
    Steps (fun t _ => Honest job t) tr :=
  h.forall_steps steps_true (by rintro r ⟨⟩) (fun _ _ _ hi _ hs => honest_step hi hs)
    fun _ _ _ hi _ _ => hi

/-- The operation of the request came to this error. -/
def Request.EndedWith (job : Job ι) (r : Request ι) (err : VkLdapError) : Prop :=
  ∃ settings found, r.phase = .ended settings found (.error err) ∧
    job r.mode settings r.username.toString r.password.toString found = .returned (.error err)

/-- The reply callback is given an error exactly if the operation came to it. -/
theorem endedWith_iff {job : Job ι} {s : State ι} (h : Honest job s) {r : Request ι}
    (hr : r ∈ s.requests) {err : VkLdapError} :
    r.EndedWith job err ↔ r.privData = some (some (.error err)) := by
  unfold Request.privData
  constructor
  · rintro ⟨settings, found, hp, -⟩
    rw [hp]
  · intro hdata
    split at hdata
    · rename_i settings found res hp
      obtain rfl := Option.some.inj (Option.some.inj hdata)
      exact ⟨settings, found, hp, h r hr settings found _ hp⟩
    · cases Option.some.inj hdata
    · cases hdata

theorem reply_eq {s : State ι} {i : ℕ} {valkey : Valkey} {r : Request ι} {reply : Reply}
    (h : s.reply i valkey = some (r, reply)) :
    s.requests[i]? = some r ∧ ∃ privData, r.privData = some privData ∧
      reply = authReplyCallback s.configs valkey r.username r.password privData := by
  unfold State.reply at h
  split at h
  · cases h
  · rename_i r' hr
    obtain ⟨privData, hp, he⟩ := Option.map_eq_some_iff.mp h
    obtain ⟨rfl, rfl⟩ := Prod.mk.inj he
    exact ⟨hr, privData, hp, rfl⟩

theorem reply_of_privData {s : State ι} {i : ℕ} {r : Request ι}
    {privData : Option (Result (List String))} (hr : s.requests[i]? = some r)
    (hdata : r.privData = some privData) (valkey : Valkey) : s.reply i valkey =
      some (r, authReplyCallback s.configs valkey r.username r.password privData) := by
  unfold State.reply
  rw [hr]
  simp only [hdata, Option.map_some]

/-! ### Deletions -/

/-- A step deletes no ACL user but that of a request it replies to whose
operation found that the user does not exist. -/
def DeletesOnlyUnknown (job : Job ι) (s : State ι) (a : Act ι) : Prop :=
  ∀ i valkey r reply name, a = .reply i valkey → s.reply i valkey = some (r, reply) →
    delUser name ∈ reply.1 →
    name = r.username.toString ∧ ∃ err, r.EndedWith job err ∧ err.isUserNotFound = true

/-- A step replies to no request whose operation came to an error of a third
kind. -/
def RepliesToNoRejection (job : Job ι) (s : State ι) (a : Act ι) : Prop :=
  ∀ i valkey r err, a = .reply i valkey → s.requests[i]? = some r → r.EndedWith job err →
    ¬ Rejected err

theorem deletesOnlyUnknown_iff {job : Job ι} {s : State ι} {a : Act ι} (h : Honest job s) :
    DeletesOnlyUnknown job s a ↔ RepliesToNoRejection job s a := by
  constructor
  · rintro hdel i valkey r err rfl hr hend hrej
    have hdata := (endedWith_iff h (List.mem_of_getElem? hr)).mp hend
    have hreply := reply_of_privData hr hdata valkey
    have hmem : delUser r.username.toString ∈ (authReplyCallback s.configs valkey r.username
        r.password (some (.error err))).1 :=
      mem_authReplyCallback.mpr ⟨rfl, err, rfl, .inr hrej⟩
    obtain ⟨-, err', hend', hfound⟩ := hdel i valkey r _ _ rfl hreply hmem
    have hdata' := (endedWith_iff h (List.mem_of_getElem? hr)).mp hend'
    rw [hdata] at hdata'
    obtain rfl := Except.error.inj (Option.some.inj (Option.some.inj hdata'))
    rw [hrej.1] at hfound
    cases hfound
  · rintro hrej i valkey r reply name rfl hreply hmem
    obtain ⟨hr, privData, hdata, rfl⟩ := reply_eq hreply
    obtain ⟨hname, err, rfl, herr⟩ := mem_authReplyCallback.mp hmem
    have hend := (endedWith_iff h (List.mem_of_getElem? hr)).mpr hdata
    refine ⟨hname, err, hend, ?_⟩
    rcases herr with ⟨hfound, -⟩ | herr
    · exact hfound
    · exact absurd herr (hrej i valkey r err rfl hr hend)

/-- **An ACL user is deleted only because the user does not exist exactly in
the runs** that reply to no operation that ended in a third kind of error,
neither a user not found nor a server unavailable. -/
theorem deletes_only_unknown (job : Job ι) (configs : Configs) (ldapSettings : VkLdapSettings)
    (tr : List (State ι × Act ι)) (s : State ι)
    (h : Run (State.step job) (State.init configs ldapSettings) tr s) :
    Steps (DeletesOnlyUnknown job) tr ↔ Steps (RepliesToNoRejection job) tr :=
  Steps.congr ((honest_steps h).imp fun _ _ hi => deletesOnlyUnknown_iff hi)

def bob : ValkeyString := ⟨[0x62, 0x6F, 0x62]⟩

/-- Bob is deleted when the directory has no entry for him. -/
theorem deletes_only_unknown_bob :
    ∃ tr s, Run (State.step anyJob) (State.init { ldapServerList := "ldap://a" } {}) tr s ∧
      Steps (DeletesOnlyUnknown anyJob) tr ∧
      ∃ x ∈ tr, ∃ r reply, x.1.reply 0 (fun _ => true) = some (r, reply) ∧
        delUser "bob" ∈ reply.1 := by
  obtain ⟨tr, s, hrun, hmem, hsteps⟩ := exists_login anyJob { ldapServerList := "ldap://a" } {}
    bob bob .bind (.error (.noLdapEntryFound "(uid=bob)")) _ (fun _ => true) rfl rfl
  refine ⟨tr, s, hrun, (deletes_only_unknown anyJob _ _ tr s hrun).mpr ?_, _, hmem, _, _, rfl, ?_⟩
  · rintro x hx i valkey r err ha hr ⟨_, _, hphase, -⟩ hrej
    rcases hsteps x hx with rfl | h | h | rfl
    · cases ha
    · cases h.symm.trans ha
    · cases h.symm.trans ha
    · cases ha
      obtain rfl := Option.some.inj hr
      obtain ⟨-, -, he⟩ := Phase.ended.inj hphase
      obtain rfl := Except.error.inj he
      exact absurd hrej.1 (by decide)
  · exact mem_authReplyCallback.mpr ⟨by decide, _, rfl, .inl ⟨rfl, rfl⟩⟩

/-- What Active Directory answers to a wrong password. -/
def wrongPassword : LdapError :=
  ⟨.ldapResult 49, "rc=49 (invalidCredentials), text: 80090308: LdapErr: DSID-0C09041C, data 52e"⟩

def refusing : LdapHandler Unit where
  simpleBind := fun _ _ s => (.error wrongPassword, s)
  search := fun _ s => (.ok [], s)

theorem rejected_wrongPassword : Rejected (.ldapBindError wrongPassword) := by decide +kernel

theorem job_refusing (username password : String) :
    ldapJob id .bind {} username password [⟨.oneServer, refusing, ()⟩] =
      .returned (.error (.ldapBindError wrongPassword)) := rfl

/-- A wrong password deletes Bob. -/
theorem wrong_password_deletes :
    ¬ ∀ configs ldapSettings tr s,
      Run (State.step (ldapJob id : Job (List (Attempt Unit))))
        (State.init configs ldapSettings) tr s → Steps (DeletesOnlyUnknown (ldapJob id)) tr := by
  intro h
  obtain ⟨tr, s, hrun, hmem, -⟩ := exists_login (ldapJob id) { ldapServerList := "ldap://a" } {}
    bob bob .bind _ _ (fun _ => true) rfl (job_refusing bob.toString bob.toString)
  have hdel := h _ _ tr s hrun _ hmem 0 _ _ _ bob.toString rfl rfl
    (mem_authReplyCallback.mpr ⟨rfl, _, rfl, .inr rejected_wrongPassword⟩)
  obtain ⟨-, err, ⟨_, _, hphase, -⟩, hfound⟩ := hdel
  obtain ⟨-, -, he⟩ := Phase.ended.inj hphase
  obtain rfl := Except.error.inj he
  rw [rejected_wrongPassword.1] at hfound
  cases hfound

/-! ### Handing a client on -/

/-- Past the two checks, the callback ends as the submission does. -/
theorem ldapAuthBlockingCallback_eq {ctx : Configs} {username : ValkeyString}
    (henabled : ctx.isAuthEnabled = true)
    (hexempted : ctx.isUserExemptedFromLdap username.toString = false) (scheduler : Scheduler) :
    ldapAuthBlockingCallback ctx scheduler username =
      match submitLdapOp ctx.ldapAuthMode scheduler with
      | .ok mode => .submitted mode
      | .error err => .failed err := by
  have hmode : (if ctx.isBindMode then vkLdapBindAndGroupRules scheduler
      else vkLdapSearchBindAndGroupRules scheduler) = submitLdapOp ctx.ldapAuthMode scheduler := by
    unfold Configs.isBindMode
    cases ctx.ldapAuthMode with
    | bind => rfl
    | searchAndBind => rfl
  unfold ldapAuthBlockingCallback
  cases hsubmit : submitLdapOp ctx.ldapAuthMode scheduler with
  | ok mode =>
    simp only [henabled, hexempted, hmode, hsubmit, Bool.not_true, Bool.false_eq_true, if_false]
  | error err =>
    simp only [henabled, hexempted, hmode, hsubmit, Bool.not_true, Bool.false_eq_true, if_false]

/-- A client that LDAP should have answered for is handed on to the local ACL
only if the fallback is enabled and no server could be asked. -/
def OnlyDocumentedDoors (job : Job ι) (s : State ι) (a : Act ι) : Prop :=
  (∀ username password, a = .auth username password → s.configs.isAuthEnabled = true →
    s.configs.isUserExemptedFromLdap username.toString = false →
    (ldapAuthBlockingCallback s.configs s.scheduler username).result = .authNotHandled →
    s.configs.isAclFallbackEnabled = true ∧
      ∃ err, ldapAuthBlockingCallback s.configs s.scheduler username = .failed err ∧
        err.isServerUnavailable = true) ∧
  ∀ i valkey r reply, a = .reply i valkey → s.reply i valkey = some (r, reply) →
    reply.2 = .ok .authNotHandled →
    s.configs.isAclFallbackEnabled = true ∧
      ∃ err, r.EndedWith job err ∧ err.isServerUnavailable = true

/-- An `AUTH` for LDAP finds the scheduler running, or stopped with the
fallback enabled. -/
def MaySubmit (s : State ι) (a : Act ι) : Prop :=
  ∀ username password, a = .auth username password → s.configs.isAuthEnabled = true →
    s.configs.isUserExemptedFromLdap username.toString = false →
    s.scheduler = .running ∨
      (s.scheduler = .stopped ∧ s.configs.isAclFallbackEnabled = true)

/-- The reply callback keeps to the documented doors. -/
theorem reply_documented {job : Job ι} {s : State ι} (h : Honest job s) {i : ℕ} {valkey : Valkey}
    {r : Request ι} {reply : Reply} (hreply : s.reply i valkey = some (r, reply))
    (hres : reply.2 = .ok .authNotHandled) :
    s.configs.isAclFallbackEnabled = true ∧
      ∃ err, r.EndedWith job err ∧ err.isServerUnavailable = true := by
  obtain ⟨hr, privData, hdata, rfl⟩ := reply_eq hreply
  obtain ⟨hfall, err, rfl, hav⟩ := authReplyCallback_notHandled.mp hres
  exact ⟨hfall, err, (endedWith_iff h (List.mem_of_getElem? hr)).mpr hdata, hav⟩

theorem onlyDocumentedDoors_iff {job : Job ι} {s : State ι} {a : Act ι} (h : Honest job s) :
    OnlyDocumentedDoors job s a ↔ MaySubmit s a := by
  constructor
  · rintro ⟨hauth, -⟩ username password rfl henabled hexempted
    have heq := ldapAuthBlockingCallback_eq henabled hexempted s.scheduler
    have hdoor := hauth username password rfl henabled hexempted
    rw [heq] at hdoor
    cases hs : s.scheduler with
    | running => exact .inl rfl
    | stopped =>
      rw [hs] at hdoor
      exact .inr ⟨rfl, (hdoor rfl).1⟩
    | closed =>
      rw [hs] at hdoor
      obtain ⟨-, err, he, hav⟩ := hdoor rfl
      obtain rfl := Blocking.failed.inj he
      cases hav
  · intro hmay
    refine ⟨?_, fun i valkey r reply _ => reply_documented h⟩
    rintro username password rfl henabled hexempted hres
    have heq := ldapAuthBlockingCallback_eq henabled hexempted s.scheduler
    rw [heq] at hres ⊢
    rcases hmay username password rfl henabled hexempted with hs | ⟨hs, hfall⟩
    · rw [hs] at hres
      cases hres
    · rw [hs]
      exact ⟨hfall, .schedulerNotReady, rfl, rfl⟩

/-- **The local ACL is reached only by the documented doors exactly in the
runs** in which every `AUTH` for LDAP finds the scheduler running, or stopped
with the fallback enabled. -/
theorem local_only_by_documented_doors (job : Job ι) (configs : Configs)
    (ldapSettings : VkLdapSettings) (tr : List (State ι × Act ι)) (s : State ι)
    (h : Run (State.step job) (State.init configs ldapSettings) tr s) :
    Steps (OnlyDocumentedDoors job) tr ↔ Steps MaySubmit tr :=
  Steps.congr ((honest_steps h).imp fun _ _ hi => onlyDocumentedDoors_iff hi)

/-- Bob's `AUTH`, its operation finding no healthy server, is handed on with
the fallback enabled. -/
theorem local_only_by_documented_doors_bob :
    ∃ tr s, Run (State.step anyJob)
        (State.init { ldapServerList := "ldap://a", ldapAclFallbackEnabled := true } {}) tr s ∧
      Steps (OnlyDocumentedDoors anyJob) tr ∧
      ∃ x ∈ tr, ∃ r reply, x.1.reply 0 (fun _ => true) = some (r, reply) ∧
        reply.2 = .ok .authNotHandled := by
  obtain ⟨tr, s, hrun, hmem, hsteps⟩ := exists_login anyJob
    { ldapServerList := "ldap://a", ldapAclFallbackEnabled := true } {}
    bob bob .bind (.error .noHealthyServerAvailable) _ (fun _ => true) rfl rfl
  refine ⟨tr, s, hrun, (local_only_by_documented_doors anyJob _ _ tr s hrun).mpr ?_,
    _, hmem, _, _, rfl, rfl⟩
  intro x hx username password ha _ _
  rcases hsteps x hx with rfl | h | h | rfl
  · exact .inl rfl
  · cases h.symm.trans ha
  · cases h.symm.trans ha
  · cases ha

/-- With the scheduler stopped, Bob is handed on with the fallback disabled. -/
theorem stopped_scheduler_hands_on :
    ¬ ∀ configs ldapSettings tr s,
      Run (State.step (ldapJob id : Job (List (Attempt Unit))))
        (State.init configs ldapSettings) tr s → Steps (OnlyDocumentedDoors (ldapJob id)) tr := by
  intro h
  have h0 : Run (State.step (ldapJob id : Job (List (Attempt Unit))))
    (State.init { ldapServerList := "ldap://a" } {}) [] _ := Run.refl
  have hrun := (h0.snoc (a := .setScheduler .stopped) rfl).snoc (a := .auth bob bob) rfl
  obtain ⟨-, hauth, -⟩ := steps_snoc.mp (h _ _ _ _ hrun)
  obtain ⟨hfall, -⟩ := hauth bob bob rfl rfl rfl rfl
  cases hfall

end Auth
end ValkeyLdap
