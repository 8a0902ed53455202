/-
# Exempted users

`exempted_users_regex_set_callback` of `src/configs.rs` changes the pattern of
exempted users, and `ldap_auth_blocking_callback` asks it when an `AUTH`
arrives. The reply comes later: `handle_user_not_found` asks the pattern again,
`handle_credential_rejection` does not. So an exempted user is deleted exactly
when a rejection is replied to that the pattern has come to exempt meanwhile;
while the pattern stays, no exempted user has a request.

Key theorems: `exempted_never_deleted`, `fixed_pattern`.
-/
import ValkeyLdap.Replies

namespace ValkeyLdap
namespace Auth

open Runs

variable {ι : Type}

/-! ### The pattern -/

/-- `exempted_users_regex_set_callback`, with `Regex::new` as a parameter: what
it answers, and the configuration after. -/
def exemptedUsersRegexSetCallback (regexNew : String → Except String (String → Bool))
    (ctx : Configs) (value : ValkeyString) : Except String Unit × Configs :=
  let patternStr := value.toString
  if patternStr.isEmpty then (.ok (), { ctx with exemptedUsersRegexCache := none })
  else
    match regexNew patternStr with
    | .ok regex => (.ok (), { ctx with exemptedUsersRegexCache := some regex })
    | .error err => (.error ("Invalid regex pattern: " ++ err), ctx)

/-- A pattern that is refused leaves the one in force. -/
theorem exemptedUsersRegexSetCallback_error {regexNew : String → Except String (String → Bool)}
    {ctx : Configs} {value : ValkeyString} {err : String}
    (h : (exemptedUsersRegexSetCallback regexNew ctx value).1 = .error err) :
    (exemptedUsersRegexSetCallback regexNew ctx value).2 = ctx := by
  unfold exemptedUsersRegexSetCallback at h ⊢
  by_cases hempty : value.toString.isEmpty = true
  · simp only [hempty, if_true] at h
    cases h
  · simp only [hempty, Bool.false_eq_true, if_false] at h ⊢
    split at h
    · cases h
    · rfl

/-- `CONFIG SET ldap.exempted_users_regex`. -/
def setExemptedUsersRegex (regexNew : String → Except String (String → Bool)) (ctx : Configs)
    (value : ValkeyString) : Act ι :=
  .setConfigs (exemptedUsersRegexSetCallback regexNew ctx value).2

/-! ### Deletions -/

/-- A step deletes nobody whom the pattern in force exempts. -/
def NeverDeletesExempted (s : State ι) (a : Act ι) : Prop :=
  ∀ i valkey r reply name, a = .reply i valkey → s.reply i valkey = some (r, reply) →
    delUser name ∈ reply.1 → s.configs.isUserExemptedFromLdap name = false

/-- A step replies to no rejection of a user whom the pattern in force
exempts. -/
def RejectsNoExempted (job : Job ι) (s : State ι) (a : Act ι) : Prop :=
  ∀ i valkey r err, a = .reply i valkey → s.requests[i]? = some r → r.EndedWith job err →
    Rejected err → s.configs.isUserExemptedFromLdap r.username.toString = false

theorem neverDeletesExempted_iff {job : Job ι} {s : State ι} {a : Act ι} (h : Honest job s) :
    NeverDeletesExempted s a ↔ RejectsNoExempted job s a := by
  constructor
  · rintro hdel i valkey r err rfl hr hend hrej
    have hdata := (endedWith_iff h (List.mem_of_getElem? hr)).mp hend
    exact hdel i valkey r _ _ rfl (reply_of_privData hr hdata valkey)
      (mem_authReplyCallback.mpr ⟨rfl, err, rfl, Or.inr hrej⟩)
  · rintro hrej i valkey r reply name rfl hreply hmem
    obtain ⟨hr, privData, hdata, rfl⟩ := reply_eq hreply
    obtain ⟨rfl, err, rfl, ⟨-, hex⟩ | herr⟩ := mem_authReplyCallback.mp hmem
    · exact hex
    · have hend := (endedWith_iff h (List.mem_of_getElem? hr)).mpr hdata
      exact hrej i valkey r err rfl hr hend herr

/-- **No exempted user is deleted exactly in the runs** in which no rejection
is replied to of a user whom the pattern in force exempts. -/
theorem exempted_never_deleted (job : Job ι) (configs : Configs) (ldapSettings : VkLdapSettings)
    (tr : List (State ι × Act ι)) (s : State ι)
    (h : Run (State.step job) (State.init configs ldapSettings) tr s) :
    Steps NeverDeletesExempted tr ↔ Steps (RejectsNoExempted job) tr :=
  Steps.congr ((honest_steps h).imp fun _ _ hi => neverDeletesExempted_iff hi)

def exporterExempted : Configs :=
  { ldapServerList := "ldap://a", exemptedUsersRegexCache := some fun name => name == "exporter" }

/-- Bob is deleted while another user is exempted. -/
theorem exempted_never_deleted_bob : ∃ tr s,
    Run (State.step anyJob) (State.init exporterExempted {}) tr s ∧
    Steps NeverDeletesExempted tr ∧
    ∃ x ∈ tr, ∃ r reply, x.1.reply 0 (fun _ => true) = some (r, reply) ∧
      delUser "bob" ∈ reply.1 := by
  obtain ⟨tr, s, hrun, hmem, hsteps⟩ := exists_login anyJob exporterExempted {} bob bob .bind
    (.error (.ldapBindError wrongPassword)) _ (fun _ => true) rfl rfl
  refine ⟨tr, s, hrun, (exempted_never_deleted anyJob _ _ tr s hrun).mpr ?_, _, hmem, _, _, rfl, ?_⟩
  · rintro x hx i valkey r err ha hr - -
    rcases hsteps x hx with rfl | h | h | rfl
    · cases ha
    · cases h.symm.trans ha
    · cases h.symm.trans ha
    · cases ha
      obtain rfl := Option.some.inj hr
      rfl
  · exact mem_authReplyCallback.mpr ⟨by decide, _, rfl, Or.inr rejected_wrongPassword⟩

/-- The pattern that matches just Bob. -/
def onlyBob : String → Except String (String → Bool) := fun pattern =>
  if pattern = "^bob$" then .ok (· == "bob") else .error "not a pattern of this example"

def bobPattern : ValkeyString := ⟨[0x5E, 0x62, 0x6F, 0x62, 0x24]⟩

/-- Bob is exempted while the rejection of his password waits for its reply,
and deleted by it. -/
theorem exempted_in_flight_deleted :
    ¬ ∀ configs ldapSettings tr s,
      Run (State.step (ldapJob id : Job (List (Attempt Unit))))
        (State.init configs ldapSettings) tr s → Steps NeverDeletesExempted tr := by
  intro h
  have h0 : Run (State.step (ldapJob id : Job (List (Attempt Unit))))
    (State.init { ldapServerList := "ldap://a" } {}) [] _ := Run.refl
  have hrejected := ((h0.snoc (a := .auth bob bob) rfl).snoc (a := .start 0) rfl).snoc
    (a := .finish 0 [⟨.oneServer, refusing, ()⟩]) rfl
  have hexempted := hrejected.snoc
    (a := setExemptedUsersRegex onlyBob { ldapServerList := "ldap://a" } bobPattern) rfl
  have hrun := hexempted.snoc (a := .reply 0 fun _ => true) rfl
  have hdel := (steps_snoc.mp (h _ _ _ _ hrun)).2 0 _ _ _ "bob" rfl rfl
    (mem_authReplyCallback.mpr ⟨by decide, _, rfl, Or.inr rejected_wrongPassword⟩)
  revert hdel
  decide

/-! ### The pattern fixed -/

/-- A step that leaves the pattern as it is. -/
def KeepsPattern (regex : Option (String → Bool)) (_ : State ι) (a : Act ι) : Prop :=
  ∀ configs, a = .setConfigs configs → configs.exemptedUsersRegexCache = regex

/-- The pattern is this one, and exempts nobody who has a request. -/
def RequestsNotExempted (regex : Option (String → Bool)) (s : State ι) : Prop :=
  s.configs.exemptedUsersRegexCache = regex ∧
    ∀ r ∈ s.requests, s.configs.isUserExemptedFromLdap r.username.toString = false

/-- Who has a request was not exempted. -/
theorem not_exempted_of_blocking {ctx : Configs} {scheduler : Scheduler} {username : ValkeyString}
    (h : ldapAuthBlockingCallback ctx scheduler username ≠ .passed) :
    ctx.isUserExemptedFromLdap username.toString = false := by
  by_contra hex
  apply h
  unfold ldapAuthBlockingCallback
  by_cases henabled : ctx.isAuthEnabled = true
  · simp [henabled, hex]
  · simp [henabled]

theorem requestsNotExempted_set {regex : Option (String → Bool)} {s : State ι}
    (h : RequestsNotExempted regex s) {i : ℕ} {r : Request ι} (hr : s.requests[i]? = some r)
    (phase : Phase ι) : RequestsNotExempted regex (s.setPhase i r phase) := by
  have hold := h.2 r (List.mem_of_getElem? hr)
  exact ⟨h.1, State.forall_setPhase h.2 hold⟩

theorem requestsNotExempted_append {regex : Option (String → Bool)} {s : State ι}
    (h : RequestsNotExempted regex s) {r : Request ι}
    (hr : s.configs.isUserExemptedFromLdap r.username.toString = false) :
    RequestsNotExempted regex { s with requests := s.requests ++ [r] } :=
  ⟨h.1, State.forall_append h.2 hr⟩

theorem requestsNotExempted_step {job : Job ι} {regex : Option (String → Bool)} {s s' : State ι}
    {a : Act ι} (h : RequestsNotExempted regex s) (hk : KeepsPattern regex s a)
    (hs : s.step job a = some s') : RequestsNotExempted regex s' := by
  cases State.step_move hs with
  | submitted hsubmit =>
    exact requestsNotExempted_append h (not_exempted_of_blocking (by rw [hsubmit]; rintro ⟨⟩))
  | failed hfail =>
    exact requestsNotExempted_append h (not_exempted_of_blocking (by rw [hfail]; rintro ⟨⟩))
  | start hr _ => exact requestsNotExempted_set h hr _
  | finish hr _ _ => exact requestsNotExempted_set h hr _
  | drop hr _ => exact requestsNotExempted_set h hr _
  | reply hreply => exact requestsNotExempted_set h (reply_eq hreply).1 _
  | @setConfigs configs =>
    have hregex := hk configs rfl
    refine ⟨hregex, fun r hr => ?_⟩
    have hold := h.2 r hr
    unfold Configs.isUserExemptedFromLdap at hold ⊢
    rw [hregex, ← h.1]
    exact hold
  | passed | setLdapSettings | setScheduler => exact h

/-- **While the pattern stays**, no exempted user is deleted. -/
theorem fixed_pattern {job : Job ι} {configs : Configs} {ldapSettings : VkLdapSettings}
    {tr : List (State ι × Act ι)} {s : State ι}
    (h : Run (State.step job) (State.init configs ldapSettings) tr s)
    (hk : Steps (KeepsPattern configs.exemptedUsersRegexCache) tr) :
    Steps NeverDeletesExempted tr := by
  refine h.forall_steps (I := RequestsNotExempted configs.exemptedUsersRegexCache) hk ?_ ?_ ?_
  · exact ⟨rfl, fun r hr => by cases hr⟩
  · exact fun _ _ _ hi hk hs => requestsNotExempted_step hi hk hs
  · rintro t a u hi - - i valkey r reply name rfl hreply hmem
    obtain ⟨hr, privData, -, rfl⟩ := reply_eq hreply
    obtain ⟨rfl, -⟩ := mem_authReplyCallback.mp hmem
    exact hi.2 r (List.mem_of_getElem? hr)

end Auth
end ValkeyLdap
