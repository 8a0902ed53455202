/-
# The cached password

With the fallback enabled, `apply_ldap_user_acl` ends its rules with
`resetpass` and the password of the login, so whatever the default rules and
the tokens of the directory say of passwords, a user that the module has set
has exactly this one. Failing rules change nothing, and a rejection deletes the
user. So in every run in which only the module touches the users that are not
exempted, such a user is opened locally by the password last applied, if at all.

Key theorem: `cached_password_is_last`.
-/
import ValkeyLdap.Exemption
import ValkeyLdap.Names

namespace ValkeyLdap
namespace Auth

open Runs
open Acl (Table Store User)

variable {ι ρ σ η : Type} [DecidableEq σ] [DecidableEq η]

/-! ### The password last applied -/

/-- The user and the password of a reply that has set the user by its rules. -/
def appliedBy (V : Store ρ σ η) (ctx : Configs) (t : Table ρ σ η) (username password : ValkeyString)
    (privData : Option (Result (List String))) : Option (List UInt8 × ValkeyString) :=
  match privData with
  | some (.ok _) =>
    (changed V ctx t username password privData).map fun _ => (username.aclName, password)
  | _ => none

/-- Those of a step, if it is such a reply. -/
def applied (V : Store ρ σ η) (w : World ι ρ σ η) :
    World.Act ι ρ σ η → Option (List UInt8 × ValkeyString)
  | .auth (.reply i _) => w.auth.requests[i]?.bind fun r => r.privData.bind fun privData =>
      appliedBy V w.auth.configs w.users r.username r.password privData
  | _ => none

/-- The password last applied to each user, after one more. -/
def noteApplied (last : List UInt8 → Option ValkeyString) :
    Option (List UInt8 × ValkeyString) → List UInt8 → Option ValkeyString
  | some (name, password) => Function.update last name (some password)
  | none => last

/-- The password that a run has applied last to each user. -/
def lastApplied (V : Store ρ σ η) (tr : List (World ι ρ σ η × World.Act ι ρ σ η)) :
    List UInt8 → Option ValkeyString :=
  tr.foldl (fun last x => noteApplied last (applied V x.1 x.2)) fun _ => none

/-! ### The runs -/

/-- The pattern exempts the user of this name. -/
def exempts (regex : Option (String → Bool)) (name : List UInt8) : Bool :=
  match regex with
  | some regex => regex (ValkeyString.mk name).toString
  | none => false

/-- The fallback stays enabled and the pattern as it is, usernames and
passwords are text, and other clients change exempted users only. -/
def OnlyModule (regex : Option (String → Bool)) (_ : World ι ρ σ η) : World.Act ι ρ σ η → Prop
  | .auth (.auth username password) => Utf8.Valid username.bytes ∧ Utf8.Valid password.bytes
  | .auth (.setConfigs configs) =>
    configs.isAclFallbackEnabled = true ∧ configs.exemptedUsersRegexCache = regex
  | .auth _ => True
  | .admin name _ => exempts regex name = true

/-- What such runs keep of the machine: the fallback is enabled, the pattern
exempts nobody who has a request, and requests are of text. -/
structure Standing (regex : Option (String → Bool)) (s : State ι) : Prop where
  fallback : s.configs.isAclFallbackEnabled = true
  requests : RequestsNotExempted regex s
  text : ∀ r ∈ s.requests, Utf8.Valid r.username.bytes ∧ Utf8.Valid r.password.bytes

theorem standing_step {V : Store ρ σ η} {job : Job ι} {regex : Option (String → Bool)}
    {w w' : World ι ρ σ η} {a : World.Act ι ρ σ η} (hs : Standing regex w.auth)
    (hok : OnlyModule regex w a) (h : w.step V job a = some w') : Standing regex w'.auth := by
  cases a with
  | admin name user =>
    obtain rfl := Option.some.inj h
    exact hs
  | auth a =>
    obtain ⟨s, hstep, rfl⟩ := Option.map_eq_some_iff.mp h
    have hkeeps : KeepsPattern regex w.auth a := by
      rintro configs rfl
      exact hok.2
    have hset : ∀ {i : ℕ} {r : Request ι} {phase : Phase ι}, w.auth.requests[i]? = some r →
        ∀ r' ∈ (w.auth.setPhase i r phase).requests,
          Utf8.Valid r'.username.bytes ∧ Utf8.Valid r'.password.bytes := by
      intro i r phase hr
      have hold := hs.text r (List.mem_of_getElem? hr)
      exact State.forall_setPhase (r := r) hs.text hold
    have hrequests := requestsNotExempted_step hs.requests hkeeps hstep
    cases State.step_move hstep with
    | passed | setLdapSettings | setScheduler => exact ⟨hs.fallback, hrequests, hs.text⟩
    | submitted | failed =>
      exact ⟨hs.fallback, hrequests, State.forall_append (r := ⟨_, _, _, _⟩) hs.text hok⟩
    | start hr => exact ⟨hs.fallback, hrequests, hset hr⟩
    | finish hr => exact ⟨hs.fallback, hrequests, hset hr⟩
    | drop hr => exact ⟨hs.fallback, hrequests, hset hr⟩
    | reply hreply => exact ⟨hs.fallback, hrequests, hset (reply_eq hreply).1⟩
    | setConfigs => exact ⟨hok.1, hrequests, hs.text⟩

/-! ### The users -/

/-- A user that is not exempted is not there, or has just the password that was
applied last. -/
def CachesLast (V : Store ρ σ η) (regex : Option (String → Bool))
    (last : List UInt8 → Option ValkeyString) (t : Table ρ σ η) : Prop :=
  ∀ name, exempts regex name = false → t name = none ∨
    ∃ user password, t name = some user ∧ last name = some password ∧ user.nopass = false ∧
      user.passwords = {V.hash password.bytes}

theorem appliedBy_none {V : Store ρ σ η} {ctx : Configs} {t : Table ρ σ η}
    {username password : ValkeyString} {privData : Option (Result (List String))}
    (h : changed V ctx t username password privData = none) :
    appliedBy V ctx t username password privData = none := by
  unfold appliedBy
  cases privData with
  | none => rfl
  | some res =>
    cases res with
    | ok ldapTokens => rw [h]; rfl
    | error err => rfl

/-- What a reply that changes its user does, with the fallback enabled: it
deletes, or it leaves one password. -/
theorem changed_cases {V : Store ρ σ η} (hselector : ∀ g, "resetpass" ∈ g → V.selector g = none)
    {ctx : Configs} (hfall : ctx.isAclFallbackEnabled = true) {t t' : Table ρ σ η}
    {username password : ValkeyString} {privData : Option (Result (List String))}
    (h : changed V ctx t username password privData = some t') :
    (∃ err, privData = some (.error err) ∧ t' = Function.update t username.aclName none) ∨
      ∃ ldapTokens user, privData = some (.ok ldapTokens) ∧
        Acl.setUser V.toRules (t.userOrNew V username.aclName) (aclRules ctx password ldapTokens) =
          some user ∧ t' = Function.update t username.aclName (some user) ∧ user.nopass = false ∧
        user.passwords = {V.hash (Acl.bytes password.toString)} := by
  cases privData with
  | none => cases h
  | some res =>
    cases res with
    | error err =>
      refine Or.inl ⟨err, rfl, ?_⟩
      simp only [changed] at h
      split at h
      · exact Store.delUser_eq_some h
      · cases h
    | ok ldapTokens =>
      obtain ⟨user, huser, ht'⟩ := Store.setUser_eq_some h
      have hrules := huser
      unfold aclRules at hrules
      rw [if_pos hfall] at hrules
      obtain ⟨hnopass, hpasswords⟩ := Acl.setUser_password V.toRules hselector hrules
      exact Or.inr ⟨ldapTokens, user, rfl, huser, ht', hnopass, hpasswords⟩

/-- Which of the two has applied the password. -/
theorem changed_caches {V : Store ρ σ η} (hselector : ∀ g, "resetpass" ∈ g → V.selector g = none)
    {ctx : Configs} (hfall : ctx.isAclFallbackEnabled = true) {t t' : Table ρ σ η}
    {username password : ValkeyString} (hpassword : Utf8.Valid password.bytes)
    {privData : Option (Result (List String))}
    (h : changed V ctx t username password privData = some t') :
    (t' = Function.update t username.aclName none ∧
        appliedBy V ctx t username password privData = none) ∨
      ∃ user, t' = Function.update t username.aclName (some user) ∧
        appliedBy V ctx t username password privData = some (username.aclName, password) ∧
        user.nopass = false ∧ user.passwords = {V.hash password.bytes} := by
  rcases changed_cases hselector hfall h with
    ⟨err, rfl, rfl⟩ | ⟨ldapTokens, user, rfl, -, rfl, hnopass, hpasswords⟩
  · exact Or.inl ⟨rfl, rfl⟩
  · have happlied : appliedBy V ctx t username password (some (.ok ldapTokens)) =
        some (username.aclName, password) := by
      unfold appliedBy
      simp only [h, Option.map_some]
    have hbytes : Acl.bytes password.toString = password.bytes :=
      ValkeyString.aclName_eq_bytes.mpr hpassword
    rw [hbytes] at hpasswords
    exact Or.inr ⟨user, rfl, happlied, hnopass, hpasswords⟩

theorem noteApplied_of_ne {V : Store ρ σ η} {ctx : Configs} {t : Table ρ σ η}
    {username password : ValkeyString} {privData : Option (Result (List String))}
    {name : List UInt8} (h : name ≠ username.aclName) (last : List UInt8 → Option ValkeyString) :
    noteApplied last (appliedBy V ctx t username password privData) name = last name := by
  unfold appliedBy
  split
  · cases changed V ctx t username password _ with
    | none => rfl
    | some t' => exact Function.update_of_ne h _ _
  · rfl

theorem lastApplied_snoc (V : Store ρ σ η) (tr : List (World ι ρ σ η × World.Act ι ρ σ η))
    (w : World ι ρ σ η) (a : World.Act ι ρ σ η) :
    lastApplied V (tr ++ [(w, a)]) = noteApplied (lastApplied V tr) (applied V w a) := by
  rw [lastApplied, List.foldl_append]
  rfl

theorem applied_reply {V : Store ρ σ η} {w : World ι ρ σ η} {i : ℕ} {valkey : Valkey}
    {r : Request ι} {privData : Option (Result (List String))} (hr : w.auth.requests[i]? = some r)
    (hdata : r.privData = some privData) : applied V w (.auth (.reply i valkey)) =
      appliedBy V w.auth.configs w.users r.username r.password privData := by
  simp only [applied, hr, hdata, Option.bind_some]

theorem cachesLast_step {V : Store ρ σ η} (hselector : ∀ g, "resetpass" ∈ g → V.selector g = none)
    {job : Job ι} {regex : Option (String → Bool)} {last : List UInt8 → Option ValkeyString}
    {w w' : World ι ρ σ η} {a : World.Act ι ρ σ η} (hc : CachesLast V regex last w.users)
    (hs : Standing regex w.auth) (hok : OnlyModule regex w a) (h : w.step V job a = some w') :
    CachesLast V regex (noteApplied last (applied V w a)) w'.users := by
  cases World.step_move h with
  | @admin name user =>
    intro name' hname'
    have hne : name' ≠ name := by
      rintro rfl
      exact absurd hok (by simp [OnlyModule, hname'])
    have husers : Function.update w.users name user name' = w.users name' :=
      Function.update_of_ne hne _ _
    have hkept := hc name' hname'
    rw [← husers] at hkept
    exact hkept
  | @other a s hstep hreply =>
    have hnone : applied V w (.auth a) = none := by
      cases a with
      | reply i valkey => exact absurd rfl (hreply i valkey)
      | _ => rfl
    rw [hnone]
    exact hc
  | @reply i valkey r privData hr hdata =>
    have hpassword := (hs.text r (List.mem_of_getElem? hr)).2
    rw [applied_reply hr hdata]
    cases hchanged : changed V w.auth.configs w.users r.username r.password privData with
    | none =>
      rw [appliedBy_none hchanged]
      exact hc
    | some t' =>
      intro name hname
      by_cases hn : name = r.username.aclName
      · subst hn
        rcases changed_caches hselector hs.fallback hpassword hchanged with
          ⟨rfl, -⟩ | ⟨user, rfl, happlied, hnopass, hpasswords⟩
        · exact Or.inl (Function.update_self ..)
        · rw [happlied]
          exact Or.inr ⟨user, r.password, Function.update_self .., Function.update_self .., hnopass,
            hpasswords⟩
      · have hsame : t' name = w.users name := by
          obtain ⟨user, rfl⟩ := changed_eq_some hchanged
          exact Function.update_of_ne hn _ _
        have hkept := hc name hname
        rw [← hsame] at hkept
        rw [noteApplied_of_ne hn]
        exact hkept

/-! ### Runs -/

/-- What a reply does: rules that are refused change nothing, and a rejection
or a user not found leaves no user, unless the user cannot be deleted. -/
def RepliesAsSaid (V : Store ρ σ η) (w : World ι ρ σ η) (a : World.Act ι ρ σ η) : Prop :=
  ∀ i valkey r, a = .auth (.reply i valkey) → w.auth.requests[i]? = some r →
    (∀ ldapTokens, r.privData = some (some (.ok ldapTokens)) →
      V.setUser w.users r.username.aclName
        (aclRules w.auth.configs r.password ldapTokens) = none →
      w.usersAfter V (.reply i valkey) = w.users) ∧
    ∀ err, r.privData = some (some (.error err)) → err.isUserNotFound = true ∨ Rejected err →
      w.usersAfter V (.reply i valkey) r.username.bytes = none ∨
        V.deletable r.username.bytes = false

theorem repliesAsSaid {V : Store ρ σ η} {regex : Option (String → Bool)} {w : World ι ρ σ η}
    (hs : Standing regex w.auth) (a : World.Act ι ρ σ η) : RepliesAsSaid V w a := by
  rintro i valkey r rfl hr
  constructor
  · intro ldapTokens hdata hset
    rw [World.usersAfter_reply hr hdata]
    simp only [changed, hset, Option.getD_none]
  · intro err hdata herr
    have hmem := List.mem_of_getElem? hr
    have hname : r.username.aclName = r.username.bytes :=
      ValkeyString.aclName_eq_bytes.mpr (hs.text r hmem).1
    have hdeletes : deletes w.auth.configs r.username err = true := by
      unfold deletes
      rcases herr with hfound | ⟨hfound, hav⟩
      · rw [if_pos hfound, hs.requests.2 r hmem]
        rfl
      · simp [hfound, hav]
    by_cases hdel : V.deletable r.username.bytes = true
    · left
      rw [World.usersAfter_reply hr hdata]
      simp only [changed, hdeletes, if_true, Store.delUser, hname, hdel, Option.getD_some,
        Function.update_self]
    · right
      simpa using hdel

/-- **The cached password is the last one applied.** In every run with the
fallback enabled and the pattern fixed, in which only the module changes users
that are not exempted, such a user has the password last applied and no other,
and opens to that password only. A selector cannot hold `resetpass`. -/
theorem cached_password_is_last (V : Store ρ σ η)
    (hselector : ∀ g, "resetpass" ∈ g → V.selector g = none) (job : Job ι) (configs : Configs)
    (ldapSettings : VkLdapSettings) (users : Table ρ σ η)
    (hfall : configs.isAclFallbackEnabled = true)
    (hnone : ∀ name, exempts configs.exemptedUsersRegexCache name = false → users name = none)
    (tr : List (World ι ρ σ η × World.Act ι ρ σ η)) (w : World ι ρ σ η)
    (h : Run (World.step V job) (World.init configs ldapSettings users) tr w)
    (hok : Steps (OnlyModule configs.exemptedUsersRegexCache) tr) :
    CachesLast V configs.exemptedUsersRegexCache (lastApplied V tr) w.users ∧
      (∀ name user password, exempts configs.exemptedUsersRegexCache name = false →
        w.users name = some user → Acl.accepts V.toRules user password = true →
          ∃ cached, lastApplied V tr name = some cached ∧
            V.hash password = V.hash cached.bytes) ∧
      Steps (RepliesAsSaid V) tr := by
  have hstanding0 : Standing configs.exemptedUsersRegexCache
      (World.init configs ldapSettings users : World ι ρ σ η).auth :=
    ⟨hfall, ⟨rfl, by rintro r ⟨⟩⟩, by rintro r ⟨⟩⟩
  obtain ⟨-, hcaches⟩ : Standing configs.exemptedUsersRegexCache w.auth ∧
      CachesLast V configs.exemptedUsersRegexCache (lastApplied V tr) w.users := by
    refine h.history hok (I := fun tr w => Standing configs.exemptedUsersRegexCache w.auth ∧
      CachesLast V configs.exemptedUsersRegexCache (lastApplied V tr) w.users)
      ⟨hstanding0, fun name hname => Or.inl (hnone name hname)⟩ ?_
    rintro tr w a w' ⟨hs, hc⟩ hok hstep
    rw [lastApplied_snoc]
    exact ⟨standing_step hs hok hstep, cachesLast_step hselector hc hs hok hstep⟩
  refine ⟨hcaches, ?_, ?_⟩
  · intro name user password hname huser haccepts
    rcases hcaches name hname with h | ⟨user', cached, h, hlast, hnopass, hpasswords⟩
    · rw [h] at huser
      cases huser
    · obtain rfl : user' = user := Option.some.inj (h.symm.trans huser)
      unfold Acl.accepts at haccepts
      rw [hnopass, hpasswords] at haccepts
      exact ⟨cached, hlast, by simpa using (Bool.and_eq_true_iff.mp haccepts).2⟩
  · exact h.forall_steps (I := fun w => Standing _ w.auth) hok hstanding0
      (fun _ _ _ hs hok h => standing_step hs hok h) fun _ a _ hs _ _ => repliesAsSaid hs a

/-! ### A run -/

theorem foldlM_eq_none {α β : Type} {f : β → α → Option β} {a : α} (hf : ∀ b, f b a = none) :
    ∀ {l : List α}, a ∈ l → ∀ b, l.foldlM f b = none := by
  intro l
  induction l with
  | nil => exact fun h => by cases h
  | cons c l ih =>
    intro h b
    rw [List.foldlM_cons]
    rcases List.mem_cons.mp h with rfl | h
    · rw [hf b]
      rfl
    · cases f b c with
      | none => rfl
      | some b' => exact ih h b'

/-- A selector holds no `resetpass`. -/
theorem plainStore_selector (g : List String) (h : "resetpass" ∈ g) :
    plainStore.selector g = none := by
  have hmem : "resetpass" ∈ ungroup g := List.mem_map.mpr ⟨_, h, by decide⟩
  exact foldlM_eq_none (f := fun r a => plainRoot a r) (fun _ => rfl) hmem {}

def fallbackEnabled : Configs := { ldapServerList := "ldap://a", ldapAclFallbackEnabled := true }

/-- Bob logs in, with tokens that speak of passwords. -/
def bobCached : List (World.Act (Result (List String)) Granted Granted (List UInt8)) :=
  [.auth (.auth bob bob), .auth (.start 0), .auth (.finish 0 (.ok [">other", "nopass"])),
    .auth (.reply 0 fun _ => true)]

theorem onlyModule_bobCached : ∀ a ∈ bobCached, ∀ w : World (Result (List String)) Granted Granted
    (List UInt8), OnlyModule none w a := by
  intro a ha w
  simp only [bobCached, List.mem_cons, List.not_mem_nil, or_false] at ha
  rcases ha with rfl | rfl | rfl | rfl
  · exact ⟨⟨['b', 'o', 'b'], by decide⟩, ⟨['b', 'o', 'b'], by decide⟩⟩
  · trivial
  · trivial
  · trivial

/-- Only his own password opens Bob then. -/
theorem cached_password_is_last_bob : ∃ tr w user,
    Run (World.step plainStore anyJob) (World.init fallbackEnabled {} fun _ => none) tr w ∧
      w.users bob.bytes = some user ∧
      ∀ password, Acl.accepts plainStore.toRules user password = true → password = bob.bytes := by
  have hexec : ∃ w user, exec (World.step plainStore anyJob)
      (World.init fallbackEnabled {} fun _ => none) bobCached = some w ∧
        w.users bob.bytes = some user := ⟨_, _, rfl, rfl⟩
  obtain ⟨w, user, hw, huser⟩ := hexec
  have hrun := exec_run hw
  have hok : Steps (OnlyModule none) (trace (World.step plainStore anyJob)
      (World.init fallbackEnabled {} fun _ => none) bobCached) :=
    fun x hx => onlyModule_bobCached x.2 (mem_of_trace hx) x.1
  obtain ⟨-, haccepts, -⟩ := cached_password_is_last plainStore plainStore_selector anyJob
    fallbackEnabled {} (fun _ => none) rfl (fun _ _ => rfl) _ w hrun hok
  refine ⟨_, w, user, hrun, huser, fun password hpassword => ?_⟩
  obtain ⟨cached, hlast, hsame⟩ := haccepts bob.bytes user password rfl huser hpassword
  have hbob : lastApplied plainStore (trace (World.step plainStore anyJob)
      (World.init fallbackEnabled {} fun _ => none) bobCached) bob.bytes = some bob := rfl
  obtain rfl := Option.some.inj (hlast.symm.trans hbob)
  exact hsame

end Auth
end ValkeyLdap
