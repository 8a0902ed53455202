/-
# The request that was answered last

Logins of one user may be in flight together. Each is a task of its own, and
its reply runs when the task has ended, so replies come in any order, and each
sets or deletes the whole user, up to the selectors, and whether the user is on,
that its rules leave as they are. What stays is what the reply that ran last
says, which is what the directory answered last only if the replies came in
that order, or said the same. A reply whose command is refused, or that makes
none, says nothing of the user.

Key theorem: `latest_answer_stands`.
-/
import ValkeyLdap.CachedPassword

namespace ValkeyLdap
namespace Auth

open Runs
open Acl (Table Store User)

variable {ι ρ σ η : Type} [DecidableEq σ] [DecidableEq η]

/-! ### What replies say -/

/-- What a reply makes of its user: one that has these rules and this password,
or none. -/
inductive Verdict
  | login (rules : List String) (password : ValkeyString)
  | removed

def verdict (ctx : Configs) (password : ValkeyString) :
    Option (Result (List String)) → Verdict
  | some (.ok ldapTokens) => .login (aclRules ctx password ldapTokens) password
  | _ => .removed

/-- The entry that a verdict determines: what its rules make where there was
none, with its password, or none. -/
def Verdict.entry (V : Store ρ σ η) : Verdict → Option (User ρ σ η)
  | .login rules password =>
    ((Acl.scan [] rules).1.foldlM (Acl.rootGroup V.toRules) V.reset).map fun root =>
      { enabled := (Acl.scan [] rules).1.foldl Acl.onAfter false
        nopass := false
        passwords := {V.hash (Acl.bytes password.toString)}
        root := root
        selectors := selectorsOf V rules }
  | .removed => none

/-- A reply that has changed its user, and the user that it found. -/
structure Effect (ρ σ η : Type) where
  request : ℕ
  verdict : Verdict
  before : User ρ σ η

/-- Nothing that the reply found is left: its rules clear the selectors, or there
were none but those they add, and they turn the user on or off, or it was off, as
a new one is. -/
def Effect.Afresh (V : Store ρ σ η) (e : Effect ρ σ η) : Prop :=
  match e.verdict with
  | .login rules _ =>
    (clearsSelectors rules = true ∨ e.before.selectors ⊆ selectorsOf V rules) ∧
      ((Acl.scan [] rules).1.any Acl.turns = true ∨ e.before.enabled = false)
  | .removed => True

/-- The step is a reply that changes the user of this name. -/
def effectOn (V : Store ρ σ η) (name : List UInt8) (w : World ι ρ σ η) :
    World.Act ι ρ σ η → Option (Effect ρ σ η)
  | .auth (.reply i _) => w.auth.requests[i]?.bind fun r => r.privData.bind fun privData =>
      if r.username.aclName = name then
        (changed V w.auth.configs w.users r.username r.password privData).map fun _ =>
          ⟨i, verdict w.auth.configs r.password privData, w.users.userOrNew V name⟩
      else none
  | _ => none

/-- The replies of a run that have changed the user, in the order they ran. -/
def history (V : Store ρ σ η) (name : List UInt8)
    (tr : List (World ι ρ σ η × World.Act ι ρ σ η)) : List (Effect ρ σ η) :=
  tr.filterMap fun x => effectOn V name x.1 x.2

/-- The request whose operation ends in this step. -/
def answeredBy : World.Act ι ρ σ η → Option ℕ
  | .auth (.finish i _) => some i
  | _ => none

/-- The requests of a run, in the order the directory answered them. -/
def answered (tr : List (World ι ρ σ η × World.Act ι ρ σ η)) : List ℕ :=
  tr.filterMap fun x => answeredBy x.2

/-- Of the requests whose replies have changed the user, this one was answered
last. -/
def AnsweredLast (V : Store ρ σ η) (name : List UInt8)
    (tr : List (World ι ρ σ η × World.Act ι ρ σ η)) (e : Effect ρ σ η) : Prop :=
  e ∈ history V name tr ∧
    ∀ e' ∈ history V name tr, (answered tr).idxOf e'.request ≤ (answered tr).idxOf e.request

/-! ### The claim and the condition -/

/-- All replies to requests of this user have run. -/
def Settled (w : World ι ρ σ η) (name : List UInt8) : Prop :=
  ∀ r ∈ w.auth.requests, r.username.aclName = name → r.phase = .replied

/-- Once all replies have run, the user is the one that the request answered last
determines. -/
def LatestStands (V : Store ρ σ η) (name : List UInt8)
    (tr : List (World ι ρ σ η × World.Act ι ρ σ η)) (w : World ι ρ σ η) : Prop :=
  Settled w name → ∀ e, AnsweredLast V name tr e → w.users name = e.verdict.entry V

/-- Once all replies have run, the one that changed the user last was to the
request answered last, or said the same of the user, and nothing that it found is
left. -/
def LastAgrees (V : Store ρ σ η) (name : List UInt8)
    (tr : List (World ι ρ σ η × World.Act ι ρ σ η)) (w : World ι ρ σ η) : Prop :=
  Settled w name → ∀ e, AnsweredLast V name tr e →
    ∃ last, (history V name tr).getLast? = some last ∧ last.verdict = e.verdict ∧ last.Afresh V

/-- The replies that changed the user ran in the order of the answers. -/
def RepliedInOrder (V : Store ρ σ η) (name : List UInt8)
    (tr : List (World ι ρ σ η × World.Act ι ρ σ η)) : Prop :=
  (history V name tr).Pairwise fun e e' =>
    (answered tr).idxOf e.request < (answered tr).idxOf e'.request

/-- The order of the answers will do, if the last reply leaves nothing. -/
theorem RepliedInOrder.lastAgrees {V : Store ρ σ η} {name : List UInt8}
    {tr : List (World ι ρ σ η × World.Act ι ρ σ η)} (h : RepliedInOrder V name tr)
    (hafresh : ∀ last, (history V name tr).getLast? = some last → last.Afresh V)
    (w : World ι ρ σ η) : LastAgrees V name tr w := by
  rintro - e ⟨he, hmax⟩
  rcases List.eq_nil_or_concat (history V name tr) with hnil | ⟨before, last, hlast⟩
  · rw [hnil] at he
    cases he
  · rw [List.concat_eq_append] at hlast
    rw [RepliedInOrder, hlast] at h
    rw [hlast] at he hmax hafresh ⊢
    refine ⟨last, List.getLast?_concat .., ?_, hafresh last (List.getLast?_concat ..)⟩
    rcases List.mem_append.mp he with he | he
    · -- it was answered before the last one
      have hlt := (List.pairwise_append.mp h).2.2 e he last (List.mem_singleton_self last)
      have hle := hmax last (by simp)
      omega
    · rw [List.mem_singleton.mp he]

/-! ### Runs -/

/-- The fallback stays enabled, and other clients leave this user alone. -/
def Undisturbed (name : List UInt8) (_ : World ι ρ σ η) : World.Act ι ρ σ η → Prop
  | .auth (.setConfigs configs) => configs.isAclFallbackEnabled = true
  | .auth _ => True
  | .admin name' _ => name' ≠ name

theorem fallback_step {V : Store ρ σ η} {job : Job ι} {name : List UInt8}
    {w w' : World ι ρ σ η} {a : World.Act ι ρ σ η} (hfall : w.auth.configs.isAclFallbackEnabled = true)
    (hok : Undisturbed name w a) (h : w.step V job a = some w') :
    w'.auth.configs.isAclFallbackEnabled = true := by
  cases a with
  | admin name' user =>
    obtain rfl := Option.some.inj h
    exact hfall
  | auth a =>
    obtain ⟨s, hstep, rfl⟩ := Option.map_eq_some_iff.mp h
    cases State.step_move hstep with
    | setConfigs => exact hok
    | _ => exact hfall

/-- What a login leaves of an entry that it takes afresh. -/
theorem entry_of_setUser {V : Store ρ σ η} (hclear : ∃ c, ∀ r, clearRoot V r = some c)
    {ctx : Configs} {password : ValkeyString} {ldapTokens : List String} {i : ℕ}
    {before user : User ρ σ η}
    (huser : Acl.setUser V.toRules before (aclRules ctx password ldapTokens) = some user)
    (hnopass : user.nopass = false)
    (hpasswords : user.passwords = {V.hash (Acl.bytes password.toString)})
    (hafresh : Effect.Afresh V ⟨i, .login (aclRules ctx password ldapTokens) password, before⟩) :
    Verdict.entry V (.login (aclRules ctx password ldapTokens) password) = some user := by
  obtain ⟨gs, hgs, hroot, -⟩ := Acl.setUser_spec V.toRules huser
  have henabled := Acl.setUser_enabled V.toRules huser
  rw [← (Acl.groups_eq_some hgs).1] at hroot
  rw [foldlM_rootGroup_aclRules hclear ctx password ldapTokens _ V.reset] at hroot
  obtain ⟨hselectors, hturns⟩ := hafresh
  have hselectors : user.selectors = selectorsOf V (aclRules ctx password ldapTokens) := by
    rw [selectors_of_setUser huser]
    rcases hselectors with hclears | hsub
    · rw [if_pos hclears]
      exact Finset.empty_union _
    · refine Finset.union_eq_right.mpr ?_
      split
      · exact Finset.empty_subset _
      · exact hsub
  have henabled : user.enabled =
      (Acl.scan [] (aclRules ctx password ldapTokens)).1.foldl Acl.onAfter false := by
    rcases hturns with hturns | hoff
    · exact henabled.trans (Acl.foldl_onAfter hturns _ _)
    · rw [henabled, show before.enabled = false from hoff]
  simp only [Verdict.entry, hroot, Option.map_some]
  rw [← hselectors, ← henabled, ← hpasswords, ← hnopass]

theorem entry_of_changed {V : Store ρ σ η} (hclear : ∃ c, ∀ r, clearRoot V r = some c)
    (hselector : ∀ g, "resetpass" ∈ g → V.selector g = none)
    {ctx : Configs} (hfall : ctx.isAclFallbackEnabled = true) {t t' : Table ρ σ η}
    {username password : ValkeyString} {privData : Option (Result (List String))} {i : ℕ}
    (h : changed V ctx t username password privData = some t')
    (hafresh : Effect.Afresh V
      ⟨i, verdict ctx password privData, t.userOrNew V username.aclName⟩) :
    t' username.aclName = (verdict ctx password privData).entry V := by
  rcases changed_cases hselector hfall h with
    ⟨err, rfl, rfl⟩ | ⟨ldapTokens, user, rfl, huser, rfl, hnopass, hpasswords⟩
  · exact Function.update_self ..
  · rw [Function.update_self]
    exact (entry_of_setUser hclear huser hnopass hpasswords hafresh).symm

/-- A step that changes the user leaves it as it says, if it takes it afresh, and
every other step leaves it as it is. -/
theorem effect_step {V : Store ρ σ η} (hclear : ∃ c, ∀ r, clearRoot V r = some c)
    (hselector : ∀ g, "resetpass" ∈ g → V.selector g = none)
    {job : Job ι} {name : List UInt8} {w w' : World ι ρ σ η} {a : World.Act ι ρ σ η}
    (hfall : w.auth.configs.isAclFallbackEnabled = true) (hok : Undisturbed name w a)
    (h : w.step V job a = some w') :
    (effectOn V name w a = none → w'.users name = w.users name) ∧
      ∀ e, effectOn V name w a = some e → e.Afresh V → w'.users name = e.verdict.entry V := by
  cases World.step_move h with
  | admin => exact ⟨fun _ => Function.update_of_ne (Ne.symm hok) _ _, by rintro e ⟨⟩⟩
  | @other a s hstep hreply =>
    have hnone : effectOn V name w (.auth a) = none := by
      cases a with
      | reply i valkey => exact absurd rfl (hreply i valkey)
      | _ => rfl
    rw [hnone]
    exact ⟨fun _ => rfl, by rintro e ⟨⟩⟩
  | @reply i valkey r privData hr hdata =>
    have heffect : effectOn V name w (.auth (.reply i valkey)) =
        if r.username.aclName = name then
          (changed V w.auth.configs w.users r.username r.password privData).map fun _ =>
            ⟨i, verdict w.auth.configs r.password privData, w.users.userOrNew V name⟩
        else none := by
      simp only [effectOn, hr, hdata, Option.bind_some]
    rw [heffect]
    cases hchanged : changed V w.auth.configs w.users r.username r.password privData with
    | none => exact ⟨fun _ => rfl, by simp⟩
    | some t' =>
      by_cases hname : r.username.aclName = name
      · subst hname
        rw [if_pos rfl]
        refine ⟨by rintro ⟨⟩, ?_⟩
        rintro e ⟨⟩ hafresh
        exact entry_of_changed hclear hselector hfall hchanged hafresh
      · rw [if_neg hname]
        obtain ⟨user, rfl⟩ := changed_eq_some hchanged
        exact ⟨fun _ => Function.update_of_ne (Ne.symm hname) _ _, by rintro e ⟨⟩⟩

theorem history_snoc (V : Store ρ σ η) (name : List UInt8)
    (tr : List (World ι ρ σ η × World.Act ι ρ σ η)) (w : World ι ρ σ η) (a : World.Act ι ρ σ η) :
    history V name (tr ++ [(w, a)]) = history V name tr ++ (effectOn V name w a).toList := by
  rw [history, List.filterMap_append]
  rfl

/-- The user is as the reply that has changed it last says, if that took it
afresh. -/
theorem last_stands {V : Store ρ σ η} (hclear : ∃ c, ∀ r, clearRoot V r = some c)
    (hselector : ∀ g, "resetpass" ∈ g → V.selector g = none)
    {job : Job ι} {name : List UInt8} {w₀ w : World ι ρ σ η}
    {tr : List (World ι ρ σ η × World.Act ι ρ σ η)} (h : Run (World.step V job) w₀ tr w)
    (hfall : w₀.auth.configs.isAclFallbackEnabled = true) (hok : Steps (Undisturbed name) tr) :
    ∀ e, (history V name tr).getLast? = some e → e.Afresh V →
      w.users name = e.verdict.entry V := by
  induction h with
  | refl => rintro e ⟨⟩
  | @snoc tr w w' a hrun hstep ih =>
    obtain ⟨hok, hoka⟩ := steps_snoc.mp hok
    have hfall := hrun.invariant (I := fun w => w.auth.configs.isAclFallbackEnabled = true) hok hfall
      fun _ _ _ hfall hok h => fallback_step hfall hok h
    obtain ⟨hsame, hstands⟩ := effect_step hclear hselector hfall hoka hstep
    intro e he hafresh
    rw [history_snoc] at he
    cases heffect : effectOn V name w a with
    | none =>
      rw [heffect, Option.toList_none, List.append_nil] at he
      rw [hsame heffect]
      exact ih hok e he hafresh
    | some e' =>
      rw [heffect, Option.toList_some, List.getLast?_concat] at he
      obtain rfl := Option.some.inj he
      exact hstands e' heffect hafresh

/-- **What the directory answered last stands**, in every state that a run
reaches, if the reply that changed the user last was to that request, or said
the same, and nothing that it found is left. The rules that come first clear the
root permissions, and a selector cannot hold `resetpass`. -/
theorem latest_answer_stands (V : Store ρ σ η) (hclear : ∃ c, ∀ r, clearRoot V r = some c)
    (hselector : ∀ g, "resetpass" ∈ g → V.selector g = none) (job : Job ι) (configs : Configs)
    (ldapSettings : VkLdapSettings) (users : Table ρ σ η)
    (hfall : configs.isAclFallbackEnabled = true) (name : List UInt8)
    (tr : List (World ι ρ σ η × World.Act ι ρ σ η)) (w : World ι ρ σ η)
    (h : Run (World.step V job) (World.init configs ldapSettings users) tr w)
    (hok : Steps (Undisturbed name) tr) (hlast : LastAgrees V name tr w) :
    LatestStands V name tr w := by
  intro hsettled e he
  obtain ⟨last, hhistory, hsame, hafresh⟩ := hlast hsettled e he
  rw [← hsame]
  exact last_stands hclear hselector h hfall hok last hhistory hafresh

/-- Two logins of Bob in flight together, which the directory answers one after
the other. -/
def bothAnswered (first second : Result (List String)) (password : ValkeyString) :
    List (World.Act (Result (List String)) Granted Granted (List UInt8)) :=
  [.auth (.auth bob bob), .auth (.auth bob password), .auth (.start 0), .auth (.start 1),
    .auth (.finish 0 first), .auth (.finish 1 second)]

theorem undisturbed_bothAnswered {first second : Result (List String)} {password : ValkeyString}
    {i j : ℕ} (w : World (Result (List String)) Granted Granted (List UInt8)) :
    ∀ a ∈ bothAnswered first second password ++
        [.auth (.reply i fun _ => true), .auth (.reply j fun _ => true)],
      Undisturbed bob.bytes w a := by
  intro a ha
  simp only [bothAnswered, List.cons_append, List.nil_append, List.mem_cons, List.not_mem_nil,
    or_false] at ha
  rcases ha with rfl | rfl | rfl | rfl | rfl | rfl | rfl | rfl
  all_goals trivial

theorem settled_bothAnswered {w : World (Result (List String)) Granted Granted (List UInt8)}
    {password : ValkeyString}
    (h : w.auth.requests = [⟨bob, bob, .bind, .replied⟩, ⟨bob, password, .bind, .replied⟩])
    (name : List UInt8) : Settled w name := by
  rintro r hr -
  rw [h] at hr
  simp only [List.mem_cons, List.not_mem_nil, or_false] at hr
  rcases hr with rfl | rfl
  · rfl
  · rfl

/-- The password that Bob has changed to meanwhile. -/
def newPassword : ValkeyString := ⟨[0x6E, 0x65, 0x77]⟩

/-- The replies come in the order of the answers, and the user is the one that
the second login makes, with the new password. -/
theorem latest_answer_stands_bob : ∃ tr w user,
    Run (World.step plainStore anyJob) (World.init fallbackEnabled {} fun _ => none) tr w ∧
      w.users bob.bytes = some user ∧ user.passwords = {newPassword.bytes} ∧
      user.selectors = ∅ ∧ user.root = { commands := {"get"} } := by
  have hexec : ∃ w, exec (World.step plainStore anyJob) (World.init fallbackEnabled {} fun _ => none)
      (bothAnswered (.ok ["+get"]) (.ok ["+get"]) newPassword ++
        [.auth (.reply 0 fun _ => true), .auth (.reply 1 fun _ => true)]) = some w ∧
      w.auth.requests = [⟨bob, bob, .bind, .replied⟩, ⟨bob, newPassword, .bind, .replied⟩] :=
    ⟨_, rfl, rfl⟩
  obtain ⟨w, hw, hrequests⟩ := hexec
  have hrun := exec_run hw
  generalize htr : trace (World.step plainStore anyJob) _ _ = tr at hrun
  have hhistory : ∃ before first, history plainStore bob.bytes tr =
      [⟨0, .login (aclRules fallbackEnabled bob ["+get"]) bob, before⟩,
        ⟨1, .login (aclRules fallbackEnabled newPassword ["+get"]) newPassword, first⟩] ∧
      first.selectors = ∅ := by
    rw [← htr]
    exact ⟨_, _, rfl, rfl⟩
  obtain ⟨before, first, hhistory, hselectors⟩ := hhistory
  have hanswered : answered tr = [0, 1] := by
    rw [← htr]
    rfl
  have horder : RepliedInOrder plainStore bob.bytes tr := by
    simp [RepliedInOrder, hhistory, hanswered]
  have hafresh : ∀ last, (history plainStore bob.bytes tr).getLast? = some last →
      last.Afresh plainStore := by
    intro last hlast
    rw [hhistory] at hlast
    obtain rfl := Option.some.inj hlast
    -- the default rules turn the user on
    refine ⟨.inr ?_, .inl (by decide)⟩
    exact hselectors.subset.trans (Finset.empty_subset _)
  have hok : Steps (Undisturbed bob.bytes) tr := by
    rw [← htr]
    exact fun x hx => undisturbed_bothAnswered x.1 x.2 (mem_of_trace hx)
  have hlatest : AnsweredLast plainStore bob.bytes tr
      ⟨1, .login (aclRules fallbackEnabled newPassword ["+get"]) newPassword, first⟩ := by
    simp [AnsweredLast, hhistory, hanswered]
  have huser := latest_answer_stands plainStore plainStore_clearRoot plainStore_selector
    anyJob fallbackEnabled {} (fun _ => none) rfl bob.bytes tr w hrun hok
    (horder.lastAgrees hafresh w) (settled_bothAnswered hrequests _) _ hlatest
  exact ⟨tr, w, _, hrun, huser, rfl, rfl, rfl⟩

/-- Bob logs in, is removed from the directory, and logs in again; the replies
come the other way round, and Bob is back. -/
theorem removed_user_back :
    ¬ ∀ tr w, Run (World.step plainStore anyJob) (World.init fallbackEnabled {} fun _ => none) tr w →
      Steps (Undisturbed bob.bytes) tr → LatestStands plainStore bob.bytes tr w := by
  intro h
  have hexec : ∃ w user, exec (World.step plainStore anyJob)
      (World.init fallbackEnabled {} fun _ => none)
      (bothAnswered (.ok ["+get"]) (.error (.noLdapEntryFound "(uid=bob)")) bob ++
        [.auth (.reply 1 fun _ => true), .auth (.reply 0 fun _ => true)]) = some w ∧
      w.auth.requests = [⟨bob, bob, .bind, .replied⟩, ⟨bob, bob, .bind, .replied⟩] ∧
      w.users bob.bytes = some user := ⟨_, _, rfl, rfl, rfl⟩
  obtain ⟨w, user, hw, hrequests, huser⟩ := hexec
  have hrun := exec_run hw
  generalize htr : trace (World.step plainStore anyJob) _ _ = tr at hrun
  have hhistory : ∃ before after, history plainStore bob.bytes tr =
      [⟨1, .removed, before⟩,
        ⟨0, .login (aclRules fallbackEnabled bob ["+get"]) bob, after⟩] := by
    rw [← htr]
    exact ⟨_, _, rfl⟩
  obtain ⟨before, after, hhistory⟩ := hhistory
  have hanswered : answered tr = [0, 1] := by
    rw [← htr]
    rfl
  have hok : Steps (Undisturbed bob.bytes) tr := by
    rw [← htr]
    exact fun x hx => undisturbed_bothAnswered x.1 x.2 (mem_of_trace hx)
  have hlatest : AnsweredLast plainStore bob.bytes tr ⟨1, .removed, before⟩ := by
    simp [AnsweredLast, hhistory, hanswered]
  have hnone := h tr w hrun hok (settled_bothAnswered hrequests _) _ hlatest
  have hnone : w.users bob.bytes = none := hnone
  rw [huser] at hnone
  cases hnone

end Auth
end ValkeyLdap
