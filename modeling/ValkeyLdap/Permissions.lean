/-
# Which permissions a login leaves

`apply_ldap_user_acl` puts `resetkeys resetchannels -@all` before the rules, to
reset all permissions first. That is the root permissions; selectors stay, and
go only by `clearselectors` or `reset`. So two logins with the same rules leave
the same permissions exactly if the rules clear the selectors, or the users had
the same selectors before (apart from those that the rules add).

Key theorem: `permissions_do_not_accumulate`.
-/
import ValkeyLdap.Accounts

namespace ValkeyLdap
namespace Auth

open Acl (Table Store User)

variable {ρ σ η : Type} [DecidableEq σ] [DecidableEq η]

/-- The permissions of a user: those of the root, and the selectors. -/
def permissions (t : Table ρ σ η) (name : List UInt8) : Option (ρ × Finset σ) :=
  (t name).map fun u => (u.root, u.selectors)

/-- The three rules that come first. -/
def clearRoot (V : Store ρ σ η) (r : ρ) : Option ρ :=
  ((V.root "resetkeys" r).bind (V.root "resetchannels")).bind (V.root "-@all")

/-- The rules hold `clearselectors` or `reset`, as an argument of its own. -/
def clearsSelectors (rules : List String) : Bool := (Acl.scan [] rules).1.any Acl.clears

/-- The selectors that the rules leave where there were none. -/
def selectorsOf (V : Store ρ σ η) (rules : List String) : Finset σ :=
  Acl.selectorsAfter V.toRules (Acl.scan [] rules).1 ∅

/-! ### The root permissions -/

/-- The rules that come first are arguments of their own. -/
theorem scan_reset (rules : List String) :
    Acl.scan [] (["resetkeys", "resetchannels", "-@all"] ++ rules) =
      (["resetkeys"] :: ["resetchannels"] :: ["-@all"] :: (Acl.scan [] rules).1,
        (Acl.scan [] rules).2) := by
  have hreset : Acl.scan [] ["resetkeys", "resetchannels", "-@all"] =
      ([["resetkeys"], ["resetchannels"], ["-@all"]], []) := by decide
  rw [Acl.scan_append, hreset]
  rfl

theorem scan_aclRules (ctx : Configs) (password : ValkeyString) (ldapTokens : List String) :
    ∃ gs, (Acl.scan [] (aclRules ctx password ldapTokens)).1 =
      ["resetkeys"] :: ["resetchannels"] :: ["-@all"] :: gs := by
  unfold aclRules
  rw [List.append_assoc, List.append_assoc, scan_reset]
  exact ⟨_, rfl⟩

omit [DecidableEq σ] [DecidableEq η] in
/-- What the rules make of the root permissions does not depend on those
before. -/
theorem foldlM_rootGroup_aclRules {V : Store ρ σ η} (hclear : ∃ c, ∀ r, clearRoot V r = some c)
    (ctx : Configs) (password : ValkeyString) (ldapTokens : List String) (r r' : ρ) :
    (Acl.scan [] (aclRules ctx password ldapTokens)).1.foldlM (Acl.rootGroup V.toRules) r =
      (Acl.scan [] (aclRules ctx password ldapTokens)).1.foldlM (Acl.rootGroup V.toRules) r' := by
  obtain ⟨c, hc⟩ := hclear
  obtain ⟨gs, hgs⟩ := scan_aclRules ctx password ldapTokens
  have hstart : ∀ r, (Acl.scan [] (aclRules ctx password ldapTokens)).1.foldlM
      (Acl.rootGroup V.toRules) r = gs.foldlM (Acl.rootGroup V.toRules) c := by
    intro r
    have hthree : (Acl.scan [] (aclRules ctx password ldapTokens)).1.foldlM
        (Acl.rootGroup V.toRules) r = (clearRoot V r).bind (gs.foldlM (Acl.rootGroup V.toRules)) := by
      rw [hgs]
      unfold clearRoot
      rw [Option.bind_assoc, Option.bind_assoc]
      rfl
    rw [hthree, hc r]
    rfl
  rw [hstart r, hstart r']

/-! ### Both -/

/-- What rules leave of the selectors there were. -/
theorem selectors_of_setUser {V : Store ρ σ η} {before user : User ρ σ η} {rules : List String}
    (h : Acl.setUser V.toRules before rules = some user) :
    user.selectors =
      (if clearsSelectors rules then ∅ else before.selectors) ∪ selectorsOf V rules := by
  obtain ⟨gs, hgs, -, hsel⟩ := Acl.setUser_spec V.toRules h
  rw [hsel, Acl.selectorsAfter_eq]
  unfold clearsSelectors selectorsOf
  rw [(Acl.groups_eq_some hgs).1]

/-- The permissions that a login leaves. -/
theorem permissions_of_login {V : Store ρ σ η} {ctx : Configs} {t : Table ρ σ η} {valkey : Valkey}
    {username password : ValkeyString} {ldapTokens : List String} {result : AuthResult}
    (h : (replyOn V ctx t valkey username password (some (.ok ldapTokens))).2 = .ok result) :
    ∃ r, (Acl.scan [] (aclRules ctx password ldapTokens)).1.foldlM (Acl.rootGroup V.toRules)
        (t.userOrNew V username.aclName).root = some r ∧
      permissions (usersAfter V ctx t valkey username password (some (.ok ldapTokens)))
        username.aclName = some (r, (if clearsSelectors (aclRules ctx password ldapTokens) then ∅
          else (t.userOrNew V username.aclName).selectors) ∪
            selectorsOf V (aclRules ctx password ldapTokens)) := by
  obtain ⟨user, huser, husers⟩ := user_of_login h
  obtain ⟨gs, hgs, hroot, -⟩ := Acl.setUser_spec V.toRules huser
  refine ⟨user.root, by rw [(Acl.groups_eq_some hgs).1]; exact hroot, ?_⟩
  rw [husers, permissions, Function.update_self, Option.map_some, selectors_of_setUser huser]

/-- **Permissions do not accumulate exactly if** the rules clear the selectors,
or the two users had the same selectors before, apart from those that the rules
add. -/
theorem permissions_do_not_accumulate (V : Store ρ σ η)
    (hclear : ∃ c, ∀ r, clearRoot V r = some c) (ctx : Configs) (t t' : Table ρ σ η)
    (valkey valkey' : Valkey) (username password : ValkeyString) (ldapTokens : List String)
    (result result' : AuthResult)
    (h : (replyOn V ctx t valkey username password (some (.ok ldapTokens))).2 = .ok result)
    (h' : (replyOn V ctx t' valkey' username password (some (.ok ldapTokens))).2 = .ok result') :
    permissions (usersAfter V ctx t valkey username password (some (.ok ldapTokens)))
        username.aclName =
      permissions (usersAfter V ctx t' valkey' username password (some (.ok ldapTokens)))
        username.aclName ↔
    clearsSelectors (aclRules ctx password ldapTokens) = true ∨
      (t.userOrNew V username.aclName).selectors ∪ selectorsOf V (aclRules ctx password ldapTokens) =
        (t'.userOrNew V username.aclName).selectors ∪
          selectorsOf V (aclRules ctx password ldapTokens) := by
  obtain ⟨r, hr, hperm⟩ := permissions_of_login h
  obtain ⟨r', hr', hperm'⟩ := permissions_of_login h'
  rw [foldlM_rootGroup_aclRules hclear ctx password ldapTokens _
    (t'.userOrNew V username.aclName).root] at hr
  obtain rfl : r = r' := Option.some.inj (hr.symm.trans hr')
  rw [hperm, hperm']
  by_cases hc : clearsSelectors (aclRules ctx password ldapTokens) = true
  · simp [hc]
  · simp [hc]

/-! ### A store -/

/-- Permissions of single commands, key patterns and channel patterns. -/
structure Granted where
  commands : Finset String := ∅
  keys : Finset String := ∅
  channels : Finset String := ∅
  deriving DecidableEq

/-- The rules that speak of them. -/
def plainRoot (a : String) (r : Granted) : Option Granted :=
  match a.toList with
  | '+' :: '@' :: _ => none
  | '+' :: c => some { r with commands := insert (String.ofList c) r.commands }
  | '-' :: c =>
    if a = "-@all" then some { r with commands := ∅ }
    else some { r with commands := r.commands.erase (String.ofList c) }
  | '~' :: p => some { r with keys := insert (String.ofList p) r.keys }
  | '&' :: p => some { r with channels := insert (String.ofList p) r.channels }
  | _ =>
    if a = "resetkeys" then some { r with keys := ∅ }
    else if a = "resetchannels" then some { r with channels := ∅ }
    else none

/-- A group without its parentheses. -/
def ungroup (g : List String) : List String :=
  g.map fun a => String.ofList (a.toList.filter fun c => c != '(' && c != ')')

/-- A store of plain rules, where a selector is rules again. -/
def plainStore : Store Granted Granted (List UInt8) where
  root := plainRoot
  selector g := (ungroup g).foldlM (fun r a => plainRoot a r) {}
  reset := {}
  hash := id
  hashed _ := none
  validName name := !name.contains 0x20 && !name.contains 0
  deletable name := name != Acl.bytes "default"

theorem plainStore_clearRoot : ∃ c, ∀ r, clearRoot plainStore r = some c := ⟨{}, fun _ => rfl⟩

/-- Bob as he may be, with a selector. -/
def bobSelected : Table Granted Granted (List UInt8) :=
  Function.update (fun _ => none) bob.aclName
    (some ⟨true, false, ∅, { keys := {"old"} }, {{ commands := {"get"}, keys := {"a"} }}⟩)

/-- With `clearselectors` among the tokens, Bob's login leaves what a first
login would. -/
theorem permissions_do_not_accumulate_bob :
    permissions (usersAfter plainStore {} bobSelected (fun _ => true) bob bob
        (some (.ok ["clearselectors", "+get"]))) bob.aclName =
      permissions (usersAfter plainStore {} (fun _ => none) (fun _ => true) bob bob
        (some (.ok ["clearselectors", "+get"]))) bob.aclName :=
  (permissions_do_not_accumulate plainStore plainStore_clearRoot {} _ _ (fun _ => true)
    (fun _ => true) bob bob ["clearselectors", "+get"] .authHandled .authHandled rfl rfl).mpr
    (.inl rfl)

/-- A selector survives the reset of all permissions. -/
theorem selector_survives :
    ¬ ∀ (ctx : Configs) (t t' : Table Granted Granted (List UInt8)) (username password : ValkeyString)
        (ldapTokens : List String),
      (replyOn plainStore ctx t (fun _ => true) username password (some (.ok ldapTokens))).2 =
        .ok .authHandled →
      (replyOn plainStore ctx t' (fun _ => true) username password (some (.ok ldapTokens))).2 =
        .ok .authHandled →
      permissions (usersAfter plainStore ctx t (fun _ => true) username password
          (some (.ok ldapTokens))) username.aclName =
        permissions (usersAfter plainStore ctx t' (fun _ => true) username password
          (some (.ok ldapTokens))) username.aclName := by
  intro h
  have hsame := h {} bobSelected (fun _ => none) bob bob ["+get"] rfl rfl
  revert hsame
  decide

end Auth
end ValkeyLdap
