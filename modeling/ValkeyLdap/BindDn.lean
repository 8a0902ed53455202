/-
# The DN of the bind mode

`ldap_bind_and_group_rules` writes the username between the configured prefix
and suffix as it is, where the group search escapes what it writes into its
filter. Read as a distinguished name, the result names the user in the
configured branch exactly for the usernames that need no escape
(`bind_dn_names_user`); `branch_injected` is a username that names an entry of
another branch.
-/
import ValkeyLdap.Failover
import ValkeyLdap.Lib.Dn

namespace ValkeyLdap

open LdapDn
open LdapFilter (octets oid)

/-- The suffix is empty, or a comma and the names of the branch. -/
def SuffixOf (suffix : String) (rdns : Dn) : Prop :=
  suffix = "" ∧ rdns = [] ∨ ∃ dn, suffix = "," ++ dn ∧ parse dn.toList = some rdns

theorem SuffixOf.toList {suffix : String} {rdns : Dn} (h : SuffixOf suffix rdns) :
    suffix.toList = [] ∧ rdns = [] ∨ ∃ d, suffix.toList = ',' :: d ∧ parse d = some rdns := by
  rcases h with ⟨rfl, h⟩ | ⟨dn, rfl, h⟩
  · exact .inl ⟨rfl, h⟩
  · exact .inr ⟨dn.toList, by rw [String.toList_append]; rfl, h⟩

theorem bindDn_toList {settings : VkLdapSettings} (username attr : String)
    (hpre : settings.bindDbPrefix = attr ++ "=") :
    (bindDn settings username).toList =
      attr.toList ++ '=' :: (username.toList ++ settings.bindDbSuffix.toList) := by
  rw [bindDn, hpre]
  simp only [String.toList_append, List.append_assoc]
  rfl

/-- **The bind DN names the user exactly if the username is plain.** With a
prefix `attr=`, the DN is `attr=username` followed by the names of the suffix
if and only if the username needs no escape and the suffix is not a comma with
nothing behind it. -/
theorem bind_dn_names_user (settings : VkLdapSettings) (username attr : String) (rdns : Dn)
    (hpre : settings.bindDbPrefix = attr ++ "=") (hattr : oid attr.toList = true)
    (hsuffix : SuffixOf settings.bindDbSuffix rdns) :
    parse (bindDn settings username).toList =
        some ([⟨attr.toList, .string (octets username.toList)⟩] :: rdns) ↔
      Plain username.toList ∧ settings.bindDbSuffix ≠ "," := by
  have hlone : settings.bindDbSuffix = "," ↔ settings.bindDbSuffix.toList = [','] := by
    rw [← String.toList_inj]
    rfl
  have hcomma : settings.bindDbSuffix.toList = [] ∨
      ∃ d, settings.bindDbSuffix.toList = ',' :: d :=
    hsuffix.toList.imp And.left fun ⟨d, h, _⟩ => ⟨d, h⟩
  rw [bindDn_toList username attr hpre, parse_type hattr hcomma, ne_eq, hlone]
  refine and_congr_right fun _ => ?_
  rcases hsuffix.toList with ⟨h, rfl⟩ | ⟨d, h, hd⟩
  · simp [h]
  · simp [h, hd]

/-! ### A user of the branch, and one of another branch -/

/-- The README's `cn=` with a branch. -/
def inUsers : VkLdapSettings := { bindDbPrefix := "cn=", bindDbSuffix := ",ou=users" }

def usersDn : Dn := [[⟨['o', 'u'], .string [117, 115, 101, 114, 115]⟩]]

theorem suffixOf_inUsers : SuffixOf inUsers.bindDbSuffix usersDn :=
  .inr ⟨"ou=users", rfl, rfl⟩

theorem plain_bob : Plain "bob".toList :=
  ⟨List.all_eq_true.mp (by decide), by decide, by decide, by decide⟩

theorem bind_dn_names_user_bob :
    parse (bindDn inUsers "bob").toList =
      some ([⟨['c', 'n'], .string [98, 111, 98]⟩] :: usersDn) :=
  (bind_dn_names_user inUsers "bob" "cn" usersDn rfl rfl suffixOf_inUsers).mpr
    ⟨plain_bob, by decide⟩

/-- A username with a comma names Bob the admin. -/
theorem branch_injected :
    parse (bindDn inUsers "bob,ou=admins").toList =
        some ([⟨['c', 'n'], .string [98, 111, 98]⟩] ::
          [⟨['o', 'u'], .string [97, 100, 109, 105, 110, 115]⟩] :: usersDn) ∧
      ¬ ∀ (settings : VkLdapSettings) (username attr : String) (rdns : Dn),
        settings.bindDbPrefix = attr ++ "=" → oid attr.toList = true →
        SuffixOf settings.bindDbSuffix rdns →
        parse (bindDn settings username).toList =
          some ([⟨attr.toList, .string (octets username.toList)⟩] :: rdns) := by
  have hdn : parse (bindDn inUsers "bob,ou=admins").toList =
      some ([⟨['c', 'n'], .string [98, 111, 98]⟩] ::
        [⟨['o', 'u'], .string [97, 100, 109, 105, 110, 115]⟩] :: usersDn) := by
    rw [bindDn_toList "bob,ou=admins" "cn" rfl]
    rfl
  refine ⟨hdn, fun h => ?_⟩
  have hbad := h inUsers "bob,ou=admins" "cn" usersDn rfl rfl suffixOf_inUsers
  rw [hdn] at hbad
  have hlength := congrArg List.length (Option.some.inj hbad)
  exact absurd hlength (by decide)

end ValkeyLdap
