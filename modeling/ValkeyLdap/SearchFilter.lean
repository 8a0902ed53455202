/-
# The filter of the user search

`search` puts the username into its filter as it is, where
`search_groups_rules` escapes the user's DN. The username of an `AUTH` is
thereby read by the grammar of filters: `user_search_exact` says exactly when
the filter is the one meant, the configured filter and an equality with the
username, and `star_matches_everyone` is a username that turns the equality
into a presence.
-/
import ValkeyLdap.Connection
import ValkeyLdap.Lib.Filter

namespace ValkeyLdap
namespace VkLdapConnection

open LdapFilter

/-- The filter and the attribute that the search uses, options or defaults. -/
def userFilter (settings : VkLdapSettings) : String := settings.searchFilter.getD "objectClass=*"

def userAttr (settings : VkLdapSettings) : String := settings.searchAttribute.getD "uid"

theorem searchFilter_toList (settings : VkLdapSettings) (username : String) :
    (searchFilter settings username).toList =
      "(&(".toList ++ (userFilter settings).toList ++ ")(".toList ++ (userAttr settings).toList ++
        "=".toList ++ username.toList ++ "))".toList := by
  unfold searchFilter andFilter
  simp only [String.toList_append]
  rfl

/-- The filter as it stands alone in parentheses. -/
def parenthesised (s : String) : List Char := '(' :: s.toList ++ [')']

/-- **The user search is an exact match on the username exactly if** the
attribute is an attribute description and the username holds no `\`, `*`, `(`,
`)` or NUL. -/
theorem user_search_exact (settings : VkLdapSettings) (username : String) (f : Filter)
    (hf : parse (parenthesised (userFilter settings)) = some f) :
    parse (searchFilter settings username).toList =
        some (.and [f, .equality (userAttr settings).toList (octets username.toList)]) ↔
      attributeDescription (userAttr settings).toList = true ∧
        ∀ c ∈ username.toList, special c = false := by
  rw [searchFilter_toList]
  exact parse_and_item hf

theorem parse_default_filter :
    parse (parenthesised "objectClass=*") = some (.present "objectClass".toList) := by
  have hitem : parseItem ('o' :: "bjectClass=*".toList) = some (.present "objectClass".toList) := by
    rfl
  have hlen : 3 * (parenthesised "objectClass=*").length = 43 + 2 := by decide
  have hparen : ∀ c ∈ "objectClass=*".toList, notParen c = true :=
    List.all_eq_true.mp (by decide)
  rw [parse_eq_some, hlen]
  exact parseFilter_item hparen (by decide) hitem

theorem parse_uid_item : parse (parenthesised "uid=x") =
    some (.equality "uid".toList (octets "x".toList)) := by
  have hlen : 3 * (parenthesised "uid=x").length = 19 + 2 := by decide
  have hattr : attributeDescription "uid".toList = true := by decide
  have hvalue : ∀ c ∈ "x".toList, special c = false := plain_of_any (by decide)
  rw [parse_eq_some, hlen]
  exact parseFilter_equality hattr hvalue

/-- The user search of the default options, on an ordinary username. -/
theorem user_search_exact_bob :
    parse (searchFilter {} "bob").toList =
      some (.and [.present "objectClass".toList, .equality "uid".toList (octets "bob".toList)]) :=
  (user_search_exact {} "bob" (.present "objectClass".toList) parse_default_filter).mpr
    ⟨by decide, plain_of_any (by decide)⟩

/-- With the default options the username `*` is not looked for. -/
theorem star_matches_everyone :
    ¬ ∀ (settings : VkLdapSettings) (username : String) (f g : Filter),
      parse (parenthesised (userFilter settings)) = some f →
      parse (parenthesised (userAttr settings ++ "=x")) = some g →
      parse (searchFilter settings username).toList =
        some (.and [f, .equality (userAttr settings).toList (octets username.toList)]) := by
  intro h
  have hstar := h {} "*" _ _ parse_default_filter parse_uid_item
  rw [searchFilter_toList] at hstar
  have hplain := ((parse_and_item parse_default_filter).mp hstar).2
  exact absurd (hplain '*' (by decide)) (by decide)

end VkLdapConnection
end ValkeyLdap
