/-
# The filter of the group search

`search_groups` and `search_groups_rules` ask for the groups whose member
attribute is the user's DN. The DN, which a client or the directory chooses,
is escaped: `group_search_exact` says that the filter is the configured one
together with the assertion `(attribute=x)` that the member attribute makes,
with the DN, character for character, for the `x`. It is an equality if the
option is an attribute description; `chain_is_not_equality` is an option that
asks for another comparison.
-/
import ValkeyLdap.Connection
import ValkeyLdap.Lib.Assertion
import ValkeyLdap.SearchFilter

namespace ValkeyLdap
namespace VkLdapConnection

open LdapFilter

variable {σ α : Type}

/-- The filter that the group search uses, option or default. -/
def groupsFilter (settings : VkLdapSettings) : String :=
  settings.groupsFilter.getD "objectClass=groupOfNames"

def groupSearchFilter (settings : VkLdapSettings) (ldapEscape : String → String)
    (userDn : String) : String :=
  andFilter (groupsFilter settings) settings.groupsMemberAttribute (ldapEscape userDn)

/-- Every search of the computation is with this filter: it cannot tell two
handles apart that answer those alike. -/
def SearchesWith (filter : String) (m : LdapHandler σ → LdapM σ α) : Prop :=
  ∀ h h' : LdapHandler σ, h.simpleBind = h'.simpleBind →
    (∀ r, r.filter = filter → h.search r = h'.search r) → m h = m h'

theorem adminBind_congr (settings : VkLdapSettings) {h h' : LdapHandler σ}
    (hbind : h.simpleBind = h'.simpleBind) : adminBind h settings = adminBind h' settings := by
  unfold adminBind
  rw [hbind]

theorem prepareGroupSearch_bind (h : LdapHandler σ) (settings : VkLdapSettings)
    (k : String × String → LdapM σ α) :
    prepareGroupSearch h settings >>= k = adminBind h settings >>= fun _ =>
      k ((settings.groupsSearchBase.or settings.searchBase).getD "", groupsFilter settings) := by
  unfold prepareGroupSearch groupsFilter
  simp only [bind_assoc, pure_bind]

/-- After the admin bind comes one search, with that filter. -/
theorem searchesWith_of_bind (settings : VkLdapSettings) (req : SearchRequest)
    (k : List ResultEntry → LdapM σ α) {m : LdapHandler σ → LdapM σ α}
    (hm : ∀ h, m h = adminBind h settings >>= fun _ =>
      awaitLdap (h.search req) .ldapSearchError >>= k) : SearchesWith req.filter m := by
  intro h h' hbind hsearch
  rw [hm, hm, adminBind_congr settings hbind, hsearch req rfl]

theorem searchGroupsRules_searchesWith (settings : VkLdapSettings) (ldapEscape : String → String)
    (userDn : String) :
    SearchesWith (groupSearchFilter settings ldapEscape userDn)
      fun h : LdapHandler σ => searchGroupsRules h settings ldapEscape userDn := by
  refine searchesWith_of_bind settings
    ⟨(settings.groupsSearchBase.or settings.searchBase).getD "", settings.searchScope,
      groupSearchFilter settings ldapEscape userDn, [settings.groupsRulesAttribute]⟩
    (fun rs => SearchEntry.constructEach rs >>= fun sentries =>
      pure (collectRules settings.groupsRulesAttribute sentries)) fun h => ?_
  unfold searchGroupsRules
  rw [prepareGroupSearch_bind]
  rfl

theorem searchGroups_searchesWith (settings : VkLdapSettings) (ldapEscape : String → String)
    (userDn : String) :
    SearchesWith (groupSearchFilter settings ldapEscape userDn)
      fun h : LdapHandler σ => searchGroups h settings ldapEscape userDn := by
  refine searchesWith_of_bind settings
    ⟨(settings.groupsSearchBase.or settings.searchBase).getD "", settings.searchScope,
      groupSearchFilter settings ldapEscape userDn, [settings.groupsNameAttribute]⟩
    (fun rs => SearchEntry.constructEach rs >>= fun sentries =>
      pure (collectGroups settings.groupsNameAttribute sentries)) fun h => ?_
  unfold searchGroups
  rw [prepareGroupSearch_bind]
  rfl

theorem groupSearchFilter_toList (settings : VkLdapSettings) (ldapEscape : String → String)
    (userDn : String) :
    (groupSearchFilter settings ldapEscape userDn).toList =
      "(&(".toList ++ (groupsFilter settings).toList ++ ")(".toList ++
        settings.groupsMemberAttribute.toList ++ "=".toList ++ (ldapEscape userDn).toList ++
        "))".toList := by
  unfold groupSearchFilter andFilter
  simp only [String.toList_append]

/-- `ldap_escape` as a function of characters. -/
def onChars (f : String → String) (s : List Char) : List Char := (f (String.ofList s)).toList

/-- What the filter of both searches parses as. -/
theorem parse_groupSearchFilter {ldapEscape : String → String} {f g : Filter}
    (settings : VkLdapSettings) (userDn : String) (hescape : Escapes (onChars ldapEscape))
    (hf : parse (parenthesised (groupsFilter settings)) = some f)
    (hg : parse (parenthesised (settings.groupsMemberAttribute ++ "=x")) = some g) :
    parse (groupSearchFilter settings ldapEscape userDn).toList =
      some (.and [f, g.fill (octets userDn.toList)]) ∧
    (g.fill (octets userDn.toList) =
        .equality settings.groupsMemberAttribute.toList (octets userDn.toList) ↔
      attributeDescription settings.groupsMemberAttribute.toList = true) := by
  have hv : decodeValue (ldapEscape userDn).toList = some (octets userDn.toList) := by
    have := decodeValue_escape hescape userDn.toList
    rwa [onChars, String.ofList_toList] at this
  have hg : parse ('(' :: (settings.groupsMemberAttribute.toList ++ "=x".toList) ++ [')']) =
      some g := by
    rw [parenthesised, String.toList_append] at hg
    exact hg
  refine ⟨?_, fill_eq_equality _ hg⟩
  rw [groupSearchFilter_toList]
  exact parse_and_fill hf hg hv

/-- **The group search asks for exactly the DN.** Both searches use the filter
that is the configured one and the assertion `(attribute=x)` with the DN for
the `x`; it is the equality of the member attribute with the DN if and only if
the option is an attribute description. -/
theorem group_search_exact (settings : VkLdapSettings) (ldapEscape : String → String)
    (userDn : String) (f g : Filter) (hescape : Escapes (onChars ldapEscape))
    (hf : parse (parenthesised (groupsFilter settings)) = some f)
    (hg : parse (parenthesised (settings.groupsMemberAttribute ++ "=x")) = some g) :
    (∀ σ : Type, SearchesWith (groupSearchFilter settings ldapEscape userDn)
        (fun h : LdapHandler σ => searchGroupsRules h settings ldapEscape userDn) ∧
      SearchesWith (groupSearchFilter settings ldapEscape userDn)
        fun h : LdapHandler σ => searchGroups h settings ldapEscape userDn) ∧
    parse (groupSearchFilter settings ldapEscape userDn).toList =
      some (.and [f, g.fill (octets userDn.toList)]) ∧
    (g.fill (octets userDn.toList) =
        .equality settings.groupsMemberAttribute.toList (octets userDn.toList) ↔
      attributeDescription settings.groupsMemberAttribute.toList = true) :=
  ⟨fun _ => ⟨searchGroupsRules_searchesWith settings ldapEscape userDn,
    searchGroups_searchesWith settings ldapEscape userDn⟩,
    parse_groupSearchFilter settings userDn hescape hf hg⟩

/-! ### An escape, and an option that is no attribute -/

def hexDigit (n : ℕ) : Char := if n < 10 then Char.ofNat (48 + n) else Char.ofNat (87 + n)

/-- `ldap_escape` as documented. -/
def ldapEscape (s : String) : String :=
  String.ofList (s.toList.flatMap fun c =>
    if special c then ['\\', hexDigit (c.toNat / 16), hexDigit (c.toNat % 16)] else [c])

theorem escapes_ldapEscape : Escapes (onChars ldapEscape) := by
  refine ⟨fun c => ['\\', hexDigit (c.toNat / 16), hexDigit (c.toNat % 16)], ?_, fun s => ?_⟩
  · intro c hc
    rcases special_cases hc with rfl | rfl | rfl | rfl | rfl
    · exact ⟨'5', 'c', 5, 12, rfl, rfl, rfl, rfl⟩
    · exact ⟨'2', 'a', 2, 10, rfl, rfl, rfl, rfl⟩
    · exact ⟨'2', '8', 2, 8, rfl, rfl, rfl, rfl⟩
    · exact ⟨'2', '9', 2, 9, rfl, rfl, rfl, rfl⟩
    · exact ⟨'0', '0', 0, 0, rfl, rfl, rfl, rfl⟩
  · rw [onChars, ldapEscape, String.toList_ofList, String.toList_ofList]

theorem parse_default_groupsFilter : parse (parenthesised "objectClass=groupOfNames") =
    some (.equality "objectClass".toList (octets "groupOfNames".toList)) := by
  have hlen : 3 * (parenthesised "objectClass=groupOfNames").length = 76 + 2 := by decide
  rw [parse_eq_some, hlen]
  have hattr : attributeDescription "objectClass".toList = true := by decide
  have hvalue : ∀ c ∈ "groupOfNames".toList, special c = false := plain_of_any (by decide)
  exact parseFilter_equality hattr hvalue

theorem parse_member_item : parse (parenthesised "member=x") =
    some (.equality "member".toList (octets "x".toList)) := by
  have hlen : 3 * (parenthesised "member=x").length = 28 + 2 := by decide
  rw [parse_eq_some, hlen]
  have hattr : attributeDescription "member".toList = true := by decide
  have hvalue : ∀ c ∈ "x".toList, special c = false := plain_of_any (by decide)
  exact parseFilter_equality hattr hvalue

/-- The group search of the default options, for a DN with parentheses. -/
theorem group_search_exact_default :
    parse (groupSearchFilter {} ldapEscape "cn=bob (a)").toList =
      some (.and [.equality "objectClass".toList (octets "groupOfNames".toList),
        .equality "member".toList (octets "cn=bob (a)".toList)]) :=
  (group_search_exact {} ldapEscape "cn=bob (a)" _ _ escapes_ldapEscape
    parse_default_groupsFilter parse_member_item).2.1

/-- An option with a matching rule, which follows groups within groups. -/
def chainAttribute : String := "member:1.2.840.113556.1.4.1941:"

theorem parse_chain_item : parse (parenthesised (chainAttribute ++ "=x")) =
    some (.extensible (some "member".toList) false (some "1.2.840.113556.1.4.1941".toList)
      [120]) := by
  have htext : parenthesised (chainAttribute ++ "=x") =
      '(' :: ("member:1.2.840.113556.1.4.1941:=x".toList ++ [')']) := by
    rw [parenthesised, String.toList_append]
    rfl
  have hitem : parseItem ('m' :: "ember:1.2.840.113556.1.4.1941:=x".toList) =
      some (.extensible (some "member".toList) false (some "1.2.840.113556.1.4.1941".toList)
        [120]) := by rfl
  have hlen : 3 * ('(' :: ("member:1.2.840.113556.1.4.1941:=x".toList ++ [')'])).length =
      103 + 2 := by decide
  have hparen : ∀ c ∈ "member:1.2.840.113556.1.4.1941:=x".toList, notParen c = true :=
    List.all_eq_true.mp (by decide)
  rw [htext, parse_eq_some, hlen]
  exact parseFilter_item hparen (by decide) hitem

/-- With a matching rule in the option the search is no equality. -/
theorem chain_is_not_equality :
    ¬ ∀ (settings : VkLdapSettings) (ldapEscape : String → String) (userDn : String)
      (f g : Filter), Escapes (onChars ldapEscape) →
      parse (parenthesised (groupsFilter settings)) = some f →
      parse (parenthesised (settings.groupsMemberAttribute ++ "=x")) = some g →
      parse (groupSearchFilter settings ldapEscape userDn).toList =
        some (.and [f, .equality settings.groupsMemberAttribute.toList
          (octets userDn.toList)]) := by
  intro h
  let settings : VkLdapSettings := { groupsMemberAttribute := chainAttribute }
  have hbad := h settings ldapEscape "cn=bob" _ _ escapes_ldapEscape parse_default_groupsFilter
    parse_chain_item
  obtain ⟨hgood, hiff⟩ := parse_groupSearchFilter settings "cn=bob" escapes_ldapEscape
    parse_default_groupsFilter parse_chain_item
  rw [hgood] at hbad
  have heq := (List.cons.inj (List.cons.inj (Filter.and.inj (Option.some.inj hbad))).2).1
  have hattr : attributeDescription chainAttribute.toList = false := by decide
  exact absurd (hiff.mp heq) (by rw [hattr]; exact Bool.false_ne_true)

end VkLdapConnection
end ValkeyLdap
