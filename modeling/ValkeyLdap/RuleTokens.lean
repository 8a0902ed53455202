/-
# The rules of the groups are an ordered union

`search_groups_rules` goes through the entries found, the values of the rules
attribute of each and the tokens of each value, with a list and a set of what
the list holds. What it returns is described here without the loops
(`OrderedUnion`): no token twice, the tokens that occur somewhere, and in the
order in which they first occur. There is one such list for an answer
(`OrderedUnion.unique`), and it is the one returned
(`rules_are_ordered_union`).
-/
import ValkeyLdap.GroupFilter
import ValkeyLdap.Tokens

namespace ValkeyLdap

open Pieces

/-! ### Where tokens occur -/

/-- The token is a maximal piece without whitespace of value `j` of the rules
attribute of entry `i`, from its character `k` on. Places are compared entry
first, then value, then character. -/
inductive OccursAt (rulesAttr : String) (rs : List SearchEntry) : ℕ ×ₗ ℕ ×ₗ ℕ → String → Prop
  | intro {i j k : ℕ} {sentry : SearchEntry} {vals : List String} {v tok : String}
      (entry : rs[i]? = some sentry) (attr : sentry.attrs.lookup rulesAttr = some vals)
      (value : vals[j]? = some v) (piece : Piece isWhitespace v.toList k tok.toList) :
      OccursAt rulesAttr rs (toLex (i, toLex (j, k))) tok

/-- The tokens of the entries, each once, in the order in which they first
occur. -/
structure OrderedUnion (rulesAttr : String) (rs : List SearchEntry) (rules : List String) :
    Prop where
  nodup : rules.Nodup
  mem : ∀ tok, tok ∈ rules ↔ ∃ x, OccursAt rulesAttr rs x tok
  order : rules.Pairwise (First (OccursAt rulesAttr rs))

variable {rulesAttr : String} {rs : List SearchEntry}

theorem OrderedUnion.unique {rules rules' : List String} (h : OrderedUnion rulesAttr rs rules)
    (h' : OrderedUnion rulesAttr rs rules') : rules = rules' :=
  eq_of_first h.nodup h'.nodup (fun t => (h.mem t).trans (h'.mem t).symm) h.order h'.order

/-- The tokens of a value with their places. -/
def tokensAt (v : String) : List (ℕ × String) :=
  (piecesFrom isWhitespace 0 v.toList).map fun x => (x.1, String.ofList x.2)

/-- All tokens with their places, duplicates included. -/
def ruleTokensAt (rulesAttr : String) (rs : List SearchEntry) : List ((ℕ ×ₗ ℕ ×ₗ ℕ) × String) :=
  placed (fun sentry => placed tokensAt (sentry.ruleValues rulesAttr)) rs

theorem mem_tokensAt {v tok : String} {k : ℕ} :
    (k, tok) ∈ tokensAt v ↔ Piece isWhitespace v.toList k tok.toList := by
  unfold tokensAt
  constructor
  · intro h
    obtain ⟨⟨x, w⟩, hw, he⟩ := List.mem_map.mp h
    obtain ⟨rfl, rfl⟩ := Prod.mk.inj he
    obtain ⟨i, hi, hpiece⟩ := mem_piecesFrom.mp hw
    rw [Nat.zero_add] at hi
    rw [String.toList_ofList]
    exact hi ▸ hpiece
  · intro h
    apply List.mem_map.mpr
    exact ⟨(k, tok.toList), mem_piecesFrom.mpr ⟨k, (Nat.zero_add k).symm, h⟩,
      by rw [String.ofList_toList]⟩

theorem sorted_tokensAt (v : String) : Sorted (tokensAt v) :=
  List.pairwise_map.mpr (sorted_piecesFrom isWhitespace 0 v.toList)

theorem map_snd_tokensAt (v : String) : (tokensAt v).map Prod.snd = splitWhitespace v := by
  rw [tokensAt, splitWhitespace, ← map_snd_piecesFrom isWhitespace 0, List.map_map, List.map_map]
  rfl

theorem mem_ruleTokensAt {x : ℕ ×ₗ ℕ ×ₗ ℕ} {tok : String} :
    (x, tok) ∈ ruleTokensAt rulesAttr rs ↔ OccursAt rulesAttr rs x tok := by
  obtain ⟨i, j, k⟩ := x
  show (toLex (i, toLex (j, k)), tok) ∈ placed _ rs ↔
    OccursAt rulesAttr rs (toLex (i, toLex (j, k))) tok
  rw [mem_placed]
  constructor
  · rintro ⟨sentry, hentry, htok⟩
    obtain ⟨v, hv, htok⟩ := mem_placed.mp htok
    unfold SearchEntry.ruleValues at hv
    cases hattr : sentry.attrs.lookup rulesAttr with
    | none => simp [hattr] at hv
    | some vals =>
      rw [hattr] at hv
      exact .intro hentry hattr hv (mem_tokensAt.mp htok)
  · rintro ⟨hentry, hattr, hv, hpiece⟩
    refine ⟨_, hentry, mem_placed.mpr ⟨_, ?_, mem_tokensAt.mpr hpiece⟩⟩
    rw [SearchEntry.ruleValues, hattr]
    exact hv

theorem sorted_ruleTokensAt (rulesAttr : String) (rs : List SearchEntry) :
    Sorted (ruleTokensAt rulesAttr rs) :=
  sorted_placed fun _ _ => sorted_placed fun v _ => sorted_tokensAt v

theorem map_snd_ruleTokensAt (rulesAttr : String) (rs : List SearchEntry) :
    (ruleTokensAt rulesAttr rs).map Prod.snd = ruleTokens rulesAttr rs := by
  rw [ruleTokensAt, ruleTokens, ruleValues, map_snd_placed, List.flatMap_assoc]
  congr 1
  funext sentry
  rw [map_snd_placed]
  congr 1
  funext v
  exact map_snd_tokensAt v

/-! ### What is collected -/

/-- What is collected from an answer is its ordered union. -/
theorem orderedUnion_collectRules (rulesAttr : String) (rs : List SearchEntry) :
    OrderedUnion rulesAttr rs (collectRules rulesAttr rs) := by
  rw [collectRules_eq, ← map_snd_ruleTokensAt]
  refine ⟨Reorder.nodup_eraseDups _, fun tok => ?_, ?_⟩
  · simp only [List.mem_eraseDups, List.mem_map, Prod.exists, exists_eq_right, mem_ruleTokensAt]
  · have h := first_eraseDups (sorted_ruleTokensAt rulesAttr rs)
    simp only [mem_ruleTokensAt] at h
    exact h

example : collectRules "a" [⟨[("a", ["+get ~k", ""])]⟩, ⟨[]⟩, ⟨[("a", ["~k  -set"])]⟩] =
    ["+get", "~k", "-set"] := by decide

theorem ruleTokens_append (rulesAttr : String) (rs rs' : List SearchEntry) :
    ruleTokens rulesAttr (rs ++ rs') = ruleTokens rulesAttr rs ++ ruleTokens rulesAttr rs' := by
  rw [ruleTokens, ruleValues, List.flatMap_append, List.flatMap_append]
  rfl

/-- More entries add their tokens that are not there yet. -/
theorem collectRules_append (rulesAttr : String) (rs rs' : List SearchEntry) :
    collectRules rulesAttr (rs ++ rs') =
      collectRules rulesAttr rs ++
        (collectRules rulesAttr rs').filter (· ∉ collectRules rulesAttr rs) := by
  rw [collectRules_eq, collectRules_eq, collectRules_eq, ruleTokens_append, List.eraseDups_append,
    Reorder.filter_eraseDups]
  congr 2
  apply List.filter_congr
  intro tok _
  simp [List.mem_eraseDups]

/-- An entry without the attribute adds nothing. -/
theorem collectRules_of_lookup_none {sentry : SearchEntry}
    (h : sentry.attrs.lookup rulesAttr = none) (rs rs' : List SearchEntry) :
    collectRules rulesAttr (rs ++ sentry :: rs') = collectRules rulesAttr (rs ++ rs') := by
  have hnone : ruleTokens rulesAttr (sentry :: rs') = ruleTokens rulesAttr rs' := by
    rw [ruleTokens, ruleValues, List.flatMap_cons, SearchEntry.ruleValues, h]
    rfl
  rw [collectRules_eq, collectRules_eq, ruleTokens_append, ruleTokens_append, hnone]

namespace VkLdapConnection

open Session

variable {σ : Type}

def groupRulesRequest (settings : VkLdapSettings) (ldapEscape : String → String)
    (userDn : String) : SearchRequest where
  base := (settings.groupsSearchBase.or settings.searchBase).getD ""
  scope := settings.searchScope
  filter := groupSearchFilter settings ldapEscape userDn
  attrs := [settings.groupsRulesAttribute]

theorem searchGroupsRules_eq (ldapHandler : LdapHandler σ) (settings : VkLdapSettings)
    (ldapEscape : String → String) (userDn : String) :
    searchGroupsRules ldapHandler settings ldapEscape userDn =
      adminBind ldapHandler settings >>= fun _ =>
        awaitLdap (ldapHandler.search (groupRulesRequest settings ldapEscape userDn))
          .ldapSearchError >>= fun rs => SearchEntry.constructEach rs >>= fun sentries =>
            pure (collectRules settings.groupsRulesAttribute sentries) := by
  unfold searchGroupsRules
  rw [prepareGroupSearch_bind]
  rfl

/-- The search succeeds with what is collected from the entries of the answer,
once each of them is constructed. -/
theorem run_searchGroupsRules {ldapHandler : LdapHandler σ} {settings : VkLdapSettings}
    {ldapEscape : String → String} {userDn : String} {s t : σ} {rules : List String} :
    run (searchGroupsRules ldapHandler settings ldapEscape userDn) s = some (.ok rules, t) ↔
      ∃ s₁ rs sentries, run (adminBind ldapHandler settings) s = some (.ok (), s₁) ∧
        ldapHandler.search (groupRulesRequest settings ldapEscape userDn) s₁ = (.ok rs, t) ∧
        rs.mapM ResultEntry.constructed = some sentries ∧
        rules = collectRules settings.groupsRulesAttribute sentries := by
  rw [searchGroupsRules_eq]
  constructor
  · intro h
    obtain ⟨_, s₁, hadmin, h⟩ := ok_of_bind h
    obtain ⟨rs, s₂, hsearch, h⟩ := ok_of_bind h
    obtain ⟨sentries, s₃, hconstruct, h⟩ := ok_of_bind h
    rw [SearchEntry.run_constructEach] at hconstruct
    obtain ⟨_, hmap, hsame⟩ := Option.map_eq_some_iff.mp hconstruct
    obtain ⟨hsentries, rfl⟩ := Prod.mk.inj hsame
    obtain rfl := Except.ok.inj hsentries
    obtain ⟨hrules, rfl⟩ := Prod.mk.inj (Option.some.inj h)
    exact ⟨s₁, rs, _, hadmin, run_awaitLdap_ok.mp hsearch, hmap, (Except.ok.inj hrules).symm⟩
  · rintro ⟨s₁, rs, sentries, hadmin, hsearch, hmap, rfl⟩
    have hconstruct : run (SearchEntry.constructEach rs) t = some (.ok sentries, t) := by
      rw [SearchEntry.run_constructEach, hmap, Option.map_some]
    rw [run_bind_ok hadmin, run_bind_ok (run_awaitLdap_ok.mpr hsearch), run_bind_ok hconstruct]
    rfl

/-- **The rules are an ordered union.** A search that succeeds returns the
ordered union of the directory's answer. For two lists of entries, it is that
of the first, followed by the tokens of the second that are not in it; entries
without the attribute add nothing. -/
theorem rules_are_ordered_union (ldapHandler : LdapHandler σ) (settings : VkLdapSettings)
    (ldapEscape : String → String) (userDn : String) :
    (∀ s t rules,
      run (searchGroupsRules ldapHandler settings ldapEscape userDn) s = some (.ok rules, t) ↔
        ∃ s₁ rs sentries, run (adminBind ldapHandler settings) s = some (.ok (), s₁) ∧
          ldapHandler.search (groupRulesRequest settings ldapEscape userDn) s₁ = (.ok rs, t) ∧
          rs.mapM ResultEntry.constructed = some sentries ∧
          rules = collectRules settings.groupsRulesAttribute sentries) ∧
    ∀ rs, (∀ rules, rules = collectRules settings.groupsRulesAttribute rs ↔
        OrderedUnion settings.groupsRulesAttribute rs rules) ∧
      (∀ rs', collectRules settings.groupsRulesAttribute (rs ++ rs') =
        collectRules settings.groupsRulesAttribute rs ++
          (collectRules settings.groupsRulesAttribute rs').filter
            (· ∉ collectRules settings.groupsRulesAttribute rs)) ∧
      ∀ sentry rs', sentry.attrs.lookup settings.groupsRulesAttribute = none →
        collectRules settings.groupsRulesAttribute (rs ++ sentry :: rs') =
          collectRules settings.groupsRulesAttribute (rs ++ rs') := by
  refine ⟨fun s t rules => run_searchGroupsRules, fun rs => ⟨fun rules => ⟨?_, fun h => ?_⟩,
    collectRules_append _ rs, fun sentry rs' h => collectRules_of_lookup_none h rs rs'⟩⟩
  · rintro rfl
    exact orderedUnion_collectRules _ rs
  · exact h.unique (orderedUnion_collectRules _ rs)

end VkLdapConnection
end ValkeyLdap
