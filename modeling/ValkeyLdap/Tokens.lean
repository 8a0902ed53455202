/-
# The order of the tokens, and duplicates

`search_groups_rules` collects the tokens of all values of the rules attribute,
in the order of the answer, and keeps of each its first occurrence
(`collectRules_eq`). A directory leaves the order of entries and values open,
and an argument may be undone by one between its occurrences; so the permissions
depend on the order of the answer, and the removal of duplicates changes them,
unless arguments whose order is open commute, or nothing undoes a repeated one.

Key theorems: `permissions_ignore_order`, `duplicates_are_redundant`.
-/
import ValkeyLdap.Permissions
import ValkeyLdap.Lib.Pieces
import ValkeyLdap.Lib.Reorder

namespace ValkeyLdap

open Reorder

/-! ### The tokens collected -/

/-- A token is not empty, and nothing can be trimmed off it. -/
theorem trim_token {v tok : String} (h : tok ∈ splitWhitespace v) :
    trim tok = tok ∧ tok.isEmpty = false := by
  obtain ⟨s, hs, rfl⟩ := List.mem_map.mp h
  obtain ⟨k, hne, hplain, -⟩ := Pieces.mem_pieces.mp hs
  have hdrop : ∀ l : List Char, (∀ c ∈ l, isWhitespace c = false) →
      l.dropWhile isWhitespace = l := by
    intro l hl
    cases l with
    | nil => rfl
    | cons c l => rw [List.dropWhile_cons_of_neg (by simp [hl c])]
  constructor
  · unfold trim
    rw [String.toList_ofList, hdrop s hplain,
      hdrop s.reverse fun c hc => hplain c (List.mem_reverse.mp hc), List.reverse_reverse]
  · rw [String.isEmpty_eq_false_iff]
    intro he
    rw [← String.toList_inj, String.toList_ofList] at he
    exact hne he

/-- The values of the rules attribute of an entry. -/
def SearchEntry.ruleValues (rulesAttr : String) (sentry : SearchEntry) : List String :=
  (sentry.attrs.lookup rulesAttr).getD []

/-- All values, in the order of the answer. -/
def ruleValues (rulesAttr : String) (rs : List SearchEntry) : List String :=
  rs.flatMap (SearchEntry.ruleValues rulesAttr)

/-- All tokens, duplicates included. -/
def ruleTokens (rulesAttr : String) (rs : List SearchEntry) : List String :=
  (ruleValues rulesAttr rs).flatMap splitWhitespace

theorem foldl_insert {toks : List String} (h : ∀ t ∈ toks, trim t = t ∧ t.isEmpty = false) :
    (toks.foldl .insert (⟨[], []⟩ : Rules)).rules = toks.eraseDups ∧
      ∀ t, t ∈ (toks.foldl .insert (⟨[], []⟩ : Rules)).seen ↔ t ∈ toks := by
  induction toks using List.reverseRecOn with
  | nil => exact ⟨rfl, fun t => Iff.rfl⟩
  | append_singleton toks tok ih =>
    obtain ⟨hrules, hseen⟩ := ih fun t ht => h t (List.mem_append_left [tok] ht)
    obtain ⟨htrim, hempty⟩ := h tok (by simp)
    rw [List.foldl_append, List.foldl_cons, List.foldl_nil]
    generalize toks.foldl .insert (⟨[], []⟩ : Rules) = r at hrules hseen
    simp only [Rules.insert, htrim, hempty, Bool.false_eq_true, if_false]
    by_cases htok : tok ∈ toks
    · have hmem : r.seen.contains tok = true := List.contains_iff_mem.mpr ((hseen tok).mpr htok)
      rw [if_pos hmem, eraseDups_concat_of_mem htok]
      refine ⟨hrules, fun t => (hseen t).trans ?_⟩
      simp only [List.mem_append, List.mem_singleton]
      exact ⟨Or.inl, fun ht => ht.elim id fun he => he ▸ htok⟩
    · have hmem : ¬ r.seen.contains tok = true :=
        fun hc => htok ((hseen tok).mp (List.contains_iff_mem.mp hc))
      rw [if_neg hmem, eraseDups_concat_of_not_mem htok, hrules]
      refine ⟨rfl, fun t => ?_⟩
      simp only [List.mem_cons, List.mem_append, List.not_mem_nil, or_false, hseen t]
      exact or_comm

/-- **What is collected**: the tokens, without repetitions. -/
theorem collectRules_eq (rulesAttr : String) (rs : List SearchEntry) :
    collectRules rulesAttr rs = (ruleTokens rulesAttr rs).eraseDups := by
  have htoken : ∀ t ∈ ruleTokens rulesAttr rs, trim t = t ∧ t.isEmpty = false := by
    intro t ht
    obtain ⟨v, -, ht⟩ := List.mem_flatMap.mp ht
    exact trim_token ht
  rw [← (foldl_insert htoken).1, ruleTokens, ruleValues, List.foldl_flatMap, List.foldl_flatMap]
  unfold collectRules
  congr 2
  funext r sentry
  rw [SearchEntry.ruleValues]
  cases sentry.attrs.lookup rulesAttr with
  | none => rfl
  | some vals => rfl

namespace Auth

open Acl (Table Store User)

variable {ρ σ η : Type} [DecidableEq σ] [DecidableEq η]

/-! ### Order -/

/-- The same answer in another order: of the entries, and of the values of each. -/
def Reordered (rulesAttr : String) (rs rs' : List SearchEntry) : Prop :=
  ∃ rs₁, rs.Perm rs₁ ∧
    List.Forall₂ (fun e e' => (e.ruleValues rulesAttr).Perm (e'.ruleValues rulesAttr)) rs₁ rs'

theorem Reordered.ruleValues {rulesAttr : String} {rs rs' : List SearchEntry}
    (h : Reordered rulesAttr rs rs') : (ruleValues rulesAttr rs).Perm (ruleValues rulesAttr rs') := by
  obtain ⟨rs₁, hperm, hvalues⟩ := h
  refine (hperm.flatMap_right _).trans ?_
  clear hperm
  induction hvalues with
  | nil => exact List.Perm.nil
  | cons he _ ih => exact he.append ih

/-- The groups of what is collected are the groups of the tokens, without
repetitions. -/
theorem scan_eraseDups {toks : List String} {gs : List (List String)}
    (hscan : Acl.scan [] toks = (gs, [])) (hapart : Apart gs) :
    Acl.scan [] toks.eraseDups = (gs.eraseDups, []) := by
  have hflatten : gs.flatten = toks := by
    have h := Acl.flatten_scan toks []
    rw [hscan, List.append_nil, List.nil_append] at h
    exact h
  have hgroup : ∀ g ∈ gs, Acl.scan [] g = ([g], []) := by
    intro g hg
    apply (Acl.scan_of_mem toks [] rfl g _).2
    rw [hscan]
    exact hg
  rw [← hflatten, eraseDups_flatten hapart, Acl.scan_flatten]
  exact fun g hg => hgroup g (List.mem_eraseDups.mp hg)

/-- The arguments that a value holds: tokens, and groups of several. -/
def valueGroups (v : String) : List (List String) := (Acl.scan [] (splitWhitespace v)).1

/-- The values do not interfere: each closes the groups it opens, no argument
holds a token twice or one of another argument, and two arguments commute if one
value has them in one order, and another the other way round. -/
structure Orderless (R : Acl.Rules ρ σ η) (values : List String) : Prop where
  closed : ∀ v ∈ values, (Acl.scan [] (splitWhitespace v)).2 = []
  apart : Apart (values.flatMap valueGroups)
  commute : ∀ v ∈ values, ∀ w ∈ values, ∀ x y,
    (valueGroups v).idxOf x < (valueGroups v).idxOf y →
    (valueGroups w).idxOf y < (valueGroups w).idxOf x → Commute (Acl.applyGroup R) x y

theorem scan_values {values : List String}
    (h : ∀ v ∈ values, (Acl.scan [] (splitWhitespace v)).2 = []) :
    Acl.scan [] (values.flatMap splitWhitespace) = (values.flatMap valueGroups, []) := by
  induction values with
  | nil => rfl
  | cons v values ih =>
    rw [List.flatMap_cons, Acl.scan_append, h v List.mem_cons_self,
      ih fun w hw => h w (List.mem_cons_of_mem v hw)]
    rfl

theorem Orderless.perm {R : Acl.Rules ρ σ η} {values values' : List String}
    (h : Orderless R values) (hperm : values.Perm values') : Orderless R values' := by
  have hgroups := hperm.flatMap_right valueGroups
  refine ⟨fun v hv => h.closed v (hperm.mem_iff.mpr hv), fun g hg => ?_, fun v hv w hw =>
    h.commute v (hperm.mem_iff.mpr hv) w (hperm.mem_iff.mpr hw)⟩
  obtain ⟨hnodup, hother⟩ := h.apart g (hgroups.mem_iff.mpr hg)
  exact ⟨hnodup, fun g' hg' => hother g' (hgroups.mem_iff.mpr hg')⟩

/-- **The order of the answer does not matter** where the default rules close
the groups they open and the values do not interfere. -/
theorem permissions_ignore_order (V : Store ρ σ η) (ctx : Configs) (t : Table ρ σ η)
    (valkey : Valkey) (username password : ValkeyString) (rulesAttr : String)
    (rs rs' : List SearchEntry) (hdefault : (Acl.scan [] ctx.getDefaultAclRules).2 = [])
    (hrs : Orderless V.toRules (ruleValues rulesAttr rs)) (hreorder : Reordered rulesAttr rs rs') :
    usersAfter V ctx t valkey username password (some (.ok (collectRules rulesAttr rs))) =
        usersAfter V ctx t valkey username password (some (.ok (collectRules rulesAttr rs'))) ∧
      (replyOn V ctx t valkey username password (some (.ok (collectRules rulesAttr rs)))).2 =
        (replyOn V ctx t valkey username password (some (.ok (collectRules rulesAttr rs')))).2 := by
  have hperm := hreorder.ruleValues
  have hrs' := hrs.perm hperm
  have hscan := scan_eraseDups (scan_values hrs.closed) hrs.apart
  have hscan' := scan_eraseDups (scan_values hrs'.closed) hrs'.apart
  apply login_congr
  intro u
  unfold aclRules
  rw [collectRules_eq, collectRules_eq]
  apply Acl.setUser_congr
  · rw [scan_reset]
    exact hdefault
  · exact congrArg Prod.snd hscan
  · exact congrArg Prod.snd hscan'
  · intro v
    rw [ruleTokens, ruleTokens, hscan, hscan']
    apply foldlM_reorder
    · rw [List.perm_ext_iff_of_nodup (nodup_eraseDups _) (nodup_eraseDups _)]
      intro g
      rw [List.mem_eraseDups, List.mem_eraseDups, (hperm.flatMap_right valueGroups).mem_iff]
    · exact nodup_eraseDups _
    · intro x y hxy hyx
      obtain ⟨⟨v, hv, hx⟩, w, hw, hy⟩ := parts_of_inverted hperm hxy hyx
      exact hrs.commute v hv w hw x y hx hy

/-- A command for the root, and another in a selector. -/
def rootAndSelector : List SearchEntry :=
  [⟨[("valkeyACL", ["+get"])]⟩, ⟨[("valkeyACL", ["(+set ~b)"])]⟩]

theorem mem_of_idxOf_lt {gs : List (List String)} {x y : List String}
    (h : gs.idxOf x < gs.idxOf y) : x ∈ gs :=
  List.idxOf_lt_length_iff.mp (Nat.lt_of_lt_of_le h List.idxOf_le_length)

theorem orderless_rootAndSelector :
    Orderless plainStore.toRules (ruleValues "valkeyACL" rootAndSelector) := by
  have hvalues : ruleValues "valkeyACL" rootAndSelector = ["+get", "(+set ~b)"] := rfl
  have hgroups : ["+get", "(+set ~b)"].flatMap valueGroups = [["+get"], ["(+set", "~b)"]] := by
    decide
  have hcomm : Commute (Acl.applyGroup plainStore.toRules) ["+get"] ["(+set", "~b)"] := fun _ => rfl
  rw [hvalues]
  refine ⟨by decide, ?_, fun v hv w hw x y hx hy => ?_⟩
  · rw [hgroups]
    decide
  · have hmem : ∀ {z v}, v ∈ ["+get", "(+set ~b)"] → z ∈ valueGroups v →
        z = ["+get"] ∨ z = ["(+set", "~b)"] := by
      intro z v hv hz
      have hz := List.mem_flatMap.mpr ⟨v, hv, hz⟩
      rw [hgroups] at hz
      simpa using hz
    rcases hmem hv (mem_of_idxOf_lt hx) with rfl | rfl
    · rcases hmem hw (mem_of_idxOf_lt hy) with rfl | rfl
      · exact fun _ => rfl
      · exact hcomm
    · rcases hmem hw (mem_of_idxOf_lt hy) with rfl | rfl
      · exact hcomm.symm
      · exact fun _ => rfl

theorem permissions_ignore_order_rootAndSelector :
    usersAfter plainStore {} (fun _ => none) (fun _ => true) bob bob
        (some (.ok (collectRules "valkeyACL" rootAndSelector))) =
      usersAfter plainStore {} (fun _ => none) (fun _ => true) bob bob
        (some (.ok (collectRules "valkeyACL" rootAndSelector.reverse))) :=
  (permissions_ignore_order plainStore {} _ _ bob bob "valkeyACL" rootAndSelector _ (by decide)
    orderless_rootAndSelector
    ⟨_, (List.reverse_perm _).symm, List.forall₂_same.mpr fun _ _ => List.Perm.refl _⟩).1

/-- A grant and a revocation, by two groups. -/
def grantAndRevoke : List SearchEntry := [⟨[("valkeyACL", ["+get"])]⟩, ⟨[("valkeyACL", ["-get"])]⟩]

theorem order_changes_rights :
    ¬ ∀ (ctx : Configs) (t : Table Granted Granted (List UInt8)) (username password : ValkeyString)
        (rulesAttr : String) (rs rs' : List SearchEntry), Reordered rulesAttr rs rs' →
      permissions (usersAfter plainStore ctx t (fun _ => true) username password
          (some (.ok (collectRules rulesAttr rs)))) username.aclName =
        permissions (usersAfter plainStore ctx t (fun _ => true) username password
          (some (.ok (collectRules rulesAttr rs')))) username.aclName := by
  intro h
  have hsame := h {} (fun _ => none) bob bob "valkeyACL" grantAndRevoke grantAndRevoke.reverse
    ⟨_, (List.reverse_perm _).symm, List.forall₂_same.mpr fun _ _ => List.Perm.refl _⟩
  revert hsame
  decide

/-! ### Duplicates -/

/-- The repetitions among the tokens are of no use: the groups they open are
closed, no argument holds a token twice or one of another argument, and every
repeated argument has an occurrence before it that nothing in between undoes. -/
structure Redundant (R : Acl.Rules ρ σ η) (toks : List String) : Prop where
  closed : (Acl.scan [] toks).2 = []
  apart : Apart (Acl.scan [] toks).1
  kept : RepeatsKept (Acl.applyGroup R) (Acl.scan [] toks).1

/-- **Removing duplicates changes nothing** where the default rules close the
groups they open, arguments share no token, and no repeated argument is undone
between its occurrences. -/
theorem duplicates_are_redundant (V : Store ρ σ η) (ctx : Configs) (t : Table ρ σ η)
    (valkey : Valkey) (username password : ValkeyString) (rulesAttr : String)
    (rs : List SearchEntry) (hdefault : (Acl.scan [] ctx.getDefaultAclRules).2 = [])
    (hrs : Redundant V.toRules (ruleTokens rulesAttr rs)) :
    usersAfter V ctx t valkey username password (some (.ok (collectRules rulesAttr rs))) =
        usersAfter V ctx t valkey username password (some (.ok (ruleTokens rulesAttr rs))) ∧
      (replyOn V ctx t valkey username password (some (.ok (collectRules rulesAttr rs)))).2 =
        (replyOn V ctx t valkey username password (some (.ok (ruleTokens rulesAttr rs)))).2 := by
  have hscan := scan_eraseDups (Prod.ext rfl hrs.closed) hrs.apart
  apply login_congr
  intro u
  unfold aclRules
  rw [collectRules_eq]
  apply Acl.setUser_congr
  · rw [scan_reset]
    exact hdefault
  · exact congrArg Prod.snd hscan
  · exact hrs.closed
  · intro v
    rw [hscan]
    exact foldlM_eraseDups hrs.kept v

/-- Two groups that grant the same command and the same selector. -/
def twoGroups : List SearchEntry :=
  [⟨[("valkeyACL", ["+get (+set ~c)"])]⟩, ⟨[("valkeyACL", ["~b +get (+set ~c)"])]⟩]

theorem scan_twoGroups : Acl.scan [] (ruleTokens "valkeyACL" twoGroups) =
    ([["+get"], ["(+set", "~c)"], ["~b"], ["+get"], ["(+set", "~c)"]], []) := by
  decide

theorem redundant_twoGroups :
    Redundant plainStore.toRules (ruleTokens "valkeyACL" twoGroups) := by
  have hget : ∀ u : User Granted Granted (List UInt8),
      Acl.applyGroup plainStore.toRules u ["+get"] =
        some { u with root := { u.root with commands := insert "get" u.root.commands } } :=
    fun _ => rfl
  have hkey : ∀ u : User Granted Granted (List UInt8),
      Acl.applyGroup plainStore.toRules u ["~b"] =
        some { u with root := { u.root with keys := insert "b" u.root.keys } } := fun _ => rfl
  have hsel : ∀ u : User Granted Granted (List UInt8),
      Acl.applyGroup plainStore.toRules u ["(+set", "~c)"] =
        some { u with selectors := insert { commands := {"set"}, keys := {"c"} } u.selectors } :=
    fun _ => rfl
  refine ⟨by rw [scan_twoGroups], ?_, ?_⟩
  · rw [scan_twoGroups]
    decide
  · intro before x after he hx
    rw [scan_twoGroups] at he
    rcases before with _ | ⟨a, _ | ⟨b, _ | ⟨c, _ | ⟨d, _ | ⟨e, before⟩⟩⟩⟩⟩
    all_goals simp only [List.cons_append, List.nil_append, List.cons.injEq] at he
    · cases hx
    · obtain ⟨rfl, rfl, -⟩ := he
      exact absurd hx (by decide)
    · obtain ⟨rfl, rfl, rfl, -⟩ := he
      exact absurd hx (by decide)
    · obtain ⟨rfl, rfl, rfl, rfl, -⟩ := he
      refine ⟨[], [["(+set", "~c)"], ["~b"]], rfl, fun u u' hu => ?_⟩
      simp only [List.foldlM_cons, List.foldlM_nil, hget, hkey, hsel, Option.bind_eq_bind,
        Option.bind_some, Option.pure_def, Option.some.injEq] at hu
      subst hu
      rw [hget]
      simp
    · obtain ⟨rfl, rfl, rfl, rfl, rfl, -⟩ := he
      refine ⟨[["+get"]], [["~b"], ["+get"]], rfl, fun u u' hu => ?_⟩
      simp only [List.foldlM_cons, List.foldlM_nil, hget, hkey, hsel, Option.bind_eq_bind,
        Option.bind_some, Option.pure_def, Option.some.injEq] at hu
      subst hu
      rw [hsel]
      simp
    · simp at he

theorem duplicates_are_redundant_twoGroups :
    usersAfter plainStore {} (fun _ => none) (fun _ => true) bob bob
        (some (.ok (collectRules "valkeyACL" twoGroups))) =
      usersAfter plainStore {} (fun _ => none) (fun _ => true) bob bob
        (some (.ok (ruleTokens "valkeyACL" twoGroups))) :=
  (duplicates_are_redundant plainStore {} _ _ bob bob "valkeyACL" twoGroups (by decide)
    redundant_twoGroups).1

/-- A grant, its revocation, and the grant again. -/
def grantedAgain : List SearchEntry := [⟨[("valkeyACL", ["+get", "-get", "+get"])]⟩]

theorem duplicate_changes_rights :
    ¬ ∀ (ctx : Configs) (t : Table Granted Granted (List UInt8)) (username password : ValkeyString)
        (rulesAttr : String) (rs : List SearchEntry),
      permissions (usersAfter plainStore ctx t (fun _ => true) username password
          (some (.ok (collectRules rulesAttr rs)))) username.aclName =
        permissions (usersAfter plainStore ctx t (fun _ => true) username password
          (some (.ok (ruleTokens rulesAttr rs)))) username.aclName := by
  intro h
  have hsame := h {} (fun _ => none) bob bob "valkeyACL" grantedAgain
  revert hsame
  decide

end Auth

end ValkeyLdap
