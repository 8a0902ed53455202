/-
# Users and their rules

The access control of a key-value store, as far as its rule language is
documented. A user has local passwords, root permissions and selectors. A rule
command is a list of arguments, taken from left to right: an argument that
begins with a parenthesis and does not end with one begins a group, which goes
on to the next argument that ends with one and is a selector. A command that
fails at an argument, or leaves a group open, changes nothing.

What a rule allows is not said here: the effect of a rule on the root
permissions and the selector a group stands for are parameters (`Rules`).

Key theorems: `setUser_eq`, `setUser_congr`, `setUser_spec`,
`setUser_enabled`, `setUser_password`.
-/
import Mathlib.Data.Finset.Union
import ValkeyLdap.Lib.Utf8

namespace Acl

/-- A user: root permissions of type `ρ`, selectors of type `σ`, and passwords
kept as `η`. -/
structure User (ρ σ η : Type) where
  enabled : Bool
  nopass : Bool
  passwords : Finset η
  root : ρ
  selectors : Finset σ

/-- What the rules mean: the effect of one on the root permissions (`none` if
it is an error), the selector of a group, the root permissions of a user that
is reset, and how passwords are kept. -/
structure Rules (ρ σ η : Type) where
  root : String → ρ → Option ρ
  selector : List String → Option σ
  reset : ρ
  hash : List UInt8 → η
  hashed : String → Option η

/-! ### Arguments -/

inductive Kind
  | on
  | off
  | nopass
  | resetpass
  | addPassword (password : String)
  | addHash (hash : String)
  | removePassword (password : String)
  | removeHash (hash : String)
  | selector
  | clearselectors
  | reset
  | rule
  deriving DecidableEq, Repr

def closes (a : String) : Bool := a.toList.getLast? == some ')'

/-- The argument begins a group that goes on. -/
def begins (a : String) : Bool := a.toList.head? == some '(' && !closes a

/-- Keywords are read without regard to case. -/
def keyword (a : String) : Kind :=
  let word := String.ofList (a.toList.map Char.toLower)
  if word = "on" then .on
  else if word = "off" then .off
  else if word = "nopass" then .nopass
  else if word = "resetpass" then .resetpass
  else if word = "clearselectors" then .clearselectors
  else if word = "reset" then .reset
  else .rule

def kind (a : String) : Kind :=
  match a.toList with
  | '>' :: password => .addPassword (String.ofList password)
  | '#' :: hash => .addHash (String.ofList hash)
  | '<' :: password => .removePassword (String.ofList password)
  | '!' :: hash => .removeHash (String.ofList hash)
  | '(' :: _ => if closes a then .selector else .rule
  | _ => keyword a

/-- The groups that arguments form, and the one still open, after a group that
is open already. A single argument is a group of its own. -/
def scan : List String → List String → List (List String) × List String
  | g, [] => ([], g)
  | [], a :: as =>
    if begins a then scan [a] as
    else ([a] :: (scan [] as).1, (scan [] as).2)
  | b :: g, a :: as =>
    if closes a then ((b :: g ++ [a]) :: (scan [] as).1, (scan [] as).2)
    else scan (b :: g ++ [a]) as

/-- The groups of a command, unless one is left open. -/
def groups (args : List String) : Option (List (List String)) :=
  if (scan [] args).2 = [] then some (scan [] args).1 else none

/-! ### Groups -/

theorem groups_eq_some {args : List String} {gs : List (List String)} (h : groups args = some gs) :
    (scan [] args).1 = gs ∧ (scan [] args).2 = [] := by
  unfold groups at h
  by_cases hopen : (scan [] args).2 = []
  · rw [if_pos hopen] at h
    exact ⟨Option.some.inj h, hopen⟩
  · rw [if_neg hopen] at h
    cases h

theorem scan_append (as bs : List String) : ∀ g : List String, scan g (as ++ bs) =
    ((scan g as).1 ++ (scan (scan g as).2 bs).1, (scan (scan g as).2 bs).2) := by
  induction as with
  | nil => exact fun g => by simp [scan]
  | cons a as ih =>
    intro g
    cases g with
    | nil =>
      by_cases ha : begins a = true
      · simp only [List.cons_append, scan, if_pos ha, ih]
      · simp only [List.cons_append, scan, if_neg ha, ih]
    | cons b g =>
      by_cases ha : closes a = true
      · simp only [List.cons_append, scan, if_pos ha, ih]
      · simp only [List.cons_append, scan, if_neg ha, ih]

/-- The arguments are those of the groups and of the group still open. -/
theorem flatten_scan (as : List String) : ∀ g : List String,
    (scan g as).1.flatten ++ (scan g as).2 = g ++ as := by
  induction as with
  | nil => exact fun g => by simp [scan]
  | cons a as ih =>
    intro g
    cases g with
    | nil =>
      by_cases ha : begins a = true
      · simp only [scan, if_pos ha, ih, List.nil_append, List.singleton_append]
      · simp only [scan, if_neg ha, List.flatten_cons]
        rw [List.append_assoc, ih]
        rfl
    | cons b g =>
      by_cases ha : closes a = true
      · simp only [scan, if_pos ha, List.flatten_cons]
        rw [List.append_assoc, ih, List.nil_append, List.append_assoc]
        rfl
      · simp only [scan, if_neg ha, ih, List.append_assoc, List.singleton_append]

/-- The groups found are groups by themselves. -/
theorem scan_of_mem (as : List String) : ∀ g : List String, scan [] g = ([], g) →
    ∀ h ∈ (scan g as).1, h ≠ [] ∧ scan [] h = ([h], []) := by
  induction as with
  | nil => exact fun g _ h hh => by simp [scan] at hh
  | cons a as ih =>
    intro g hg h hh
    cases g with
    | nil =>
      by_cases ha : begins a = true
      · have hopen : scan [] [a] = ([], [a]) := by simp only [scan, if_pos ha]
        simp only [scan, if_pos ha] at hh
        exact ih [a] hopen h hh
      · simp only [scan, if_neg ha] at hh
        rcases List.mem_cons.mp hh with rfl | hh
        · exact ⟨List.cons_ne_nil a [], by simp only [scan, if_neg ha]⟩
        · exact ih [] rfl h hh
    | cons b g =>
      have happend : scan [] (b :: g ++ [a]) =
          ([] ++ (scan (b :: g) [a]).1, (scan (b :: g) [a]).2) := by rw [scan_append, hg]
      by_cases ha : closes a = true
      · simp only [scan, if_pos ha] at hh
        rcases List.mem_cons.mp hh with rfl | hh
        · refine ⟨List.cons_ne_nil _ _, happend.trans ?_⟩
          simp only [scan, if_pos ha, List.nil_append]
        · exact ih [] rfl h hh
      · simp only [scan, if_neg ha] at hh
        refine ih (b :: g ++ [a]) (happend.trans ?_) h hh
        simp only [scan, if_neg ha, List.nil_append]

theorem scan_flatten {gs : List (List String)} (h : ∀ g ∈ gs, scan [] g = ([g], [])) :
    scan [] gs.flatten = (gs, []) := by
  induction gs with
  | nil => rfl
  | cons g gs ih =>
    rw [List.flatten_cons, scan_append, h g List.mem_cons_self,
      ih fun g' hg' => h g' (List.mem_cons_of_mem g hg')]
    rfl

/-! ### Commands -/

/-- The bytes of an argument. -/
def bytes (a : String) : List UInt8 := Utf8.encode a.toList

section

variable {ρ σ η : Type} [DecidableEq σ] [DecidableEq η] (R : Rules ρ σ η)

/-- A user that has been given no rule yet. -/
def newUser : User ρ σ η := ⟨false, false, ∅, R.reset, ∅⟩

/-- Removing a password that is not there is an error. -/
def remove (u : User ρ σ η) (password : η) : Option (User ρ σ η) :=
  if password ∈ u.passwords then some { u with passwords := u.passwords.erase password } else none

def addSelector (u : User ρ σ η) (g : List String) : Option (User ρ σ η) :=
  (R.selector g).map fun s => { u with selectors := insert s u.selectors }

/-- What a single argument does to a user. -/
def applyArg (u : User ρ σ η) (a : String) : Option (User ρ σ η) :=
  match kind a with
  | .on => some { u with enabled := true }
  | .off => some { u with enabled := false }
  | .nopass => some { u with nopass := true, passwords := ∅ }
  | .resetpass => some { u with nopass := false, passwords := ∅ }
  | .addPassword p =>
    some { u with nopass := false, passwords := insert (R.hash (bytes p)) u.passwords }
  | .addHash h =>
    (R.hashed h).map fun x => { u with nopass := false, passwords := insert x u.passwords }
  | .removePassword p => remove u (R.hash (bytes p))
  | .removeHash h => (R.hashed h).bind (remove u)
  | .selector => addSelector R u [a]
  | .clearselectors => some { u with selectors := ∅ }
  | .reset => some (newUser R)
  | .rule => (R.root a u.root).map fun r => { u with root := r }

/-- What a group of arguments does to a user. -/
def applyGroup (u : User ρ σ η) : List String → Option (User ρ σ η)
  | [a] => applyArg R u a
  | g => addSelector R u g

omit [DecidableEq η] in
theorem addSelector_none {u : User ρ σ η} {g : List String} (h : R.selector g = none) :
    addSelector R u g = none := by
  rw [addSelector, h]
  rfl

theorem applyGroup_of_two_le {u : User ρ σ η} {g : List String} (h : 2 ≤ g.length) :
    applyGroup R u g = addSelector R u g := by
  match g, h with
  | _ :: _ :: _, _ => rfl

/-- One argument, with the group that is open. -/
def read : User ρ σ η × List String → String → Option (User ρ σ η × List String)
  | (u, []), a => if begins a then some (u, [a]) else (applyGroup R u [a]).map (·, [])
  | (u, b :: g), a =>
    if closes a then (applyGroup R u (b :: g ++ [a])).map (·, []) else some (u, b :: g ++ [a])

theorem read_open {u : User ρ σ η} {g : List String} (h : g ≠ []) (a : String) :
    read R (u, g) a =
      if closes a then (applyGroup R u (g ++ [a])).map (·, []) else some (u, g ++ [a]) := by
  cases g with
  | nil => exact absurd rfl h
  | cons b g => rfl

/-- **The rule command**: all arguments, from left to right, or none. -/
def setUser (u : User ρ σ η) (args : List String) : Option (User ρ σ η) :=
  (args.foldlM (read R) (u, [])).bind fun s => if s.2 = [] then some s.1 else none

/-- Whether a password opens the user. -/
def accepts (u : User ρ σ η) (password : List UInt8) : Bool :=
  u.enabled && (u.nopass || R.hash password ∈ u.passwords)

/-! ### Group by group -/

/-- Reading the arguments is applying their groups. -/
theorem foldlM_read (args : List String) : ∀ (u : User ρ σ η) (g : List String),
    args.foldlM (read R) (u, g) =
      ((scan g args).1.foldlM (applyGroup R) u).map fun u' => (u', (scan g args).2) := by
  induction args with
  | nil => exact fun u g => by simp [scan]
  | cons a args ih =>
    intro u g
    cases g with
    | nil =>
      by_cases ha : begins a = true
      · simp only [List.foldlM_cons, read, scan, if_pos ha]
        exact ih u [a]
      · simp only [List.foldlM_cons, read, scan, if_neg ha]
        cases applyGroup R u [a] with
        | none => rfl
        | some u' => exact ih u' []
    | cons b g =>
      by_cases ha : closes a = true
      · simp only [List.foldlM_cons, read, scan, if_pos ha]
        cases applyGroup R u (b :: g ++ [a]) with
        | none => rfl
        | some u' => exact ih u' []
      · simp only [List.foldlM_cons, read, scan, if_neg ha]
        exact ih u _

theorem setUser_eq (u : User ρ σ η) (args : List String) :
    setUser R u args = (groups args).bind fun gs => gs.foldlM (applyGroup R) u := by
  unfold setUser groups
  rw [foldlM_read]
  by_cases h : (scan [] args).2 = []
  · rw [if_pos h, Option.bind_some]
    cases (scan [] args).1.foldlM (applyGroup R) u with
    | none => simp
    | some u' => simp [h]
  · rw [if_neg h]
    cases (scan [] args).1.foldlM (applyGroup R) u with
    | none => simp
    | some u' => simp [h]

/-- Arguments in the midst of a command may be replaced by others that form
whole groups and do the same. -/
theorem setUser_congr {pre mid mid' : List String} (hpre : (scan [] pre).2 = [])
    (hmid : (scan [] mid).2 = []) (hmid' : (scan [] mid').2 = [])
    (h : ∀ u, (scan [] mid).1.foldlM (applyGroup R) u = (scan [] mid').1.foldlM (applyGroup R) u)
    (u : User ρ σ η) (post : List String) :
    setUser R u (pre ++ mid ++ post) = setUser R u (pre ++ mid' ++ post) := by
  have hread : (pre ++ mid).foldlM (read R) (u, []) = (pre ++ mid').foldlM (read R) (u, []) := by
    rw [List.foldlM_append, List.foldlM_append, foldlM_read, hpre]
    cases (scan [] pre).1.foldlM (applyGroup R) u with
    | none => rfl
    | some v =>
      show mid.foldlM (read R) (v, []) = mid'.foldlM (read R) (v, [])
      rw [foldlM_read, foldlM_read, hmid, hmid', h v]
  unfold setUser
  rw [List.foldlM_append, hread, ← List.foldlM_append]

/-! ### Root permissions and selectors -/

/-- What a group does to the root permissions. -/
def rootGroup (r : ρ) : List String → Option ρ
  | [a] => if kind a = .reset then some R.reset else if kind a = .rule then R.root a r else some r
  | _ => some r

/-- The group takes all selectors away. -/
def clears : List String → Bool
  | [a] => kind a == .clearselectors || kind a == .reset
  | _ => false

/-- The selectors that a group adds. -/
def added : List String → Finset σ
  | [a] => if kind a = .selector then (R.selector [a]).elim ∅ singleton else ∅
  | g => (R.selector g).elim ∅ singleton

omit [DecidableEq σ] in
theorem remove_eq_some {u u' : User ρ σ η} {x : η} (h : remove u x = some u') :
    u' = { u with passwords := u.passwords.erase x } := by
  unfold remove at h
  by_cases hx : x ∈ u.passwords
  · rw [if_pos hx] at h
    exact (Option.some.inj h).symm
  · rw [if_neg hx] at h
    cases h

omit [DecidableEq η] in
theorem addSelector_spec {u u' : User ρ σ η} {g : List String} (h : addSelector R u g = some u') :
    u'.root = u.root ∧ u'.selectors = u.selectors ∪ (R.selector g).elim ∅ singleton := by
  obtain ⟨s, hs, rfl⟩ := Option.map_eq_some_iff.mp h
  rw [hs]
  exact ⟨rfl, (Finset.insert_eq s u.selectors).trans (Finset.union_comm _ _)⟩

/-- What a group does to the root permissions and the selectors. -/
theorem applyGroup_spec {u u' : User ρ σ η} {g : List String} (h : applyGroup R u g = some u') :
    rootGroup R u.root g = some u'.root ∧
      u'.selectors = (if clears g then ∅ else u.selectors) ∪ added R g := by
  match g, h with
  | [], h =>
    obtain ⟨hr, hs⟩ := addSelector_spec R h
    exact ⟨by rw [hr]; rfl, hs⟩
  | a :: b :: g, h =>
    obtain ⟨hr, hs⟩ := addSelector_spec R h
    exact ⟨by rw [hr]; rfl, hs⟩
  | [a], h =>
    have h : applyArg R u a = some u' := h
    obtain ⟨k, hk⟩ : ∃ k, kind a = k := ⟨_, rfl⟩
    simp only [applyArg, rootGroup, clears, added, hk] at h ⊢
    cases k with
    | on | off | nopass | resetpass | addPassword p | clearselectors =>
      obtain rfl := Option.some.inj h
      simp
    | reset =>
      obtain rfl := Option.some.inj h
      simp [newUser]
    | addHash hash =>
      obtain ⟨x, -, rfl⟩ := Option.map_eq_some_iff.mp h
      simp
    | removePassword p =>
      obtain rfl := remove_eq_some h
      simp
    | removeHash hash =>
      obtain ⟨x, -, hx⟩ := Option.bind_eq_some_iff.mp h
      obtain rfl := remove_eq_some hx
      simp
    | selector =>
      obtain ⟨hr, hs⟩ := addSelector_spec R h
      simp [hr, hs]
    | rule =>
      obtain ⟨r, hr, rfl⟩ := Option.map_eq_some_iff.mp h
      simp [hr]

/-- The selectors after groups, from the selectors before. -/
def selectorsAfter (gs : List (List String)) (S : Finset σ) : Finset σ :=
  gs.foldl (fun S g => (if clears g then ∅ else S) ∪ added R g) S

theorem foldlM_applyGroup_spec {gs : List (List String)} : ∀ {u u' : User ρ σ η},
    gs.foldlM (applyGroup R) u = some u' →
      gs.foldlM (rootGroup R) u.root = some u'.root ∧
        u'.selectors = selectorsAfter R gs u.selectors := by
  induction gs with
  | nil =>
    intro u u' h
    obtain rfl := Option.some.inj h
    exact ⟨rfl, rfl⟩
  | cons g gs ih =>
    intro u u' h
    obtain ⟨v, hv, h⟩ := Option.bind_eq_some_iff.mp h
    obtain ⟨hroot, hsel⟩ := applyGroup_spec R hv
    obtain ⟨hroot', hsel'⟩ := ih h
    refine ⟨?_, ?_⟩
    · rw [List.foldlM_cons, hroot]
      exact hroot'
    · rw [hsel', hsel]
      rfl

omit [DecidableEq η] in
/-- What a group that takes all selectors away leaves does not depend on the
selectors before it, and all others add to them. -/
theorem selectorsAfter_eq (gs : List (List String)) : ∀ S : Finset σ,
    selectorsAfter R gs S = (if gs.any clears then ∅ else S) ∪ selectorsAfter R gs ∅ := by
  induction gs with
  | nil => exact fun S => by simp [selectorsAfter]
  | cons g gs ih =>
    intro S
    have hcons : ∀ S, selectorsAfter R (g :: gs) S =
        selectorsAfter R gs ((if clears g then ∅ else S) ∪ added R g) := fun _ => rfl
    rw [hcons, hcons, ih ((if clears g then ∅ else S) ∪ _), ih ((if clears g then ∅ else ∅) ∪ _)]
    by_cases hg : clears g = true
    · simp [hg]
    · by_cases hgs : gs.any clears = true
      · simp [hgs]
      · simp [hg, hgs, Finset.union_assoc]

theorem setUser_spec {u u' : User ρ σ η} {args : List String} (h : setUser R u args = some u') :
    ∃ gs, groups args = some gs ∧ gs.foldlM (rootGroup R) u.root = some u'.root ∧
      u'.selectors = selectorsAfter R gs u.selectors := by
  rw [setUser_eq] at h
  obtain ⟨gs, hgs, h⟩ := Option.bind_eq_some_iff.mp h
  exact ⟨gs, hgs, foldlM_applyGroup_spec R h⟩

/-! ### On and off -/

/-- Whether a user is on after a group. -/
def onAfter (enabled : Bool) : List String → Bool
  | [a] => if kind a = .on then true else if kind a = .off ∨ kind a = .reset then false else enabled
  | _ => enabled

/-- The group turns the user on or off. -/
def turns : List String → Bool
  | [a] => kind a == .on || kind a == .off || kind a == .reset
  | _ => false

omit [DecidableEq η] in
theorem addSelector_enabled {u u' : User ρ σ η} {g : List String} (h : addSelector R u g = some u') :
    u'.enabled = u.enabled := by
  obtain ⟨s, -, rfl⟩ := Option.map_eq_some_iff.mp h
  rfl

theorem applyGroup_enabled {u u' : User ρ σ η} {g : List String} (h : applyGroup R u g = some u') :
    u'.enabled = onAfter u.enabled g := by
  match g, h with
  | [], h => exact addSelector_enabled R h
  | a :: b :: g, h => exact addSelector_enabled R h
  | [a], h =>
    have h : applyArg R u a = some u' := h
    obtain ⟨k, hk⟩ : ∃ k, kind a = k := ⟨_, rfl⟩
    simp only [applyArg, onAfter, hk] at h ⊢
    cases k with
    | on | off | nopass | resetpass | addPassword p | clearselectors | reset =>
      obtain rfl := Option.some.inj h
      simp [newUser]
    | addHash hash =>
      obtain ⟨x, -, rfl⟩ := Option.map_eq_some_iff.mp h
      simp
    | removePassword p =>
      obtain rfl := remove_eq_some h
      simp
    | removeHash hash =>
      obtain ⟨x, -, hx⟩ := Option.bind_eq_some_iff.mp h
      obtain rfl := remove_eq_some hx
      simp
    | selector => simp [addSelector_enabled R h]
    | rule =>
      obtain ⟨r, -, rfl⟩ := Option.map_eq_some_iff.mp h
      simp

theorem foldlM_applyGroup_enabled {gs : List (List String)} : ∀ {u u' : User ρ σ η},
    gs.foldlM (applyGroup R) u = some u' → u'.enabled = gs.foldl onAfter u.enabled := by
  induction gs with
  | nil =>
    intro u u' h
    obtain rfl := Option.some.inj h
    rfl
  | cons g gs ih =>
    intro u u' h
    obtain ⟨v, hv, h⟩ := Option.bind_eq_some_iff.mp h
    rw [ih h, applyGroup_enabled R hv]
    rfl

theorem setUser_enabled {u u' : User ρ σ η} {args : List String} (h : setUser R u args = some u') :
    u'.enabled = (scan [] args).1.foldl onAfter u.enabled := by
  rw [setUser_eq] at h
  obtain ⟨gs, hgs, h⟩ := Option.bind_eq_some_iff.mp h
  rw [(groups_eq_some hgs).1]
  exact foldlM_applyGroup_enabled R h

theorem onAfter_of_turns {g : List String} (h : turns g = true) (enabled enabled' : Bool) :
    onAfter enabled g = onAfter enabled' g := by
  match g, h with
  | [a], h =>
    simp only [turns, Bool.or_eq_true, beq_iff_eq] at h
    rcases h with (h | h) | h
    all_goals simp [onAfter, h]

/-- A group that turns the user on or off settles it, whatever was before. -/
theorem foldl_onAfter {gs : List (List String)} (h : gs.any turns = true) (enabled enabled' : Bool) :
    gs.foldl onAfter enabled = gs.foldl onAfter enabled' := by
  induction gs generalizing enabled enabled' with
  | nil => cases h
  | cons g gs ih =>
    rw [List.foldl_cons, List.foldl_cons]
    by_cases hg : turns g = true
    · rw [onAfter_of_turns hg enabled enabled']
    · exact ih (by simpa [hg] using h) _ _

/-! ### Passwords -/

theorem kind_password (p : String) : kind (">" ++ p) = .addPassword p := by
  have hlist : (">" ++ p).toList = '>' :: p.toList := by simp
  unfold kind
  rw [hlist]
  simp

theorem begins_password (p : String) : begins (">" ++ p) = false := by
  have hlist : (">" ++ p).toList = '>' :: p.toList := by simp
  unfold begins
  rw [hlist]
  rfl

/-- **The last word on passwords.** A command that ends by taking all passwords
away and adding one leaves just that one, provided that no selector can hold the
keyword. -/
theorem setUser_password (hselector : ∀ g, "resetpass" ∈ g → R.selector g = none)
    {u u' : User ρ σ η} {args : List String} {p : String}
    (h : setUser R u (args ++ ["resetpass", ">" ++ p]) = some u') :
    u'.nopass = false ∧ u'.passwords = {R.hash (bytes p)} := by
  unfold setUser at h
  rw [List.foldlM_append] at h
  obtain ⟨⟨u₁, open₁⟩, h, hclosed⟩ := Option.bind_eq_some_iff.mp h
  obtain ⟨⟨v, g⟩, -, h⟩ := Option.bind_eq_some_iff.mp h
  cases g with
  | nil =>
    have hreset : read R (v, []) "resetpass" = some ({ v with nopass := false, passwords := ∅ }, []) :=
      rfl
    have hpassword : ∀ w : User ρ σ η, read R (w, []) (">" ++ p) =
        some ({ w with nopass := false, passwords := insert (R.hash (bytes p)) w.passwords }, []) := by
      intro w
      simp only [read, begins_password, applyGroup, applyArg, kind_password]
      rfl
    simp only [List.foldlM_cons, List.foldlM_nil, hreset, hpassword, Option.bind_eq_bind,
      Option.bind_some, Option.pure_def, Option.some.injEq, Prod.mk.injEq] at h
    obtain ⟨rfl, rfl⟩ := h
    obtain rfl := Option.some.inj hclosed
    exact ⟨rfl, rfl⟩
  | cons b g =>
    -- the keyword is taken into the group that is open
    have hreset : read R (v, b :: g) "resetpass" = some (v, b :: g ++ ["resetpass"]) := rfl
    simp only [List.foldlM_cons, List.foldlM_nil, hreset, Option.bind_eq_bind, Option.bind_some,
      Option.pure_def] at h
    have hgroup : applyGroup R v (b :: g ++ ["resetpass"] ++ [">" ++ p]) = none := by
      rw [applyGroup_of_two_le R (by simp)]
      exact addSelector_none R (hselector _ (by simp))
    rw [read_open R (by simp), hgroup] at h
    by_cases hp : closes (">" ++ p) = true
    · rw [if_pos hp] at h
      cases h
    · rw [if_neg hp] at h
      obtain ⟨rfl, rfl⟩ := Prod.mk.inj (Option.some.inj h)
      cases hclosed

/-! ### The table of users -/

/-- A store: its rules, the names that users may have, and the users that may
be deleted. -/
structure Store (ρ σ η : Type) extends Rules ρ σ η where
  validName : List UInt8 → Bool
  deletable : List UInt8 → Bool

/-- The users, by name. -/
abbrev Table (ρ σ η : Type) := List UInt8 → Option (User ρ σ η)

variable (V : Store ρ σ η) (t : Table ρ σ η) (name : List UInt8)

/-- The user that a rule command changes: the one there is, or a new one. -/
def Table.userOrNew : User ρ σ η := (t name).getD (newUser V.toRules)

/-- The rule command, on the table. `none` is an error. -/
def Store.setUser (args : List String) : Option (Table ρ σ η) :=
  if V.validName name then
    (Acl.setUser V.toRules (t.userOrNew V name) args).map fun u => Function.update t name (some u)
  else none

/-- Deletion. A user that is not there is no error. -/
def Store.delUser : Option (Table ρ σ η) :=
  if V.deletable name then some (Function.update t name none) else none

variable {V t name}

theorem Store.setUser_eq_some {args : List String} {t' : Table ρ σ η}
    (h : V.setUser t name args = some t') :
    ∃ u, Acl.setUser V.toRules (t.userOrNew V name) args = some u ∧
      t' = Function.update t name (some u) := by
  unfold Store.setUser at h
  by_cases hv : V.validName name = true
  · rw [if_pos hv] at h
    obtain ⟨u, hu, rfl⟩ := Option.map_eq_some_iff.mp h
    exact ⟨u, hu, rfl⟩
  · rw [if_neg hv] at h
    cases h

omit [DecidableEq σ] [DecidableEq η] in
theorem Store.delUser_eq_some {t' : Table ρ σ η} (h : V.delUser t name = some t') :
    t' = Function.update t name none := by
  unfold Store.delUser at h
  by_cases hd : V.deletable name = true
  · rw [if_pos hd] at h
    exact (Option.some.inj h).symm
  · rw [if_neg hd] at h
    cases h

end
end Acl
