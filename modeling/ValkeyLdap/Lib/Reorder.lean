/-
# Order and duplicates

A list of operations is run from left to right; each may fail. What running
them does is the same for two orders, provided that the operations whose order
differs commute (`foldlM_reorder`), and it is the same without the duplicates,
provided that nothing between an operation and its repetition undoes it
(`foldlM_eraseDups`). If the operations come in parts whose order is arbitrary,
the order of two of them can differ only if one part has them in one order and
another the other way round (`parts_of_inverted`).

Key theorems: `foldlM_reorder`, `foldlM_eraseDups`, `parts_of_inverted`,
`eraseDups_flatten`.
-/
import Mathlib.Data.List.Basic
import Mathlib.Data.List.Induction
import Mathlib.Data.List.Nodup

namespace Reorder

variable {α β γ : Type*}

/-! ### First occurrences -/

section

variable [BEq α] [LawfulBEq α]

theorem filter_eraseDups (p : α → Bool) (l : List α) :
    l.eraseDups.filter p = (l.filter p).eraseDups := by
  induction hn : l.length using Nat.strongRecOn generalizing l with
  | ind n ih =>
    cases l with
    | nil => rfl
    | cons a l =>
      have hshort : (l.filter fun b => !b == a).length < n := by
        have := List.length_filter_le (fun b => !b == a) l
        rw [List.length_cons] at hn
        omega
      have ih := ih _ hshort _ rfl
      rw [List.filter_filter] at ih
      by_cases ha : p a = true
      · rw [List.eraseDups_cons, List.filter_cons_of_pos ha, List.filter_cons_of_pos ha,
          List.eraseDups_cons, ih, List.filter_filter]
        simp only [Bool.and_comm]
      · rw [List.eraseDups_cons, List.filter_cons_of_neg ha, List.filter_cons_of_neg ha, ih]
        congr 1
        apply List.filter_congr
        intro b _
        by_cases hba : b = a
        · simp [hba, ha]
        · simp [hba]

/-- What comes after an element is kept if it is another. -/
theorem eraseDups_cons_filter (a : α) (l : List α) :
    (a :: l).eraseDups = a :: l.eraseDups.filter fun b => !b == a := by
  rw [List.eraseDups_cons, filter_eraseDups]

theorem nodup_eraseDups (l : List α) : l.eraseDups.Nodup := by
  induction l with
  | nil => exact List.nodup_nil
  | cons b l ih =>
    rw [eraseDups_cons_filter, List.nodup_cons]
    exact ⟨by simp, ih.filter _⟩

theorem eraseDups_concat_of_mem {l : List α} {a : α} (h : a ∈ l) :
    (l ++ [a]).eraseDups = l.eraseDups := by
  simp [List.eraseDups_append, List.removeAll, h]

theorem eraseDups_concat_of_not_mem {l : List α} {a : α} (h : a ∉ l) :
    (l ++ [a]).eraseDups = l.eraseDups ++ [a] := by
  simp [List.eraseDups_append, List.removeAll, h, List.eraseDups_cons]

theorem eraseDups_eq_self {l : List α} (h : l.Nodup) : l.eraseDups = l := by
  induction l with
  | nil => rfl
  | cons a l ih =>
    obtain ⟨ha, hl⟩ := List.nodup_cons.mp h
    rw [eraseDups_cons_filter, ih hl, List.filter_eq_self.mpr]
    intro b hb
    have hba : b ≠ a := fun he => ha (he ▸ hb)
    simpa using hba

/-- Parts that hold nothing twice, and have nothing in common unless they are
equal. -/
def Apart (gs : List (List α)) : Prop :=
  ∀ g ∈ gs, g.Nodup ∧ ∀ g' ∈ gs, g' ≠ g → ∀ a ∈ g, a ∉ g'

instance [DecidableEq γ] (gs : List (List γ)) : Decidable (Apart gs) :=
  inferInstanceAs (Decidable (∀ g ∈ gs, g.Nodup ∧ ∀ g' ∈ gs, g' ≠ g → ∀ a ∈ g, a ∉ g'))

/-- To take the elements of a part out is to take the part out, if it has none
in common with the others. -/
theorem removeAll_flatten {g : List α} {gs : List (List α)}
    (h : ∀ g' ∈ gs, g' ≠ g → ∀ a ∈ g, a ∉ g') :
    gs.flatten.removeAll g = (gs.filter fun g' => !g' == g).flatten := by
  induction gs with
  | nil => rfl
  | cons g' gs ih =>
    have ih := ih fun u hu => h u (List.mem_cons_of_mem g' hu)
    unfold List.removeAll at ih ⊢
    rw [List.flatten_cons, List.filter_append, ih]
    by_cases hg : g' = g
    · subst hg
      simp
    · have hkeep : (g'.filter fun a => !g.elem a) = g' := by
        rw [List.filter_eq_self]
        intro a ha
        have hag : a ∉ g := fun hag => h g' List.mem_cons_self hg a hag ha
        simpa using hag
      rw [hkeep, List.filter_cons_of_pos (by simpa using hg), List.flatten_cons]

/-- The first occurrences of the elements are those of the parts. -/
theorem eraseDups_flatten {gs : List (List α)} (h : Apart gs) :
    gs.flatten.eraseDups = gs.eraseDups.flatten := by
  induction gs with
  | nil => rfl
  | cons g gs ih =>
    obtain ⟨hnodup, hother⟩ := h g List.mem_cons_self
    have ih : gs.flatten.eraseDups = gs.eraseDups.flatten := by
      apply ih
      intro u hu
      obtain ⟨hu', hapart⟩ := h u (List.mem_cons_of_mem g hu)
      exact ⟨hu', fun v hv => hapart v (List.mem_cons_of_mem g hv)⟩
    have hrest : ∀ g' ∈ gs.eraseDups, g' ≠ g → ∀ a ∈ g, a ∉ g' :=
      fun g' hg' => hother g' (List.mem_cons_of_mem g (List.mem_eraseDups.mp hg'))
    calc (g :: gs).flatten.eraseDups
        = g.eraseDups ++ (gs.flatten.removeAll g).eraseDups := List.eraseDups_append
      _ = g ++ (gs.flatten.removeAll g).eraseDups := by rw [eraseDups_eq_self hnodup]
      _ = g ++ gs.flatten.eraseDups.removeAll g :=
          congrArg (g ++ ·) (filter_eraseDups _ _).symm
      _ = g ++ (gs.eraseDups.filter fun g' => !g' == g).flatten := by
          rw [ih, removeAll_flatten hrest]
      _ = (g :: gs).eraseDups.flatten := by rw [eraseDups_cons_filter, List.flatten_cons]

end

/-! ### Reordering -/

/-- Two operations, in either order, do the same. -/
def Commute (f : β → α → Option β) (x y : α) : Prop :=
  ∀ b, (f b x).bind (f · y) = (f b y).bind (f · x)

theorem Commute.symm {f : β → α → Option β} {x y : α} (h : Commute f x y) : Commute f y x :=
  fun b => (h b).symm

theorem foldlM_move {f : β → α → Option β} {y : α} {p : List α} (h : ∀ x ∈ p, Commute f x y)
    (q : List α) (b : β) : (p ++ y :: q).foldlM f b = (y :: (p ++ q)).foldlM f b := by
  induction p generalizing b with
  | nil => rfl
  | cons x p ih =>
    have hx : Commute f x y := h x List.mem_cons_self
    have ih := ih fun z hz => h z (List.mem_cons_of_mem x hz)
    calc (x :: p ++ y :: q).foldlM f b
        = (f b x).bind fun c => (p ++ y :: q).foldlM f c := rfl
      _ = (f b x).bind fun c => (f c y).bind fun d => (p ++ q).foldlM f d := by simp only [ih]; rfl
      _ = ((f b x).bind (f · y)).bind fun d => (p ++ q).foldlM f d := (Option.bind_assoc ..).symm
      _ = ((f b y).bind (f · x)).bind fun d => (p ++ q).foldlM f d := by rw [hx b]
      _ = (f b y).bind fun c => (f c x).bind fun d => (p ++ q).foldlM f d := Option.bind_assoc ..

/-- **Reordering.** Running operations in two orders does the same, if those in
one order here and in the other there commute. -/
theorem foldlM_reorder {f : β → α → Option β} {l l' : List α} (hperm : l.Perm l') (hnodup : l.Nodup)
    (hcomm : ∀ x y, [x, y].Sublist l → [y, x].Sublist l' → Commute f x y) (b : β) :
    l.foldlM f b = l'.foldlM f b := by
  induction l' generalizing l b with
  | nil => rw [hperm.eq_nil]
  | cons y l' ih =>
    obtain ⟨p, q, rfl⟩ := List.append_of_mem (hperm.mem_iff.mpr List.mem_cons_self)
    have hrest : (p ++ q).Perm l' := (List.perm_middle.symm.trans hperm).cons_inv
    have hsub : (p ++ q).Sublist (p ++ y :: q) :=
      (List.Sublist.refl p).append (List.sublist_cons_self y q)
    have hmove : ∀ x ∈ p, Commute f x y := by
      intro x hx
      apply hcomm x y
      · exact (List.singleton_sublist.mpr hx).append (List.singleton_sublist.mpr List.mem_cons_self)
      · apply List.Sublist.cons_cons
        exact List.singleton_sublist.mpr (hrest.mem_iff.mp (List.mem_append_left q hx))
    rw [foldlM_move hmove, List.foldlM_cons, List.foldlM_cons]
    congr 1
    funext c
    exact ih hrest (hnodup.sublist hsub) (fun x z hx hz => hcomm x z (hx.trans hsub) (hz.cons y)) c

/-! ### Duplicates -/

/-- Nothing in `mid` undoes `x`: run after it once more, `x` changes nothing. -/
def Kept (f : β → α → Option β) (x : α) (mid : List α) : Prop :=
  ∀ b c, (x :: mid).foldlM f b = some c → f c x = some c

/-- Every repeated operation has an occurrence before it that nothing in between
undoes. -/
def RepeatsKept (f : β → α → Option β) (l : List α) : Prop :=
  ∀ before x after, l = before ++ x :: after → x ∈ before →
    ∃ pre mid, before = pre ++ x :: mid ∧ Kept f x mid

theorem foldlM_concat (f : β → α → Option β) (l : List α) (x : α) (b : β) :
    (l ++ [x]).foldlM f b = (l.foldlM f b).bind (f · x) := by
  rw [List.foldlM_append]
  simp

/-- **Without duplicates.** Running the first occurrences does the same. -/
theorem foldlM_eraseDups [BEq α] [LawfulBEq α] {f : β → α → Option β} {l : List α}
    (h : RepeatsKept f l) (b : β) : l.eraseDups.foldlM f b = l.foldlM f b := by
  induction l using List.reverseRecOn with
  | nil => rfl
  | append_singleton l x ih =>
    have ih := ih fun before y after he hy => h before y (after ++ [x]) (by rw [he]; simp) hy
    rw [foldlM_concat]
    by_cases hx : x ∈ l
    · rw [eraseDups_concat_of_mem hx, ih]
      -- the repeated operation changes nothing where it stands
      obtain ⟨pre, mid, he, hkept⟩ := h l x [] rfl hx
      cases hl : l.foldlM f b with
      | none => rfl
      | some c =>
        rw [he, List.foldlM_append] at hl
        obtain ⟨d, -, hd⟩ := Option.bind_eq_some_iff.mp hl
        exact (hkept d c hd).symm
    · rw [eraseDups_concat_of_not_mem hx, foldlM_concat, ih]

/-! ### Parts -/

section

variable [BEq α] [LawfulBEq α] {x y : α}

theorem idxOf_lt_of_sublist {l : List α} (h : [x, y].Sublist l.eraseDups) :
    l.idxOf x < l.idxOf y := by
  induction l with
  | nil => cases h
  | cons a l ih =>
    rw [eraseDups_cons_filter] at h
    have hne : ∀ {z : α}, z ∈ l.eraseDups.filter (fun b => !b == a) → a ≠ z := by
      rintro z hz rfl
      simp at hz
    cases h with
    | cons _ h =>
      have hx := hne (h.subset List.mem_cons_self)
      have hy := hne (h.subset (List.mem_cons_of_mem x List.mem_cons_self))
      rw [List.idxOf_cons_ne l hx, List.idxOf_cons_ne l hy]
      exact Nat.succ_lt_succ (ih (h.trans List.filter_sublist))
    | cons_cons _ h =>
      rw [List.idxOf_cons_self, List.idxOf_cons_ne l (hne (h.subset List.mem_cons_self))]
      exact Nat.succ_pos _

/-- What comes first in a row of parts comes first in one of them. -/
theorem exists_part_idxOf_lt {U : γ → List α} {vs : List γ}
    (h : (vs.flatMap U).idxOf x < (vs.flatMap U).idxOf y) :
    ∃ v ∈ vs, (U v).idxOf x < (U v).idxOf y := by
  induction vs with
  | nil => simp at h
  | cons v vs ih =>
    rw [List.flatMap_cons] at h
    by_cases hx : x ∈ U v
    · refine ⟨v, List.mem_cons_self, ?_⟩
      by_cases hy : y ∈ U v
      · rw [List.idxOf_append_of_mem hx, List.idxOf_append_of_mem hy] at h
        exact h
      · rw [List.idxOf_eq_length hy]
        exact List.idxOf_lt_length_of_mem hx
    · rw [List.idxOf_append_of_notMem hx] at h
      by_cases hy : y ∈ U v
      · rw [List.idxOf_append_of_mem hy] at h
        have := List.idxOf_lt_length_of_mem hy
        omega
      · rw [List.idxOf_append_of_notMem hy] at h
        obtain ⟨w, hw, hlt⟩ := ih (by omega)
        exact ⟨w, List.mem_cons_of_mem v hw, hlt⟩

/-- **What reordering parts can invert.** If two elements change their order
when parts are reordered, one part has them in one order, and one the other way
round. -/
theorem parts_of_inverted {U : γ → List α} {vs vs' : List γ} (hperm : vs.Perm vs')
    (hxy : [x, y].Sublist (vs.flatMap U).eraseDups)
    (hyx : [y, x].Sublist (vs'.flatMap U).eraseDups) :
    (∃ v ∈ vs, (U v).idxOf x < (U v).idxOf y) ∧ ∃ w ∈ vs, (U w).idxOf y < (U w).idxOf x := by
  obtain ⟨w, hw, hlt⟩ := exists_part_idxOf_lt (idxOf_lt_of_sublist hyx)
  exact ⟨exists_part_idxOf_lt (idxOf_lt_of_sublist hxy), w, hperm.mem_iff.mpr hw, hlt⟩

end

end Reorder
