/-
# Pieces of a list, and the order in which they first occur

Splitting a list where a predicate holds gives its maximal nonempty pieces
free of the predicate (`mem_piecesFrom`), from left to right
(`sorted_piecesFrom`). `placed` collects the parts of every element of a list,
each at the place of the element followed by its own; nested, it reads a table
row by row.

Where things are listed by place, each at its first occurrence stands before
all those that first occur later (`first_eraseDups`).

Key theorems: `mem_piecesFrom`, `sorted_placed`, `first_eraseDups`.
-/
import Mathlib.Data.Prod.Lex
import ValkeyLdap.Lib.Reorder

namespace Pieces

variable {α β κ : Type*}

/-! ### Pieces -/

/-- `w` is a maximal nonempty piece of `l` free of `p`, and begins at `k`. -/
structure Piece (p : α → Bool) (l : List α) (k : ℕ) (w : List α) : Prop where
  nonempty : w ≠ []
  free : ∀ a ∈ w, p a = false
  maximal : ∃ pre post, l = pre ++ w ++ post ∧ pre.length = k ∧
    (∀ a ∈ pre.getLast?, p a = true) ∧ ∀ a ∈ post.head?, p a = true

variable {p : α → Bool} {l w : List α} {k : ℕ}

theorem piece_of_free (hl : ∀ a ∈ l, p a = false) : Piece p l k w ↔ l ≠ [] ∧ k = 0 ∧ w = l := by
  constructor
  · rintro ⟨hne, -, pre, post, rfl, rfl, hpre, hpost⟩
    have hpre : pre = [] := by
      rw [← List.getLast?_eq_none_iff, Option.eq_none_iff_forall_ne_some]
      intro a ha
      have := hl a (List.mem_append_left _ (List.mem_append_left _ (List.mem_of_getLast? ha)))
      rw [hpre a ha] at this
      cases this
    have hpost : post = [] := by
      rw [← List.head?_eq_none_iff, Option.eq_none_iff_forall_ne_some]
      intro a ha
      have := hl a (List.mem_append_right _ (List.mem_of_head? ha))
      rw [hpost a ha] at this
      cases this
    subst hpre hpost
    simpa using hne
  · rintro ⟨hne, rfl, rfl⟩
    exact ⟨hne, hl, [], [], by simp, rfl, by simp, by simp⟩

/-- The pieces of two lists with an element of `p` between them are those of
each. -/
theorem piece_append_cons {u : List α} {a : α} (ha : p a = true) :
    Piece p (u ++ a :: l) k w ↔ Piece p u k w ∨ ∃ i, k = u.length + 1 + i ∧ Piece p l i w := by
  constructor
  · rintro ⟨hne, hfree, pre, post, he, rfl, hpre, hpost⟩
    have haw : a ∉ w := by
      intro hmem
      rw [hfree a hmem] at ha
      cases ha
    rcases List.append_eq_append_iff.mp he with ⟨c, hc, hpost'⟩ | ⟨c, hc, hpost'⟩
    · cases c with
      | nil => exact Or.inl ⟨hne, hfree, pre, [], by simpa using hc.symm, rfl, hpre, by simp⟩
      | cons b c =>
        obtain ⟨rfl, rfl⟩ := List.cons.inj hpost'
        rcases List.append_eq_append_iff.mp hc with ⟨d, rfl, hd⟩ | ⟨d, rfl, hd⟩
        · exact absurd (hd ▸ List.mem_append_right d List.mem_cons_self) haw
        · cases d with
          | nil =>
            have hd : a :: c = w := hd
            exact absurd (hd ▸ List.mem_cons_self) haw
          | cons b d =>
            obtain ⟨rfl, rfl⟩ := List.cons.inj hd
            have hlen : (u ++ a :: d).length = u.length + 1 + d.length := by
              rw [List.length_append, List.length_cons]
              omega
            refine Or.inr ⟨d.length, hlen, hne, hfree, d, post, rfl, rfl, fun x hx => hpre x ?_, hpost⟩
            rw [List.getLast?_append, List.getLast?_cons, Option.mem_def.mp hx]
            rfl
    · refine Or.inl ⟨hne, hfree, pre, c, hc, rfl, hpre, fun x hx => hpost x ?_⟩
      rw [hpost', List.head?_append, Option.mem_def.mp hx]
      rfl
  · rintro (⟨hne, hfree, pre, post, rfl, rfl, hpre, hpost⟩ |
      ⟨i, rfl, hne, hfree, pre, post, rfl, rfl, hpre, hpost⟩)
    · refine ⟨hne, hfree, pre, post ++ a :: l, by simp, rfl, hpre, fun x hx => ?_⟩
      cases post with
      | nil =>
        obtain rfl : a = x := by simpa using hx
        exact ha
      | cons b post => exact hpost x hx
    · refine ⟨hne, hfree, u ++ a :: pre, post, by simp, by simp; omega, fun x hx => ?_, hpost⟩
      cases pre with
      | nil =>
        obtain rfl : a = x := by simpa using hx
        exact ha
      | cons b pre => exact hpre x (by simpa using hx)

/-- A list is free of `p`, or two lists with an element of `p` between them. -/
theorem cut_induction (p : α → Bool) {motive : List α → Prop}
    (free : ∀ l, (∀ a ∈ l, p a = false) → motive l)
    (cut : ∀ u a l, p a = true → motive u → motive l → motive (u ++ a :: l)) (l : List α) :
    motive l := by
  induction hn : l.length using Nat.strongRecOn generalizing l with
  | ind n ih =>
    by_cases hl : ∀ a ∈ l, p a = false
    · exact free l hl
    · simp only [not_forall, Bool.not_eq_false] at hl
      obtain ⟨a, hmem, ha⟩ := hl
      obtain ⟨u, v, rfl⟩ := List.append_of_mem hmem
      simp only [List.length_append, List.length_cons] at hn
      exact cut u a v ha (ih _ (by omega) u rfl) (ih _ (by omega) v rfl)

/-- The parts with the places at which they begin, one element apart. -/
def offsets : ℕ → List (List α) → List (ℕ × List α)
  | _, [] => []
  | k, w :: ws => (k, w) :: offsets (k + w.length + 1) ws

/-- The nonempty parts between the elements of `p`, with their places. -/
def piecesFrom (p : α → Bool) (k : ℕ) (l : List α) : List (ℕ × List α) :=
  (offsets k (l.splitOnP p)).filter (!·.2.isEmpty)

theorem map_snd_offsets (k : ℕ) (ws : List (List α)) : (offsets k ws).map Prod.snd = ws := by
  induction ws generalizing k with
  | nil => rfl
  | cons w ws ih => rw [offsets, List.map_cons, ih]

/-- The place after the parts. -/
def placeAfter : ℕ → List (List α) → ℕ
  | k, [] => k
  | k, w :: ws => placeAfter (k + w.length + 1) ws

theorem placeAfter_append (k : ℕ) (ws ws' : List (List α)) :
    placeAfter k (ws ++ ws') = placeAfter (placeAfter k ws) ws' := by
  induction ws generalizing k with
  | nil => rfl
  | cons w ws ih => exact ih _

theorem offsets_append (k : ℕ) (ws ws' : List (List α)) :
    offsets k (ws ++ ws') = offsets k ws ++ offsets (placeAfter k ws) ws' := by
  induction ws generalizing k with
  | nil => rfl
  | cons w ws ih =>
    show (k, w) :: offsets _ (ws ++ ws') = (k, w) :: (offsets _ ws ++ offsets _ ws')
    rw [ih]
    rfl

theorem placeAfter_splitOnP (p : α → Bool) (k : ℕ) (l : List α) :
    placeAfter k (l.splitOnP p) = k + l.length + 1 := by
  induction l using cut_induction p generalizing k with
  | free l hl =>
    rw [List.splitOnP_eq_singleton hl]
    rfl
  | cut u a l ha hu hl =>
    rw [List.splitOnP_append_cons u l ha, placeAfter_append, hu, hl, List.length_append,
      List.length_cons]
    omega

theorem piecesFrom_append_cons {u : List α} {a : α} (ha : p a = true) :
    piecesFrom p k (u ++ a :: l) = piecesFrom p k u ++ piecesFrom p (k + u.length + 1) l := by
  unfold piecesFrom
  rw [List.splitOnP_append_cons u l ha, offsets_append, placeAfter_splitOnP, List.filter_append]

theorem map_snd_piecesFrom (p : α → Bool) (k : ℕ) (l : List α) :
    (piecesFrom p k l).map Prod.snd = (l.splitOnP p).filter (!·.isEmpty) := by
  have h := congrArg (List.filter (!·.isEmpty)) (map_snd_offsets k (l.splitOnP p))
  rw [List.filter_map] at h
  exact h

/-- **Splitting finds the maximal pieces**, and where they begin. -/
theorem mem_piecesFrom {x : ℕ} : (x, w) ∈ piecesFrom p k l ↔ ∃ i, x = k + i ∧ Piece p l i w := by
  induction l using cut_induction p generalizing k x with
  | free l hl =>
    simp only [piece_of_free hl]
    unfold piecesFrom
    rw [List.splitOnP_eq_singleton hl, offsets, offsets, List.mem_filter, List.mem_singleton,
      Prod.mk.injEq]
    constructor
    · rintro ⟨⟨rfl, rfl⟩, hne⟩
      exact ⟨0, rfl, by simpa using hne, rfl, rfl⟩
    · rintro ⟨i, rfl, hne, rfl, rfl⟩
      exact ⟨⟨rfl, rfl⟩, by simpa using hne⟩
  | cut u a l ha hu hl =>
    simp only [piece_append_cons ha]
    rw [piecesFrom_append_cons ha, List.mem_append, hu, hl]
    constructor
    · rintro (⟨i, rfl, hi⟩ | ⟨i, rfl, hi⟩)
      · exact ⟨i, rfl, Or.inl hi⟩
      · exact ⟨u.length + 1 + i, by omega, Or.inr ⟨i, rfl, hi⟩⟩
    · rintro ⟨_, rfl, hi | ⟨i, rfl, hi⟩⟩
      · exact Or.inl ⟨_, rfl, hi⟩
      · exact Or.inr ⟨i, by omega, hi⟩

theorem mem_pieces : w ∈ (l.splitOnP p).filter (!·.isEmpty) ↔ ∃ k, Piece p l k w := by
  rw [← map_snd_piecesFrom p 0]
  simp only [List.mem_map, Prod.exists, exists_eq_right, mem_piecesFrom, Nat.zero_add,
    exists_eq_left']

theorem le_of_mem_offsets {ws : List (List α)} {x : ℕ × List α} (h : x ∈ offsets k ws) :
    k ≤ x.1 := by
  induction ws generalizing k with
  | nil => cases h
  | cons w ws ih =>
    rcases List.mem_cons.mp h with rfl | h
    · exact Nat.le_refl k
    · have := ih h
      omega

/-- Listed by place, with nothing at the same place twice. -/
def Sorted [LT κ] (xs : List (κ × β)) : Prop := xs.Pairwise fun x y => x.1 < y.1

theorem sorted_offsets (k : ℕ) (ws : List (List α)) : Sorted (offsets k ws) := by
  induction ws generalizing k with
  | nil => exact List.Pairwise.nil
  | cons w ws ih =>
    refine List.Pairwise.cons (fun x hx => ?_) (ih _)
    have := le_of_mem_offsets hx
    show k < x.1
    omega

theorem sorted_piecesFrom (p : α → Bool) (k : ℕ) (l : List α) : Sorted (piecesFrom p k l) :=
  (sorted_offsets k _).filter _

/-! ### Places -/

/-- The parts of every element: each at the place of the element, then at its
own. -/
def placed (f : α → List (κ × β)) (l : List α) : List ((ℕ ×ₗ κ) × β) :=
  l.zipIdx.flatMap fun a => (f a.1).map fun x => (toLex (a.2, x.1), x.2)

variable {f : α → List (κ × β)}

theorem mem_placed {i : ℕ} {x : κ} {b : β} :
    (toLex (i, x), b) ∈ placed f l ↔ ∃ a, l[i]? = some a ∧ (x, b) ∈ f a := by
  unfold placed
  simp only [List.mem_flatMap, List.mem_map, Prod.exists, List.mk_mem_zipIdx_iff_getElem?]
  constructor
  · rintro ⟨a, j, ha, y, c, hc, he⟩
    simp only [Prod.mk.injEq, EmbeddingLike.apply_eq_iff_eq] at he
    obtain ⟨⟨rfl, rfl⟩, rfl⟩ := he
    exact ⟨a, ha, hc⟩
  · rintro ⟨a, ha, hb⟩
    exact ⟨a, i, ha, x, b, hb, rfl⟩

theorem map_snd_placed (f : α → List (κ × β)) (l : List α) :
    (placed f l).map Prod.snd = l.flatMap fun a => (f a).map Prod.snd := by
  have hfst : l.flatMap (fun a => (f a).map Prod.snd) =
      l.zipIdx.flatMap fun a => (f a.1).map Prod.snd := by
    conv_lhs => rw [← List.zipIdx_map_fst 0 l, List.flatMap_map]
  rw [hfst, placed, List.map_flatMap]
  congr 1
  funext a
  rw [List.map_map]
  rfl

/-- **Parts listed by place, element by element, are listed by place.** -/
theorem sorted_placed [Preorder κ] (hf : ∀ a ∈ l, Sorted (f a)) : Sorted (placed f l) := by
  unfold Sorted placed
  rw [List.pairwise_flatMap]
  constructor
  · rintro ⟨a, i⟩ ha
    rw [List.pairwise_map]
    refine (hf a (List.fst_mem_of_mem_zipIdx ha)).imp fun {x y} hxy => ?_
    exact Prod.Lex.toLex_lt_toLex.mpr (Or.inr ⟨rfl, hxy⟩)
  · have hidx : (l.zipIdx.map Prod.snd).Pairwise (· < ·) := by
      rw [List.zipIdx_map_snd]
      exact List.pairwise_lt_range'
    rw [List.pairwise_map] at hidx
    refine hidx.imp fun {a b} hab x hx y hy => ?_
    obtain ⟨x, -, rfl⟩ := List.mem_map.mp hx
    obtain ⟨y, -, rfl⟩ := List.mem_map.mp hy
    exact Prod.Lex.toLex_lt_toLex.mpr (Or.inl hab)

/-! ### First occurrences -/

/-- `t` occurs before every occurrence of `u`. -/
def First [LT κ] (occ : κ → β → Prop) (t u : β) : Prop := ∃ x, occ x t ∧ ∀ y, occ y u → x < y

theorem First.asymm [Preorder κ] {occ : κ → β → Prop} {t u : β} (h : First occ t u) :
    ¬ First occ u t := by
  obtain ⟨x, hx, hxu⟩ := h
  rintro ⟨y, hy, hyt⟩
  exact lt_asymm (hxu y hy) (hyt x hx)

/-- **Without repetitions**, things listed by place stand in the order in which
they first occur. -/
theorem first_eraseDups [LT κ] [BEq β] [LawfulBEq β] {xs : List (κ × β)} (h : Sorted xs) :
    (xs.map Prod.snd).eraseDups.Pairwise (First fun x b => (x, b) ∈ xs) := by
  induction xs with
  | nil => exact List.Pairwise.nil
  | cons x xs ih =>
    obtain ⟨hx, hxs⟩ := List.pairwise_cons.mp h
    rw [List.map_cons, Reorder.eraseDups_cons_filter]
    -- what is kept of the rest has no occurrence at the head
    have hrest : ∀ {u y}, u ∈ (xs.map Prod.snd).eraseDups.filter (fun b => !b == x.2) →
        (y, u) ∈ x :: xs → (y, u) ∈ xs := by
      intro u y hu hy
      rcases List.mem_cons.mp hy with rfl | hy
      · simp at hu
      · exact hy
    constructor
    · intro u hu
      exact ⟨x.1, List.mem_cons_self, fun y hy => hx (y, u) (hrest hu hy)⟩
    · refine ((ih hxs).filter _).imp_of_mem fun {t u} _ hu htu => ?_
      obtain ⟨y, hy, hyu⟩ := htu
      exact ⟨y, List.mem_cons_of_mem x hy, fun z hz => hyu z (hrest hu hz)⟩

/-- A list without repetitions in the order of first occurrence is determined
by its elements. -/
theorem eq_of_first [Preorder κ] {occ : κ → β → Prop} {l l' : List β} (hl : l.Nodup)
    (hl' : l'.Nodup) (hmem : ∀ t, t ∈ l ↔ t ∈ l') (h : l.Pairwise (First occ))
    (h' : l'.Pairwise (First occ)) : l = l' :=
  ((List.perm_ext_iff_of_nodup hl hl').mpr hmem).eq_of_pairwise
    (fun _ _ _ _ htu hut => absurd hut htu.asymm) h h'

end Pieces
