/-
# Reading bytes as text

The decoder that never fails: well-formed UTF-8 is read as it is, and every
ill-formed sequence, as far as it could have begun a character, is read as one
replacement character. The state is the character begun and not ended.

Key theorems: `lossy_eq_nil`, `lossy_encode`, `mem_lossy_ascii`, `encode_lossy_of_ascii`.
-/
import Mathlib.Algebra.Group.Nat.Defs
import Mathlib.Data.List.Basic

namespace Utf8

def replacement : Char := Char.ofNat 0xFFFD

/-- A character begun: the bytes it needs still, its bits so far, and the range
its next byte must be in. -/
structure Begun where
  needed : ℕ
  point : ℕ
  lower : ℕ
  upper : ℕ
  deriving DecidableEq, Repr

/-- A first byte: a character, or the beginning of one. -/
def first (b : ℕ) : Char ⊕ Begun :=
  if b < 0x80 then .inl (Char.ofNat b)
  else if 0xC2 ≤ b ∧ b ≤ 0xDF then .inr ⟨1, b - 0xC0, 0x80, 0xBF⟩
  else if b = 0xE0 then .inr ⟨2, 0, 0xA0, 0xBF⟩
  else if b = 0xED then .inr ⟨2, 0xD, 0x80, 0x9F⟩
  else if 0xE1 ≤ b ∧ b ≤ 0xEF then .inr ⟨2, b - 0xE0, 0x80, 0xBF⟩
  else if b = 0xF0 then .inr ⟨3, 0, 0x90, 0xBF⟩
  else if b = 0xF4 then .inr ⟨3, 4, 0x80, 0x8F⟩
  else if 0xF1 ≤ b ∧ b ≤ 0xF3 then .inr ⟨3, b - 0xF0, 0x80, 0xBF⟩
  else .inl replacement

def decode : Option Begun → List UInt8 → List Char
  | none, [] => []
  | some _, [] => [replacement]
  | none, b :: s =>
    match first b.toNat with
    | .inl c => c :: decode none s
    | .inr p => decode (some p) s
  | some p, b :: s =>
    if p.lower ≤ b.toNat ∧ b.toNat ≤ p.upper then
      let point := 64 * p.point + (b.toNat - 0x80)
      if p.needed = 1 then Char.ofNat point :: decode none s
      else decode (some ⟨p.needed - 1, point, 0x80, 0xBF⟩) s
    else
      -- the byte that does not continue the character begins the next one
      match first b.toNat with
      | .inl c => replacement :: c :: decode none s
      | .inr p => replacement :: decode (some p) s

def lossy (s : List UInt8) : List Char := decode none s

theorem decode_some_ne_nil : ∀ (s : List UInt8) (p : Begun), decode (some p) s ≠ []
  | [], p => List.cons_ne_nil _ _
  | b :: s, p => by
    unfold decode
    split
    · simp only
      split
      · exact List.cons_ne_nil _ _
      · exact decode_some_ne_nil s _
    · split
      · exact List.cons_ne_nil _ _
      · exact List.cons_ne_nil _ _

/-- Only the empty text is read as the empty text. -/
theorem lossy_eq_nil {s : List UInt8} : lossy s = [] ↔ s = [] := by
  constructor
  · intro h
    cases s with
    | nil => rfl
    | cons b s =>
      unfold lossy decode at h
      split at h
      · cases h
      · exact absurd h (decode_some_ne_nil s _)
  · rintro rfl
    rfl

example : lossy [0x62, 0xF0, 0x9F, 0xFF, 0xC3, 0xA9] =
    ['b', replacement, replacement, Char.ofNat 0xE9] := by decide

/-! ### Encoding -/

/-- The bytes of a text. -/
def encode (t : List Char) : List UInt8 := t.flatMap String.utf8EncodeChar

theorem encode_cons (c : Char) (t : List Char) :
    encode (c :: t) = String.utf8EncodeChar c ++ encode t := rfl

/-- The bytes are those of a text. -/
def Valid (s : List UInt8) : Prop := ∃ t, encode t = s

/-! ### Decoding what was encoded -/

theorem toNat_byte {b : ℕ} (hb : b < 256) : (UInt8.ofNat b).toNat = b :=
  UInt8.toNat_ofNat_of_lt' hb

/-- A first byte that begins a character. -/
theorem decode_first {b : ℕ} {p : Begun} (hb : b < 256) (h : first b = .inr p) (s : List UInt8) :
    decode none (UInt8.ofNat b :: s) = decode (some p) s := by
  rw [decode, toNat_byte hb, h]

/-- A byte that continues the character begun. -/
theorem decode_more {p : Begun} {b : ℕ} (hb : b < 64) (hlower : p.lower ≤ b + 0x80)
    (hupper : b + 0x80 ≤ p.upper) (hneeded : p.needed ≠ 1) (s : List UInt8) :
    decode (some p) (UInt8.ofNat (b + 0x80) :: s) =
      decode (some ⟨p.needed - 1, 64 * p.point + b, 0x80, 0xBF⟩) s := by
  rw [decode, toNat_byte (by omega), if_pos ⟨hlower, hupper⟩]
  simp only [if_neg hneeded, Nat.add_sub_cancel]

/-- A byte that ends it. -/
theorem decode_last {p : Begun} {b : ℕ} (hb : b < 64) (hlower : p.lower ≤ b + 0x80)
    (hupper : b + 0x80 ≤ p.upper) (hneeded : p.needed = 1) (s : List UInt8) :
    decode (some p) (UInt8.ofNat (b + 0x80) :: s) = Char.ofNat (64 * p.point + b) :: decode none s := by
  rw [decode, toNat_byte (by omega), if_pos ⟨hlower, hupper⟩]
  simp only [hneeded, if_true, Nat.add_sub_cancel]

/-- The first bytes of two, of three and of four: what the character begun
still needs, and the range of its next byte. -/
theorem first_two {b : ℕ} (h : 2 ≤ b) (hb : b < 32) : first (b + 0xC0) = .inr ⟨1, b, 0x80, 0xBF⟩ := by
  unfold first
  rw [if_neg (by omega), if_pos (by omega), Nat.add_sub_cancel]

theorem first_three {b : ℕ} (hb : b < 16) : first (b + 0xE0) =
    .inr ⟨2, b, if b = 0 then 0xA0 else 0x80, if b = 0xD then 0x9F else 0xBF⟩ := by
  revert b
  decide

theorem first_four {b : ℕ} (hb : b < 5) : first (b + 0xF0) =
    .inr ⟨3, b, if b = 0 then 0x90 else 0x80, if b = 4 then 0x8F else 0xBF⟩ := by
  revert b
  decide

theorem decode_encodeChar (c : Char) (s : List UInt8) :
    decode none (String.utf8EncodeChar c ++ s) = c :: decode none s := by
  have hc : c.val.toNat < 0xD800 ∨ 0xDFFF < c.val.toNat ∧ c.val.toNat < 0x110000 := c.valid
  have hofNat : ∀ n, n = c.val.toNat → Char.ofNat n = c := by
    rintro n rfl
    exact Char.ofNat_toNat c
  unfold String.utf8EncodeChar
  generalize c.val.toNat = v at hc hofNat
  simp only
  split
  · have hfirst : first v = .inl (Char.ofNat v) := if_pos (by omega)
    rw [List.singleton_append, decode, toNat_byte (by omega), hfirst]
    simp only [hofNat v rfl]
  · split
    · have hlead : v / 64 % 32 = v / 64 := by omega
      rw [hlead]
      simp only [List.cons_append, List.nil_append]
      rw [decode_first (by omega) (first_two (by omega) (by omega)),
        decode_last (by omega) (by simp only; omega) (by simp only; omega) rfl, hofNat _ (by simp only; omega)]
    · split
      · have hlead : v / 4096 % 16 = v / 4096 := by omega
        rw [hlead]
        simp only [List.cons_append, List.nil_append]
        rw [decode_first (by omega) (first_three (by omega)),
          decode_more (by omega) (by simp only; split <;> omega) (by simp only; split <;> omega)
            (by simp only; omega),
          decode_last (by omega) (by simp only; omega) (by simp only; omega) rfl, hofNat _ (by simp only; omega)]
      · have hlead : v / 262144 % 8 = v / 262144 := by omega
        rw [hlead]
        simp only [List.cons_append, List.nil_append]
        rw [decode_first (by omega) (first_four (by omega)),
          decode_more (by omega) (by simp only; split <;> omega) (by simp only; split <;> omega)
            (by simp only; omega),
          decode_more (by omega) (by simp only; omega) (by simp only; omega) (by simp only; omega),
          decode_last (by omega) (by simp only; omega) (by simp only; omega) rfl, hofNat _ (by simp only; omega)]

/-- **Decoding undoes encoding.** -/
theorem lossy_encode (t : List Char) : lossy (encode t) = t := by
  induction t with
  | nil => rfl
  | cons c t ih => rw [encode_cons, lossy, decode_encodeChar, ← lossy, ih]

/-- Text is kept exactly where the bytes are those of a text. -/
theorem encode_lossy {s : List UInt8} : encode (lossy s) = s ↔ Valid s := by
  constructor
  · intro h
    exact ⟨_, h⟩
  · rintro ⟨t, rfl⟩
    rw [lossy_encode]

theorem encode_injective : Function.Injective encode := by
  intro t u h
  rw [← lossy_encode t, h, lossy_encode]

/-! ### ASCII -/

theorem toNat_ofNat {n : ℕ} (h : n.isValidChar) : (Char.ofNat n).toNat = n := by
  rw [Char.ofNat, dif_pos h]
  rfl

/-- The least and the greatest character that the one begun can become. -/
def Begun.least (p : Begun) : ℕ := (64 * p.point + (p.lower - 0x80)) * 64 ^ (p.needed - 1)

def Begun.greatest (p : Begun) : ℕ :=
  (64 * p.point + (p.upper - 0x80)) * 64 ^ (p.needed - 1) + (64 ^ (p.needed - 1) - 1)

/-- A character begun that is not ASCII, whatever it becomes. -/
structure Begun.Wide (p : Begun) : Prop where
  needed : p.needed = 1 ∨ p.needed = 2 ∨ p.needed = 3
  lower : 0x80 ≤ p.lower
  least : 0x80 ≤ p.least
  valid : p.greatest < 0xD800 ∨ 0xDFFF < p.least ∧ p.greatest < 0x110000

theorem wide_of_first {b : ℕ} {p : Begun} (h : first b = .inr p) : p.Wide := by
  unfold first at h
  repeat' split at h
  all_goals cases h
  all_goals
    refine ⟨by simp, by simp, ?_, ?_⟩
    · simp only [Begun.least]
      omega
    · simp only [Begun.least, Begun.greatest]
      omega

theorem toNat_replacement : 0x80 ≤ replacement.toNat := by decide

/-- A byte that continues the character begun leaves one begun. -/
theorem Begun.Wide.more {p : Begun} (hp : p.Wide) {b : ℕ} (hb : p.lower ≤ b ∧ b ≤ p.upper)
    (hn : p.needed ≠ 1) :
    Begun.Wide ⟨p.needed - 1, 64 * p.point + (b - 0x80), 0x80, 0xBF⟩ := by
  have hlower := hp.lower
  have hleast := hp.least
  have hvalid := hp.valid
  simp only [Begun.least, Begun.greatest] at hleast hvalid
  rcases hp.needed with h | h | h
  · exact absurd h hn
  · simp only [h, Nat.add_one_sub_one, Nat.pow_one] at hleast hvalid
    refine ⟨Or.inl (by simp only [h]), Nat.le_refl _, ?_, ?_⟩
    · simp only [Begun.least, h]
      omega
    · simp only [Begun.least, Begun.greatest, h]
      omega
  · simp only [h, Nat.add_one_sub_one] at hleast hvalid
    refine ⟨Or.inr (Or.inl (by simp only [h])), Nat.le_refl _, ?_, ?_⟩
    · simp only [Begun.least, h]
      omega
    · simp only [Begun.least, Begun.greatest, h]
      omega

/-- A byte that ends it. -/
theorem Begun.Wide.last {p : Begun} (hp : p.Wide) {b : ℕ} (hb : p.lower ≤ b ∧ b ≤ p.upper)
    (hn : p.needed = 1) : 0x80 ≤ (Char.ofNat (64 * p.point + (b - 0x80))).toNat := by
  have hlower := hp.lower
  have hleast := hp.least
  have hvalid := hp.valid
  simp only [Begun.least, Begun.greatest, hn, Nat.sub_self, Nat.pow_zero, Nat.mul_one,
    Nat.add_zero] at hleast hvalid
  rw [toNat_ofNat]
  · omega
  · show _ < 0xD800 ∨ 0xDFFF < _ ∧ _ < 0x110000
    omega

theorem decode_wide (s : List UInt8) : ∀ p : Begun, p.Wide →
    ∃ c t, decode (some p) s = c :: t ∧ 0x80 ≤ c.toNat := by
  induction s with
  | nil => exact fun p _ => ⟨replacement, [], rfl, toNat_replacement⟩
  | cons b s ih =>
    intro p hp
    unfold decode
    by_cases hb : p.lower ≤ b.toNat ∧ b.toNat ≤ p.upper
    · rw [if_pos hb]
      simp only
      by_cases hn : p.needed = 1
      · rw [if_pos hn]
        exact ⟨_, _, rfl, hp.last hb hn⟩
      · rw [if_neg hn]
        exact ih _ (hp.more hb hn)
    · rw [if_neg hb]
      cases first b.toNat with
      | inl c => exact ⟨_, _, rfl, toNat_replacement⟩
      | inr q => exact ⟨_, _, rfl, toNat_replacement⟩

theorem ascii_of_first {b : ℕ} {c : Char} (h : first b = .inl c) (hc : c.toNat < 0x80) :
    b < 0x80 ∧ c = Char.ofNat b := by
  by_cases hb : b < 0x80
  · unfold first at h
    rw [if_pos hb] at h
    exact ⟨hb, (Sum.inl.inj h).symm⟩
  · have hr : c = replacement := by
      unfold first at h
      rw [if_neg hb] at h
      repeat' split at h
      all_goals cases h
      rfl
    rw [hr] at hc
    exact absurd toNat_replacement (by omega)

theorem first_ascii {b : ℕ} (hb : b < 0x80) : first b = .inl (Char.ofNat b) := if_pos hb

section
variable {n : ℕ} (hn : n < 0x80)
include hn

theorem ne_wide {c : Char} (hc : 0x80 ≤ c.toNat) : Char.ofNat n ≠ c := by
  rintro rfl
  rw [toNat_ofNat (Or.inl (by omega))] at hc
  omega

theorem toNat_ascii : (UInt8.ofNat n).toNat = n := toNat_byte (by omega)

theorem eq_of_first {b : UInt8} {c : Char} (h : first b.toNat = .inl c) :
    Char.ofNat n = c ↔ UInt8.ofNat n = b := by
  constructor
  · rintro rfl
    have htoNat : (Char.ofNat n).toNat = n := toNat_ofNat (Or.inl (by omega))
    obtain ⟨hb, he⟩ := ascii_of_first h (by omega)
    have he := congrArg Char.toNat he
    rw [htoNat, toNat_ofNat (Or.inl (by omega))] at he
    rw [he, UInt8.ofNat_toNat]
  · rintro rfl
    rw [toNat_ascii hn, first_ascii hn] at h
    exact Sum.inl.inj h

theorem ne_of_first {b : UInt8} {p : Begun} (h : first b.toNat = .inr p) : UInt8.ofNat n ≠ b := by
  rintro rfl
  rw [toNat_ascii hn, first_ascii hn] at h
  cases h

theorem mem_decode_ascii (s : List UInt8) : ∀ p : Option Begun, (∀ q, p = some q → q.Wide) →
    (Char.ofNat n ∈ decode p s ↔ UInt8.ofNat n ∈ s) := by
  have hreplacement := ne_wide hn toNat_replacement
  induction s with
  | nil =>
    intro p _
    cases p with
    | none => exact iff_of_false List.not_mem_nil List.not_mem_nil
    | some p =>
      exact iff_of_false (fun h => hreplacement (List.mem_singleton.mp h)) List.not_mem_nil
  | cons b s ih =>
    have hnone := ih none fun _ h => by cases h
    have hsome : ∀ {q : Begun}, q.Wide → (Char.ofNat n ∈ decode (some q) s ↔ UInt8.ofNat n ∈ s) :=
      fun hq => ih _ fun _ h => Option.some.inj h ▸ hq
    intro p hp
    cases p with
    | none =>
      unfold decode
      cases hf : first b.toNat with
      | inl c => rw [List.mem_cons, List.mem_cons, hnone, eq_of_first hn hf]
      | inr q => rw [List.mem_cons, hsome (wide_of_first hf), or_iff_right (ne_of_first hn hf)]
    | some p =>
      have hp := hp p rfl
      unfold decode
      by_cases hb : p.lower ≤ b.toNat ∧ b.toNat ≤ p.upper
      · have hne : UInt8.ofNat n ≠ b := by
          rintro rfl
          have hlower := hp.lower
          rw [toNat_ascii hn] at hb
          omega
        rw [if_pos hb, List.mem_cons, or_iff_right hne]
        simp only
        by_cases hneeded : p.needed = 1
        · rw [if_pos hneeded, List.mem_cons, hnone, or_iff_right (ne_wide hn (hp.last hb hneeded))]
        · rw [if_neg hneeded, hsome (hp.more hb hneeded)]
      · rw [if_neg hb]
        cases hf : first b.toNat with
        | inl c =>
          simp only
          rw [List.mem_cons, List.mem_cons, List.mem_cons, hnone, eq_of_first hn hf,
            or_iff_right hreplacement]
        | inr q =>
          simp only
          rw [List.mem_cons, List.mem_cons, hsome (wide_of_first hf), or_iff_right hreplacement,
            or_iff_right (ne_of_first hn hf)]

/-- **The ASCII characters of a text read are the ASCII bytes.** -/
theorem mem_lossy_ascii (s : List UInt8) : Char.ofNat n ∈ lossy s ↔ UInt8.ofNat n ∈ s :=
  mem_decode_ascii hn s none fun _ h => by cases h

end

/-- Bytes read as ASCII text are that text. -/
theorem encode_lossy_of_ascii {s : List UInt8} (h : ∀ c ∈ lossy s, c.toNat < 0x80) :
    encode (lossy s) = s := by
  induction s with
  | nil => rfl
  | cons b s ih =>
    unfold lossy decode at h ⊢
    cases hfirst : first b.toNat with
    | inl c =>
      simp only [hfirst] at h ⊢
      obtain ⟨hb, rfl⟩ := ascii_of_first hfirst (h c List.mem_cons_self)
      have hs : encode (lossy s) = s := ih fun d hd => h d (List.mem_cons_of_mem _ hd)
      have hchar : String.utf8EncodeChar (Char.ofNat b.toNat) = [b] := by
        have hval : (Char.ofNat b.toNat).val.toNat = b.toNat := toNat_ofNat (Or.inl (by omega))
        unfold String.utf8EncodeChar
        simp only [hval]
        rw [if_pos (by omega), UInt8.ofNat_toNat]
      rw [encode_cons, hchar]
      exact congrArg (b :: ·) hs
    | inr p =>
      simp only [hfirst] at h
      obtain ⟨c, t, hdecode, hc⟩ := decode_wide s p (wide_of_first hfirst)
      rw [hdecode] at h
      exact absurd (h c List.mem_cons_self) (by omega)

end Utf8
