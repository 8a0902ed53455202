/-
# The version of the module

`module_version` (`src/version.rs`) packs the version text of the package into
an `i32` that Valkey is told at the load: a byte for the major version, the
minor and the patch, and one for the phase, 1 for a development version, one
more for each release candidate, `0xFF` for a release.

`module_version_faithful`: the integer tells the version back, and integers are
ordered as the versions are. A major version from 128 on would be negative, and
a candidate 0 or from 254 on would be taken for another phase.

`const_str::parse!` is a parameter, which reads the digits of a number; what it
makes of other texts does not matter here.

Key theorems: `moduleVersion_text`, `module_version_faithful`.
-/
import Mathlib

namespace ValkeyLdap
namespace Version

/-! ### Versions and their text -/

inductive Phase
  | dev
  | rc (n : ℕ)
  | ga
  deriving DecidableEq, Repr

structure Semver where
  major : ℕ
  minor : ℕ
  patch : ℕ
  phase : Phase
  deriving DecidableEq, Repr

def digits (n : ℕ) : List Char := Nat.toDigits 10 n

def Phase.text : Phase → List Char
  | .dev => ['-', 'd', 'e', 'v']
  | .rc n => '-' :: 'r' :: 'c' :: digits n
  | .ga => []

def Semver.text (v : Semver) : List Char :=
  digits v.major ++ '.' :: (digits v.minor ++ '.' :: (digits v.patch ++ v.phase.text))

/-- Where a candidate is counted from 1 and its byte is not that of a release. -/
def Phase.InRange : Phase → Prop
  | .rc n => 1 ≤ n ∧ n ≤ 253
  | _ => True

structure Semver.InRange (v : Semver) : Prop where
  major : v.major < 128
  minor : v.minor < 256
  patch : v.patch < 256
  phase : v.phase.InRange

/-- A development version is before the candidates, these before the release. -/
def Phase.Before : Phase → Phase → Prop
  | .dev, .rc _ => True
  | .dev, .ga => True
  | .rc n, .rc m => n < m
  | .rc _, .ga => True
  | _, _ => False

/-- The order of versions. -/
def Semver.Before (v w : Semver) : Prop :=
  v.major < w.major ∨ v.major = w.major ∧ (v.minor < w.minor ∨ v.minor = w.minor ∧
    (v.patch < w.patch ∨ v.patch = w.patch ∧ v.phase.Before w.phase))

/-! ### `module_version` -/

section
variable (parse : List Char → Option (BitVec 32))

/-- The last part of the text: the patch, and the byte of the phase. -/
def patchAndDev (last : List Char) : Option (BitVec 32 × BitVec 32) :=
  if last.contains '-' then
    match last.splitOn '-' with
    | patch :: phase :: _ => do
      let patch ← parse patch
      let dev ←
        if phase = ['d', 'e', 'v'] then some 1
        else if ['r', 'c'] <+: phase then do
          let n ← parse (phase.drop 2)
          -- an overflow is an error of the build
          if n = BitVec.intMax 32 then none else some (n + 1)
        else none
      some (patch, dev)
    | _ => none
  else do
    let patch ← parse last
    some (patch, 0xFF)

/-- `module_version`; none is a text that the build refuses. -/
def moduleVersion (text : List Char) : Option (BitVec 32) :=
  match text.splitOn '.' with
  | [major, minor, last] => do
    let major ← parse major
    let minor ← parse minor
    let (patch, dev) ← patchAndDev parse last
    some (major <<< 24 ||| minor <<< 16 ||| patch <<< 8 ||| dev)
  | _ => none

end

/-! ### What it packs -/

def Phase.byte : Phase → ℕ
  | .dev => 1
  | .rc n => n + 1
  | .ga => 255

def Semver.packed (v : Semver) : ℕ :=
  ((v.major * 256 + v.minor) * 256 + v.patch) * 256 + v.phase.byte

/-- The version read back from the integer. -/
def Semver.ofPacked (n : ℕ) : Semver where
  major := n / 16777216
  minor := n / 65536 % 256
  patch := n / 256 % 256
  phase := if n % 256 = 1 then .dev else if n % 256 = 255 then .ga else .rc (n % 256 - 1)

theorem Phase.byte_range {p : Phase} (h : p.InRange) : 1 ≤ p.byte ∧ p.byte < 256 := by
  cases p with
  | dev => decide
  | rc n =>
    obtain ⟨hn, hmax⟩ := h
    simp only [Phase.byte]
    omega
  | ga => decide

theorem Semver.packed_lt {v : Semver} (h : v.InRange) : v.packed < 2 ^ 31 := by
  have hmajor := h.major
  have hminor := h.minor
  have hpatch := h.patch
  have hbyte := Phase.byte_range h.phase
  unfold Semver.packed
  omega

theorem Semver.ofPacked_packed {v : Semver} (h : v.InRange) : Semver.ofPacked v.packed = v := by
  have hminor := h.minor
  have hpatch := h.patch
  have hbyte := Phase.byte_range h.phase
  have hlow : v.packed % 256 = v.phase.byte := by
    unfold Semver.packed
    omega
  have hphase : (Semver.ofPacked v.packed).phase = v.phase := by
    simp only [Semver.ofPacked, hlow]
    cases hp : v.phase with
    | dev => rfl
    | ga => rfl
    | rc n =>
      obtain ⟨hn, hmax⟩ : 1 ≤ n ∧ n ≤ 253 := by
        have hrange := h.phase
        rwa [hp] at hrange
      have hdev : (Phase.rc n).byte ≠ 1 := by
        simp only [Phase.byte]
        omega
      have hga : (Phase.rc n).byte ≠ 255 := by
        simp only [Phase.byte]
        omega
      rw [if_neg hdev, if_neg hga]
      rfl
  have hmajor : (Semver.ofPacked v.packed).major = v.major := by
    simp only [Semver.ofPacked, Semver.packed]
    omega
  have hminor' : (Semver.ofPacked v.packed).minor = v.minor := by
    simp only [Semver.ofPacked, Semver.packed]
    omega
  have hpatch' : (Semver.ofPacked v.packed).patch = v.patch := by
    simp only [Semver.ofPacked, Semver.packed]
    omega
  cases v
  simp_all [Semver.ofPacked]

theorem Phase.byte_lt_iff {p q : Phase} (hp : p.InRange) (hq : q.InRange) :
    p.byte < q.byte ↔ p.Before q := by
  cases p <;> cases q <;> simp_all [Phase.byte, Phase.Before, Phase.InRange] <;> omega

theorem Semver.packed_lt_iff {v w : Semver} (hv : v.InRange) (hw : w.InRange) :
    v.packed < w.packed ↔ v.Before w := by
  have hvminor := hv.minor
  have hvpatch := hv.patch
  have hwminor := hw.minor
  have hwpatch := hw.patch
  have hvbyte := Phase.byte_range hv.phase
  have hwbyte := Phase.byte_range hw.phase
  unfold Semver.Before
  rw [← Phase.byte_lt_iff hv.phase hw.phase]
  unfold Semver.packed
  omega

/-- The bytes do not overlap. -/
theorem pack_eq {a b c d : ℕ} (ha : a < 128) (hb : b < 256) (hc : c < 256) (hd : d < 256) :
    BitVec.ofNat 32 a <<< 24 ||| BitVec.ofNat 32 b <<< 16 ||| BitVec.ofNat 32 c <<< 8 |||
      BitVec.ofNat 32 d = BitVec.ofNat 32 (((a * 256 + b) * 256 + c) * 256 + d) := by
  apply BitVec.eq_of_toNat_eq
  simp only [BitVec.toNat_or, BitVec.toNat_shiftLeft, BitVec.toNat_ofNat]
  have h1 : (a % 2 ^ 32) <<< 24 % 2 ^ 32 = a <<< 24 := by
    rw [Nat.shiftLeft_eq, Nat.shiftLeft_eq]
    omega
  have h2 : (b % 2 ^ 32) <<< 16 % 2 ^ 32 = b <<< 16 := by
    rw [Nat.shiftLeft_eq, Nat.shiftLeft_eq]
    omega
  have h3 : (c % 2 ^ 32) <<< 8 % 2 ^ 32 = c <<< 8 := by
    rw [Nat.shiftLeft_eq, Nat.shiftLeft_eq]
    omega
  have h4 : d % 2 ^ 32 = d := by omega
  rw [h1, h2, h3, h4]
  have hab : a <<< 24 ||| b <<< 16 = (a * 256 + b) <<< 16 := by
    have : a <<< 24 = (a * 256) <<< 16 := by
      rw [Nat.shiftLeft_eq, Nat.shiftLeft_eq]
      omega
    rw [this, ← Nat.shiftLeft_or_distrib]
    have hor := Nat.shiftLeft_add_eq_or_of_lt (show b < 2 ^ 8 by omega) a
    rw [Nat.shiftLeft_eq] at hor
    rw [show a * 256 ||| b = a * 256 + b from hor.symm]
  have habc : (a * 256 + b) <<< 16 ||| c <<< 8 = ((a * 256 + b) * 256 + c) <<< 8 := by
    have : (a * 256 + b) <<< 16 = ((a * 256 + b) * 256) <<< 8 := by
      rw [Nat.shiftLeft_eq, Nat.shiftLeft_eq]
      omega
    rw [this, ← Nat.shiftLeft_or_distrib]
    have hor := Nat.shiftLeft_add_eq_or_of_lt (show c < 2 ^ 8 by omega) (a * 256 + b)
    rw [Nat.shiftLeft_eq] at hor
    rw [show (a * 256 + b) * 256 ||| c = (a * 256 + b) * 256 + c from hor.symm]
  rw [hab, habc, ← Nat.shiftLeft_add_eq_or_of_lt (show d < 2 ^ 8 by omega), Nat.shiftLeft_eq]
  omega

/-! ### The text is read part by part -/

theorem digits_ne {n : ℕ} {c : Char} (h : c.isDigit = false) : ∀ d ∈ digits n, (d == c) = false := by
  intro d hd
  rw [beq_eq_false_iff_ne]
  rintro rfl
  rw [Nat.isDigit_of_mem_toDigits (by decide) (by decide) hd] at h
  cases h

theorem splitOn_digits {n : ℕ} {c : Char} (h : c.isDigit = false) (rest : List Char) :
    (digits n ++ c :: rest).splitOn c = digits n :: rest.splitOn c :=
  List.splitOnP_append_cons_of_forall_mem (digits_ne h) c (by simp) rest

theorem text_ne_dot (v : Semver) : ∀ d ∈ digits v.patch ++ v.phase.text, (d == '.') = false := by
  intro d hd
  rcases List.mem_append.mp hd with hd | hd
  · exact digits_ne (by decide) d hd
  · cases hp : v.phase with
    | dev =>
      rw [hp] at hd
      simp only [Phase.text, List.mem_cons, List.not_mem_nil, or_false] at hd
      rcases hd with rfl | rfl | rfl | rfl <;> decide
    | rc n =>
      rw [hp] at hd
      simp only [Phase.text, List.mem_cons] at hd
      rcases hd with rfl | rfl | rfl | hd
      · decide
      · decide
      · decide
      · exact digits_ne (by decide) d hd
    | ga =>
      rw [hp] at hd
      cases hd

theorem splitOn_text (v : Semver) : v.text.splitOn '.' =
    [digits v.major, digits v.minor, digits v.patch ++ v.phase.text] := by
  unfold Semver.text
  rw [splitOn_digits (by decide), splitOn_digits (by decide)]
  exact congrArg (digits v.major :: digits v.minor :: ·)
    (List.splitOnP_eq_singleton (text_ne_dot v))

section
variable {parse : List Char → Option (BitVec 32)}
  (hparse : ∀ n < 2 ^ 31, parse (digits n) = some (BitVec.ofNat 32 n))
include hparse

theorem patchAndDev_text {v : Semver} (h : v.InRange) :
    patchAndDev parse (digits v.patch ++ v.phase.text) =
      some (BitVec.ofNat 32 v.patch, BitVec.ofNat 32 v.phase.byte) := by
  have hpatch : parse (digits v.patch) = some (BitVec.ofNat 32 v.patch) :=
    hparse _ (by have := h.patch; omega)
  have hdash (rest : List Char) : (digits v.patch ++ '-' :: rest).contains '-' = true := by simp
  have hrange := h.phase
  unfold patchAndDev
  cases hp : v.phase with
  | dev =>
    simp only [Phase.text]
    rw [if_pos (hdash _), splitOn_digits (by decide)]
    simp [hpatch, Phase.byte, show List.splitOn '-' ['d', 'e', 'v'] = [['d', 'e', 'v']] by decide]
  | rc n =>
    obtain ⟨hn, hmax⟩ : 1 ≤ n ∧ n ≤ 253 := by rwa [hp] at hrange
    have hrc : ('r' :: 'c' :: digits n).splitOn '-' = ['r' :: 'c' :: digits n] := by
      refine List.splitOnP_eq_singleton fun d hd => ?_
      simp only [List.mem_cons] at hd
      rcases hd with rfl | rfl | hd
      · decide
      · decide
      · exact digits_ne (by decide) d hd
    have hsmall : BitVec.ofNat 32 n ≠ BitVec.intMax 32 := by
      intro he
      have hnat := congrArg BitVec.toNat he
      simp only [BitVec.toNat_ofNat, BitVec.toNat_intMax] at hnat
      omega
    simp only [Phase.text]
    rw [if_pos (hdash _), splitOn_digits (by decide), hrc]
    simp [hpatch, hparse n (by omega), hsmall, Phase.byte, BitVec.ofNat_add]
  | ga =>
    have hno : (digits v.patch).contains '-' = false := by
      rw [Bool.eq_false_iff]
      intro hmem
      have := digits_ne (c := '-') (by decide) '-' (List.contains_iff_mem.mp hmem)
      simp at this
    simp only [Phase.text, List.append_nil]
    rw [if_neg (by rw [hno]; exact Bool.false_ne_true)]
    simp [hpatch, Phase.byte]

/-- The text of a version in range is accepted, and packed. -/
theorem moduleVersion_text {v : Semver} (h : v.InRange) :
    moduleVersion parse v.text = some (BitVec.ofNat 32 v.packed) := by
  have hmajor := hparse v.major (by have := h.major; omega)
  have hminor := hparse v.minor (by have := h.minor; omega)
  unfold moduleVersion
  rw [splitOn_text]
  simp only [hmajor, hminor, patchAndDev_text hparse h, Option.bind_eq_bind, Option.bind_some]
  rw [pack_eq h.major h.minor h.patch (Phase.byte_range h.phase).2]
  rfl

end

/-- **The integer is the version**: it tells the version back, and two integers
are in the order of their versions. -/
theorem module_version_faithful (parse : List Char → Option (BitVec 32))
    (hparse : ∀ n < 2 ^ 31, parse (digits n) = some (BitVec.ofNat 32 n)) (v w : Semver)
    (hv : v.InRange) (hw : w.InRange) : ∃ a b : BitVec 32,
      moduleVersion parse v.text = some a ∧ moduleVersion parse w.text = some b ∧
        Semver.ofPacked a.toInt.toNat = v ∧ (a.toInt < b.toInt ↔ v.Before w) := by
  have htoInt {u : Semver} (hu : u.InRange) : (BitVec.ofNat 32 u.packed).toInt = u.packed := by
    have hlt := Semver.packed_lt hu
    rw [BitVec.toInt_eq_toNat_of_lt (by rw [BitVec.toNat_ofNat]; omega), BitVec.toNat_ofNat]
    omega
  refine ⟨_, _, moduleVersion_text hparse hv, moduleVersion_text hparse hw, ?_, ?_⟩
  · rw [htoInt hv, Int.toNat_natCast, Semver.ofPacked_packed hv]
  · rw [htoInt hv, htoInt hw, ← Semver.packed_lt_iff hv hw]
    omega

/-- Digits read as a number. -/
def parseDigits (s : List Char) : Option (BitVec 32) :=
  some (BitVec.ofNat 32 (Nat.ofDigitChars 10 s 0))

/-- The test of the source. -/
example : moduleVersion parseDigits "1.1.0-dev".toList = some 0x01010001 := by decide

/-- The version of the package is before its release. -/
theorem module_version_faithful_dev : ∃ a b : BitVec 32,
    moduleVersion parseDigits "1.1.0-dev".toList = some a ∧
      moduleVersion parseDigits "1.1.0".toList = some b ∧
        Semver.ofPacked a.toInt.toNat = ⟨1, 1, 0, .dev⟩ ∧ a.toInt < b.toInt := by
  have hparse : ∀ n < 2 ^ 31, parseDigits (digits n) = some (BitVec.ofNat 32 n) := by
    intro n _
    unfold parseDigits digits
    rw [Nat.ofDigitChars_ten_toDigits]
  obtain ⟨a, b, ha, hb, hback, horder⟩ := module_version_faithful parseDigits hparse
    ⟨1, 1, 0, .dev⟩ ⟨1, 1, 0, .ga⟩ ⟨by decide, by decide, by decide, trivial⟩
    ⟨by decide, by decide, by decide, trivial⟩
  refine ⟨a, b, ha, hb, hback, horder.mpr ?_⟩
  simp [Semver.Before, Phase.Before]

end Version
end ValkeyLdap
