/-
# Assertions whose value is filled in

A program keeps the beginning of an item, `attr=`, and writes a value behind
it. Which comparison the item makes is settled by its beginning alone: with
one value it is read as some filter, and with another as the same filter, the
other value at the end of what it compares with (`parseItem_fill`).

A value is written with escapes so that it is read as the text it was made of
(`decodeValue_escape`), and no escaped value ends the item
(`decodeValue_chars`).

Key theorems: `decodeValue_escape`, `parseItem_fill`, `parse_and_fill`.
-/
import ValkeyLdap.Lib.Filter

namespace LdapFilter

/-! ### Escaped values -/

/-- A backslash and the two hexadecimal digits of `n`. -/
def IsCode (n : ℕ) (w : List Char) : Prop :=
  ∃ h l a b, w = ['\\', h, l] ∧ hexValue h = some a ∧ hexValue l = some b ∧ 16 * a + b = n

/-- Every special character is replaced by its code, every other one is left
alone. -/
def Escapes (escape : List Char → List Char) : Prop :=
  ∃ code : Char → List Char, (∀ c, special c = true → IsCode c.toNat (code c)) ∧
    ∀ s, escape s = s.flatMap fun c => if special c then code c else [c]

theorem special_cases {c : Char} (h : special c = true) :
    c = '\\' ∨ c = '*' ∨ c = '(' ∨ c = ')' ∨ c = Char.ofNat 0 := by
  simpa [special, or_assoc] using h

/-- A special character is one octet. -/
theorem utf8EncodeChar_special {c : Char} (h : special c = true) :
    String.utf8EncodeChar c = [UInt8.ofNat c.toNat] := by
  rcases special_cases h with rfl | rfl | rfl | rfl | rfl <;> rfl

theorem decodeValue_code {c : Char} {w s : List Char} (hc : special c = true)
    (hw : IsCode c.toNat w) :
    decodeValue (w ++ s) = (decodeValue s).map (String.utf8EncodeChar c ++ ·) := by
  obtain ⟨h, l, a, b, rfl, ha, hb, hn⟩ := hw
  rw [utf8EncodeChar_special hc, ← hn]
  show decodeValue ('\\' :: h :: l :: s) = _
  rw [decodeValue, ha, hb]
  cases decodeValue s with
  | none => rfl
  | some v => rfl

theorem decodeValue_plain {c : Char} (s : List Char) (hc : special c = false) :
    decodeValue (c :: s) = (decodeValue s).map (String.utf8EncodeChar c ++ ·) := by
  rw [decodeValue, hc]
  · rfl
  · rintro h l t rfl -
    exact absurd hc (by decide)

theorem decodeValue_special {c : Char} (s : List Char) (hc : special c = true) (hb : c ≠ '\\') :
    decodeValue (c :: s) = none := by
  rw [decodeValue, if_pos hc]
  rintro h l t rfl -
  exact hb rfl

/-- **What is escaped is read as it was.** -/
theorem decodeValue_escape {escape : List Char → List Char} (h : Escapes escape)
    (s : List Char) : decodeValue (escape s) = some (octets s) := by
  obtain ⟨code, hcode, hescape⟩ := h
  rw [hescape]
  induction s with
  | nil => rfl
  | cons c s ih =>
    rw [List.flatMap_cons, octets_cons]
    by_cases hc : special c = true
    · rw [if_pos hc, decodeValue_code hc (hcode c hc), ih]
      rfl
    · rw [if_neg hc, List.singleton_append, decodeValue_plain _ (eq_false_of_ne_true hc), ih]
      rfl

theorem hexValue_plain {c : Char} {n : ℕ} (h : hexValue c = some n) : special c = false := by
  by_contra hc
  rcases special_cases (eq_true_of_ne_false hc) with rfl | rfl | rfl | rfl | rfl <;> cases h

/-- A text that can be read as a value holds no special character but the
backslashes of its codes. -/
theorem decodeValue_chars {s : List Char} {v : List UInt8} (h : decodeValue s = some v) :
    ∀ c ∈ s, c = '\\' ∨ special c = false := by
  fun_induction decodeValue s generalizing v with
  | case1 => exact fun c hc => by cases hc
  | case2 a b s ih =>
    simp only [Option.bind_eq_bind, Option.bind_eq_some_iff] at h
    obtain ⟨_, ha, _, hb, w, hw, -⟩ := h
    intro c hc
    simp only [List.mem_cons] at hc
    rcases hc with rfl | rfl | rfl | hc
    · exact .inl rfl
    · exact .inr (hexValue_plain ha)
    · exact .inr (hexValue_plain hb)
    · exact ih hw c hc
  | case3 => cases h
  | case4 c s _ hc ih =>
    obtain ⟨w, hw, -⟩ := Option.map_eq_some_iff.mp h
    intro d hd
    rcases List.mem_cons.mp hd with rfl | hd
    · exact .inr (eq_false_of_ne_true hc)
    · exact ih hw d hd

theorem not_mem_of_decodeValue {s : List Char} {v : List UInt8} {c : Char}
    (h : decodeValue s = some v) (hc : special c = true) (hne : c ≠ '\\') : c ∉ s := by
  intro hs
  rcases decodeValue_chars h c hs with he | he
  · exact hne he
  · rw [hc] at he
    cases he

/-- An equals sign ends no code: what stands before it and what stands behind
are read apart. -/
theorem decodeValue_append (p t : List Char) :
    decodeValue (p ++ '=' :: t) =
      (decodeValue (p ++ ['='])).bind fun w => (decodeValue t).map (w ++ ·) := by
  have hcons : ∀ c s, special c = false →
      decodeValue (s ++ '=' :: t) =
        ((decodeValue (s ++ ['='])).bind fun w => (decodeValue t).map (w ++ ·)) →
      decodeValue (c :: s ++ '=' :: t) =
        (decodeValue (c :: s ++ ['='])).bind fun w => (decodeValue t).map (w ++ ·) := by
    intro c s hc ih
    simp only [List.cons_append, decodeValue_plain _ hc, ih]
    cases decodeValue (s ++ ['=']) with
    | none => rfl
    | some w =>
      cases decodeValue t with
      | none => rfl
      | some v => simp
  induction p using decodeValue.induct with
  | case1 =>
    have := decodeValue_plain (c := '=') t (by decide)
    rw [List.nil_append, this]
    rfl
  | case2 a b s ih =>
    simp only [List.cons_append, decodeValue, ih]
    cases hexValue a with
    | none => rfl
    | some a =>
      cases hexValue b with
      | none => rfl
      | some b =>
        cases decodeValue (s ++ ['=']) with
        | none => rfl
        | some w =>
          cases decodeValue t with
          | none => rfl
          | some v => rfl
  | case3 c s hne hc =>
    by_cases hb : c = '\\'
    · -- a code cut short: the equals sign is no digit
      obtain rfl := hb
      rcases s with _ | ⟨h, _ | ⟨l, s⟩⟩
      · cases t <;> rfl
      · show (do let a ← hexValue h; none) = (do let a ← hexValue h; none).bind _
        cases hexValue h <;> rfl
      · exact (hne h l s rfl rfl).elim
    · rw [List.cons_append, List.cons_append, decodeValue_special _ hc hb,
        decodeValue_special _ hc hb]
      rfl
  | case4 c s _ hc ih => exact hcons c s (eq_false_of_ne_true hc) ih

/-! ### Items with another value -/

/-- The assertion with what it compares with, or the end of it, changed. -/
def Filter.mapValue (f : List UInt8 → List UInt8) : Filter → Filter
  | .equality attr value => .equality attr (f value)
  | .approx attr value => .approx attr (f value)
  | .greaterOrEqual attr value => .greaterOrEqual attr (f value)
  | .lessOrEqual attr value => .lessOrEqual attr (f value)
  | .substrings attr initial any final => .substrings attr initial any (f final)
  | .extensible attr dnAttributes rule value => .extensible attr dnAttributes rule (f value)
  | filter => filter

/-- The assertion with `value` in the place of its last octet. -/
def Filter.fill (value : List UInt8) (filter : Filter) : Filter :=
  filter.mapValue fun w => w.dropLast ++ value

theorem splitAt_append {c : Char} {t : List Char} (ht : c ∉ t) (s : List Char) :
    splitAt c (s ++ t) = (splitAt c s).dropLast ++ [(splitAt c s).getLastD [] ++ t] := by
  induction s with
  | nil => exact splitAt_of_not_mem ht
  | cons d s ih =>
    obtain ⟨w, ws, hw⟩ := List.exists_cons_of_ne_nil (splitAt_ne_nil c s)
    rw [List.cons_append, splitAt, splitAt, ih, hw]
    by_cases hd : d = c
    · rw [if_pos hd, if_pos hd]
      cases ws <;> rfl
    · rw [if_neg hd, if_neg hd]
      cases ws <;> rfl

/-- What an item compares with is empty so far, or ends in an equals sign. -/
def Open (pre : List Char) : Prop := pre = [] ∨ ∃ p, pre = p ++ ['=']

/-- Where one value can be read behind `pre`, any can, and is the end of what
is read. -/
theorem Open.decodeValue {pre s t : List Char} {u v w : List UInt8} (h : Open pre)
    (hs : decodeValue s = some u) (ht : LdapFilter.decodeValue t = some v)
    (hw : LdapFilter.decodeValue (pre ++ s) = some w) :
    ∃ w', w = w' ++ u ∧ LdapFilter.decodeValue (pre ++ t) = some (w' ++ v) := by
  rcases h with rfl | ⟨p, rfl⟩
  · rw [List.nil_append, hs] at hw
    exact ⟨[], (Option.some.inj hw).symm, ht⟩
  · rw [List.append_assoc, List.singleton_append, decodeValue_append, hs] at hw
    obtain ⟨w', hw', hw⟩ := Option.bind_eq_some_iff.mp hw
    refine ⟨w', (Option.some.inj hw).symm, ?_⟩
    rw [List.append_assoc, List.singleton_append, decodeValue_append, hw', ht]
    rfl

theorem Open.last {pre : List Char} (h : Open pre) : Open ((splitAt '*' pre).getLastD []) := by
  rcases h with rfl | ⟨p, rfl⟩
  · exact .inl rfl
  · refine .inr ⟨(splitAt '*' p).getLastD [], ?_⟩
    rw [splitAt_append (by decide)]
    simp

theorem decodeValue_x : decodeValue ['x'] = some [120] := rfl

theorem parseValue_single {attr rhs w : List Char} (h : splitAt '*' rhs = [w]) :
    parseValue attr rhs = (decodeValue w).map (.equality attr) := by
  rw [parseValue, h]

theorem parseValue_many {attr rhs i w : List Char} {is : List (List Char)}
    (h : splitAt '*' rhs = i :: (is ++ [w])) (hw : w ≠ []) :
    parseValue attr rhs = (do
      let initial ← decodeValue i
      let any ← is.mapM decodeValue
      let final ← decodeValue w
      some (.substrings attr initial any final)) := by
  unfold parseValue
  rw [h]
  split
  · rename_i he
    cases he
  · rename_i he
    exact absurd (List.cons.inj he).2 (by simp)
  · rename_i he
    obtain ⟨-, he⟩ := List.cons.inj he
    have : w = [] := by
      cases is with
      | nil => exact (List.cons.inj he).1
      | cons j is => exact absurd (List.cons.inj he).2 (by simp)
    exact absurd this hw
  · rename_i he
    obtain ⟨rfl, rfl⟩ := List.cons.inj he
    simp

theorem parseValue_fill {attr pre t : List Char} {v : List UInt8} {g : Filter} (h : Open pre)
    (ht : decodeValue t = some v) (hg : parseValue attr (pre ++ ['x']) = some g) :
    parseValue attr (pre ++ t) = some (g.fill v) := by
  have hsx := splitAt_append (c := '*') (t := ['x']) (by decide) pre
  have hst := splitAt_append (not_mem_of_decodeValue (c := '*') ht rfl (by decide)) pre
  generalize hlast : (splitAt '*' pre).getLastD [] = last at hsx hst
  have hopen : Open last := hlast ▸ h.last
  cases hinit : (splitAt '*' pre).dropLast with
  | nil =>
    rw [hinit] at hsx hst
    rw [parseValue_single hsx] at hg
    obtain ⟨w, hw, rfl⟩ := Option.map_eq_some_iff.mp hg
    obtain ⟨w', rfl, hw'⟩ := hopen.decodeValue decodeValue_x ht hw
    rw [parseValue_single hst, hw']
    simp [Filter.fill, Filter.mapValue]
  | cons i is =>
    rw [hinit] at hsx hst
    -- the part behind an asterisk is not empty: it ends in the equals sign
    have hne : ∀ t, last ++ t ≠ [] := by
      rintro t he
      obtain ⟨rfl, -⟩ := List.append_eq_nil_iff.mp he
      rcases h with rfl | ⟨p, rfl⟩
      · cases hinit
      · rw [splitAt_append (by decide)] at hlast
        simp at hlast
    rw [parseValue_many hsx (hne _)] at hg
    simp only [Option.bind_eq_bind, Option.bind_eq_some_iff] at hg
    obtain ⟨initial, hi, any, hany, w, hw, hg⟩ := hg
    obtain rfl := Option.some.inj hg
    obtain ⟨w', rfl, hw'⟩ := hopen.decodeValue decodeValue_x ht hw
    rw [parseValue_many hst (hne _), hi, hany, hw']
    simp [Filter.fill, Filter.mapValue]

theorem parseExtensible_inv {lhs rhs : List Char} {u : List UInt8} {g : Filter}
    (hu : decodeValue rhs = some u) (hg : parseExtensible lhs rhs = some g) :
    ∃ attr dn rule, ∀ t v, decodeValue t = some v →
      parseExtensible lhs t = some (.extensible attr dn rule v) := by
  have key : ∀ {c : Bool} {a : Option (List Char)} {d : Bool} {r : Option (List Char)},
      (if c = true then some (Filter.extensible a d r u) else none) = some g →
      c = true := by
    intro c a d r h
    by_contra hc
    rw [if_neg hc] at h
    cases h
  unfold parseExtensible at hg ⊢
  simp only [hu, Option.bind_eq_bind, Option.bind_some] at hg
  split at hg
  · have hc := key hg
    exact ⟨_, _, _, fun t v ht => by simp only [ht, Option.bind_eq_bind, Option.bind_some, hc]; rfl⟩
  · split at hg
    · rename_i hc
      exact ⟨_, _, _, fun t v ht => by
        simp only [ht, Option.bind_eq_bind, Option.bind_some, hc]; rfl⟩
    · rename_i hc
      have hc' := key hg
      exact ⟨_, _, _, fun t v ht => by
        simp only [ht, Option.bind_eq_bind, Option.bind_some, hc, hc']; rfl⟩
  · have hc := key hg
    exact ⟨_, _, _, fun t v ht => by simp only [ht, Option.bind_eq_bind, Option.bind_some, hc]; rfl⟩
  · cases hg

theorem parseExtensible_fill {lhs pre t : List Char} {v : List UInt8} {g : Filter} (h : Open pre)
    (ht : decodeValue t = some v) (hg : parseExtensible lhs (pre ++ ['x']) = some g) :
    parseExtensible lhs (pre ++ t) = some (g.fill v) := by
  obtain ⟨w, hw, -⟩ := Option.bind_eq_some_iff.mp hg
  obtain ⟨w', rfl, hw'⟩ := h.decodeValue decodeValue_x ht hw
  obtain ⟨attr, dn, rule, hall⟩ := parseExtensible_inv hw hg
  rw [hall _ _ hw] at hg
  obtain rfl := Option.some.inj hg
  rw [hall _ _ hw']
  simp [Filter.fill, Filter.mapValue]

/-- The first equals sign of an item whose beginning is `attr=`. -/
theorem exists_open (attr : List Char) :
    ∃ lhs pre, '=' ∉ lhs ∧ Open pre ∧ ∀ t, attr ++ '=' :: t = lhs ++ '=' :: (pre ++ t) := by
  by_cases h : '=' ∈ attr
  · obtain ⟨lhs, p, rfl, hlhs⟩ := List.eq_append_cons_of_mem h
    exact ⟨lhs, p ++ ['='], hlhs, .inr ⟨p, rfl⟩, fun t => by simp⟩
  · exact ⟨attr, [], h, .inl rfl, fun t => rfl⟩

/-- **An item is read alike whatever value stands at its end.** -/
theorem parseItem_fill {attr t : List Char} {v : List UInt8} {g : Filter}
    (ht : decodeValue t = some v) (hg : parseItem (attr ++ '=' :: ['x']) = some g) :
    parseItem (attr ++ '=' :: t) = some (g.fill v) := by
  obtain ⟨lhs, pre, hlhs, hopen, htext⟩ := exists_open attr
  have simple : ∀ {make : List Char → List UInt8 → Filter} {a : List Char},
      (∀ w, (make a w).fill v = make a (w.dropLast ++ v)) →
      (if attributeDescription a = true then (decodeValue (pre ++ ['x'])).map (make a) else none) =
        some g →
      (if attributeDescription a = true then (decodeValue (pre ++ t)).map (make a) else none) =
        some (g.fill v) := by
    intro make a hmake h
    split at h
    · rename_i ha
      obtain ⟨w, hw, rfl⟩ := Option.map_eq_some_iff.mp h
      obtain ⟨w', rfl, hw'⟩ := hopen.decodeValue decodeValue_x ht hw
      rw [if_pos ha, hw', hmake]
      simp
    · cases h
  obtain ⟨hlx, hdx⟩ := takeWhile_ne_of_not_mem (r := pre ++ ['x']) hlhs
  obtain ⟨hlt, hdt⟩ := takeWhile_ne_of_not_mem (r := pre ++ t) hlhs
  rw [htext] at hg ⊢
  unfold parseItem at hg ⊢
  simp only [hlx, hdx] at hg
  simp only [hlt, hdt]
  -- the character before the equals sign is the same, whatever the value
  split at hg
  · exact simple (fun _ => rfl) hg
  · exact simple (fun _ => rfl) hg
  · exact simple (fun _ => rfl) hg
  · exact parseExtensible_fill hopen ht hg
  · split at hg
    · rename_i ha
      rw [if_pos ha]
      exact parseValue_fill hopen ht hg
    · cases hg

/-! ### Filters with another value -/

/-- The text of a filter ends in its closing parenthesis. -/
theorem parse_closed (n : ℕ) :
    (∀ s f r, parseFilter n s = some (f, r) → ∃ w, s = w ++ ')' :: r) ∧
      ∀ s fs r, parseFilters n s = some (fs, r) → ∃ w, s = w ++ ')' :: r := by
  induction n with
  | zero =>
    exact ⟨fun _ _ _ h => by simp [parseFilter] at h, fun _ _ _ h => by simp [parseFilters] at h⟩
  | succ n ih =>
    obtain ⟨ihf, ihs⟩ := ih
    refine ⟨fun s f r h => ?_, fun s fs r h => ?_⟩
    · unfold parseFilter at h
      split at h
      · rename_i s
        rw [close_eq_some] at h
        cases n with
        | zero => simp [parseComp] at h
        | succ n =>
          have ihs' := fun u gs r (hu : parseFilters n u = some (gs, r)) =>
            ihs u gs r ((parse_mono n).2.2 (n + 1) _ _ (Nat.le_succ n) hu)
          have ihf' := fun u g r (hu : parseFilter n u = some (g, r)) =>
            ihf u g r ((parse_mono n).1 (n + 1) _ _ (Nat.le_succ n) hu)
          rcases parseComp_inv h with ⟨u, gs, rfl, hu, -⟩ | ⟨u, gs, rfl, hu, -⟩ |
            ⟨u, g, rfl, hu, -⟩ | ⟨-, -, hr⟩
          · obtain ⟨w, hw⟩ := ihs' u gs _ hu
            exact ⟨'(' :: '&' :: (w ++ [')']), by rw [hw]; simp⟩
          · obtain ⟨w, hw⟩ := ihs' u gs _ hu
            exact ⟨'(' :: '|' :: (w ++ [')']), by rw [hw]; simp⟩
          · obtain ⟨w, hw⟩ := ihf' u g _ hu
            exact ⟨'(' :: '!' :: (w ++ [')']), by rw [hw]; simp⟩
          · refine ⟨'(' :: s.takeWhile notParen, ?_⟩
            rw [List.cons_append, ← hr, List.takeWhile_append_dropWhile]
      · cases h
    · rcases parseFilters_inv h with ⟨f, t, gs, hf, hgs, -⟩ | ⟨f, hf, -, -⟩
      · obtain ⟨w, hw⟩ := ihf s f _ hf
        obtain ⟨w', hw'⟩ := ihs _ gs r hgs
        exact ⟨w ++ ')' :: w', by rw [hw, hw']; simp⟩
      · exact ihf s f r hf

theorem isItem_cons {c : Char} {s : List Char} :
    IsItem (c :: s) ↔ c ≠ '&' ∧ c ≠ '|' ∧ c ≠ '!' := by
  constructor
  · intro h
    exact ⟨fun he => (h s).1 (by rw [he]), fun he => (h s).2.1 (by rw [he]),
      fun he => (h s).2.2 (by rw [he])⟩
  · rintro ⟨h1, h2, h3⟩ t
    exact ⟨fun he => h1 (List.cons.inj he).1, fun he => h2 (List.cons.inj he).1,
      fun he => h3 (List.cons.inj he).1⟩

/-- A parenthesised text that does not end in a parenthesis is one item. -/
theorem parse_item_inv {s : List Char} {c : Char} {g : Filter} (hc : c ≠ ')')
    (h : parse ('(' :: (s ++ [c]) ++ [')']) = some g) :
    (∀ d ∈ s ++ [c], notParen d = true) ∧ IsItem (s ++ [c]) ∧ parseItem (s ++ [c]) = some g := by
  have hlast : ∀ d w, s ++ [c] ++ [')'] ≠ d :: (w ++ ')' :: [')']) := by
    intro d w he
    have he : s ++ [c] ++ [')'] = (d :: (w ++ [')'])) ++ [')'] := by
      rw [he]
      simp
    have he : s ++ [c] = (d :: w) ++ [')'] := List.append_cancel_right he
    exact hc (List.cons.inj (List.append_inj_right' he rfl)).1
  rw [parse_eq_some, List.cons_append] at h
  generalize 3 * ('(' :: (s ++ [c] ++ [')'])).length = n at h
  cases n with
  | zero => simp [parseFilter] at h
  | succ n =>
    rw [parseFilter, close_eq_some] at h
    cases n with
    | zero => simp [parseComp] at h
    | succ n =>
      rcases parseComp_inv h with ⟨u, gs, he, hu, -⟩ | ⟨u, gs, he, hu, -⟩ | ⟨u, f, he, hu, -⟩ |
        ⟨hitem, hg, hr⟩
      · obtain ⟨w, rfl⟩ := (parse_closed n).2 u gs _ hu
        exact absurd he (hlast '&' w)
      · obtain ⟨w, rfl⟩ := (parse_closed n).2 u gs _ hu
        exact absurd he (hlast '|' w)
      · obtain ⟨w, rfl⟩ := (parse_closed n).1 u f _ hu
        exact absurd he (hlast '!' w)
      · have hall := List.takeWhile_append_dropWhile (p := notParen) (l := s ++ [c] ++ [')'])
        rw [hr] at hall
        have htake := List.append_cancel_right hall
        rw [htake] at hg
        refine ⟨fun d hd => ?_, fun t => ?_, hg⟩
        · rw [← htake] at hd
          exact List.all_eq_true.mp List.all_takeWhile d hd
        · have := hitem (t ++ [')'])
          refine ⟨fun he => this.1 ?_, fun he => this.2.1 ?_, fun he => this.2.2 ?_⟩
          all_goals rw [he]; rfl

/-- A filter and an item in one conjunction. -/
theorem parse_and {filter item : List Char} {f g : Filter}
    (hf : parse ('(' :: filter ++ [')']) = some f) (hchars : ∀ d ∈ item, notParen d = true)
    (hitem : IsItem item) (hg : parseItem item = some g) :
    parse ("(&(".toList ++ filter ++ ")(".toList ++ item ++ "))".toList) =
      some (.and [f, g]) := by
  rw [parse_eq_some] at hf ⊢
  have htext : "(&(".toList ++ filter ++ ")(".toList ++ item ++ "))".toList =
      '(' :: '&' :: (('(' :: filter ++ [')']) ++ '(' :: (item ++ ')' :: [')'])) := by
    simp
  obtain ⟨k, hk, hle⟩ : ∃ k, 3 * ('(' :: '&' :: (('(' :: filter ++ [')']) ++
      '(' :: (item ++ ')' :: [')']))).length = k + 6 ∧
      3 * ('(' :: filter ++ [')']).length ≤ k + 3 := by
    refine ⟨3 * ('(' :: filter ++ [')']).length + 3 * item.length + 9, ?_, ?_⟩
    · simp only [List.length_cons, List.length_append, List.length_nil]
      omega
    · omega
  have hfirst := parseFilter_append (t := '(' :: (item ++ ')' :: [')'])) hle hf
  obtain ⟨c, item, rfl⟩ : ∃ c t, item = c :: t := by
    cases item with
    | nil => cases hg
    | cons c t => exact ⟨c, t, rfl⟩
  rw [htext, hk, parseFilter, close_eq_some, parseComp, parseFilters_cons hfirst,
    parseFilters_last (by rintro _ ⟨⟩) (parseFilter_item hchars (isItem_cons.mp hitem) hg)]
  rfl

/-- **A filter and an assertion with any value.** If `(attr=x)` is a filter
then so is the conjunction of another with `attr=value`: the assertion that
`(attr=x)` makes, with what `value` stands for in the place of the `x`. -/
theorem parse_and_fill {filter attr value : List Char} {f g : Filter} {v : List UInt8}
    (hf : parse ('(' :: filter ++ [')']) = some f)
    (hg : parse ('(' :: (attr ++ "=x".toList) ++ [')']) = some g)
    (hv : decodeValue value = some v) :
    parse ("(&(".toList ++ filter ++ ")(".toList ++ attr ++ "=".toList ++ value ++ "))".toList) =
      some (.and [f, g.fill v]) := by
  have hx : attr ++ "=x".toList = (attr ++ ['=']) ++ ['x'] := by simp
  rw [hx] at hg
  obtain ⟨hchars, hitem, hg⟩ := parse_item_inv (by decide) hg
  have hbegin : IsItem (attr ++ '=' :: value) := by
    cases attr with
    | nil => exact isItem_cons.mpr (by decide)
    | cons c attr => exact isItem_cons.mpr (isItem_cons.mp hitem)
  have hplain : ∀ d ∈ attr ++ '=' :: value, notParen d = true := by
    intro d hd
    rcases List.mem_append.mp hd with hd | hd
    · exact hchars d (by simp [hd])
    · rcases List.mem_cons.mp hd with rfl | hd
      · rfl
      · rcases decodeValue_chars hv d hd with rfl | hd
        · rfl
        · exact plain_notParen hd
  have hfill : parseItem (attr ++ '=' :: value) = some (g.fill v) :=
    parseItem_fill hv (by simpa using hg)
  simpa using parse_and hf hplain hbegin hfill

/-- **The filled assertion is the equality of `attr` exactly if** `attr` is an
attribute description. -/
theorem fill_eq_equality {attr : List Char} {g : Filter} (v : List UInt8)
    (hg : parse ('(' :: (attr ++ "=x".toList) ++ [')']) = some g) :
    g.fill v = .equality attr v ↔ attributeDescription attr = true := by
  have hx : attr ++ "=x".toList = (attr ++ ['=']) ++ ['x'] := by simp
  rw [hx] at hg
  obtain ⟨-, -, hg⟩ := parse_item_inv (by decide) hg
  have hg : parseItem (attr ++ '=' :: ['x']) = some g := by simpa using hg
  constructor
  · intro h
    cases g with
    | equality a w =>
      obtain ⟨ha, -⟩ := Filter.equality.inj h
      rw [← ha]
      exact (parseItem_inv hg).1
    | _ => cases h
  · intro h
    rw [(parseItem_equality attr ['x']).mpr ⟨h, plain_of_any rfl⟩] at hg
    obtain rfl := Option.some.inj hg
    rfl

end LdapFilter
