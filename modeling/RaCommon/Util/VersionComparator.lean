import Mathlib.Data.List.DropRight
import RaCommon.Library.Lexicographic
import RaCommon.Runtime.Text

set_option relaxedAutoImplicit false
set_option autoImplicit false

/-!
# Comparing versions (`util/version_comparator.hpp`)

`VersionCompare` walks over two texts at once and compares the numbers of their segments. A
cursor into a text is modelled by what is left of the text from it; a cursor past the end and one
at the end are both an empty rest.

## Main definitions

* `RaCommon.parseLong`, `RaCommon.nextNumber`, `RaCommon.versionCompareLoop`,
  `RaCommon.versionCompare` — the functions of the header. A `long` has 64 bits.
* `RaCommon.segments`, `RaCommon.numbers`, `RaCommon.key` — the numbers a version stands for.

## Main results

* `RaCommon.parseLong_eq` — the number of a segment, and when computing it overflows.
* `RaCommon.nextNumber_key` — the next number is the next entry of the key.
* `RaCommon.versionCompareLoop_eq_lexicographic` — the loop compares keys.
-/

namespace RaCommon

/-! ## The functions of the header -/

/-- `detail::IsSeparator`. -/
def isSeparator (c : UInt8) : Bool := c = 46 || c = 45 || c = 95

/-- `detail::NextSeparator`: the text from the cursor to the next separator, and from there. -/
def nextSeparator (s : Str) : Str × Str :=
  (s.takeWhile fun c => !isSeparator c, s.dropWhile fun c => !isSeparator c)

/-- The result of an operation on `long`, defined inside the type's range only. -/
def checkLong (x : ℤ) : Outcome ℤ :=
  if -2 ^ 63 ≤ x ∧ x < 2 ^ 63 then .ok x else .error .undefinedBehavior

/-- The loop of `detail::ParseLong`, with `rv` and `parsed_any`. -/
def parseLongLoop : Str → ℤ → Bool → Outcome (ℤ × Bool)
  | [], rv, parsedAny => .ok (rv, parsedAny)
  | c :: s, rv, parsedAny =>
    if rv < 0 then .ok (rv, parsedAny)
    else if isDigit c then do
      let tens ← checkLong (rv * 10)
      let next ← checkLong (tens + (c.toNat - 48))
      parseLongLoop s next true
    else parseLongLoop s rv parsedAny

/-- `detail::ParseLong` of a segment. -/
def parseLong (segment : Str) : Outcome ℤ := do
  let (rv, parsedAny) ← parseLongLoop segment 0 false
  .ok (if parsedAny then rv else -1)

/-- The cursor moves on. -/
lemma length_tail_nextSeparator {s : Str} (hs : s ≠ []) :
    (nextSeparator s).2.tail.length < s.length := by
  have hpos : 0 < s.length := List.length_pos_iff.mpr hs
  have hle : (nextSeparator s).2.length ≤ s.length := (List.dropWhile_sublist _).length_le
  rw [List.length_tail]
  omega

/-- The inner loops of `VersionCompare`, `while (v == -1 && i < size)`, entered with `v == -1`: the
next number and the new cursor. -/
def nextNumber (s : Str) : Outcome (ℤ × Str) :=
  if hs : s = [] then .ok (-1, [])
  else do
    let v ← parseLong (nextSeparator s).1
    if v = -1 then nextNumber (nextSeparator s).2.tail else .ok (v, (nextSeparator s).2.tail)
termination_by s.length
decreasing_by exact length_tail_nextSeparator hs

/-- The next number is behind the cursor. -/
lemma length_lt_of_nextNumber {s s' : Str} {v : ℤ} (hs : s ≠ [])
    (h : nextNumber s = .ok (v, s')) : s'.length < s.length := by
  fun_induction nextNumber s with
  | case1 => exact absurd rfl hs
  | case2 s hne ih =>
    obtain ⟨w, -, h⟩ := Outcome.bind_eq_ok.mp h
    have hlt := length_tail_nextSeparator hne
    split at h
    · by_cases hnil : (nextSeparator s).2.tail = []
      · rw [hnil, nextNumber, dif_pos rfl, Except.ok.injEq, Prod.mk.injEq] at h
        rw [← h.2]
        exact List.length_pos_iff.mpr hne
      · exact Nat.lt_trans (ih hnil h) hlt
    · rw [Except.ok.injEq, Prod.mk.injEq] at h
      rw [← h.2]
      exact hlt

/-- The loop of `VersionCompare`, with the cursors into `left` and `right`. -/
def versionCompareLoop (left right : Str) : Outcome ℤ :=
  if hl : left = [] then .ok (if right = [] then 0 else -1)
  else if right = [] then .ok 1
  else
    match _h : nextNumber left with
    | .error e => .error e
    | .ok (lv, left') => do
      let (rv, right') ← nextNumber right
      if lv < rv then .ok (-1) else if rv < lv then .ok 1 else versionCompareLoop left' right'
termination_by left.length
decreasing_by exact length_lt_of_nextNumber hl _h

/-- `VersionCompare`. -/
def versionCompare (left right : Str) : Outcome ℤ :=
  if left = right then .ok 0 else versionCompareLoop left right

/-! ## The number of a segment -/

/-- The digits of a segment, wherever they stand in it. -/
def digits (segment : Str) : Str := segment.filter isDigit

/-- A further digit does not make a number smaller. -/
lemma le_foldl_digits (ds : List ℕ) (n : ℕ) : n ≤ ds.foldl (fun n d => 10 * n + d) n := by
  induction ds generalizing n with
  | nil => exact Nat.le_refl n
  | cons d ds ih =>
    have h := ih (10 * n + d)
    rw [List.foldl_cons]
    omega

/-- An operation on `long` whose result is not negative. -/
lemma checkLong_natCast (n : ℕ) :
    checkLong n = if n < 2 ^ 63 then .ok (n : ℤ) else .error .undefinedBehavior := by
  rw [checkLong]
  refine if_congr ⟨fun h => by omega, fun h => by omega⟩ rfl rfl

/-- The loop of `ParseLong` from a number that a `long` holds: it computes the number with the
digits of the text after it, or overflows when a `long` does not hold that number.

**Proof sketch.** Induction on the text. A number that a `long` does not hold stays one when digits
follow, so an overflow at any digit is an overflow of the whole number. -/
theorem parseLongLoop_eq (s : Str) {n : ℕ} (hn : n < 2 ^ 63) (parsedAny : Bool) :
    parseLongLoop s n parsedAny =
      let x := ((digits s).map fun c => c.toNat - 48).foldl (fun n d => 10 * n + d) n
      if x < 2 ^ 63 then .ok (x, parsedAny || digits s ≠ []) else .error .undefinedBehavior := by
  induction s generalizing n parsedAny with
  | nil => simpa [parseLongLoop, digits] using hn
  | cons c s ih =>
    have hneg : ¬((n : ℤ) < 0) := by omega
    rw [parseLongLoop, if_neg hneg]
    by_cases hc : isDigit c = true
    · have hdigits : digits (c :: s) = c :: digits s := List.filter_cons_of_pos hc
      have h48 : 48 ≤ c.toNat := by
        simp only [isDigit, Bool.and_eq_true, decide_eq_true_eq] at hc
        exact UInt8.le_iff_toNat_le.mp hc.1
      have htens : (n : ℤ) * 10 = ((10 * n : ℕ) : ℤ) := by
        push_cast
        ring
      have hnext : ((10 * n : ℕ) : ℤ) + (c.toNat - 48) = ((10 * n + (c.toNat - 48) : ℕ) : ℤ) := by
        push_cast [h48]
        ring
      have hle := le_foldl_digits ((digits s).map fun c => c.toNat - 48) (10 * n + (c.toNat - 48))
      rw [if_pos hc, hdigits, List.map_cons, List.foldl_cons, htens, checkLong_natCast]
      by_cases hten : 10 * n < 2 ^ 63
      · rw [if_pos hten, Outcome.ok_bind, hnext, checkLong_natCast]
        by_cases hone : 10 * n + (c.toNat - 48) < 2 ^ 63
        · rw [if_pos hone, Outcome.ok_bind, ih hone]
          simp
        · rw [if_neg hone, Outcome.error_bind]
          exact (if_neg (by omega)).symm
      · rw [if_neg hten, Outcome.error_bind]
        exact (if_neg (by omega)).symm
    · have hdigits : digits (c :: s) = digits s := List.filter_cons_of_neg hc
      rw [if_neg hc, hdigits]
      exact ih hn parsedAny

/-- **`ParseLong`**: `-1` for a segment without a digit, the number of its digits for another; the
computation overflows exactly when a `long` does not hold that number. -/
theorem parseLong_eq (segment : Str) :
    parseLong segment =
      if digits segment = [] then .ok (-1)
      else if digitsValue (digits segment) < 2 ^ 63 then .ok (digitsValue (digits segment) : ℤ)
      else .error .undefinedBehavior := by
  have hloop : parseLongLoop segment 0 false =
      if digitsValue (digits segment) < 2 ^ 63 then
        .ok (digitsValue (digits segment), false || digits segment ≠ [])
      else .error .undefinedBehavior :=
    parseLongLoop_eq segment (Nat.pow_pos (by decide)) false
  rw [parseLong, hloop]
  by_cases hlt : digitsValue (digits segment) < 2 ^ 63
  · rw [if_pos hlt, if_pos hlt, Outcome.ok_bind]
    by_cases hnil : digits segment = []
    · simp [hnil]
    · simp [hnil]
  · have hnil : digits segment ≠ [] := by
      intro hnil
      exact hlt (by simp [hnil, digitsValue, Numeral.value])
    rw [if_neg hlt, if_neg hnil, if_neg hlt, Outcome.error_bind]

/-! ## The key of a version -/

/-- The segments of a version, delimited by `.`, `-` and `_`. -/
def segments (s : Str) : List Str := s.splitOnP isSeparator

/-- The numbers of the segments that contain a digit. -/
def numbers (s : Str) : List ℤ :=
  (((segments s).map digits).filter (· ≠ [])).map fun ds => (digitsValue ds : ℤ)

/-- The segments after the last one that contains a digit; all of them if there is none. -/
def remainder (s : Str) : List Str := (segments s).rtakeWhile fun g => digits g = []

/-- The key of a version: its numbers, followed by `-1` if characters remain after the separator
behind the last of them. In a version without a number, the whole text remains. -/
def key (s : Str) : List ℤ :=
  numbers s ++ if remainder s = [] ∨ remainder s = [[]] then [] else [-1]

/-- A text none of whose segments has a number that a `long` does not hold. -/
def Representable (s : Str) : Prop := ∀ g ∈ segments s, digitsValue (digits g) ≤ 2 ^ 63 - 1

instance (s : Str) : Decidable (Representable s) :=
  inferInstanceAs (Decidable (∀ g ∈ segments s, digitsValue (digits g) ≤ 2 ^ 63 - 1))

/-- The segments of a text: the one at its beginning, and those after the separator that ends
it. -/
lemma segments_eq (s : Str) :
    segments s = (nextSeparator s).1 ::
      if (nextSeparator s).2 = [] then [] else segments (nextSeparator s).2.tail := by
  have hfree : ∀ c ∈ (nextSeparator s).1, isSeparator c = false := by
    intro c hc
    simpa using List.mem_takeWhile_imp hc
  have hsplit : (nextSeparator s).1 ++ (nextSeparator s).2 = s := List.takeWhile_append_dropWhile
  have hhead : ∀ c ∈ (nextSeparator s).2.head?, (!isSeparator c) = false := head?_dropWhile
  cases hrest : (nextSeparator s).2 with
  | nil =>
    rw [hrest, List.append_nil] at hsplit
    rw [if_pos rfl, segments]
    conv_lhs => rw [← hsplit]
    exact List.splitOnP_eq_singleton hfree
  | cons c rest =>
    have hc : isSeparator c = true := by simpa using hhead c (by rw [hrest]; rfl)
    rw [hrest] at hsplit
    rw [if_neg (List.cons_ne_nil c rest), List.tail_cons, segments]
    conv_lhs => rw [← hsplit]
    exact List.splitOnP_append_cons_of_forall_mem hfree c hc rest

/-- What is at the end of a list with one more entry in front. -/
lemma rtakeWhile_cons {α : Type} (p : α → Bool) (a : α) (l : List α) :
    (a :: l).rtakeWhile p =
      if ∀ x ∈ l, p x then (if p a then a :: l else l) else l.rtakeWhile p := by
  induction l using List.reverseRecOn with
  | nil =>
    cases h : p a <;> simp [List.rtakeWhile, h]
  | append_singleton l b ih =>
    rw [← List.cons_append, List.rtakeWhile_concat, List.rtakeWhile_concat, ih]
    by_cases hb : p b = true
    · by_cases hl : ∀ x ∈ l, p x = true
      · have hall : ∀ x ∈ l ++ [b], p x = true := by
          simpa [or_imp, forall_and] using ⟨hl, hb⟩
        rw [if_pos hb, if_pos hl, if_pos hall]
        split
        · rfl
        · rfl
      · have hall : ¬∀ x ∈ l ++ [b], p x = true := fun h => hl fun x hx => h x (by simp [hx])
        rw [if_pos hb, if_neg hl, if_neg hall, if_pos hb]
    · have hall : ¬∀ x ∈ l ++ [b], p x = true := fun h => hb (h b (by simp))
      rw [if_neg hb, if_neg hall, if_neg hb]

/-- Only the empty text has one segment, the empty one. -/
lemma segments_eq_singleton_nil {s : Str} : segments s = [[]] ↔ s = [] := by
  constructor
  · intro h
    rw [segments_eq, List.cons.injEq] at h
    by_cases hrest : (nextSeparator s).2 = []
    · have hsplit : (nextSeparator s).1 ++ (nextSeparator s).2 = s :=
        List.takeWhile_append_dropWhile
      rw [← hsplit, h.1, hrest, List.append_nil]
    · rw [if_neg hrest] at h
      exact absurd h.2 (List.splitOnP_ne_nil _ _)
  · intro h
    subst h
    rfl

/-- A text without a number whose text remains. -/
lemma key_of_remainder {s : Str} (hs : s ≠ []) (h : ∀ g ∈ segments s, digits g = []) :
    key s = [-1] := by
  have hremainder : remainder s = segments s :=
    List.rtakeWhile_eq_self_iff.mpr fun g hg => by simpa using h g hg
  have hnumbers : numbers s = [] := by
    rw [numbers, List.map_eq_nil_iff, List.filter_eq_nil_iff]
    intro ds hds
    obtain ⟨g, hg, rfl⟩ := List.mem_map.mp hds
    simpa using h g hg
  rw [key, hnumbers, hremainder, if_neg, List.nil_append]
  rintro (hnil | hnil)
  · exact absurd hnil (List.splitOnP_ne_nil _ _)
  · exact hs (segments_eq_singleton_nil.mp hnil)

/-- A segment with a digit puts its number in front of the key. -/
lemma key_of_digits {s : Str} (h : digits (nextSeparator s).1 ≠ []) :
    key s = (digitsValue (digits (nextSeparator s).1) : ℤ) :: key (nextSeparator s).2.tail := by
  by_cases hrest : (nextSeparator s).2 = []
  · have hnil : key [] = [] := rfl
    rw [hrest, List.tail_nil, hnil, key, numbers, remainder, segments_eq, if_pos hrest]
    simp [List.rtakeWhile, h]
  · have hremainder : remainder s = remainder (nextSeparator s).2.tail := by
      rw [remainder, remainder, segments_eq s, if_neg hrest, rtakeWhile_cons]
      split
      · next hall =>
        rw [if_neg (by simpa using h), List.rtakeWhile_eq_self_iff.mpr hall]
      · rfl
    rw [key, key, hremainder, numbers, numbers, segments_eq s, if_neg hrest, List.map_cons,
      List.filter_cons_of_pos (by simpa using h), List.map_cons, List.cons_append]

/-- A segment without a digit does not show in the key, unless there is no number after it. -/
lemma key_of_digitless {s : Str} (hs : s ≠ []) (h : digits (nextSeparator s).1 = []) :
    key s = if (nextSeparator s).2.tail = [] then [-1] else key (nextSeparator s).2.tail := by
  have hsegments := segments_eq s
  by_cases hall : ∀ g ∈ segments (nextSeparator s).2.tail, digits g = []
  · have hnone : ∀ g ∈ segments s, digits g = [] := by
      intro g hg
      rw [hsegments] at hg
      rcases List.mem_cons.mp hg with rfl | hg
      · exact h
      · split at hg
        · cases hg
        · exact hall g hg
    rw [key_of_remainder hs hnone]
    split
    · rfl
    · next hne => rw [key_of_remainder hne hall]
  · have hne : (nextSeparator s).2.tail ≠ [] := by
      intro hnil
      refine hall fun g hg => ?_
      rw [hnil, segments_eq_singleton_nil.mpr rfl, List.mem_singleton] at hg
      rw [hg]
      rfl
    have hrest : (nextSeparator s).2 ≠ [] := fun hnil => hne (by rw [hnil]; rfl)
    rw [if_neg hrest] at hsegments
    have hremainder : remainder s = remainder (nextSeparator s).2.tail := by
      rw [remainder, remainder, hsegments, rtakeWhile_cons, if_neg]
      simpa using hall
    rw [if_neg hne, key, key, hremainder, numbers, numbers, hsegments, List.map_cons,
      List.filter_cons_of_neg (by simpa using h)]

/-- **The next number is the next entry of the key**, for a text whose numbers are representable.

**Proof sketch.** Induction along the segments the loop skips. A segment with a digit is the first
entry of the key; one without a digit is skipped, and if the text ends behind it, the `-1` the loop
is left with is the `-1` at the end of the key. -/
theorem nextNumber_key {s : Str} (hs : s ≠ []) (hrep : Representable s) :
    ∃ v s', nextNumber s = .ok (v, s') ∧ key s = v :: key s' ∧ Representable s' := by
  fun_induction nextNumber s with
  | case1 => exact absurd rfl hs
  | case2 s hne ih =>
    have hfirst : digitsValue (digits (nextSeparator s).1) ≤ 2 ^ 63 - 1 :=
      hrep _ (by rw [segments_eq]; exact List.mem_cons_self)
    have hafter : Representable (nextSeparator s).2.tail := by
      intro g hg
      by_cases hrest : (nextSeparator s).2 = []
      · rw [hrest, List.tail_nil, segments_eq_singleton_nil.mpr rfl, List.mem_singleton] at hg
        rw [hg]
        exact Nat.zero_le _
      · exact hrep g (by rw [segments_eq, if_neg hrest]; exact List.mem_cons_of_mem _ hg)
    rw [parseLong_eq]
    by_cases hdigits : digits (nextSeparator s).1 = []
    · rw [if_pos hdigits, Outcome.ok_bind, if_pos rfl, key_of_digitless hne hdigits]
      by_cases hnil : (nextSeparator s).2.tail = []
      · rw [if_pos hnil, hnil, nextNumber, dif_pos rfl]
        exact ⟨-1, [], rfl, rfl, hnil ▸ hafter⟩
      · rw [if_neg hnil]
        exact ih hnil hafter
    · have hlt : digitsValue (digits (nextSeparator s).1) < 2 ^ 63 := by omega
      have hsign : (digitsValue (digits (nextSeparator s).1) : ℤ) ≠ -1 := by omega
      rw [if_neg hdigits, if_pos hlt, Outcome.ok_bind, if_neg hsign, key_of_digits hdigits]
      exact ⟨_, _, rfl, rfl, hafter⟩

/-- One round of the loop of `VersionCompare`. -/
lemma versionCompareLoop_eq {left right : Str} (hl : left ≠ []) (hr : right ≠ []) :
    versionCompareLoop left right = (do
      let (lv, left') ← nextNumber left
      let (rv, right') ← nextNumber right
      if lv < rv then .ok (-1) else if rv < lv then .ok 1
      else versionCompareLoop left' right') := by
  rw [versionCompareLoop, dif_neg hl, if_neg hr]
  split
  · next e he => rw [he, Outcome.error_bind]
  · next lv left' he => rw [he, Outcome.ok_bind]

/-- A round in which both cursors find a number. -/
lemma versionCompareLoop_step {left right left' right' : Str} {lv rv : ℤ} (hl : left ≠ [])
    (hr : right ≠ []) (hlv : nextNumber left = .ok (lv, left'))
    (hrv : nextNumber right = .ok (rv, right')) :
    versionCompareLoop left right =
      if lv < rv then .ok (-1) else if rv < lv then .ok 1 else versionCompareLoop left' right' := by
  rw [versionCompareLoop_eq hl hr, hlv, hrv]
  rfl

/-- **The loop of `VersionCompare` compares keys**, for texts whose numbers are representable.

**Proof sketch.** Induction on the length of the left text: each round takes the first entry of
each key off and compares them, and a key is empty exactly when its text is. -/
theorem versionCompareLoop_eq_lexicographic {left right : Str} (hl : Representable left)
    (hr : Representable right) :
    versionCompareLoop left right = .ok (Lexicographic.order (key left) (key right)) := by
  have hnil : key [] = [] := rfl
  induction hlen : left.length using Nat.strong_induction_on generalizing left right with
  | _ n ih =>
    by_cases hleft : left = []
    · subst hleft
      rw [versionCompareLoop, dif_pos rfl, hnil]
      by_cases hright : right = []
      · rw [if_pos hright, hright, hnil, Lexicographic.order_nil_nil]
      · obtain ⟨rv, right', -, hkey, -⟩ := nextNumber_key hright hr
        rw [if_neg hright, hkey, Lexicographic.order_nil_cons]
    · obtain ⟨lv, left', hlv, hlkey, hl'⟩ := nextNumber_key hleft hl
      by_cases hright : right = []
      · rw [versionCompareLoop, dif_neg hleft, if_pos hright, hright, hnil, hlkey,
          Lexicographic.order_cons_nil]
      · obtain ⟨rv, right', hrv, hrkey, hr'⟩ := nextNumber_key hright hr
        have hlt : left'.length < n := hlen ▸ length_lt_of_nextNumber hleft hlv
        rw [versionCompareLoop_step hleft hright hlv hrv, hlkey, hrkey,
          Lexicographic.order_cons_cons, ih _ hlt hl' hr' rfl]
        split
        · rfl
        · split
          · rfl
          · rfl

/-- The equal-strings shortcut of `VersionCompare` is an abbreviation of its loop. -/
lemma versionCompare_eq_lexicographic {left right : Str} (hl : Representable left)
    (hr : Representable right) :
    versionCompare left right = .ok (Lexicographic.order (key left) (key right)) := by
  rw [versionCompare]
  split
  · next h => rw [h, Lexicographic.order_self]
  · exact versionCompareLoop_eq_lexicographic hl hr

/-- **Versions are compared by their keys, which is a total preorder**: no version differs from
itself, swapping two versions negates the result, and the comparison is transitive; the
equal-strings shortcut agrees with the loop. -/
theorem versionCompare_preorder (a b c : Str) (ha : Representable a) (hb : Representable b)
    (hc : Representable c) :
    versionCompare a b = .ok (Lexicographic.order (key a) (key b)) ∧
      versionCompare a a = .ok 0 ∧
      (∃ x, versionCompare a b = .ok x ∧ versionCompare b a = .ok (-x)) ∧
      (∃ x y z, versionCompare a b = .ok x ∧ versionCompare b c = .ok y ∧
        versionCompare a c = .ok z ∧ (x ≤ 0 → y ≤ 0 → z ≤ 0)) ∧
      versionCompareLoop a b = versionCompare a b := by
  have hab := versionCompare_eq_lexicographic ha hb
  have hbc := versionCompare_eq_lexicographic hb hc
  have hac := versionCompare_eq_lexicographic ha hc
  refine ⟨hab, if_pos rfl, ⟨_, hab, ?_⟩, ⟨_, _, _, hab, hbc, hac, Lexicographic.order_trans⟩, ?_⟩
  · rw [versionCompare_eq_lexicographic hb ha, Lexicographic.order_swap]
  · rw [hab, versionCompareLoop_eq_lexicographic ha hb]

/-- `8-ea` is newer than `8`, which `8ea` equals. -/
theorem versionCompare_preorder_ea :
    versionCompare (str "8-ea") (str "8") = .ok 1 ∧ versionCompare (str "8") (str "8ea") = .ok 0 :=
  have h := versionCompare_preorder (str "8-ea") (str "8") (str "8ea") (by decide +kernel)
    (by decide +kernel) (by decide +kernel)
  ⟨h.1, (versionCompare_preorder (str "8") (str "8ea") [] (by decide +kernel)
    (by decide +kernel) (by decide +kernel)).1⟩

/-- The key in which `-1` stands behind a number only. -/
def numberedKey (s : Str) : List ℤ := if numbers s = [] then [] else key s

/-- A text without a number is greater than the empty text, although neither has a number. -/
theorem versionCompare_letter :
    Representable (str "a") ∧ Representable [] ∧
      Lexicographic.order (numberedKey (str "a")) (numberedKey []) = 0 ∧
      versionCompare (str "a") [] = .ok 1 := by
  decide +kernel

/-! ## Numbers of any length -/

/-- A non-empty run of decimal digits. -/
def IsRun (r : Str) : Prop := r ≠ [] ∧ ∀ c ∈ r, isDigit c

instance (r : Str) : Decidable (IsRun r) :=
  inferInstanceAs (Decidable (r ≠ [] ∧ ∀ c ∈ r, isDigit c = true))

/-- Runs separated by single dots. -/
def dotted (runs : List Str) : Str := [46].intercalate runs

/-- The integers some runs denote. -/
def values (runs : List Str) : List ℤ := runs.map fun r => (digitsValue r : ℤ)

/-- A `long` holds the runs of two versions as far as they are compared: in every position that
both have, up to the first one in which their numbers differ. -/
def FitsLong : List Str → List Str → Prop
  | a :: as, b :: bs =>
    digitsValue a < 2 ^ 63 ∧ digitsValue b < 2 ^ 63 ∧
      (digitsValue a = digitsValue b → FitsLong as bs)
  | _, _ => True

instance : (as bs : List Str) → Decidable (FitsLong as bs)
  | _ :: as, _ :: bs =>
    have := instDecidableFitsLong as bs
    inferInstanceAs (Decidable (_ ∧ _ ∧ (_ → _)))
  | [], _ => isTrue trivial
  | _ :: _, [] => isTrue trivial

/-- A digit is not a separator. -/
lemma isSeparator_of_isDigit {c : UInt8} (hc : isDigit c) : isSeparator c = false := by
  by_contra h
  simp only [isSeparator, Bool.not_eq_false, Bool.or_eq_true, decide_eq_true_eq] at h
  rcases h with (rfl | rfl) | rfl
  · exact absurd hc (by decide)
  · exact absurd hc (by decide)
  · exact absurd hc (by decide)

/-- The first run of a version, and the others. -/
lemma nextSeparator_dotted {r : Str} (hr : IsRun r) (rs : List Str) :
    (nextSeparator (dotted (r :: rs))).1 = r ∧
      (nextSeparator (dotted (r :: rs))).2.tail = dotted rs := by
  have hfree : ∀ c ∈ r, (!isSeparator c) = true := by
    intro c hc
    rw [isSeparator_of_isDigit (hr.2 c hc), Bool.not_false]
  cases rs with
  | nil =>
    have hdotted : dotted [r] = r ++ [] := by simp [dotted]
    rw [hdotted, nextSeparator, List.takeWhile_append_of_pos hfree,
      List.dropWhile_append_of_pos hfree]
    simp [dotted]
  | cons r' rs =>
    have hdotted : dotted (r :: r' :: rs) = r ++ 46 :: dotted (r' :: rs) := by simp [dotted]
    rw [hdotted, nextSeparator, List.takeWhile_append_of_pos hfree,
      List.dropWhile_append_of_pos hfree]
    simp [isSeparator]

/-- A version with a run is not empty. -/
lemma dotted_ne_nil {r : Str} (hr : IsRun r) (rs : List Str) : dotted (r :: rs) ≠ [] := by
  intro hnil
  have hfirst := (nextSeparator_dotted hr rs).1
  rw [hnil] at hfirst
  exact hr.1 hfirst.symm

/-- The loop reads the first run of a version, and overflows when a `long` does not hold it. -/
lemma nextNumber_dotted {r : Str} (hr : IsRun r) (rs : List Str) :
    nextNumber (dotted (r :: rs)) =
      if digitsValue r < 2 ^ 63 then .ok ((digitsValue r : ℤ), dotted rs)
      else .error .undefinedBehavior := by
  obtain ⟨hfirst, hothers⟩ := nextSeparator_dotted hr rs
  have hdigits : digits r = r := List.filter_eq_self.mpr hr.2
  rw [nextNumber, dif_neg (dotted_ne_nil hr rs), hfirst, hothers, parseLong_eq, hdigits,
    if_neg hr.1]
  split
  · have hsign : (digitsValue r : ℤ) ≠ -1 := by omega
    rw [Outcome.ok_bind, if_neg hsign]
  · rfl

/-- A version determines its runs. -/
lemma dotted_injective {as bs : List Str} (ha : ∀ r ∈ as, IsRun r) (hb : ∀ r ∈ bs, IsRun r)
    (h : dotted as = dotted bs) : as = bs := by
  induction as generalizing bs with
  | nil =>
    cases bs with
    | nil => rfl
    | cons b bs => exact absurd h.symm (dotted_ne_nil (hb b (by simp)) bs)
  | cons a as ih =>
    cases bs with
    | nil => exact absurd h (dotted_ne_nil (ha a (by simp)) as)
    | cons b bs =>
      obtain ⟨hfirst, hothers⟩ := nextSeparator_dotted (ha a (by simp)) as
      obtain ⟨hfirst', hothers'⟩ := nextSeparator_dotted (hb b (by simp)) bs
      rw [h, hfirst'] at hfirst
      rw [h, hothers'] at hothers
      rw [hfirst, ih (fun r hr => ha r (by simp [hr])) (fun r hr => hb r (by simp [hr]))
        hothers.symm]

/-- **The loop on versions made of runs**: it compares the integers the runs denote, exactly when
a `long` holds those it reaches.

**Proof sketch.** Induction on the runs of both versions. One round reads the first run of each;
if the numbers are equal, the others follow. -/
theorem versionCompareLoop_dotted_iff {as bs : List Str} (ha : ∀ r ∈ as, IsRun r)
    (hb : ∀ r ∈ bs, IsRun r) :
    versionCompareLoop (dotted as) (dotted bs) =
      .ok (Lexicographic.order (values as) (values bs)) ↔ FitsLong as bs := by
  induction as generalizing bs with
  | nil =>
    have hloop : versionCompareLoop (dotted []) (dotted bs) =
        .ok (if dotted bs = [] then 0 else -1) := by
      rw [versionCompareLoop, dif_pos (show dotted [] = [] from rfl)]
    rw [hloop]
    cases bs with
    | nil => simp [dotted, values, FitsLong]
    | cons b bs => simp [dotted_ne_nil (hb b (by simp)) bs, values, FitsLong]
  | cons a as ih =>
    have hleft := dotted_ne_nil (ha a (by simp)) as
    cases bs with
    | nil =>
      have hloop : versionCompareLoop (dotted (a :: as)) (dotted []) = .ok 1 := by
        rw [versionCompareLoop, dif_neg hleft, if_pos (show dotted [] = [] from rfl)]
      rw [hloop]
      simp [values, FitsLong]
    | cons b bs =>
      have hright := dotted_ne_nil (hb b (by simp)) bs
      have hlv := nextNumber_dotted (ha a (by simp)) as
      have hrv := nextNumber_dotted (hb b (by simp)) bs
      rw [FitsLong]
      by_cases hlong : digitsValue a < 2 ^ 63
      · rw [if_pos hlong] at hlv
        by_cases hlong' : digitsValue b < 2 ^ 63
        · rw [if_pos hlong'] at hrv
          have hvalues : Lexicographic.order (values (a :: as)) (values (b :: bs)) =
              if (digitsValue a : ℤ) < digitsValue b then -1
              else if (digitsValue b : ℤ) < digitsValue a then 1
              else Lexicographic.order (values as) (values bs) :=
            Lexicographic.order_cons_cons _ _ _ _
          have has : ∀ r ∈ as, IsRun r := fun r hr => ha r (by simp [hr])
          have hbs : ∀ r ∈ bs, IsRun r := fun r hr => hb r (by simp [hr])
          have hothers := ih has hbs
          rw [versionCompareLoop_step hleft hright hlv hrv, hvalues, and_iff_right hlong,
            and_iff_right hlong']
          rcases lt_trichotomy (digitsValue a) (digitsValue b) with hlt | heq | hgt
          · simp [hlt, hlt.ne]
          · simp [heq, hothers]
          · simp [hgt, hgt.not_gt, hgt.ne']
        · rw [if_neg hlong'] at hrv
          have herror : versionCompareLoop (dotted (a :: as)) (dotted (b :: bs)) =
              .error .undefinedBehavior := by
            rw [versionCompareLoop_eq hleft hright, hlv, hrv]
            rfl
          rw [herror]
          exact iff_of_false (fun h => by cases h) fun h => hlong' h.2.1
      · rw [if_neg hlong] at hlv
        rw [versionCompareLoop_eq hleft hright, hlv, Outcome.error_bind]
        exact iff_of_false (fun h => by cases h) fun h => hlong h.1

/-- **Versions made of runs of any length**: `VersionCompare` compares the integers the runs denote,
without an overflow, exactly when the versions are equal or a `long` holds every run that the
comparison reaches. -/
theorem versionCompare_dotted_iff (as bs : List Str) (ha : ∀ r ∈ as, IsRun r)
    (hb : ∀ r ∈ bs, IsRun r) :
    versionCompare (dotted as) (dotted bs) =
      .ok (Lexicographic.order (values as) (values bs)) ↔ as = bs ∨ FitsLong as bs := by
  rw [versionCompare]
  split
  · next h =>
    obtain rfl := dotted_injective ha hb h
    simp [Lexicographic.order_self]
  · next h =>
    have hne : as ≠ bs := fun heq => h (by rw [heq])
    rw [versionCompareLoop_dotted_iff ha hb, or_iff_right hne]

/-- `1.8` is older than `1.11`. -/
theorem versionCompare_dotted_iff_eleven :
    versionCompare (dotted [str "1", str "8"]) (dotted [str "1", str "11"]) =
      .ok (Lexicographic.order (values [str "1", str "8"]) (values [str "1", str "11"])) :=
  (versionCompare_dotted_iff [str "1", str "8"] [str "1", str "11"] (by decide +kernel)
    (by decide +kernel)).mpr (.inr (by decide +kernel))

/-- The run of a number that a `long` does not hold overflows, although only `1` is on the other
side. -/
theorem versionCompare_overflow :
    (∀ r ∈ [str "9223372036854775808"], IsRun r) ∧ (∀ r ∈ [str "1"], IsRun r) ∧
      versionCompare (dotted [str "9223372036854775808"]) (dotted [str "1"]) =
        .error .undefinedBehavior ∧
      Lexicographic.order (values [str "9223372036854775808"]) (values [str "1"]) = 1 := by
  decide +kernel

end RaCommon
