import Mathlib.Data.List.TakeWhile
import Mathlib.Data.Nat.Digits.Lemmas

set_option relaxedAutoImplicit false
set_option autoImplicit false

/-!
# Positional numerals, multiply-and-add, and base conversion

A number is stored as its list of base-`b` digits, least significant first (`Nat.digits`).
The in-place step of every base conversion is `x ↦ m · x + c`: walk over the digits with a
carry (`mulAdd`), then append the digits of the carry that is left. This file proves that the
step maps `Nat.digits b n` to `Nat.digits b (m · n + c)`, so a digit vector grown by it is
always the shortest numeral of the number read so far.

The second half is about *texts* of digits, most significant first, in which leading zeros
count: such a text is the same thing as a number of leading zeros and a value.

## Main definitions

* `Numeral.mulAdd` — one pass of multiply-and-add over a digit list.
* `Numeral.value` — a most-significant-first digit list as a number.
* `Numeral.leadingZeros`, `Numeral.text` — the number of leading zeros of a text, and the text
  with given leading zeros and value.

## Main results

* `Numeral.mulAdd_digits` — multiply-and-add on shortest numerals.
* `Numeral.text_value`, `Numeral.leadingZeros_text`, `Numeral.value_text` — a text of base-`b`
  digits is determined by its leading zeros and its value, which can be chosen freely.
-/

namespace Numeral

/-! ## Multiply-and-add -/

/-- One pass of `x ↦ m · x + c` over the base-`b` digits `ds` of `x` (least significant first):
the new digits in place, and the carry out of the last one. -/
def mulAdd (b m : ℕ) : ℕ → List ℕ → List ℕ × ℕ
  | c, [] => ([], c)
  | c, d :: ds =>
    let x := d * m + c
    let r := mulAdd b m (x / b) ds
    (x % b :: r.1, r.2)

/-- **Multiply-and-add on shortest numerals**: the pass over `Nat.digits b n`, followed by the
digits of the carry, is `Nat.digits b (m · n + c)`.

**Proof sketch.** Induction on `n` along its digits. The lowest digit of `m · n + c` is the
lowest digit of `m · (n mod b) + c`, and what is left is `m · (n / b)` plus the new carry. -/
theorem mulAdd_digits {b m : ℕ} (hb : 1 < b) (hm : 0 < m) (n c : ℕ) :
    (mulAdd b m c (Nat.digits b n)).1 ++ Nat.digits b (mulAdd b m c (Nat.digits b n)).2 =
      Nat.digits b (m * n + c) := by
  induction n using Nat.strong_induction_on generalizing c with
  | _ n ih =>
    rcases Nat.eq_zero_or_pos n with rfl | hn
    · simp [mulAdd]
    · rw [Nat.digits_def' hb hn]
      have hpos : 0 < m * n + c := Nat.add_pos_left (Nat.mul_pos hm hn) c
      have hsplit : m * n + c = (n % b * m + c) + b * (m * (n / b)) := by
        conv_lhs => rw [← Nat.mod_add_div n b]
        ring
      have hlow : (m * n + c) % b = (n % b * m + c) % b := by
        rw [hsplit, Nat.add_mul_mod_self_left]
      have hhigh : (m * n + c) / b = m * (n / b) + (n % b * m + c) / b := by
        rw [hsplit, Nat.add_mul_div_left _ _ (by omega)]
        ring
      rw [Nat.digits_def' hb hpos, hlow, hhigh]
      simp only [mulAdd, List.cons_append]
      rw [ih (n / b) (Nat.div_lt_self hn hb)]

/-! ## Texts of digits -/

/-- The value of a digit text, most significant digit first. -/
def value (b : ℕ) (t : List ℕ) : ℕ := t.foldl (fun n d => b * n + d) 0

/-- The value of a text is the value of its digits read from the other end. -/
lemma value_eq_ofDigits (b : ℕ) (t : List ℕ) : value b t = Nat.ofDigits b t.reverse := by
  have h : ∀ (t : List ℕ) (n : ℕ), t.foldl (fun n d => b * n + d) n =
      Nat.ofDigits b t.reverse + b ^ t.length * n := by
    intro t
    induction t with
    | nil => intro n; simp
    | cons d t ih =>
      intro n
      rw [List.foldl_cons, ih, List.reverse_cons, Nat.ofDigits_append, List.length_reverse,
        Nat.ofDigits_singleton, List.length_cons, pow_succ]
      ring
  simpa [value] using h t 0

/-- One more digit at the end of a text. -/
@[simp] lemma value_concat (b : ℕ) (t : List ℕ) (d : ℕ) :
    value b (t ++ [d]) = b * value b t + d := by
  simp [value]

/-- The number of zeros a text begins with. -/
def leadingZeros (t : List ℕ) : ℕ := (t.takeWhile (· = 0)).length

/-- The text with `z` leading zeros followed by the shortest base-`b` numeral of `n`. -/
def text (b z n : ℕ) : List ℕ := List.replicate z 0 ++ (Nat.digits b n).reverse

/-- Leading zeros do not change the value. -/
theorem value_text (b z n : ℕ) : value b (text b z n) = n := by
  rw [value_eq_ofDigits, text, List.reverse_append, List.reverse_reverse, List.reverse_replicate,
    Nat.ofDigits_append_replicate_zero, Nat.ofDigits_digits]

/-- The shortest numeral has no leading zero. -/
lemma takeWhile_reverse_digits (b n : ℕ) :
    (Nat.digits b n).reverse.takeWhile (· = 0) = [] := by
  rcases Nat.eq_zero_or_pos n with rfl | hn
  · simp
  · have hne : Nat.digits b n ≠ [] := Nat.digits_ne_nil_iff_ne_zero.mpr hn.ne'
    have hlast := Nat.getLast_digit_ne_zero b hn.ne'
    rw [← List.dropLast_append_getLast hne, List.reverse_append]
    simp [hlast]

/-- The leading zeros of a text are the ones it was built with. -/
theorem leadingZeros_text (b z n : ℕ) : leadingZeros (text b z n) = z := by
  rw [leadingZeros, text, List.takeWhile_append_of_pos (by simp),
    takeWhile_reverse_digits]
  simp

/-- A text without leading zero is the shortest numeral of its value. -/
private lemma reverse_digits_value {b : ℕ} (hb : 1 < b) {t : List ℕ} (ht : ∀ d ∈ t, d < b)
    (h0 : t.takeWhile (· = 0) = []) : (Nat.digits b (value b t)).reverse = t := by
  rw [value_eq_ofDigits, Nat.digits_ofDigits b hb, List.reverse_reverse]
  · intro d hd
    exact ht d (List.mem_reverse.mp hd)
  · intro hne
    cases t with
    | nil => simp at hne
    | cons d t =>
      have hd : d ≠ 0 := by
        rintro rfl
        simp at h0
      simpa using hd

/-- **A text is its leading zeros and its value.** -/
theorem text_value {b : ℕ} (hb : 1 < b) {t : List ℕ} (ht : ∀ d ∈ t, d < b) :
    text b (leadingZeros t) (value b t) = t := by
  have hz : t.takeWhile (· = 0) = List.replicate (leadingZeros t) 0 :=
    List.eq_replicate_iff.mpr ⟨rfl, fun d hd => by simpa using List.mem_takeWhile_imp hd⟩
  have hsplit : t = List.replicate (leadingZeros t) 0 ++ t.dropWhile (· = 0) := by
    rw [← hz, List.takeWhile_append_dropWhile]
  have hval : value b t = value b (t.dropWhile (· = 0)) := by
    conv_lhs => rw [hsplit]
    rw [value_eq_ofDigits, value_eq_ofDigits, List.reverse_append, List.reverse_replicate,
      Nat.ofDigits_append_replicate_zero]
  rw [text, hval, reverse_digits_value hb, ← hsplit]
  · intro d hd
    exact ht d (List.dropWhile_subset _ hd)
  · cases h : t.dropWhile (· = 0) with
    | nil => rfl
    | cons d u =>
      have := List.head?_dropWhile_not (fun x => decide (x = 0)) t
      rw [h] at this
      simp only [List.head?_cons] at this
      rw [List.takeWhile_cons_of_neg (by simpa using this)]

/-- The digits of a text are below the base. -/
lemma text_lt {b : ℕ} (hb : 1 < b) (z n : ℕ) : ∀ d ∈ text b z n, d < b := by
  intro d hd
  rcases List.mem_append.mp hd with h | h
  · rw [List.eq_of_mem_replicate h]; omega
  · exact Nat.digits_lt_base hb (List.mem_reverse.mp h)

end Numeral
