import Mathlib.Order.Compare
import Mathlib.Order.Lattice
import Mathlib.Data.Int.Notation

set_option relaxedAutoImplicit false
set_option autoImplicit false

/-!
# Lexicographic comparison as a three-way function

Comparison functions of C, C++ and Java report an order as a negative number, zero or a positive
number. This file has the lexicographic order of sequences in that form.

## Main definitions

* `Lexicographic.order` — `-1`, `0` or `1`: the lexicographic order, in which a proper prefix is
  smaller.

## Main results

* `Lexicographic.order_cons_cons` — the first difference decides.
* `Lexicographic.order_self`, `Lexicographic.order_swap`, `Lexicographic.order_trans` — a total
  preorder.
-/

namespace Lexicographic

variable {α : Type*} [LinearOrder α]

/-- The lexicographic order of two sequences, in which a proper prefix is smaller: `-1`, `0` or
`1`. -/
def order (k l : List α) : ℤ :=
  match compare k l with
  | .lt => -1
  | .eq => 0
  | .gt => 1

@[simp] lemma order_nil_nil : order ([] : List α) [] = 0 := rfl

@[simp] lemma order_nil_cons (y : α) (l : List α) : order [] (y :: l) = -1 := rfl

@[simp] lemma order_cons_nil (x : α) (k : List α) : order (x :: k) [] = 1 := rfl

/-- The first entries decide unless they are equal. -/
theorem order_cons_cons (x y : α) (k l : List α) :
    order (x :: k) (y :: l) = if x < y then -1 else if y < x then 1 else order k l := by
  rw [order, List.compare_cons_cons]
  rcases lt_trichotomy x y with h | rfl | h
  · rw [compare_lt_iff_lt.mpr h, if_pos h]
    rfl
  · rw [compare_eq_iff_eq.mpr rfl, if_neg (lt_irrefl x), if_neg (lt_irrefl x)]
    rfl
  · rw [compare_gt_iff_gt.mpr h, if_neg h.not_gt, if_pos h]
    rfl

/-- A sequence is not different from itself. -/
theorem order_self (k : List α) : order k k = 0 := by
  rw [order, Std.ReflOrd.compare_self]

/-- Comparing the other way round. -/
theorem order_swap (k l : List α) : order l k = -order k l := by
  rw [order, order, Std.OrientedOrd.eq_swap (a := l)]
  cases compare k l with
  | lt => rfl
  | eq => rfl
  | gt => rfl

/-- A comparison that does not say "greater". -/
lemma order_nonpos {k l : List α} : order k l ≤ 0 ↔ (compare k l).isLE := by
  rw [order]
  cases compare k l with
  | lt => decide
  | eq => decide
  | gt => decide

/-- The comparison is transitive. -/
theorem order_trans {k l m : List α} (hkl : order k l ≤ 0) (hlm : order l m ≤ 0) :
    order k m ≤ 0 := by
  rw [order_nonpos] at hkl hlm ⊢
  exact Std.TransOrd.isLE_trans hkl hlm

end Lexicographic
