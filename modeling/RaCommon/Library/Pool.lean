import Mathlib.Algebra.BigOperators.Group.List.Basic
import Mathlib.Algebra.Ring.Nat
import Mathlib.Tactic.Common

set_option relaxedAutoImplicit false
set_option autoImplicit false

/-!
# Pools of numbered parties

The parties of a concurrent system are a list, and a step changes one of them or appends a new
one. A measure of a party is summed over the pool.

## Main definitions

* `Pool.total` — the sum of a measure over the pool.

## Main results

* `Pool.total_set`, `Pool.total_concat` — how a step changes the sum.
* `Pool.le_total`, `Pool.add_le_total` — what one party, and two different ones, contribute.
* `Pool.total_ite` — the number of parties of a kind.
* `Pool.forall_set`, `Pool.forall_concat` — what holds of every party after a step.
-/

namespace Pool

variable {α : Type*}

/-- The sum of a measure over the pool. -/
def total (f : α → ℕ) (l : List α) : ℕ := (l.map f).sum

@[simp] lemma total_nil (f : α → ℕ) : total f [] = 0 := rfl

@[simp] lemma total_cons (f : α → ℕ) (a : α) (l : List α) :
    total f (a :: l) = f a + total f l := by
  simp [total]

/-- **A party changes.** -/
theorem total_set (f : α → ℕ) {l : List α} {i : ℕ} {a : α} (h : l[i]? = some a) (b : α) :
    total f (l.set i b) + f a = total f l + f b := by
  induction l generalizing i with
  | nil => simp at h
  | cons c l ih =>
    cases i with
    | zero =>
      obtain rfl : c = a := by simpa using h
      simp only [List.set_cons_zero, total_cons]
      omega
    | succ i =>
      have := ih (by simpa using h)
      simp only [List.set_cons_succ, total_cons]
      omega

/-- Parties are added. -/
lemma total_append (f : α → ℕ) (l l' : List α) : total f (l ++ l') = total f l + total f l' := by
  simp [total]

/-- **A party is added.** -/
@[simp] theorem total_concat (f : α → ℕ) (l : List α) (a : α) :
    total f (l ++ [a]) = total f l + f a := by
  simp [total]

/-- What one party contributes. -/
theorem le_total (f : α → ℕ) {l : List α} {i : ℕ} {a : α} (h : l[i]? = some a) :
    f a ≤ total f l := by
  induction l generalizing i with
  | nil => simp at h
  | cons c l ih =>
    rw [total_cons]
    cases i with
    | zero =>
      obtain rfl : c = a := by simpa using h
      omega
    | succ i =>
      have := ih (by simpa using h)
      omega

/-- What two different parties contribute. -/
theorem add_le_total (f : α → ℕ) {l : List α} {i j : ℕ} {a b : α} (hne : i ≠ j)
    (ha : l[i]? = some a) (hb : l[j]? = some b) : f a + f b ≤ total f l := by
  induction l generalizing i j with
  | nil => simp at ha
  | cons c l ih =>
    rw [total_cons]
    cases i with
    | zero =>
      obtain rfl : c = a := by simpa using ha
      cases j with
      | zero => exact absurd rfl hne
      | succ j =>
        have := le_total f (l := l) (i := j) (by simpa using hb)
        omega
    | succ i =>
      cases j with
      | zero =>
        obtain rfl : c = b := by simpa using hb
        have := le_total f (l := l) (i := i) (by simpa using ha)
        omega
      | succ j =>
        have := ih (i := i) (j := j) (by omega) (by simpa using ha) (by simpa using hb)
        omega

/-- A measure that vanishes on all parties. -/
lemma total_eq_zero {f : α → ℕ} {l : List α} (h : ∀ a ∈ l, f a = 0) : total f l = 0 := by
  induction l with
  | nil => rfl
  | cons a l ih => rw [total_cons, h a (by simp), ih fun b hb => h b (by simp [hb])]

/-- The number of parties of a kind. -/
theorem total_ite (p : α → Prop) [DecidablePred p] (l : List α) :
    total (fun a => if p a then 1 else 0) l = l.countP p := by
  induction l with
  | nil => rfl
  | cons a l ih =>
    rw [total_cons, ih, List.countP_cons, Nat.add_comm]
    simp

/-- The members of a pool after a change. -/
lemma getElem?_set_cases {l : List α} {i j : ℕ} {b c : α} (h : (l.set i b)[j]? = some c) :
    (j = i ∧ c = b) ∨ (j ≠ i ∧ l[j]? = some c) := by
  by_cases hij : j = i
  · subst hij
    have hlt : j < l.length := by
      obtain ⟨hlt, -⟩ := List.getElem?_eq_some_iff.mp h
      simpa using hlt
    rw [List.getElem?_set_self hlt] at h
    exact .inl ⟨rfl, (Option.some.inj h).symm⟩
  · rw [List.getElem?_set_ne (Ne.symm hij)] at h
    exact .inr ⟨hij, h⟩

/-- The members of a pool after a party was added. -/
lemma getElem?_concat_cases {l : List α} {j : ℕ} {b c : α} (h : (l ++ [b])[j]? = some c) :
    (j = l.length ∧ c = b) ∨ l[j]? = some c := by
  rcases Nat.lt_trichotomy j l.length with hj | rfl | hj
  · rw [List.getElem?_append_left hj] at h
    exact .inr h
  · rw [List.getElem?_concat_length] at h
    exact .inl ⟨rfl, (Option.some.inj h).symm⟩
  · have hnone : (l ++ [b])[j]? = none := by
      rw [List.getElem?_eq_none_iff, List.length_append, List.length_singleton]
      omega
    rw [hnone] at h
    exact absurd h (Option.some_ne_none c).symm

/-- What holds of the other parties, and of the changed one, holds of every party after the
change. -/
theorem forall_set {P : ℕ → α → Prop} {l : List α} {i : ℕ} {b : α}
    (h : ∀ j c, l[j]? = some c → j ≠ i → P j c) (hb : P i b) :
    ∀ j c, (l.set i b)[j]? = some c → P j c := by
  intro j c hc
  rcases getElem?_set_cases hc with ⟨rfl, rfl⟩ | ⟨hne, hc⟩
  · exact hb
  · exact h j c hc hne

/-- What holds of every party, and of the added one, holds after it was added. -/
theorem forall_concat {P : ℕ → α → Prop} {l : List α} {b : α}
    (h : ∀ j c, l[j]? = some c → P j c) (hb : P l.length b) :
    ∀ j c, (l ++ [b])[j]? = some c → P j c := by
  intro j c hc
  rcases getElem?_concat_cases hc with ⟨rfl, rfl⟩ | hc
  · exact hb
  · exact h j c hc

end Pool
