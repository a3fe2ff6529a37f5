import Mathlib.Data.List.Basic
import Mathlib.Tactic.Common

set_option relaxedAutoImplicit false
set_option autoImplicit false

/-!
# Lists joined with a separator

What is before and behind the first separator of a list; joining some lists with a separator between
them, and splitting the result at the separators: when nothing is escaped, the lists come back
exactly when the separator occurs in none of them. A list that is cut into groups of one length and
joined comes back by deleting the separators.

## Main definitions

* `Separated.groups` — a list cut into groups of one length, an incomplete last group kept.

## Main results

* `Separated.flatten_groups`, `Separated.length_of_mem_dropLast_groups`,
  `Separated.length_of_mem_getLast?_groups` — the groups make up the list, and their lengths.
* `Separated.filter_intercalate` — deleting the separators.
* `Separated.takeWhile_append_cons`, `Separated.dropWhile_append_cons` — before and behind the first
  separator.
* `Separated.length_splitOn` — there is one piece more than separators.
* `Separated.length_splitOn_intercalate_iff`, `Separated.splitOn_intercalate_iff` — when the number
  of lists, and the lists themselves, come back.
-/

namespace Separated

variable {α : Type}

/-! ## Groups of one length -/

/-- The groups of `k` elements of a list, in order; the last one may have fewer. -/
def groups (k : ℕ) (l : List α) : List (List α) :=
  (List.range ((l.length + (k - 1)) / k)).map fun i => (l.drop (k * i)).take k

/-- The groups end where the list does. -/
lemma length_groups {k : ℕ} (hk : 0 < k) (l : List α) :
    l.length ≤ k * (groups k l).length ∧ k * (groups k l).length < l.length + k := by
  have hmod := Nat.div_add_mod (l.length + (k - 1)) k
  have hlt := Nat.mod_lt (l.length + (k - 1)) hk
  rw [groups, List.length_map, List.length_range]
  omega

/-- **The groups make up the list.** -/
theorem flatten_groups {k : ℕ} (hk : 0 < k) (l : List α) : (groups k l).flatten = l := by
  have hfirst : ∀ n, ((List.range n).map fun i => (l.drop (k * i)).take k).flatten =
      l.take (k * n) := by
    intro n
    induction n with
    | zero => simp
    | succ n ih =>
      rw [List.range_succ, List.map_append, List.flatten_append, ih, List.map_singleton,
        List.flatten_singleton, Nat.mul_succ, List.take_add]
  have hlen := (length_groups hk l).1
  rw [groups, List.length_map, List.length_range] at hlen
  rw [groups, hfirst, List.take_of_length_le hlen]

/-- The length of a group. -/
lemma length_getElem_groups {k : ℕ} {l : List α} {i : ℕ} (hi : i < (groups k l).length) :
    ((groups k l)[i]).length = min k (l.length - k * i) := by
  simp [groups]

/-- Every group but the last is complete. -/
theorem length_of_mem_dropLast_groups {k : ℕ} (hk : 0 < k) {l g : List α}
    (h : g ∈ (groups k l).dropLast) : g.length = k := by
  obtain ⟨i, hi, rfl⟩ := List.getElem_of_mem h
  rw [List.length_dropLast] at hi
  have hnext : k * (i + 1) ≤ k * ((groups k l).length - 1) := Nat.mul_le_mul_left k (by omega)
  have hend := (length_groups hk l).2
  rw [Nat.mul_sub_one] at hnext
  rw [Nat.mul_succ] at hnext
  rw [List.getElem_dropLast, length_getElem_groups (by omega)]
  omega

/-- The last group has what is left of the list. -/
theorem length_of_mem_getLast?_groups {k : ℕ} (hk : 0 < k) {l g : List α}
    (h : g ∈ (groups k l).getLast?) :
    g.length = if l.length % k = 0 then k else l.length % k := by
  have hne : 0 < (groups k l).length := by
    rw [List.length_pos_iff]
    rintro hnil
    rw [hnil] at h
    cases h
  rw [List.getLast?_eq_getElem?, List.getElem?_eq_getElem (by omega)] at h
  obtain rfl := Option.some.inj h
  obtain ⟨hlow, hhigh⟩ := length_groups hk l
  have hsplit : k * (groups k l).length = k * ((groups k l).length - 1) + k := by
    rw [← Nat.mul_succ, Nat.succ_eq_add_one, Nat.sub_add_cancel hne]
  -- what is left is at least one element and at most a group
  obtain ⟨r, hr⟩ : ∃ r, l.length = k * ((groups k l).length - 1) + r :=
    ⟨l.length - k * ((groups k l).length - 1), by omega⟩
  have hmod : l.length % k = r % k := by rw [hr, Nat.mul_add_mod]
  rw [length_getElem_groups, hmod]
  rcases Nat.lt_or_eq_of_le (show r ≤ k by omega) with hlt | rfl
  · rw [Nat.mod_eq_of_lt hlt, if_neg (by omega)]
    omega
  · rw [Nat.mod_self, if_pos rfl]
    omega

/-- A group of the elements that each element of another list is written with. -/
lemma take_drop_flatMap {β : Type} {k : ℕ} {f : β → List α} (hf : ∀ b, (f b).length = k)
    {bs : List β} {i : ℕ} (hi : i < bs.length) :
    ((bs.flatMap f).drop (i * k)).take k = f bs[i] := by
  induction bs generalizing i with
  | nil => cases hi
  | cons b bs ih =>
    rw [List.flatMap_cons]
    cases i with
    | zero => rw [Nat.zero_mul, List.drop_zero, List.take_left' (hf b), List.getElem_cons_zero]
    | succ i =>
      rw [Nat.succ_mul, Nat.add_comm, ← List.drop_drop, List.drop_left' (hf b),
        ih (Nat.lt_of_succ_lt_succ hi), List.getElem_cons_succ]

/-! ## Joining -/

/-- A separator behind the first list and in front of each of the others. -/
lemma intercalate_cons (a : α) (l : List α) (ls : List (List α)) :
    [a].intercalate (l :: ls) = l ++ ls.flatMap ([a] ++ ·) := by
  induction ls generalizing l with
  | nil => simp
  | cons m ls ih =>
    rw [List.intercalate_cons_cons, ih, List.flatMap_cons]
    simp

/-- A loop that writes a separator in front of every list but the first. -/
lemma flatMap_range_eq_intercalate (a : α) (f : ℕ → List α) (n : ℕ) :
    ((List.range n).flatMap fun i => (if i = 0 then [] else [a]) ++ f i) =
      [a].intercalate ((List.range n).map f) := by
  cases n with
  | zero => rfl
  | succ n =>
    rw [List.range_succ_eq_map, List.map_cons, intercalate_cons, List.flatMap_cons, List.map_map,
      List.flatMap_map, List.flatMap_map]
    rfl

/-- What else occurs in some joined lists occurs in one of them. -/
lemma mem_intercalate {a b : α} (hne : b ≠ a) {ls : List (List α)} :
    b ∈ [a].intercalate ls ↔ ∃ l ∈ ls, b ∈ l := by
  induction ls with
  | nil => simp
  | cons l ls ih =>
    by_cases hls : ls = []
    · subst hls
      simp
    · simp [List.intercalate_cons_of_ne_nil hls, ih, hne]

/-- The first element of some joined lists is none of the separators. -/
lemma head?_intercalate_ne {a : α} {ls : List (List α)} (h : ∀ l ∈ ls, l ≠ [] ∧ a ∉ l) :
    ([a].intercalate ls).head? ≠ some a := by
  cases ls with
  | nil => simp
  | cons l ls =>
    obtain ⟨hne, ha⟩ := h l (by simp)
    rw [intercalate_cons, List.head?_append_of_ne_nil _ hne]
    exact fun hhead => ha (List.mem_of_head? hhead)

/-- Neither is the last one. -/
lemma getLast?_intercalate_ne {a : α} {ls : List (List α)} (h : ∀ l ∈ ls, l ≠ [] ∧ a ∉ l) :
    ([a].intercalate ls).getLast? ≠ some a := by
  induction ls with
  | nil => simp
  | cons l ls ih =>
    obtain ⟨hne, ha⟩ := h l (by simp)
    rcases ls with _ | ⟨m, ls⟩
    · rw [List.intercalate_singleton]
      exact fun hlast => ha (List.mem_of_getLast? hlast)
    · have hrest : [a].intercalate (m :: ls) ≠ [] := by
        rw [intercalate_cons]
        exact List.append_ne_nil_of_left_ne_nil (h m (by simp)).1 _
      rw [List.intercalate_cons_cons, List.getLast?_append_of_ne_nil _ hrest]
      exact ih fun l' hl' => h l' (List.mem_cons_of_mem _ hl')

variable [DecidableEq α]

/-- **Deleting the separators** leaves the lists. -/
theorem filter_intercalate {a : α} {ls : List (List α)} (h : ∀ l ∈ ls, a ∉ l) :
    ([a].intercalate ls).filter (· ≠ a) = ls.flatten := by
  have hself : ∀ l ∈ ls, l.filter (· ≠ a) = l := by
    intro l hl
    refine List.filter_eq_self.mpr fun c hc => ?_
    simpa using fun heq : c = a => h l hl (heq ▸ hc)
  cases ls with
  | nil => rfl
  | cons l ls =>
    rw [intercalate_cons, List.filter_append, hself l (by simp), List.flatten_cons,
      List.filter_flatMap]
    congr 1
    rw [← List.flatMap_id]
    refine List.flatMap_congr fun m hm => ?_
    rw [List.filter_append, hself m (by simp [hm])]
    simp

/-! ## The first separator -/

/-- Without a separator every element is another one. -/
lemma decide_ne_of_not_mem {a : α} {s : List α} (h : a ∉ s) : ∀ c ∈ s, decide (c ≠ a) = true := by
  intro c hc
  simpa using fun heq : c = a => h (heq ▸ hc)

/-- What is before the first separator. -/
theorem takeWhile_append_cons {a : α} {s : List α} (h : a ∉ s) (t : List α) :
    (s ++ a :: t).takeWhile (· ≠ a) = s := by
  rw [List.takeWhile_append_of_pos (decide_ne_of_not_mem h), List.takeWhile_cons_of_neg (by simp),
    List.append_nil]

/-- The first separator and what is behind it. -/
theorem dropWhile_append_cons {a : α} {s : List α} (h : a ∉ s) (t : List α) :
    (s ++ a :: t).dropWhile (· ≠ a) = a :: t := by
  rw [List.dropWhile_append_of_pos (decide_ne_of_not_mem h), List.dropWhile_cons_of_neg (by simp)]

/-! ## Splitting -/

/-- There is one piece more than separators. -/
theorem length_splitOn (a : α) (s : List α) : (s.splitOn a).length = s.count a + 1 := by
  induction s with
  | nil => rfl
  | cons c s ih =>
    rw [List.splitOn_cons_eq_if_modifyHead]
    by_cases hc : c = a
    · subst hc
      simp [ih]
    · simp [hc, ih]

/-- The separators in some joined lists: those inside the lists, and one between any two. -/
lemma count_intercalate (a : α) {ls : List (List α)} (h : ls ≠ []) :
    ([a].intercalate ls).count a + 1 = ls.flatten.count a + ls.length := by
  induction ls with
  | nil => exact absurd rfl h
  | cons l ls ih =>
    by_cases hls : ls = []
    · subst hls
      simp
    · have hrest := ih hls
      rw [List.intercalate_cons_of_ne_nil hls, List.count_append, List.count_append,
        List.flatten_cons, List.count_append, List.length_cons, List.count_singleton_self]
      omega

/-- **When the number of lists comes back**: the separator occurs in none of them. -/
theorem length_splitOn_intercalate_iff (a : α) {ls : List (List α)} (h : ls ≠ []) :
    (([a].intercalate ls).splitOn a).length = ls.length ↔ ∀ l ∈ ls, a ∉ l := by
  have hcount := count_intercalate a h
  rw [length_splitOn]
  have hnone : ls.flatten.count a = 0 ↔ ∀ l ∈ ls, a ∉ l := by
    simp [List.count_eq_zero, List.mem_flatten]
  rw [← hnone]
  omega

/-- **When the lists come back**: the separator occurs in none of them. -/
theorem splitOn_intercalate_iff (a : α) {ls : List (List α)} (h : ls ≠ []) :
    ([a].intercalate ls).splitOn a = ls ↔ ∀ l ∈ ls, a ∉ l := by
  refine ⟨fun heq => ?_, fun hmem => List.splitOn_intercalate a hmem h⟩
  rw [← length_splitOn_intercalate_iff a h, heq]

end Separated
