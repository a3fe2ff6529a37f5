import Mathlib.Data.List.Basic
import Mathlib.Data.List.Induction
import Mathlib.Tactic.Common

set_option relaxedAutoImplicit false
set_option autoImplicit false

/-!
# Maps as ordered lists of entries

A map that is iterated in the order of its keys, as a list of entries with strictly increasing
keys. The operations are defined on any list, so that a recursive type can hold such lists; the
type `OrderedMap` carries the order.

## Main definitions

* `OrderedMap.insert`, `OrderedMap.find` — assigning to a key and looking one up.
* `OrderedMap.Sorted` — strictly increasing keys.
* `OrderedMap` — a map.
* `OrderedMap.setAll` — some assignments, one after the other.

## Main results

* `OrderedMap.find_insert`, `OrderedMap.find_insert_of_ne` — what an assignment changes.
* `OrderedMap.sorted_insert` — assigning keeps the order.
* `OrderedMap.foldl_insert` — inserting the entries of a map one by one gives the map.
* `OrderedMap.get?_setAll_of_last`, `OrderedMap.mem_entries_setAll` — what is in a map after some
  assignments.
-/

namespace OrderedMap

variable {α β : Type} [Ord α]

/-- `m[k] = v`: the entry is replaced, or inserted at its place. -/
def insert (k : α) (v : β) : List (α × β) → List (α × β)
  | [] => [(k, v)]
  | e :: m =>
    match compare k e.1 with
    | .lt => (k, v) :: e :: m
    | .eq => (k, v) :: m
    | .gt => e :: insert k v m

/-- The value at a key. -/
def find (k : α) : List (α × β) → Option β
  | [] => none
  | e :: m => if compare k e.1 = .eq then some e.2 else find k m

/-- Strictly increasing keys. -/
def Sorted (m : List (α × β)) : Prop := m.Pairwise fun a b => compare a.1 b.1 = .lt

@[simp] lemma find_nil (k : α) : find k ([] : List (α × β)) = none := rfl

@[simp] lemma sorted_nil : Sorted ([] : List (α × β)) := List.Pairwise.nil

/-- The keys of a map after an assignment. -/
lemma mem_insert {k : α} {v : β} {m : List (α × β)} {e : α × β} (h : e ∈ insert k v m) :
    e = (k, v) ∨ e ∈ m := by
  induction m with
  | nil => simpa [insert] using h
  | cons e' m ih =>
    unfold insert at h
    cases hc : compare k e'.1 with
    | lt => simpa [hc] using h
    | eq =>
      simp only [hc, List.mem_cons] at h
      exact h.imp_right fun hm => List.mem_cons_of_mem _ hm
    | gt =>
      simp only [hc, List.mem_cons] at h
      rcases h with rfl | hm
      · exact .inr List.mem_cons_self
      · exact (ih hm).imp_right fun hm' => List.mem_cons_of_mem _ hm'

/-- Changing the values keeps the order. -/
lemma Sorted.map {γ : Type} {m : List (α × β)} (h : Sorted m) (f : β → γ) :
    Sorted (m.map fun e => (e.1, f e.2)) := by
  rw [Sorted, List.pairwise_map]
  exact h

section Lookup

variable [Std.LawfulEqOrd α]

/-- The assigned key has the assigned value. -/
@[simp] theorem find_insert (k : α) (v : β) (m : List (α × β)) :
    find k (insert k v m) = some v := by
  induction m with
  | nil => simp [insert, find]
  | cons e m ih =>
    unfold insert
    cases h : compare k e.1 with
    | lt => simp [find]
    | eq => simp [find]
    | gt => simp [find, h, ih]

/-- Other keys keep their values. -/
theorem find_insert_of_ne {j k : α} (hne : j ≠ k) (v : β) (m : List (α × β)) :
    find j (insert k v m) = find j m := by
  have hjk : compare j k ≠ .eq := fun h => hne (Std.LawfulEqOrd.eq_of_compare h)
  induction m with
  | nil => simp [insert, find, hjk]
  | cons e m ih =>
    unfold insert
    cases h : compare k e.1 with
    | lt => simp [find, hjk]
    | eq =>
      have hje : compare j e.1 ≠ .eq := Std.LawfulEqOrd.eq_of_compare h ▸ hjk
      simp only [find, hjk, hje, if_false]
    | gt => simp [find, ih]

/-- Looking a key up in a map finds its entry. -/
lemma mem_iff_find {m : List (α × β)} (h : Sorted m) {k : α} {v : β} :
    (k, v) ∈ m ↔ find k m = some v := by
  induction m with
  | nil => simp
  | cons e m ih =>
    obtain ⟨hhead, htail⟩ := List.pairwise_cons.mp h
    rw [List.mem_cons, find]
    by_cases hk : compare k e.1 = .eq
    · obtain rfl := Std.LawfulEqOrd.eq_of_compare hk
      rw [if_pos hk, Option.some.injEq]
      constructor
      · rintro (heq | hmem)
        · rw [← heq]
        · have hlt := hhead _ hmem
          rw [hk] at hlt
          cases hlt
      · rintro rfl
        exact .inl rfl
    · rw [if_neg hk, ← ih htail, or_iff_right]
      intro heq
      rw [← heq] at hk
      exact hk Std.ReflCmp.compare_self

end Lookup

section Order

variable [Std.TransOrd α]

/-- **Assigning keeps the order.** -/
theorem sorted_insert (k : α) (v : β) {m : List (α × β)} (h : Sorted m) :
    Sorted (insert k v m) := by
  induction m with
  | nil => exact List.pairwise_singleton _ _
  | cons e m ih =>
    obtain ⟨hhead, htail⟩ := List.pairwise_cons.mp h
    unfold insert
    cases hc : compare k e.1 with
    | lt =>
      refine List.pairwise_cons.mpr ⟨fun e' he' => ?_, h⟩
      rcases List.mem_cons.mp he' with rfl | hm
      · exact hc
      · exact Std.TransCmp.lt_trans hc (hhead e' hm)
    | eq =>
      refine List.pairwise_cons.mpr ⟨fun e' he' => ?_, htail⟩
      exact Std.TransCmp.lt_of_eq_of_lt hc (hhead e' he')
    | gt =>
      refine List.pairwise_cons.mpr ⟨fun e' he' => ?_, ih htail⟩
      rcases mem_insert he' with rfl | hm
      · exact Std.OrientedCmp.gt_iff_lt.mp hc
      · exact hhead e' hm

/-- A key above all others is inserted at the end. -/
lemma insert_of_lt {k : α} {v : β} {m : List (α × β)}
    (h : ∀ e ∈ m, compare e.1 k = .lt) : insert k v m = m ++ [(k, v)] := by
  induction m with
  | nil => rfl
  | cons e m ih =>
    have hgt : compare k e.1 = .gt := Std.OrientedCmp.gt_iff_lt.mpr (h e (by simp))
    rw [insert, hgt]
    simp only
    rw [ih fun e' he' => h e' (by simp [he']), List.cons_append]

/-- **Inserting the entries of a map one by one** gives the map. -/
theorem foldl_insert {m : List (α × β)} (h : Sorted m) :
    m.foldl (fun acc e => insert e.1 e.2 acc) [] = m := by
  suffices hgen : ∀ acc : List (α × β), Sorted (acc ++ m) →
      m.foldl (fun acc e => insert e.1 e.2 acc) acc = acc ++ m by
    have := hgen [] (by simpa using h)
    simpa using this
  clear h
  induction m with
  | nil => simp
  | cons e m ih =>
    intro acc hsorted
    have hlt : ∀ e' ∈ acc, compare e'.1 e.1 = .lt := fun e' he' =>
      (List.pairwise_append.mp hsorted).2.2 e' he' e (by simp)
    rw [List.foldl_cons, insert_of_lt hlt, ih _ (by simpa using hsorted), List.append_assoc]
    rfl

end Order

end OrderedMap

/-- A map: its entries in the order of the keys. -/
structure OrderedMap (α β : Type) [Ord α] where
  entries : List (α × β)
  sorted : OrderedMap.Sorted entries

namespace OrderedMap

variable {α β : Type} [Ord α]

/-- The empty map. -/
def empty : OrderedMap α β := ⟨[], sorted_nil⟩

/-- Maps with the same entries are the same. -/
lemma ext {m m' : OrderedMap α β} (h : m.entries = m'.entries) : m = m' := by
  cases m
  cases m'
  congr

/-- `m[k] = v`. -/
def set [Std.TransOrd α] (m : OrderedMap α β) (k : α) (v : β) : OrderedMap α β :=
  ⟨insert k v m.entries, sorted_insert k v m.sorted⟩

/-- **Assigning the entries of a map one by one** gives the map. -/
theorem foldl_set [Std.TransOrd α] (m : OrderedMap α β) :
    m.entries.foldl (fun acc e => acc.set e.1 e.2) empty = m := by
  have hentries : ∀ (l : List (α × β)) (acc : OrderedMap α β),
      (l.foldl (fun acc e => acc.set e.1 e.2) acc).entries =
        l.foldl (fun acc e => insert e.1 e.2 acc) acc.entries := by
    intro l
    induction l with
    | nil => exact fun _ => rfl
    | cons e l ih =>
      intro acc
      rw [List.foldl_cons, ih, List.foldl_cons]
      rfl
  apply ext
  rw [hentries, empty, foldl_insert m.sorted]

/-- The value at a key. -/
def get? (m : OrderedMap α β) (k : α) : Option β := find k m.entries

@[simp] lemma get?_empty (k : α) : (empty : OrderedMap α β).get? k = none := rfl

section Assign

variable [Std.TransOrd α]

/-- Some assignments, one after the other. -/
def setAll (m : OrderedMap α β) (l : List (α × β)) : OrderedMap α β :=
  l.foldl (fun m e => m.set e.1 e.2) m

@[simp] lemma setAll_nil (m : OrderedMap α β) : m.setAll [] = m := rfl

@[simp] lemma setAll_cons (m : OrderedMap α β) (e : α × β) (l : List (α × β)) :
    m.setAll (e :: l) = (m.set e.1 e.2).setAll l := rfl

/-- Assignments followed by others. -/
lemma setAll_append (m : OrderedMap α β) (l l' : List (α × β)) :
    m.setAll (l ++ l') = (m.setAll l).setAll l' := List.foldl_append

variable [Std.LawfulEqOrd α]

/-- Assignments to other keys. -/
lemma get?_setAll_of_ne (m : OrderedMap α β) {k : α} {l : List (α × β)}
    (h : ∀ e ∈ l, e.1 ≠ k) : (m.setAll l).get? k = m.get? k := by
  induction l generalizing m with
  | nil => rfl
  | cons e l ih =>
    rw [setAll_cons, ih _ fun e' he' => h e' (by simp [he'])]
    exact find_insert_of_ne (Ne.symm (h e (by simp))) _ _

/-- **The last assignment to a key** determines its value. -/
theorem get?_setAll_of_last (m : OrderedMap α β) {k : α} {v : β} {before after : List (α × β)}
    (h : ∀ e ∈ after, e.1 ≠ k) : (m.setAll (before ++ (k, v) :: after)).get? k = some v := by
  rw [setAll_append, setAll_cons, get?_setAll_of_ne _ h]
  exact find_insert k v _

/-- A key that has a value was assigned to. -/
lemma mem_of_get?_setAll {k : α} {v : β} {l : List (α × β)}
    (h : ((empty : OrderedMap α β).setAll l).get? k = some v) : ∃ before after,
      l = before ++ (k, v) :: after ∧ ∀ e ∈ after, e.1 ≠ k := by
  induction l using List.reverseRecOn with
  | nil => simp at h
  | append_singleton l e ih =>
    rw [setAll_append, setAll_cons, setAll_nil] at h
    by_cases hk : k = e.1
    · subst hk
      have hv : some e.2 = some v := (find_insert e.1 e.2 _).symm.trans h
      obtain rfl := Option.some.inj hv
      exact ⟨l, [], rfl, fun _ he => absurd he List.not_mem_nil⟩
    · have hold : ((empty : OrderedMap α β).setAll l).get? k = some v :=
        (find_insert_of_ne hk e.2 _).symm.trans h
      obtain ⟨before, after, rfl, hafter⟩ := ih hold
      refine ⟨before, after ++ [e], by simp, fun e' he' => ?_⟩
      rcases List.mem_append.mp he' with he' | he'
      · exact hafter e' he'
      · rw [List.mem_singleton.mp he']
        exact Ne.symm hk

/-- **Assigning to different keys** gives the map of the assignments, in any order. -/
theorem mem_entries_setAll {l : List (α × β)} (h : (l.map Prod.fst).Nodup) (e : α × β) :
    e ∈ ((empty : OrderedMap α β).setAll l).entries ↔ e ∈ l := by
  obtain ⟨k, v⟩ := e
  rw [mem_iff_find (setAll empty l).sorted]
  constructor
  · intro hfind
    obtain ⟨before, after, rfl, -⟩ := mem_of_get?_setAll hfind
    simp
  · intro hmem
    obtain ⟨before, after, rfl⟩ := List.append_of_mem hmem
    refine get?_setAll_of_last empty fun e he heq => ?_
    rw [List.map_append, List.map_cons] at h
    have hnot := (List.nodup_cons.mp (List.nodup_append.mp h).2.1).1
    exact hnot (List.mem_map.mpr ⟨e, he, heq⟩)

end Assign

end OrderedMap
