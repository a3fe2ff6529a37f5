import Mathlib.Data.List.Induction
import Mathlib.Data.List.Range
import Mathlib.Data.List.Nodup
import Mathlib.Order.Bounds.Basic
import Mathlib.Tactic.Common

set_option relaxedAutoImplicit false
set_option autoImplicit false

/-!
# A ledger of items that are delivered last in, first out

Items are numbered in the order in which they are added. Asking for the next one delivers the
newest item that has not been delivered yet; the item delivered last is the current one, until the
next one is asked for. What has been delivered is on record, so that "none is lost and none is
delivered twice" can be said of any run.

## Main definitions

* `Ledger` — the items added, the numbers of those delivered, and the current number.
* `Ledger.Pending` — the numbers of the items not delivered yet.
* `Ledger.advance`, `Ledger.ask` — delivering the newest, always or only if there is no current
  item.
* `Ledger.Event`, `Ledger.step`, `Ledger.run` — runs.
* `Ledger.stack`, `Ledger.deliveredItems` — the items not delivered yet, the newest first, and
  those delivered.

## Main results

* `Ledger.perm_range`, `Ledger.perm_added` — every item has been delivered once or is pending
  once.
* `Ledger.stack_add`, `Ledger.advance_of_stack_nil`, `Ledger.advance_of_stack_cons` — a stack
  implements a ledger: adding pushes, and delivering the newest pops.
-/

/-- A ledger: the items in the order in which they were added, the numbers of those delivered in
the order in which they were, and the number of the current one. -/
structure Ledger (α : Type*) where
  added : List α
  delivered : List ℕ
  current : Option ℕ
  nodup : delivered.Nodup
  lt : ∀ i ∈ delivered, i < added.length
  current_mem : ∀ i, current = some i → i ∈ delivered

namespace Ledger

variable {α : Type*}

/-! ## Operations -/

/-- The ledger before anything was added. -/
def empty : Ledger α := ⟨[], [], none, List.nodup_nil, by simp, by simp⟩

/-- The numbers of the items that have not been delivered yet. -/
def Pending (l : Ledger α) : Set ℕ := {i | i < l.added.length ∧ i ∉ l.delivered}

/-- A new item. -/
def add (l : Ledger α) (a : α) : Ledger α :=
  { l with
    added := l.added ++ [a]
    lt := fun i hi => by
      have := l.lt i hi
      rw [List.length_append]
      omega }

/-- A delivery. -/
def deliver (l : Ledger α) (i : ℕ) (h : i ∈ l.Pending) : Ledger α where
  added := l.added
  delivered := l.delivered ++ [i]
  current := some i
  nodup := List.nodup_append.mpr
    ⟨l.nodup, List.nodup_singleton i, fun j hj k hk hjk => by
      rw [List.mem_singleton.mp hk] at hjk
      exact h.2 (hjk ▸ hj)⟩
  lt := fun j hj => by
    rcases List.mem_append.mp hj with hj | hj
    · exact l.lt j hj
    · rw [List.mem_singleton.mp hj]
      exact h.1
  current_mem := fun j hj => by
    obtain rfl : i = j := by simpa using hj
    simp

/-- No current item any more. -/
def rest (l : Ledger α) : Ledger α := { l with current := none, current_mem := by simp }

open Classical in
/-- The newest pending item is delivered; if none is pending, there is no current item. -/
noncomputable def advance (l : Ledger α) : Ledger α :=
  if h : ∃ i, IsGreatest l.Pending i then l.deliver h.choose h.choose_spec.1 else l.rest

/-- The current item is asked for: if there is none, the newest pending one is delivered. -/
noncomputable def ask (l : Ledger α) : Ledger α :=
  match l.current with
  | none => l.advance
  | some _ => l

/-- What happens to a ledger. -/
inductive Event (α : Type*) where
  | add (a : α)
  | ask
  | advance
  | keep

/-- The effect of an event. -/
noncomputable def step (l : Ledger α) : Event α → Ledger α
  | .add a => l.add a
  | .ask => l.ask
  | .advance => l.advance
  | .keep => l

/-- The ledger after some events. -/
noncomputable def run (events : List (Event α)) : Ledger α := events.foldl step empty

/-- The ledger after one more event. -/
lemma run_concat (events : List (Event α)) (event : Event α) :
    run (events ++ [event]) = (run events).step event := by
  rw [run, List.foldl_append]
  rfl

/-! ## Deliveries -/

/-- The newest pending item is delivered. -/
lemma advance_of_isGreatest {l : Ledger α} {i : ℕ} (h : IsGreatest l.Pending i) :
    l.advance = l.deliver i h.1 := by
  have hex : ∃ i, IsGreatest l.Pending i := ⟨i, h⟩
  have hi : hex.choose = i := hex.choose_spec.unique h
  rw [advance, dif_pos hex]
  congr

/-- Nothing pending is delivered. -/
lemma advance_of_pending_empty {l : Ledger α} (h : l.Pending = ∅) : l.advance = l.rest := by
  have hex : ¬ ∃ i, IsGreatest l.Pending i := by
    rintro ⟨i, hi, -⟩
    rw [h] at hi
    exact hi
  rw [advance, dif_neg hex]

/-! ## Pending items, in order -/

/-- The pending numbers in increasing order. -/
def pending (l : Ledger α) : List ℕ := (List.range l.added.length).filter (· ∉ l.delivered)

@[simp] lemma mem_pending {l : Ledger α} {i : ℕ} : i ∈ l.pending ↔ i ∈ l.Pending := by
  simp [pending, Pending]

/-- The pending numbers increase. -/
lemma pairwise_pending (l : Ledger α) : l.pending.Pairwise (· < ·) :=
  List.pairwise_lt_range.sublist List.filter_sublist

/-- **Every item has been delivered once or is pending once.** -/
theorem perm_range (l : Ledger α) :
    (l.delivered ++ l.pending).Perm (List.range l.added.length) := by
  have hnodup : (l.delivered ++ l.pending).Nodup := by
    refine List.nodup_append.mpr ⟨l.nodup, l.pairwise_pending.imp Nat.ne_of_lt, ?_⟩
    rintro i hi j hj rfl
    exact (mem_pending.mp hj).2 hi
  refine (List.perm_ext_iff_of_nodup hnodup List.nodup_range).mpr fun i => ?_
  rw [List.mem_append, List.mem_range, mem_pending]
  constructor
  · rintro (hi | hi)
    · exact l.lt i hi
    · exact hi.1
  · intro hi
    by_cases hmem : i ∈ l.delivered
    · exact .inl hmem
    · exact .inr ⟨hi, hmem⟩

/-- A new item is pending, after all others. -/
lemma pending_add (l : Ledger α) (a : α) :
    (l.add a).pending = l.pending ++ [l.added.length] := by
  have hnew : l.added.length ∉ l.delivered := fun h => (l.lt _ h).ne rfl
  rw [pending, pending, add, List.length_append, List.length_singleton, List.range_succ,
    List.filter_append]
  simp [hnew]

/-- The last of the pending numbers is their greatest. -/
lemma isGreatest_of_pending {l : Ledger α} {p : List ℕ} {i : ℕ} (h : l.pending = p ++ [i]) :
    IsGreatest l.Pending i := by
  refine ⟨mem_pending.mp (by simp [h]), fun j hj => ?_⟩
  have hmem : j ∈ p ++ [i] := h ▸ mem_pending.mpr hj
  rcases List.mem_append.mp hmem with hj | hj
  · have hpair := h ▸ l.pairwise_pending
    exact ((List.pairwise_append.mp hpair).2.2 j hj i (by simp)).le
  · exact (List.mem_singleton.mp hj).le

/-- A delivered item is no longer pending. -/
lemma pending_deliver {l : Ledger α} {p : List ℕ} {i : ℕ} (h : l.pending = p ++ [i])
    (hi : i ∈ l.Pending) : (l.deliver i hi).pending = p := by
  have hfilter : (l.deliver i hi).pending = l.pending.filter (· ≠ i) := by
    rw [pending, pending, List.filter_filter]
    apply List.filter_congr
    intro j _
    simp [deliver, and_comm]
  have hpair := h ▸ l.pairwise_pending
  have hp : ∀ j ∈ p, j ≠ i := fun j hj =>
    ((List.pairwise_append.mp hpair).2.2 j hj i (by simp)).ne
  rw [hfilter, h, List.filter_append, List.filter_eq_self.mpr (by simpa using hp)]
  simp

/-! ## The stack of a ledger -/

/-- The items not delivered yet, the newest first. -/
def stack (l : Ledger α) : List α := (l.pending.filterMap (l.added[·]?)).reverse

/-- The items delivered, in the order in which they were. -/
def deliveredItems (l : Ledger α) : List α := l.delivered.filterMap (l.added[·]?)

/-- The current item. -/
def currentItem (l : Ledger α) : Option α := l.current.bind (l.added[·]?)

/-- Looking up every number gives every item. -/
lemma filterMap_range (l : List α) : (List.range l.length).filterMap (l[·]?) = l := by
  induction l using List.reverseRecOn with
  | nil => rfl
  | append_singleton l a ih =>
    have hold : (List.range l.length).filterMap ((l ++ [a])[·]?) =
        (List.range l.length).filterMap (l[·]?) := by
      apply List.filterMap_congr
      intro i hi
      exact List.getElem?_append_left (List.mem_range.mp hi)
    rw [List.length_append, List.length_singleton, List.range_succ, List.filterMap_append, hold, ih]
    simp

/-- **What has been delivered and what is pending** is what was added, each item once. -/
theorem perm_added (l : Ledger α) : (l.deliveredItems ++ l.stack).Perm l.added := by
  have h := l.perm_range.filterMap (l.added[·]?)
  rw [List.filterMap_append, filterMap_range] at h
  exact ((List.reverse_perm _).append_left _).trans h

/-- Pending items were added. -/
lemma mem_added_of_mem_stack {l : Ledger α} {a : α} (h : a ∈ l.stack) : a ∈ l.added :=
  l.perm_added.mem_iff.mp (List.mem_append_right _ h)

/-- The current item was added. -/
lemma mem_added_of_currentItem {l : Ledger α} {a : α} (h : l.currentItem = some a) :
    a ∈ l.added := by
  obtain ⟨i, -, hi⟩ := Option.bind_eq_some_iff.mp h
  exact List.mem_of_getElem? hi

/-- A new item is pushed. -/
@[simp] theorem stack_add (l : Ledger α) (a : α) : (l.add a).stack = a :: l.stack := by
  have hold : l.pending.filterMap ((l.add a).added[·]?) = l.pending.filterMap (l.added[·]?) := by
    apply List.filterMap_congr
    intro i hi
    exact List.getElem?_append_left (mem_pending.mp hi).1
  rw [stack, pending_add, List.filterMap_append, hold, stack]
  simp [add]

/-- A new item does not change the current one. -/
@[simp] lemma currentItem_add (l : Ledger α) (a : α) : (l.add a).currentItem = l.currentItem := by
  cases h : l.current with
  | none => simp [currentItem, add, h]
  | some i =>
    have hlt := l.lt i (l.current_mem i h)
    simp [currentItem, add, h, List.getElem?_append_left hlt]

/-- With an empty stack nothing is pending. -/
lemma pending_of_stack_nil {l : Ledger α} (h : l.stack = []) : l.Pending = ∅ := by
  refine Set.eq_empty_iff_forall_notMem.mpr fun i hi => ?_
  have hnone : l.added[i]? = none := by
    have hall := List.filterMap_eq_nil_iff.mp (List.reverse_eq_nil_iff.mp h)
    exact hall i (mem_pending.mpr hi)
  rw [List.getElem?_eq_getElem hi.1] at hnone
  exact Option.some_ne_none _ hnone

/-- The top of the stack is the newest pending item. -/
lemma pending_of_stack_cons {l : Ledger α} {a : α} {s : List α} (h : l.stack = a :: s) :
    ∃ p i, l.pending = p ++ [i] ∧ l.added[i]? = some a ∧
      (p.filterMap (l.added[·]?)).reverse = s := by
  rcases List.eq_nil_or_concat l.pending with hnil | ⟨p, i, hp⟩
  · rw [stack, hnil] at h
    simp at h
  · rw [List.concat_eq_append] at hp
    have hi : i ∈ l.Pending := mem_pending.mp (by simp [hp])
    obtain ⟨b, hb⟩ : ∃ b, l.added[i]? = some b := ⟨_, List.getElem?_eq_getElem hi.1⟩
    rw [stack, hp, List.filterMap_append] at h
    simp only [List.filterMap_cons, hb, List.filterMap_nil, List.reverse_append,
      List.reverse_singleton, List.singleton_append, List.cons.injEq] at h
    exact ⟨p, i, hp, hb.trans (congrArg some h.1), h.2⟩

/-- **With an empty stack** nothing can be delivered. -/
theorem advance_of_stack_nil {l : Ledger α} (h : l.stack = []) :
    l.advance.stack = [] ∧ l.advance.currentItem = none := by
  rw [advance_of_pending_empty (pending_of_stack_nil h)]
  exact ⟨h, rfl⟩

/-- **The newest item is popped** when it is delivered. -/
theorem advance_of_stack_cons {l : Ledger α} {a : α} {s : List α} (h : l.stack = a :: s) :
    l.advance.stack = s ∧ l.advance.currentItem = some a := by
  obtain ⟨p, i, hp, ha, hs⟩ := pending_of_stack_cons h
  have hi := isGreatest_of_pending hp
  rw [advance_of_isGreatest hi]
  refine ⟨?_, ha⟩
  rw [stack, pending_deliver hp hi.1]
  exact hs

/-- Advancing adds nothing. -/
@[simp] lemma added_advance (l : Ledger α) : l.advance.added = l.added := by
  rw [advance]
  split <;> rfl

/-- Whether there is a current item is seen from its number. -/
lemma currentItem_eq_none_iff {l : Ledger α} : l.currentItem = none ↔ l.current = none := by
  cases h : l.current with
  | none => simp [currentItem, h]
  | some i =>
    have hlt := l.lt i (l.current_mem i h)
    simp [currentItem, h, hlt]

end Ledger
