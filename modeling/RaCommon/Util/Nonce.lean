import RaCommon.Runtime.Outcome
import Mathlib.Data.Finset.Basic
import Mathlib.Data.Finset.Lattice.Lemmas
import Mathlib.Data.List.DropRight
import Mathlib.Tactic.Ring

set_option relaxedAutoImplicit false
set_option autoImplicit false

/-!
# The replay filter (`util/nonce.hpp`)

`Nonce` remembers recently seen ids in two containers, a hash set for the lookup and a deque
with the order of arrival, and forgets a percentage of them, oldest first, once the deque is
longer than `max_size`. The call that finds it too long prunes *before* it looks its id up, so
an id can be forgotten by the very call that presents it again.

## Main definitions

* `RaCommon.Nonce`, `RaCommon.Nonce.continueOn`, `RaCommon.Nonce.prune` — the class.
* `RaCommon.Nonce.after`, `RaCommon.Nonce.accepted` — the filter after a sequence of calls on a
  new one, and the ids those calls accepted.
* `RaCommon.Nonce.window` — how many of the most recently accepted ids pruning leaves.
* `RaCommon.Nonce.Forgets` — the next call forgets the id before looking it up.

## Main results

* `RaCommon.Nonce.prune_eq` — what pruning leaves.
* `RaCommon.Nonce.tracks_after` — the invariant of every run: the containers agree and hold a
  suffix of the accepted ids at least as long as the window.
* `RaCommon.Nonce.replay_window` — what that means for the next call.
* `RaCommon.Nonce.replay_rejected_iff` — when a tracked id is rejected.
* `RaCommon.Nonce.memory_bounded_iff` — when the number of remembered ids is bounded.
-/

namespace RaCommon

/-- `Nonce`. The constructor clamps the percentage into `0..100`. -/
structure Nonce where
  /-- `std::unordered_set<std::string>`. -/
  seen_ : Finset Str
  /-- `std::deque<std::string>`, oldest id first. -/
  order_ : List Str
  max_size_ : UInt64
  prune_percent_ : ℤ
  percent_range : 0 ≤ prune_percent_ ∧ prune_percent_ ≤ 100

namespace Nonce

/-! ## The class -/

/-- `std::clamp(prune_percent, 0, 100)`. -/
def clampPercent (prune_percent : ℤ) : ℤ := max 0 (min prune_percent 100)

/-- `Nonce(max_size, prune_percent)`. -/
def new (max_size : UInt64) (prune_percent : ℤ) : Nonce where
  seen_ := ∅
  order_ := []
  max_size_ := max_size
  prune_percent_ := clampPercent prune_percent
  percent_range := by unfold clampPercent; omega

/-- The `size_t` expression `max_size_ * prune_percent_ / 100` of `Prune`, modulo `2⁶⁴`. -/
def toPrune (n : Nonce) : UInt64 := n.max_size_ * UInt64.ofNat n.prune_percent_.toNat / 100

/-- The loop of `Prune`: forget the oldest id up to `k` times, while there is one. -/
def pruneLoop : ℕ → Finset Str → List Str → Finset Str × List Str
  | k + 1, seen, id :: order => pruneLoop k (seen.erase id) order
  | _, seen, order => (seen, order)

/-- `Prune`. -/
def prune (n : Nonce) : Nonce :=
  if n.order_.length ≤ n.max_size_.toNat then n
  else if n.prune_percent_ = 100 then { n with seen_ := ∅, order_ := [] }
  else
    let r := pruneLoop n.toPrune.toNat n.seen_ n.order_
    { n with seen_ := r.1, order_ := r.2 }

/-- `ContinueOn`: whether the id is new, and the filter after the call. -/
def continueOn (n : Nonce) (id : Str) : Bool × Nonce :=
  -- Pruning comes first, so that `id` may be forgotten here.
  let n := n.prune
  if id ∈ n.seen_ then (false, n)
  else (true, { n with seen_ := insert id n.seen_, order_ := n.order_ ++ [id] })

/-- `Size`. -/
def size (n : Nonce) : ℕ := n.order_.length

/-! ## Runs -/

/-- The filter after the calls `ContinueOn(id)` for the ids of a list. -/
def runFrom (n : Nonce) (ids : List Str) : Nonce := ids.foldl (fun n id => (n.continueOn id).2) n

/-- The ids those calls accept, in order. -/
def acceptedFrom (n : Nonce) : List Str → List Str
  | [] => []
  | id :: ids =>
    let r := n.continueOn id
    if r.1 then id :: acceptedFrom r.2 ids else acceptedFrom r.2 ids

/-- The filter after a sequence of calls on a new one. -/
def after (max_size : UInt64) (prune_percent : ℤ) (ids : List Str) : Nonce :=
  (new max_size prune_percent).runFrom ids

/-- The ids accepted by a sequence of calls on a new filter. -/
def accepted (max_size : UInt64) (prune_percent : ℤ) (ids : List Str) : List Str :=
  (new max_size prune_percent).acceptedFrom ids

/-- One call more. -/
lemma runFrom_concat (n : Nonce) (ids : List Str) (id : Str) :
    n.runFrom (ids ++ [id]) = ((n.runFrom ids).continueOn id).2 := by
  simp [runFrom]

/-- One call more accepts at most its id. -/
lemma acceptedFrom_concat (n : Nonce) (ids : List Str) (id : Str) :
    n.acceptedFrom (ids ++ [id]) =
      n.acceptedFrom ids ++ if ((n.runFrom ids).continueOn id).1 then [id] else [] := by
  induction ids generalizing n with
  | nil => rfl
  | cons a ids ih =>
    have hrun : n.runFrom (a :: ids) = (n.continueOn a).2.runFrom ids := rfl
    simp only [List.cons_append, acceptedFrom, ih, hrun]
    by_cases h : (n.continueOn a).1 <;> simp [h]

/-! ## Pruning -/

/-- The number of most recently accepted ids that are never forgotten. -/
def window (max_size : UInt64) (percent : ℤ) : ℕ :=
  max_size.toNat + 1 - max_size.toNat * percent.toNat / 100

/-- The prune count as the 64-bit product. -/
lemma toNat_toPrune (n : Nonce) :
    n.toPrune.toNat = n.max_size_.toNat * n.prune_percent_.toNat % 2 ^ 64 / 100 := by
  simp [toPrune, UInt64.toNat_div, UInt64.toNat_mul]

/-- The 64-bit product never prunes more than the exact one would. -/
lemma toPrune_le (n : Nonce) :
    n.toPrune.toNat ≤ n.max_size_.toNat * n.prune_percent_.toNat / 100 := by
  rw [toNat_toPrune]
  exact Nat.div_le_div_right (Nat.mod_le _ _)

/-- Below 100 per cent the prune count is below the length that starts pruning. -/
lemma toPrune_le_max_size (n : Nonce) : n.toPrune.toNat ≤ n.max_size_.toNat := by
  refine n.toPrune_le.trans ?_
  have h := n.percent_range
  refine Nat.div_le_of_le_mul ?_
  rw [Nat.mul_comm 100]
  exact Nat.mul_le_mul_left _ (by omega)

/-- The two containers hold the same ids, each once. -/
structure Synced (n : Nonce) : Prop where
  seen_eq : n.seen_ = n.order_.toFinset
  nodup : n.order_.Nodup

/-- The prune loop on containers that agree. -/
lemma pruneLoop_eq (k : ℕ) {order : List Str} (h : order.Nodup) :
    pruneLoop k order.toFinset order = ((order.drop k).toFinset, order.drop k) := by
  induction k generalizing order with
  | zero => simp [pruneLoop]
  | succ k ih =>
    cases order with
    | nil => simp [pruneLoop]
    | cons id order =>
      obtain ⟨hid, hrest⟩ := List.nodup_cons.mp h
      have herase : (id :: order).toFinset.erase id = order.toFinset := by
        rw [List.toFinset_cons, Finset.erase_insert (by simpa using hid)]
      rw [pruneLoop, herase, ih hrest, List.drop_succ_cons]

/-- How many ids `Prune` drops from the front of the deque. -/
def dropCount (n : Nonce) : ℕ :=
  if n.order_.length ≤ n.max_size_.toNat then 0
  else if n.prune_percent_ = 100 then n.order_.length
  else n.toPrune.toNat

/-- **What pruning leaves**: the deque without its first `dropCount` ids, and the same ids in
the set. -/
theorem prune_eq {n : Nonce} (h : n.Synced) :
    n.prune = { n with
      seen_ := (n.order_.drop n.dropCount).toFinset, order_ := n.order_.drop n.dropCount } := by
  unfold prune dropCount
  split_ifs with hlen hpercent
  · rw [List.drop_zero, ← h.seen_eq]
  · simp
  · simp only [h.seen_eq, pruneLoop_eq _ h.nodup]

/-- Pruning keeps the containers together. -/
lemma Synced.prune {n : Nonce} (h : n.Synced) : n.prune.Synced := by
  rw [prune_eq h]
  exact ⟨rfl, h.nodup.sublist (List.drop_sublist _ _)⟩

/-- A call keeps the containers together. -/
lemma Synced.continueOn {n : Nonce} (h : n.Synced) (id : Str) : (n.continueOn id).2.Synced := by
  have hp := h.prune
  unfold Nonce.continueOn
  by_cases hid : id ∈ n.prune.seen_
  · rw [if_pos hid]
    exact hp
  · rw [if_neg hid]
    refine ⟨?_, ?_⟩
    · rw [hp.seen_eq, List.toFinset_append]
      ext x
      simp
    · rw [hp.seen_eq, List.mem_toFinset] at hid
      exact List.nodup_append.mpr ⟨hp.nodup, by simp, fun a ha b hb => by
        rintro rfl
        exact hid (by simpa [List.mem_singleton.mp hb] using ha)⟩

/-- A call accepts exactly the ids pruning has not left in the set. -/
lemma continueOn_fst (n : Nonce) (id : Str) :
    (n.continueOn id).1 = true ↔ id ∉ n.prune.seen_ := by
  unfold continueOn
  by_cases hid : id ∈ n.prune.seen_ <;> simp [hid]

/-- The parameters never change. -/
lemma continueOn_params (n : Nonce) (id : Str) :
    (n.continueOn id).2.max_size_ = n.max_size_ ∧
      (n.continueOn id).2.prune_percent_ = n.prune_percent_ := by
  have hprune : n.prune.max_size_ = n.max_size_ ∧ n.prune.prune_percent_ = n.prune_percent_ := by
    unfold prune
    split_ifs <;> exact ⟨rfl, rfl⟩
  unfold continueOn
  by_cases hid : id ∈ n.prune.seen_
  · rwa [if_pos hid]
  · rwa [if_neg hid]

/-! ## The invariant of a run -/

/-- What the filter knows of the ids accepted so far: its containers agree and hold a suffix of
them, which has at least the window's length (or all of them). -/
structure Tracks (n : Nonce) (acc : List Str) : Prop where
  synced : n.Synced
  suffix : n.order_ <:+ acc
  window_le : n.prune_percent_ < 100 →
    min acc.length (window n.max_size_ n.prune_percent_) ≤ n.order_.length

/-- Pruning keeps the invariant.

**Proof sketch.** Dropping from the front leaves a suffix. If the deque is longer than
`max_size`, then `dropCount` is at most `⌊max_size · percent / 100⌋` (`toPrune_le`; the 64-bit
product can only be smaller), so at least `max_size + 1` less that number of ids stay. -/
theorem Tracks.prune {n : Nonce} {acc : List Str} (h : n.Tracks acc) : n.prune.Tracks acc := by
  have hsynced := h.synced.prune
  rw [prune_eq h.synced] at hsynced ⊢
  refine ⟨hsynced, (List.drop_suffix _ _).trans h.suffix, fun hpercent => ?_⟩
  simp only at hpercent ⊢
  have hwin := h.window_le hpercent
  have hle := n.toPrune_le
  rw [List.length_drop, dropCount]
  unfold window at hwin ⊢
  split_ifs with hlen h100 <;> omega

/-- A call keeps the invariant. -/
lemma Tracks.continueOn {n : Nonce} {acc : List Str} (h : n.Tracks acc) (id : Str) :
    (n.continueOn id).2.Tracks (acc ++ if (n.continueOn id).1 then [id] else []) := by
  have hsynced := h.synced.continueOn id
  have hp := h.prune
  by_cases hid : id ∈ n.prune.seen_
  · have hcall : n.continueOn id = (false, n.prune) := by unfold Nonce.continueOn; rw [if_pos hid]
    rw [hcall]
    simpa using hp
  · have hcall : n.continueOn id = (true, { n.prune with
        seen_ := insert id n.prune.seen_, order_ := n.prune.order_ ++ [id] }) := by
      unfold Nonce.continueOn
      rw [if_neg hid]
    rw [hcall] at hsynced ⊢
    refine ⟨hsynced, ?_, fun hpercent => ?_⟩
    · obtain ⟨pre, hpre⟩ := hp.suffix
      exact ⟨pre, by simp [← hpre]⟩
    · have hwin := hp.window_le hpercent
      simp only [List.length_append, List.length_singleton, if_true] at hwin ⊢
      omega

/-- **The invariant holds after every run** of calls on a new filter. -/
theorem tracks_after (max_size : UInt64) (percent : ℤ) (ids : List Str) :
    (after max_size percent ids).Tracks (accepted max_size percent ids) := by
  induction ids using List.reverseRecOn with
  | nil => exact ⟨⟨rfl, List.nodup_nil⟩, List.suffix_refl _, fun _ => by simp [after, accepted,
      acceptedFrom, runFrom, new]⟩
  | append_singleton ids id ih =>
    rw [after, runFrom_concat, accepted, acceptedFrom_concat]
    exact ih.continueOn id

/-- The parameters after a run are the constructor's. -/
lemma after_params (max_size : UInt64) (percent : ℤ) (ids : List Str) :
    (after max_size percent ids).max_size_ = max_size ∧
      (after max_size percent ids).prune_percent_ = clampPercent percent := by
  induction ids using List.reverseRecOn with
  | nil => exact ⟨rfl, rfl⟩
  | append_singleton ids id ih =>
    rw [after, runFrom_concat]
    obtain ⟨h1, h2⟩ := continueOn_params (after max_size percent ids) id
    exact ⟨h1.trans ih.1, h2.trans ih.2⟩

/-! ## What a call answers -/

/-- The id is in the part of the deque that the next call drops: the deque is over its limit,
and the percentage is 100 or the id is among the oldest `max_size_ * prune_percent_ / 100`. -/
def Forgets (n : Nonce) (id : Str) : Prop :=
  n.max_size_.toNat < n.order_.length ∧
    (n.prune_percent_ = 100 ∨ id ∈ n.order_.take n.toPrune.toNat)

/-- A call answers "new" exactly when its id is not among those pruning leaves. -/
lemma continueOn_fst_iff {n : Nonce} (h : n.Synced) (id : Str) :
    (n.continueOn id).1 = true ↔ id ∉ n.order_.drop n.dropCount := by
  rw [continueOn_fst, prune_eq h, List.mem_toFinset]

/-- A tracked id is dropped exactly when the call forgets it. -/
lemma not_mem_drop_iff {n : Nonce} (h : n.Synced) {id : Str} (hid : id ∈ n.order_) :
    id ∉ n.order_.drop n.dropCount ↔ n.Forgets id := by
  have hsplit : id ∈ n.order_.take n.toPrune.toNat ↔ id ∉ n.order_.drop n.toPrune.toNat := by
    have happ := List.take_append_drop n.toPrune.toNat n.order_
    have hnodup := h.nodup
    rw [← happ] at hnodup hid
    have hdisj := (List.nodup_append.mp hnodup).2.2
    constructor
    · intro htake hdrop
      exact hdisj id htake id hdrop rfl
    · intro hdrop
      exact (List.mem_append.mp hid).resolve_right hdrop
  unfold Forgets dropCount
  split_ifs with hlen hpercent
  · simp [hid, Nat.not_lt.mpr hlen]
  · simp [hpercent, Nat.lt_of_not_le hlen]
  · rw [← hsplit]
    simp [hpercent, Nat.lt_of_not_le hlen]

/-- A suffix that is long enough contains the last elements of the list. -/
lemma mem_of_mem_rtake {l acc : List Str} {k : ℕ} (hl : l <:+ acc)
    (hk : min acc.length k ≤ l.length) {x : Str} (hx : x ∈ acc.rtake k) : x ∈ l := by
  have hsuffix : acc.rtake k <:+ l := by
    refine List.suffix_of_suffix_length_le (List.drop_suffix _ _) hl ?_
    rw [List.rtake, List.length_drop]
    omega
  exact hsuffix.subset hx

/-- **The replay window.** After any run on a new filter whose clamped percentage is below 100,
the hash set is the set of the deque's ids; these are pairwise different and form a suffix of
the ids accepted so far. The next call rejects every id among the most recent
`max_size + 1 - ⌊max_size · percent / 100⌋` accepted ones, and accepts every id never accepted
before. -/
theorem replay_window (max_size : UInt64) (percent : ℤ) (hpercent : clampPercent percent < 100)
    (ids : List Str) (id : Str) :
    (after max_size percent ids).seen_ = (after max_size percent ids).order_.toFinset ∧
    (after max_size percent ids).order_.Nodup ∧
    (after max_size percent ids).order_ <:+ accepted max_size percent ids ∧
    (id ∈ (accepted max_size percent ids).rtake (window max_size (clampPercent percent)) →
      ((after max_size percent ids).continueOn id).1 = false) ∧
    (id ∉ accepted max_size percent ids →
      ((after max_size percent ids).continueOn id).1 = true) := by
  have htracks := tracks_after max_size percent ids
  obtain ⟨hmax, hclamp⟩ := after_params max_size percent ids
  refine ⟨htracks.synced.seen_eq, htracks.synced.nodup, htracks.suffix, fun hid => ?_,
    fun hid => ?_⟩
  · have hp := htracks.prune
    rw [prune_eq htracks.synced] at hp
    rw [Bool.eq_false_iff, ne_eq, continueOn_fst_iff htracks.synced, not_not]
    have hwin := hp.window_le (by simpa [hclamp] using hpercent)
    simp only [hmax, hclamp] at hwin
    exact mem_of_mem_rtake hp.suffix hwin hid
  · rw [continueOn_fst_iff htracks.synced]
    intro hmem
    exact hid (htracks.suffix.subset (List.mem_of_mem_drop hmem))

/-- `replay_window` for a filter of two ids that forgets half, after four calls, of which the last
one has forgotten the first id: the last two accepted ids are rejected, and another one is not. -/
theorem replay_window_two :
    let ids := [str "a", str "b", str "c", str "d"]
    (after 2 50 ids).order_ = [str "b", str "c", str "d"] ∧
      (∀ id ∈ [str "c", str "d"], ((after 2 50 ids).continueOn id).1 = false) ∧
      ((after 2 50 ids).continueOn (str "e")).1 = true := by
  intro ids
  have haccepted : accepted 2 50 ids = ids := by decide
  have hwindow := fun id => replay_window 2 50 (by decide) ids id
  refine ⟨by decide, fun id hid => (hwindow id).2.2.2.1 ?_, (hwindow _).2.2.2.2 ?_⟩
  · rw [haccepted]
    exact hid
  · rw [haccepted]
    decide

/-- A run never leaves the two containers apart. -/
lemma synced_after (max_size : UInt64) (percent : ℤ) (ids : List Str) :
    (after max_size percent ids).Synced := (tracks_after max_size percent ids).synced

/-- The id a call has just accepted is the newest of the deque. -/
lemma order_of_accepted {n n' : Nonce} {id : Str} (h : n.continueOn id = (true, n')) :
    n'.order_ = n.prune.order_ ++ [id] ∧ id ∈ n'.seen_ := by
  unfold continueOn at h
  by_cases hid : id ∈ n.prune.seen_
  · simp [hid] at h
  · rw [if_neg hid, Prod.mk.injEq] at h
    rw [← h.2]
    exact ⟨rfl, Finset.mem_insert_self _ _⟩

/-- The newest id is forgotten only by a filter that forgets everything. -/
lemma forgets_newest {n : Nonce} {l : List Str} {id : Str} (horder : n.order_ = l ++ [id])
    (hnodup : n.order_.Nodup) :
    n.Forgets id ↔ n.max_size_.toNat < n.order_.length ∧ n.prune_percent_ = 100 := by
  refine ⟨fun ⟨hlen, h⟩ => ⟨hlen, h.resolve_right fun htake => ?_⟩, fun ⟨hlen, h⟩ => ⟨hlen, .inl h⟩⟩
  have hle := n.toPrune_le_max_size
  rw [horder] at htake hlen hnodup
  rw [List.length_append, List.length_singleton] at hlen
  rw [List.take_append_of_le_length (by omega)] at htake
  exact (List.nodup_append.mp hnodup).2.2 id (List.mem_of_mem_take htake) id (by simp) rfl

/-- **When a tracked id is rejected.** In every state a new filter can reach, a call with a
tracked id is rejected exactly when the call does not forget the id before looking it up. In
particular an id presented again right after it was accepted is rejected exactly when the filter
is not over its limit with a percentage of 100. -/
theorem replay_rejected_iff (max_size : UInt64) (percent : ℤ) (ids : List Str) (id : Str) :
    (id ∈ (after max_size percent ids).seen_ →
      (((after max_size percent ids).continueOn id).1 = false ↔
        ¬ (after max_size percent ids).Forgets id)) ∧
    (∀ n', (after max_size percent ids).continueOn id = (true, n') →
      id ∈ n'.seen_ ∧ ((n'.continueOn id).1 = false ↔
        ¬ (max_size.toNat < n'.order_.length ∧ clampPercent percent = 100))) := by
  have hsynced := synced_after max_size percent ids
  refine ⟨fun hid => ?_, fun n' hcall => ?_⟩
  · rw [hsynced.seen_eq, List.mem_toFinset] at hid
    rw [Bool.eq_false_iff, ne_eq, continueOn_fst_iff hsynced, not_mem_drop_iff hsynced hid]
  · obtain ⟨horder, hseen⟩ := order_of_accepted hcall
    have hn' : n' = after max_size percent (ids ++ [id]) := by
      rw [after, runFrom_concat, ← after, hcall]
    have hsynced' : n'.Synced := hn' ▸ synced_after max_size percent (ids ++ [id])
    obtain ⟨hmax, hclamp⟩ := after_params max_size percent (ids ++ [id])
    rw [← hn'] at hmax hclamp
    have hmem : id ∈ n'.order_ := by
      rw [horder]
      simp
    rw [Bool.eq_false_iff, ne_eq, continueOn_fst_iff hsynced', not_mem_drop_iff hsynced' hmem,
      forgets_newest horder hsynced'.nodup, hmax, hclamp]
    exact ⟨hseen, Iff.rfl⟩

/-- A filter that holds one id and forgets everything accepts the id it has just accepted: the
two earlier ids put it over its limit. -/
theorem replay_accepted_after_two :
    ¬ ∀ (max_size : UInt64) (percent : ℤ), 0 ≤ percent → percent ≤ 100 → ∀ ids id,
      id ∈ (after max_size percent ids).seen_ →
        ((after max_size percent ids).continueOn id).1 = false := by
  intro h
  have := h 1 100 (by decide) (by decide) [str "a", str "b"] (str "b") (by decide)
  exact absurd this (by decide)

/-! ## The bound on the memory -/

/-- A call adds at most one id to what pruning leaves. -/
lemma size_continueOn_le (n : Nonce) (id : Str) :
    (n.continueOn id).2.size ≤ n.prune.size + 1 := by
  unfold continueOn size
  by_cases hid : id ∈ n.prune.seen_
  · simp [hid]
  · simp [hid]

/-- Pruning that forgets something brings a filter that is one over its limit under it. -/
lemma size_prune_le {n : Nonce} (h : n.Synced) (hsize : n.size ≤ n.max_size_.toNat + 1)
    (hprune : n.prune_percent_ = 100 ∨ 1 ≤ n.toPrune.toNat) : n.prune.size ≤ n.max_size_.toNat := by
  unfold size at hsize ⊢
  rw [prune_eq h, List.length_drop, dropCount]
  split_ifs with hlen hpercent
  · omega
  · omega
  · have hpos := hprune.resolve_left hpercent
    omega

/-- The bound holds after every run, where pruning forgets something. -/
lemma size_after_le (max_size : UInt64) (percent : ℤ) (ids : List Str)
    (hprune : clampPercent percent = 100 ∨
      1 ≤ max_size.toNat * (clampPercent percent).toNat % 2 ^ 64 / 100) :
    (after max_size percent ids).size ≤ max_size.toNat + 1 := by
  induction ids using List.reverseRecOn with
  | nil => exact Nat.zero_le _
  | append_singleton ids id ih =>
    obtain ⟨hmax, hclamp⟩ := after_params max_size percent ids
    have hle := size_prune_le (synced_after max_size percent ids) (by rwa [hmax])
      (by rwa [toNat_toPrune, hmax, hclamp])
    rw [hmax] at hle
    rw [after, runFrom_concat, ← after]
    exact (size_continueOn_le _ id).trans (Nat.succ_le_succ hle)

/-- Where the prune count is 0, a filter forgets nothing: it holds every id it was given. -/
lemma order_after_of_toPrune_eq_zero {max_size : UInt64} {percent : ℤ}
    (hpercent : clampPercent percent ≠ 100)
    (hprune : max_size.toNat * (clampPercent percent).toNat % 2 ^ 64 / 100 = 0)
    {ids : List Str} (hids : ids.Nodup) : (after max_size percent ids).order_ = ids := by
  induction ids using List.reverseRecOn with
  | nil => rfl
  | append_singleton ids id ih =>
    obtain ⟨hmax, hclamp⟩ := after_params max_size percent ids
    have hsynced := synced_after max_size percent ids
    obtain ⟨hids, -, hdisj⟩ := List.nodup_append.mp hids
    have hdrop : (after max_size percent ids).dropCount = 0 := by
      rw [dropCount, hclamp, if_neg hpercent, toNat_toPrune, hmax, hclamp, hprune, ite_self]
    have hnew : ((after max_size percent ids).continueOn id).1 = true := by
      rw [continueOn_fst_iff hsynced, hdrop, List.drop_zero, ih hids]
      exact fun hid => hdisj id hid id (List.mem_singleton_self id) rfl
    rw [after, runFrom_concat, ← after, (order_of_accepted (Prod.ext hnew rfl)).1,
      prune_eq hsynced, hdrop, List.drop_zero, ih hids]

/-- There are as many different ids as one likes. -/
lemma exists_nodup_ids (k : ℕ) : ∃ ids : List Str, ids.Nodup ∧ ids.length = k := by
  refine ⟨(List.range k).map fun i => List.replicate i 0, ?_, by simp⟩
  refine List.Nodup.map (fun i j hij => ?_) List.nodup_range
  simpa using congrArg List.length hij

/-- **When the memory stays bounded.** A filter of `max_size` ids and a percentage from 1 to 100
holds at most `max_size + 1` ids after every run exactly when pruning forgets something: when the
percentage is 100 or the 64-bit product `max_size * percent` is at least 100.

**Proof sketch.** A deque over its limit is one over it, and pruning at least one id makes room
for the next (`size_after_le`). Where the prune count is 0 the filter forgets nothing
(`order_after_of_toPrune_eq_zero`), and `max_size + 2` different ids exceed the bound. -/
theorem memory_bounded_iff (max_size : UInt64) (percent : ℤ) (hpos : 1 ≤ percent)
    (hle : percent ≤ 100) :
    (∀ ids : List Str, (after max_size percent ids).size ≤ max_size.toNat + 1) ↔
      (percent = 100 ∨ 100 ≤ max_size.toNat * percent.toNat % 2 ^ 64) := by
  have hclamp : clampPercent percent = percent := by unfold clampPercent; omega
  constructor
  · intro hbound
    by_contra hprune
    obtain ⟨hpercent, hproduct⟩ := not_or.mp hprune
    obtain ⟨ids, hids, hlength⟩ := exists_nodup_ids (max_size.toNat + 2)
    have horder : (after max_size percent ids).order_ = ids :=
      order_after_of_toPrune_eq_zero (by rwa [hclamp]) (by rw [hclamp]; omega) hids
    have hsize := hbound ids
    rw [size, horder, hlength] at hsize
    omega
  · intro hprune ids
    refine size_after_le max_size percent ids ?_
    rw [hclamp]
    exact hprune.imp_right fun hproduct => by omega

/-- `memory_bounded_iff` for a filter of a thousand ids that forgets a tenth. -/
theorem memory_bounded_thousand :
    100 ≤ 1000 * 10 % 2 ^ 64 ∧ ∀ ids : List Str, (after 1000 10 ids).size ≤ 1001 :=
  ⟨by decide, (memory_bounded_iff 1000 10 (by decide) (by decide)).mpr (.inr (by decide))⟩

/-- A filter of one id that forgets a tenth holds three ids after three calls: a tenth of one id
is none. -/
theorem memory_exceeds_limit :
    ¬ ∀ (max_size : UInt64) (percent : ℤ), 1 ≤ max_size → 1 ≤ percent → percent ≤ 100 →
      ∀ ids, (after max_size percent ids).size ≤ max_size.toNat + 1 := by
  intro h
  exact absurd (h 1 10 (by decide) (by decide) (by decide) [str "a", str "b", str "c"]) (by decide)

end Nonce

end RaCommon
