import Mathlib.Data.List.Induction
import Mathlib.Tactic.Common

set_option relaxedAutoImplicit false
set_option autoImplicit false

/-!
# Runs of a transition system

A system is a partial step function `step : σ → α → Option σ`: the action `α` says which party
moves and resolves every choice that is not the program's (a scheduler, a clock, a random value,
what code outside the system answers), and `none` means that the action is not enabled. A run is
a list of actions; since the list is arbitrary, a statement about all runs is a statement about
all interleavings.

## Main definitions

* `Transition.exec` — the state a list of actions leads to.
* `Transition.trace` — what is seen of a run.
* `Transition.Meets` — a run whose every step is taken in a state that satisfies a guard.
* `Transition.Reaches` — a state that can be reached by actions of some kind.

## Main results

* `Transition.exec_induction` — the invariant rule, for invariants that may also speak of the
  actions taken so far.
* `Transition.total_induction` — the same where every action is enabled.
* `Transition.guarded_invariant` — the rule for an invariant of states, in runs that meet a guard.
* `Transition.meets_concat_iff` — a guarded run and its last step.
* `Transition.exists_first_violation` — the first step of a run that does not meet a guard.
* `Transition.invariant_iff_meets` — the rule for guards that are exact.
-/

namespace Transition

variable {σ α : Type*} (step : σ → α → Option σ)

/-- The state reached from `s` by the actions `as`, when each is enabled in its turn. -/
def exec : σ → List α → Option σ
  | s, [] => some s
  | s, a :: as => (step s a).bind fun t => exec t as

/-- What is seen of the run from `s` by the actions `as`, when `emit` says what is seen of each. -/
def trace {ε : Type*} (emit : σ → α → List ε) : σ → List α → List ε
  | _, [] => []
  | s, a :: as => emit s a ++ (step s a).elim [] fun t => trace emit t as

/-- Every step of the run from `s` is taken in a state, and by an action, that satisfies `G`. -/
def Meets (G : σ → α → Prop) : σ → List α → Prop
  | _, [] => True
  | s, a :: as => G s a ∧ ∀ t, step s a = some t → Meets G t as

/-- A guard that can be decided can be decided along a run. -/
instance decidableMeets (G : σ → α → Prop) [∀ s a, Decidable (G s a)] :
    ∀ s as, Decidable (Meets step G s as)
  | _, [] => isTrue trivial
  | s, a :: as =>
    match hstep : step s a with
    | none =>
      decidable_of_iff (G s a) ⟨fun h => ⟨h, fun t ht => by simp [hstep] at ht⟩, fun h => h.1⟩
    | some t =>
      have := decidableMeets G t as
      decidable_of_iff (G s a ∧ Meets step G t as)
        ⟨fun h => ⟨h.1, fun u hu => Option.some.inj (hstep.symm.trans hu) ▸ h.2⟩,
          fun h => ⟨h.1, h.2 t hstep⟩⟩

/-- State `t` can be reached from `s` by actions that satisfy `P`. -/
def Reaches (P : α → Prop) (s t : σ) : Prop := ∃ as, (∀ a ∈ as, P a) ∧ exec step s as = some t

variable {step}

@[simp] lemma exec_nil (s : σ) : exec step s [] = some s := rfl

@[simp] lemma exec_cons (s : σ) (a : α) (as : List α) :
    exec step s (a :: as) = (step s a).bind fun t => exec step t as := rfl

/-- A run followed by another. -/
lemma exec_append (s : σ) (as bs : List α) :
    exec step s (as ++ bs) = (exec step s as).bind fun t => exec step t bs := by
  induction as generalizing s with
  | nil => rfl
  | cons a as ih =>
    simp only [List.cons_append, exec_cons, Option.bind_assoc]
    congr 1
    funext t
    exact ih t

/-- The last step of a run. -/
lemma exec_concat_eq_some {s u : σ} {as : List α} {a : α} :
    exec step s (as ++ [a]) = some u ↔ ∃ t, exec step s as = some t ∧ step t a = some u := by
  simp [exec_append, Option.bind_eq_some_iff]

/-- No action is needed to stay. -/
@[refl] lemma Reaches.refl {P : α → Prop} (s : σ) : Reaches step P s s :=
  ⟨[], fun _ ha => absurd ha List.not_mem_nil, rfl⟩

/-- A single step. -/
lemma Reaches.single {P : α → Prop} {s t : σ} {a : α} (hP : P a) (h : step s a = some t) :
    Reaches step P s t :=
  ⟨[a], fun _ ha => List.mem_singleton.mp ha ▸ hP, by rw [exec_cons, h]; rfl⟩

/-- One run after another. -/
lemma Reaches.trans {P : α → Prop} {s t u : σ} (hst : Reaches step P s t)
    (htu : Reaches step P t u) : Reaches step P s u := by
  obtain ⟨as, has, hst⟩ := hst
  obtain ⟨bs, hbs, htu⟩ := htu
  refine ⟨as ++ bs, fun a ha => (List.mem_append.mp ha).elim (has a) (hbs a), ?_⟩
  rw [exec_append, hst, Option.bind_some, htu]

/-- What is seen of a run is seen of every run that goes on from there. -/
lemma trace_append {ε : Type*} {emit : σ → α → List ε} {s t : σ} {as : List α}
    (h : exec step s as = some t) (bs : List α) :
    trace step emit s (as ++ bs) = trace step emit s as ++ trace step emit t bs := by
  induction as generalizing s with
  | nil =>
    obtain rfl : s = t := by simpa using h
    rfl
  | cons b as ih =>
    obtain ⟨u, hu, hut⟩ := Option.bind_eq_some_iff.mp h
    rw [List.cons_append, trace, trace, hu, Option.elim_some, Option.elim_some, ih hut,
      List.append_assoc]

/-- What is seen of a run and of an action after it. -/
lemma trace_concat {ε : Type*} {emit : σ → α → List ε} {s t : σ} {as : List α}
    (h : exec step s as = some t) (a : α) :
    trace step emit s (as ++ [a]) = trace step emit s as ++ emit t a := by
  rw [trace_append h]
  cases hstep : step t a <;> simp [trace, hstep]

/-- The part of a guarded run before its last step, and the guard at that step. -/
lemma Meets.concat {G : σ → α → Prop} {s : σ} {as : List α} {a : α}
    (h : Meets step G s (as ++ [a])) :
    Meets step G s as ∧ ∀ t, exec step s as = some t → G t a := by
  induction as generalizing s with
  | nil =>
    refine ⟨trivial, fun t ht => ?_⟩
    obtain rfl : s = t := by simpa using ht
    exact h.1
  | cons b as ih =>
    obtain ⟨hG, hrest⟩ := h
    refine ⟨⟨hG, fun t ht => (ih (hrest t ht)).1⟩, fun t ht => ?_⟩
    obtain ⟨u, hu, hut⟩ := Option.bind_eq_some_iff.mp ht
    exact (ih (hrest u hu)).2 t hut

/-- The guard is met in every part of the run from its start. -/
lemma Meets.of_prefix {G : σ → α → Prop} {s : σ} {as bs : List α} (h : Meets step G s bs)
    (hbefore : as <+: bs) : Meets step G s as := by
  induction as generalizing s bs with
  | nil => trivial
  | cons a as ih =>
    obtain ⟨cs, rfl⟩ := hbefore
    exact ⟨h.1, fun t ht => ih (h.2 t ht) (List.prefix_append as cs)⟩

/-- A guarded run that is extended by a guarded step. -/
theorem meets_concat_iff {G : σ → α → Prop} {s t : σ} {as : List α} {a : α}
    (h : exec step s as = some t) :
    Meets step G s (as ++ [a]) ↔ Meets step G s as ∧ G t a := by
  refine ⟨fun hmeets => ⟨hmeets.concat.1, hmeets.concat.2 t h⟩, ?_⟩
  rintro ⟨hmeets, hlast⟩
  induction as generalizing s with
  | nil =>
    obtain rfl : s = t := by simpa using h
    exact ⟨hlast, fun _ _ => trivial⟩
  | cons b as ih =>
    obtain ⟨u, hu, hut⟩ := Option.bind_eq_some_iff.mp h
    refine ⟨hmeets.1, fun v hv => ?_⟩
    obtain rfl : u = v := Option.some.inj (hu.symm.trans hv)
    exact ih hut (hmeets.2 u hu)

/-- **The first step that violates the guard**, in a run that does not meet it. -/
theorem exists_first_violation {G : σ → α → Prop} {s u : σ} {as : List α}
    (h : exec step s as = some u) (hnot : ¬ Meets step G s as) :
    ∃ before a t t', before ++ [a] <+: as ∧ Meets step G s before ∧
      exec step s before = some t ∧ ¬ G t a ∧ step t a = some t' := by
  induction as using List.reverseRecOn generalizing u with
  | nil => exact absurd trivial hnot
  | append_singleton as a ih =>
    obtain ⟨t, ht, htu⟩ := exec_concat_eq_some.mp h
    by_cases hmeets : Meets step G s as
    · refine ⟨as, a, t, u, List.prefix_refl _, hmeets, ht, fun hG => hnot ?_, htu⟩
      exact (meets_concat_iff ht).mpr ⟨hmeets, hG⟩
    · obtain ⟨before, b, v, v', hbefore, hviolation⟩ := ih ht hmeets
      exact ⟨before, b, v, v', hbefore.trans (List.prefix_append as [a]), hviolation⟩

/-- **The invariant rule.** What holds of the empty run and is preserved when a run is extended
by one step holds of every run. -/
theorem exec_induction {s₀ : σ} {I : List α → σ → Prop} (h0 : I [] s₀)
    (hstep : ∀ as s a t, exec step s₀ as = some s → I as s → step s a = some t → I (as ++ [a]) t) :
    ∀ as s, exec step s₀ as = some s → I as s := by
  intro as
  induction as using List.reverseRecOn with
  | nil =>
    intro s hs
    obtain rfl : s₀ = s := by simpa using hs
    exact h0
  | append_singleton as a ih =>
    intro t ht
    obtain ⟨s, hs, hst⟩ := exec_concat_eq_some.mp ht
    exact hstep as s a t hs (ih s hs) hst

/-- The invariant rule for a system in which every action is enabled wherever the invariant
holds: no run fails. -/
theorem total_induction {s₀ : σ} {I : List α → σ → Prop} (h0 : I [] s₀)
    (hstep : ∀ as s a, I as s → ∃ t, step s a = some t ∧ I (as ++ [a]) t) :
    ∀ as, ∃ s, exec step s₀ as = some s ∧ I as s := by
  intro as
  induction as using List.reverseRecOn with
  | nil => exact ⟨s₀, rfl, h0⟩
  | append_singleton as a ih =>
    obtain ⟨s, hs, hI⟩ := ih
    obtain ⟨t, ht, hIt⟩ := hstep as s a hI
    exact ⟨t, exec_concat_eq_some.mpr ⟨s, hs, ht⟩, hIt⟩

/-- The invariant rule for runs whose steps all meet a guard. -/
theorem guarded_invariant {s₀ : σ} {I : σ → Prop} {G : σ → α → Prop} (h0 : I s₀)
    (hstep : ∀ s a t, I s → G s a → step s a = some t → I t) :
    ∀ as s, Meets step G s₀ as → exec step s₀ as = some s → I s := by
  intro as s hG hs
  refine exec_induction (I := fun as s => Meets step G s₀ as → I s) (fun _ => h0) ?_ as s hs hG
  intro as s a t hs hI hst hG
  obtain ⟨hpre, hlast⟩ := hG.concat
  exact hstep s a t (hI hpre) (hlast s hs) hst

/-- **Guards that are exact.** If a step from a state with the invariant keeps it exactly when the
guard holds, then the invariant holds in every state of a run exactly when the run meets the
guard. -/
theorem invariant_iff_meets {s₀ : σ} {I : σ → Prop} {G : σ → α → Prop} (h0 : I s₀)
    (hstep : ∀ s a t, I s → step s a = some t → (I t ↔ G s a)) {as : List α} {s : σ}
    (h : exec step s₀ as = some s) :
    (∀ before, before <+: as → ∀ t, exec step s₀ before = some t → I t) ↔
      Meets step G s₀ as := by
  induction as using List.reverseRecOn generalizing s with
  | nil =>
    refine ⟨fun _ => trivial, fun _ before hbefore t ht => ?_⟩
    obtain rfl := List.prefix_nil.mp hbefore
    obtain rfl : s₀ = t := by simpa using ht
    exact h0
  | append_singleton as a ih =>
    obtain ⟨t, ht, hst⟩ := exec_concat_eq_some.mp h
    rw [meets_concat_iff ht, ← ih ht]
    constructor
    · intro hall
      have hbefore : ∀ before, before <+: as → ∀ u, exec step s₀ before = some u → I u :=
        fun before hb => hall before (hb.trans (List.prefix_append as [a]))
      exact ⟨hbefore, (hstep t a s (hbefore as (List.prefix_refl as) t ht) hst).mp
        (hall _ (List.prefix_refl _) s h)⟩
    · rintro ⟨hall, hG⟩ before hbefore u hu
      rcases List.prefix_concat_iff.mp hbefore with rfl | hbefore
      · obtain rfl : s = u := Option.some.inj (h.symm.trans hu)
        exact (hstep t a s (hall as (List.prefix_refl as) t ht) hst).mpr hG
      · exact hall before hbefore u hu

end Transition
