import RaCommon.Tasks.Scheduling

set_option relaxedAutoImplicit false
set_option autoImplicit false

/-!
# The configuration a worker runs with (`tasks/task_runner.hpp`)

`Pass` asks a task for its configuration twice: in its locked block, where the answer decides
whether the entry is scheduled, and after the block, where the answer is given to the worker. What
the locked blocks have decided is recorded beside the state; the runner itself keeps nothing of it.

## Main definitions

* `RaCommon.TaskRunner.decisions` — the configurations on which a step decides to schedule entries.
* `RaCommon.TaskRunner.Decided` — a state with the decisions so far.
* `RaCommon.TaskRunner.Decided.RunsAsDecided` — the workers run with the configurations on which it
  was decided to schedule their entries.
* `RaCommon.TaskRunner.StartsAgree`, `RaCommon.TaskRunner.AnswersAgree` — the guards.

## Main results

* `RaCommon.TaskRunner.Decides.exec` — at most one decision is made for an entry.
* `RaCommon.TaskRunner.runs_as_decided_iff` — in which runs the workers run as decided.
* `RaCommon.TaskRunner.answers_agree_iff` — which answers of `Config` let them do so.
-/

namespace RaCommon

namespace TaskRunner

/-! ## Decisions -/

/-- The entries that a step of a thread decides to schedule, with the configurations on which it
does. Only the locked block of `Pass` decides. -/
def State.decides (s : State) (th : Thread) (env : Env) : List (ℕ × TaskConfig) :=
  match th.pc with
  | .collect =>
    let managed := s.managed.filter fun m => (s.entry m).status ≠ .completed
    ((collectLoop env.config managed s.entry).toSchedule.getD []).filterMap fun m =>
      (env.config m).map fun cfg => (m, cfg)
  | _ => []

/-- The decisions that an action makes. -/
def decisions (s : State) : Action → List (ℕ × TaskConfig)
  | .thread t env => s.threads[t]?.elim [] fun th => s.decides th env
  | .call _ _ | .worker _ _ => []

/-- A state, and the decisions made so far. -/
structure Decided where
  state : State
  decided : List (ℕ × TaskConfig)

/-- A new runner, for which nothing has been decided. -/
def Decided.init (n : ℕ) : Decided := ⟨.init n, []⟩

/-- A step, with the decisions it makes. -/
def Decided.step (o : Decided) (a : Action) : Option Decided :=
  (TaskRunner.step o.state a).map fun s => ⟨s, o.decided ++ decisions o.state a⟩

/-- Every worker runs with the configuration on which it was decided to schedule its entry, the only
one there is, and with one that is enabled. -/
def Decided.RunsAsDecided (o : Decided) : Prop :=
  ∀ wk ∈ o.state.workers, wk.cfg.periodicityMs ≠ -1 ∧ (wk.entry, wk.cfg) ∈ o.decided ∧
    ∀ cfg, (wk.entry, cfg) ∈ o.decided → cfg = wk.cfg

/-- The entry for which a step of a thread starts a worker, and the configuration it gives it. -/
def Thread.starts (th : Thread) (env : Env) : List (ℕ × TaskConfig) :=
  match th.pc with
  | .spawn m cfg _ => if env.created then [(m, cfg)] else []
  | _ => []

/-- The entry whose configuration a thread asks for outside the lock, and the answer. -/
def Thread.answers (th : Thread) (env : Env) : List (ℕ × TaskConfig) :=
  match th.pc with
  | .config (m :: _) => (env.config m).toList.map fun cfg => (m, cfg)
  | _ => []

/-- What a thread does in an action, one for which `does` says so, was decided before. -/
def Decided.Covers (does : Thread → Env → List (ℕ × TaskConfig)) (o : Decided) : Action → Prop
  | .thread t env => ∀ c ∈ o.state.threads[t]?.elim [] fun th => does th env, c ∈ o.decided
  | .call _ _ | .worker _ _ => True

instance (does : Thread → Env → List (ℕ × TaskConfig)) (o : Decided) (a : Action) :
    Decidable (o.Covers does a) :=
  match a with
  | .thread t env => inferInstanceAs
      (Decidable (∀ c ∈ o.state.threads[t]?.elim [] fun th => does th env, c ∈ o.decided))
  | .call _ _ | .worker _ _ => isTrue trivial

/-- `Config` gives no answer outside the lock. -/
def NoAnswer (o : Decided) : Action → Prop
  | .thread t env => o.state.threads[t]?.elim [] (fun th => th.answers env) = []
  | .call _ _ | .worker _ _ => True

/-- A worker that is started in this step gets the configuration on which it was decided to schedule
its entry. -/
def StartsAgree : Decided → Action → Prop := Decided.Covers Thread.starts

/-- `Config`, when it is asked outside the lock, gives the answer on which it was decided to
schedule the entry. -/
def AnswersAgree : Decided → Action → Prop := Decided.Covers Thread.answers

instance (o : Decided) (a : Action) : Decidable (StartsAgree o a) :=
  inferInstanceAs (Decidable (o.Covers Thread.starts a))

instance (o : Decided) (a : Action) : Decidable (AnswersAgree o a) :=
  inferInstanceAs (Decidable (o.Covers Thread.answers a))

/-! ## What a step of a thread does -/

/-- What a step of thread `t`, which is `th`, does to marks, workers and the configurations that the
thread has got. -/
structure Turn (env : Env) (s : State) (t : ℕ) (th : Thread) (s' : State) : Prop where
  threads : ∃ pc, (s'.threads = s.threads.set t { th with pc } ∨
      s'.threads = s.threads.set t { th with pc } ++ [⟨true, .pollLoop⟩]) ∧
    ∀ c, pc.configured = some c → th.pc.configured = some c ∨ c ∈ th.answers env
  workers : s'.workers = s.workers ++ (th.starts env).map fun c => ⟨c.1, c.2, .start⟩
  marks : ∀ m, ((s.decides th env).map Prod.fst).count m + (s.entry m).token ≤ (s'.entry m).token

namespace Turn

variable {env : Env} {s s' : State} {t : ℕ} {th : Thread}

/-- A step that starts no worker, decides nothing and leaves the marks. -/
lemma move {pc : ThreadPc} (hthreads : s'.threads = s.threads.set t { th with pc } ∨
      s'.threads = s.threads.set t { th with pc } ++ [⟨true, .pollLoop⟩])
    (hconfigured : ∀ c, pc.configured = some c → th.pc.configured = some c ∨ c ∈ th.answers env)
    (hworkers : s'.workers = s.workers) (hmarks : ∀ m, (s.entry m).token ≤ (s'.entry m).token)
    (hstarts : th.starts env = []) (hdecides : s.decides th env = []) : Turn env s t th s' where
  threads := ⟨pc, hthreads, hconfigured⟩
  workers := by rw [hworkers, hstarts, List.map_nil, List.append_nil]
  marks := fun m => by
    rw [hdecides, List.map_nil, List.count_nil, Nat.zero_add]
    exact hmarks m

/-- A step to a place where the thread has got no configuration, which leaves workers and
entries. -/
lemma quiet {pc : ThreadPc} (hthreads : s'.threads = s.threads.set t { th with pc } ∨
      s'.threads = s.threads.set t { th with pc } ++ [⟨true, .pollLoop⟩])
    (hconfigured : pc.configured = none) (hworkers : s'.workers = s.workers)
    (hentry : s'.entry = s.entry) (hstarts : th.starts env = [])
    (hdecides : s.decides th env = []) : Turn env s t th s' := by
  refine .move hthreads (fun c hc => ?_) hworkers (fun m => ?_) hstarts hdecides
  · rw [hconfigured] at hc
    cases hc
  · rw [hentry]

end Turn

/-- The entries that the locked block of `Pass` schedules are those it has decided to schedule. -/
lemma map_decides {s : State} {poll : Bool} {env : Env} :
    (s.decides ⟨poll, .collect⟩ env).map Prod.fst = (s.collected env).toSchedule.getD [] := by
  have hconfig : ∀ m ∈ (s.collected env).toSchedule.getD [],
      ((env.config m).map fun cfg => (m, cfg)).map Prod.fst = some m := by
    intro m hm
    cases hl : (s.collected env).toSchedule with
    | none =>
      rw [hl] at hm
      exact absurd hm List.not_mem_nil
    | some l =>
      rw [hl, Option.getD_some] at hm
      obtain ⟨-, -, cfg, hcfg, -⟩ := mem_toSchedule hl hm
      rw [hcfg]
      rfl
  have hlist : s.decides ⟨poll, .collect⟩ env = ((s.collected env).toSchedule.getD []).filterMap
      fun m => (env.config m).map fun cfg => (m, cfg) := rfl
  rw [hlist, List.map_filterMap, List.filterMap_congr hconfig, List.filterMap_some]

/-- **The locked block of `Pass`** marks an entry for every decision. -/
lemma turn_of_collect {env : Env} {s : State} {t : ℕ} {poll : Bool} {pc : ThreadPc}
    (hconfigured : pc.configured = none) : Turn env s t ⟨poll, .collect⟩
      ((s.afterCollect env).goto t ⟨poll, .collect⟩ pc) := by
  refine ⟨⟨pc, .inl rfl, fun c hc => ?_⟩, by simp [State.goto, State.afterCollect, Thread.starts],
    fun m => ?_⟩
  · rw [hconfigured] at hc
    cases hc
  · rw [map_decides]
    exact count_collectLoop env.config s.retained s.entry m

/-- **What a step of a thread does** to marks, workers and the configurations it has got.

**Proof sketch.** By cases on how the step goes. Marks are made in the locked block only, a worker
is started at `spawn` only, and a configuration is got for a worker at `config` only. -/
theorem turn_of_threadStep {s s' : State} {t : ℕ} {th : Thread} {env : Env} (hs : Scheduled s)
    (h : ThreadStep env s t th s') : Turn env s t th s' := by
  cases h with
  | push =>
    rw [hs.update_made]
    exact .quiet (.inl rfl) rfl rfl rfl rfl rfl
  | readRunning | exchange | pollLoop | pollWait =>
    refine .quiet (.inl rfl) ?_ rfl rfl rfl rfl
    split <;> rfl
  | spawnPoll => exact .quiet (.inr rfl) rfl rfl rfl rfl rfl
  | collect | collectThrows => exact turn_of_collect rfl
  | @configDone poll =>
    refine .quiet (.inl rfl) ?_ rfl rfl rfl rfl
    cases poll with
    | false => rfl
    | true => rfl
  | config hcfg =>
    refine .move (.inl rfl) (fun c hc => .inr ?_) rfl (fun _ => Nat.le_refl _) rfl rfl
    obtain rfl := Option.some.inj hc
    simp [Thread.answers, hcfg]
  | fetchAdd => exact .move (.inl rfl) (fun c hc => .inl hc) rfl (fun _ => Nat.le_refl _) rfl rfl
  | spawn hcreated =>
    refine ⟨⟨_, .inl rfl, by simp [ThreadPc.configured]⟩, ?_, fun m' => ?_⟩
    · simp [State.goto, State.addWorker, Thread.starts, hcreated]
    · simp [State.goto, State.addWorker, State.decides]
  | spawnThrows hcreated =>
    exact .quiet (.inl rfl) rfl rfl rfl (by simp [Thread.starts, hcreated]) rfl
  | storeStop =>
    exact .move (.inl rfl) (by simp [ThreadPc.configured]) rfl
      (fun m => (token_storeStop s.entry s.managed m).ge) rfl rfl
  | spawnPollThrows | configThrows | stop | notifyPoll | join | waitEnds | waitAgain =>
    exact .quiet (.inl rfl) rfl rfl rfl rfl rfl
  | @clear poll last =>
    refine .quiet (.inl rfl) ?_ rfl rfl rfl rfl
    cases last with
    | false => rfl
    | true => rfl

/-! ## One decision for an entry -/

/-- **Recording the decisions** changes nothing of the runs: every run of the runner is one with its
decisions beside it. -/
theorem exec_decided (s : State) (l : List (ℕ × TaskConfig)) (as : List Action) :
    Transition.exec Decided.step ⟨s, l⟩ as = (Transition.exec step s as).map fun s' =>
      ⟨s', l ++ Transition.trace step decisions s as⟩ := by
  induction as generalizing s l with
  | nil => simp [Transition.trace]
  | cons a as ih =>
    rw [Transition.exec_cons, Transition.exec_cons, Transition.trace]
    cases hstep : step s a with
    | none => simp [Decided.step, hstep]
    | some s' => simp [Decided.step, hstep, ih]

/-- What is decided is enabled. -/
lemma enabled_of_decides {s : State} {th : Thread} {env : Env} {c : ℕ × TaskConfig}
    (h : c ∈ s.decides th env) : c.2.periodicityMs ≠ -1 := by
  unfold State.decides at h
  split at h
  · obtain ⟨m, hm, hc⟩ := List.mem_filterMap.mp h
    obtain ⟨cfg, hcfg, rfl⟩ := Option.map_eq_some_iff.mp hc
    cases hl : (collectLoop env.config (s.managed.filter fun m => (s.entry m).status ≠ .completed)
        s.entry).toSchedule with
    | none =>
      rw [hl] at hm
      exact absurd hm List.not_mem_nil
    | some l =>
      rw [hl, Option.getD_some] at hm
      obtain ⟨-, -, cfg', hcfg', henabled⟩ := mem_toSchedule hl hm
      obtain rfl := Option.some.inj (hcfg.symm.trans hcfg')
      exact henabled
  · cases h

/-- The invariant: the decisions for an entry are covered by its mark, and what was decided is
enabled. -/
structure Decides (o : Decided) : Prop where
  scheduled : Scheduled o.state
  once : ∀ m, (o.decided.map Prod.fst).count m ≤ (o.state.entry m).token
  enabled : ∀ c ∈ o.decided, c.2.periodicityMs ≠ -1

/-- What a step is, and what it decides. -/
lemma Decided.step_eq_some {o o' : Decided} {a : Action} (h : o.step a = some o') :
    TaskRunner.step o.state a = some o'.state ∧ o'.decided = o.decided ++ decisions o.state a := by
  obtain ⟨s', hs', rfl⟩ := Option.map_eq_some_iff.mp h
  exact ⟨hs', rfl⟩

namespace Decides

variable {o o' : Decided}

/-- The invariant holds at the start. -/
lemma init (n : ℕ) : Decides (.init n) where
  scheduled := .init n
  once := fun _ => Nat.zero_le _
  enabled := fun _ hc => absurd hc List.not_mem_nil

/-- **Every step** keeps the invariant. -/
theorem step (h : Decides o) {a : Action} (hstep : o.step a = some o') : Decides o' := by
  obtain ⟨hs, hdecided⟩ := Decided.step_eq_some hstep
  have hquiet : ∀ {s' : State}, Scheduled s' → o'.state = s' → decisions o.state a = [] →
      (∀ m, (o.state.entry m).token ≤ (s'.entry m).token) → Decides o' := by
    rintro s' hscheduled rfl hnone hmarks
    rw [hnone, List.append_nil] at hdecided
    refine ⟨hscheduled, fun m => ?_, ?_⟩
    · rw [hdecided]
      exact Nat.le_trans (h.once m) (hmarks m)
    · rw [hdecided]
      exact h.enabled
  rcases step_cases hs with ⟨t, c, rfl, ht, hs'⟩ | ⟨t, env, th, rfl, ht, hth⟩ |
    ⟨w, env, wk, rfl, hw, hwk⟩
  · exact hquiet (h.scheduled.of_effect ht (h.scheduled.effect_of_call c)) hs' rfl
      fun _ => Nat.le_refl _
  · have hturn := turn_of_threadStep h.scheduled hth
    have hnew : decisions o.state (.thread t env) = o.state.decides th env := by
      rw [decisions, ht]
      rfl
    rw [hnew] at hdecided
    refine ⟨h.scheduled.of_effect ht (effect_of_threadStep h.scheduled hth), fun m => ?_,
      fun c hc => ?_⟩
    · have honce := h.once m
      have hmarks := hturn.marks m
      rw [hdecided, List.map_append, List.count_append]
      omega
    · rw [hdecided] at hc
      exact (List.mem_append.mp hc).elim (h.enabled c) enabled_of_decides
  · have heffect := effect_of_stepWorker hwk
    exact hquiet (h.scheduled.of_workerEffect hw heffect) rfl rfl
      fun m => Nat.le_of_eq (heffect.token m).symm

/-- **At most one decision is made for an entry**, in every run. -/
theorem exec (n : ℕ) (as : List Action) (o : Decided)
    (h : Transition.exec Decided.step (.init n) as = some o) : Decides o :=
  Transition.exec_induction (I := fun _ o => Decides o) (init n)
    (fun _ _ _ _ _ hI hstep => hI.step hstep) as o h

/-- Two decisions for an entry are the same one. -/
lemma unique (h : Decides o) {m : ℕ} {cfg cfg' : TaskConfig} (hcfg : (m, cfg) ∈ o.decided)
    (hcfg' : (m, cfg') ∈ o.decided) : cfg' = cfg := by
  have hone := Nat.le_trans (h.once m) (o.state.entry m).token_le_one
  obtain ⟨before, after, hsplit⟩ := List.append_of_mem hcfg
  rw [hsplit] at hone hcfg'
  simp only [List.map_append, List.map_cons, List.count_append, List.count_cons_self] at hone
  have hother : ∀ l : List (ℕ × TaskConfig), (l.map Prod.fst).count m = 0 → (m, cfg') ∉ l :=
    fun l hl hmem => List.count_eq_zero.mp hl (List.mem_map_of_mem hmem)
  rcases List.mem_append.mp hcfg' with hmem | hmem
  · exact absurd hmem (hother before (by omega))
  · rcases List.mem_cons.mp hmem with heq | hmem
    · exact (Prod.mk.inj heq).2
    · exact absurd hmem (hother after (by omega))

/-- A worker whose configuration was decided on runs as decided. -/
lemma runsAsDecided_iff (h : Decides o) :
    o.RunsAsDecided ↔ ∀ wk ∈ o.state.workers, (wk.entry, wk.cfg) ∈ o.decided :=
  ⟨fun hruns wk hwk => (hruns wk hwk).2.1, fun hmem wk hwk =>
    ⟨h.enabled _ (hmem wk hwk), hmem wk hwk, fun _ hcfg => h.unique (hmem wk hwk) hcfg⟩⟩

/-- **A step keeps the workers running as decided** exactly when a worker that it starts does. -/
theorem runs_step_iff (h : Decides o) {a : Action} (hstep : o.step a = some o')
    (hruns : o.RunsAsDecided) : o'.RunsAsDecided ↔ StartsAgree o a := by
  have hI := h.step hstep
  obtain ⟨hs, hdecided⟩ := Decided.step_eq_some hstep
  rw [h.runsAsDecided_iff] at hruns
  rw [hI.runsAsDecided_iff, hdecided]
  rcases step_cases hs with ⟨t, c, rfl, ht, hs'⟩ | ⟨t, env, th, rfl, ht, hth⟩ |
    ⟨w, env, wk, rfl, hw, hwk⟩
  · rw [hs']
    exact iff_of_true (fun wk hwk => List.mem_append_left _ (hruns wk hwk)) trivial
  · have hworkers := (turn_of_threadStep h.scheduled hth).workers
    have hagree : StartsAgree o (.thread t env) ↔ ∀ c ∈ th.starts env, c ∈ o.decided := by
      rw [StartsAgree, Decided.Covers, ht]
      rfl
    have hnew : ∀ c ∈ th.starts env, o.state.decides th env = [] := by
      intro c hc
      unfold Thread.starts at hc
      unfold State.decides
      cases hpc : th.pc <;> simp [hpc] at hc ⊢
    have hdecides : decisions o.state (.thread t env) = o.state.decides th env := by
      rw [decisions, ht]
      rfl
    rw [hagree, hworkers, hdecides, List.forall_mem_append, List.forall_mem_map]
    constructor
    · intro hall c hc
      have hmem := hall.2 c hc
      rwa [hnew c hc, List.append_nil] at hmem
    · exact fun hall => ⟨fun wk hwk => List.mem_append_left _ (hruns wk hwk),
        fun c hc => List.mem_append_left _ (hall c hc)⟩
  · obtain ⟨⟨pc, hworkers, -⟩, -⟩ := effect_of_stepWorker hwk
    rw [hworkers]
    refine iff_of_true (fun wk' hwk' => List.mem_append_left _ ?_) trivial
    rcases List.mem_or_eq_of_mem_set hwk' with hmem | rfl
    · exact hruns wk' hmem
    · exact hruns wk (List.mem_of_getElem? hw)

end Decides

/-! ## Which workers run as decided -/

/-- What a thread has got for a worker was decided before. -/
def Decided.FetchedAsDecided (o : Decided) : Prop :=
  ∀ th ∈ o.state.threads, ∀ c, th.pc.configured = some c → c ∈ o.decided

/-- Where a thread has got only what was decided, it gives no worker anything else. -/
lemma Decided.FetchedAsDecided.startsAgree {o : Decided} (h : o.FetchedAsDecided) (a : Action) :
    StartsAgree o a := by
  cases a with
  | call t c => trivial
  | worker w env => trivial
  | thread t env =>
    intro c hc
    cases ht : o.state.threads[t]? with
    | none => simp [ht] at hc
    | some th =>
      rw [ht, Option.elim_some] at hc
      refine h th (List.mem_of_getElem? ht) c ?_
      unfold Thread.starts at hc
      unfold ThreadPc.configured
      cases hpc : th.pc <;> simp [hpc] at hc ⊢
      exact hc.2.symm

/-- **Answers that agree** are all that a thread gets. -/
theorem Decided.FetchedAsDecided.step {o o' : Decided} {a : Action} (hI : Decides o)
    (h : o.FetchedAsDecided) (hagree : AnswersAgree o a) (hstep : o.step a = some o') :
    o'.FetchedAsDecided := by
  obtain ⟨hs, hdecided⟩ := Decided.step_eq_some hstep
  intro th' hth' c hc
  rw [hdecided]
  refine List.mem_append_left _ ?_
  rcases step_cases hs with ⟨t, call, rfl, ht, hs'⟩ | ⟨t, env, th, rfl, ht, hth⟩ |
    ⟨w, env, wk, rfl, hw, hwk⟩
  · rw [hs'] at hth'
    rcases List.mem_or_eq_of_mem_set hth' with hmem | rfl
    · exact h th' hmem c hc
    · cases call <;> cases hc
  · obtain ⟨pc, hthreads, hconfigured⟩ := (turn_of_threadStep hI.scheduled hth).threads
    have hset : ∀ th' ∈ o.state.threads.set t { th with pc }, ∀ c,
        th'.pc.configured = some c → c ∈ o.decided := by
      intro th' hth' c hc
      rcases List.mem_or_eq_of_mem_set hth' with hmem | rfl
      · exact h th' hmem c hc
      · rcases hconfigured c hc with hold | hnew
        · exact h th (List.mem_of_getElem? ht) c hold
        · refine hagree c ?_
          rw [ht]
          exact hnew
    rcases hthreads with heq | heq
    · exact hset th' (heq ▸ hth') c hc
    · rw [heq] at hth'
      rcases List.mem_append.mp hth' with hmem | hmem
      · exact hset th' hmem c hc
      · rw [List.mem_singleton.mp hmem] at hc
        cases hc
  · obtain ⟨-, hthreads, -⟩ := effect_of_stepWorker hwk
    exact h th' (hthreads ▸ hth') c hc

/-- Where there is no answer, none disagrees. -/
lemma answersAgree_of_noAnswer {o : Decided} {a : Action} (h : NoAnswer o a) :
    AnswersAgree o a := by
  cases a with
  | call t c => trivial
  | worker w env => trivial
  | thread t env =>
    intro c hc
    rw [show o.state.threads[t]?.elim [] (fun th => th.answers env) = [] from h] at hc
    exact absurd hc List.not_mem_nil

/-- The invariant as long as the answers agree. -/
structure Agreed (o : Decided) : Prop where
  decides : Decides o
  fetched : o.FetchedAsDecided
  runs : o.RunsAsDecided

namespace Agreed

variable {o o' : Decided}

/-- The invariant holds at the start. -/
lemma init (n : ℕ) : Agreed (.init n) where
  decides := .init n
  fetched := fun th hth c hc => by
    rw [List.eq_of_mem_replicate hth] at hc
    cases hc
  runs := fun _ hwk => absurd hwk List.not_mem_nil

/-- **An answer that agrees** keeps the invariant. -/
lemma step {a : Action} (h : Agreed o) (hagree : AnswersAgree o a) (hstep : o.step a = some o') :
    Agreed o' where
  decides := h.decides.step hstep
  fetched := h.fetched.step h.decides hagree hstep
  runs := (h.decides.runs_step_iff hstep h.runs).mpr (h.fetched.startsAgree a)

/-- **Answers that agree** keep the invariant. -/
lemma exec {as : List Action} (h : Agreed o)
    (hagree : Transition.Meets Decided.step AnswersAgree o as)
    (hexec : Transition.exec Decided.step o as = some o') : Agreed o' :=
  Transition.guarded_invariant (I := Agreed) h (fun _ _ _ hI hG hstep => hI.step hG hstep) as o'
    hagree hexec

end Agreed

/-- **In which runs the workers run as decided**, for any number of client threads, and whatever
`Config` answers at each call: they do so in every state of a run exactly when every worker that is
started gets the configuration on which it was decided to schedule its entry. That is the case if
`Config`, whenever it is asked outside the lock, gives the answer that was decided on.

**Proof sketch.** A worker keeps the configuration it is started with, and a decision that was made
stays the only one for its entry (`Decides`), so that only the start of a worker matters. What it is
started with is what the thread has got at `config`. -/
theorem runs_as_decided_iff (n : ℕ) (as : List Action) (o : Decided)
    (h : Transition.exec Decided.step (.init n) as = some o) :
    ((∀ before, before <+: as → ∀ o', Transition.exec Decided.step (.init n) before = some o' →
      o'.RunsAsDecided) ↔ Transition.Meets Decided.step StartsAgree (.init n) as) ∧
    (Transition.Meets Decided.step AnswersAgree (.init n) as → o.RunsAsDecided) := by
  have hnone : (Decided.init n).RunsAsDecided := fun _ hwk => absurd hwk List.not_mem_nil
  constructor
  · rw [← Transition.invariant_iff_meets (I := fun o => Decides o ∧ o.RunsAsDecided)
      ⟨.init n, hnone⟩ (fun o a o' hI hstep => ?_) h]
    · refine forall₂_congr fun before _ => forall₂_congr fun o' ho' => ?_
      exact (and_iff_right (Decides.exec n before o' ho')).symm
    · exact (and_iff_right (hI.1.step hstep)).trans (hI.1.runs_step_iff hstep hI.2)
  · exact fun hagree => ((Agreed.init n).exec hagree h).runs

/-- `runs_as_decided_iff` for a one-shot task. -/
theorem runs_as_decided_oneShot : ∃ o, Transition.exec Decided.step (.init 1) oneShot = some o ∧
    o.RunsAsDecided := by
  obtain ⟨o, ho⟩ : ∃ o, Transition.exec Decided.step (.init 1) oneShot = some o := ⟨_, rfl⟩
  exact ⟨o, ho, (runs_as_decided_iff 1 oneShot o ho).2 (by decide)⟩

/-- A thread takes a step that decides nothing. -/
lemma Decided.step_thread {o : Decided} {env : Env} {t : ℕ} {th : Thread} {s' : State}
    (ht : o.state.threads[t]? = some th) (h : ThreadStep env o.state t th s')
    (hdecides : o.state.decides th env = []) : o.step (.thread t env) = some ⟨s', o.decided⟩ := by
  have hstep : TaskRunner.step o.state (.thread t env) = some s' :=
    Option.bind_eq_some_iff.mpr ⟨th, ht, threadStep_iff.mpr h⟩
  rw [Decided.step, hstep, Option.map_some, decisions, ht, Option.elim_some, hdecides,
    List.append_nil]

/-- Which answer disagrees. -/
lemma exists_answer_of_not_agree {o : Decided} {a : Action} (h : ¬ AnswersAgree o a) :
    ∃ t env th m cfg rest, a = .thread t env ∧ o.state.threads[t]? = some th ∧
      th.pc = .config (m :: rest) ∧ env.config m = some cfg ∧ (m, cfg) ∉ o.decided := by
  cases a with
  | call t c => exact absurd trivial h
  | worker w env => exact absurd trivial h
  | thread t env =>
    simp only [AnswersAgree, Decided.Covers, not_forall] at h
    obtain ⟨c, hc, hother⟩ := h
    cases ht : o.state.threads[t]? with
    | none => simp [ht] at hc
    | some th =>
      rw [ht, Option.elim_some, Thread.answers] at hc
      split at hc
      · next m rest hpc =>
        obtain ⟨cfg, hcfg, rfl⟩ := List.mem_map.mp hc
        exact ⟨t, env, th, m, cfg, rest, rfl, ht, hpc, Option.mem_toList.mp hcfg, hother⟩
      · exact absurd hc List.not_mem_nil

/-- Without another answer, the run may go on to where a worker does not run as decided. -/
def Decided.MayDiffer (o : Decided) : Prop :=
  ∃ after o', Transition.Meets Decided.step NoAnswer o after ∧
    Transition.exec Decided.step o after = some o' ∧ ¬ o'.RunsAsDecided

section MayDiffer

variable {o o' : Decided} {t m : ℕ} {poll : Bool} {cfg : TaskConfig} {rest : List ℕ}

/-- A step of a thread that decides nothing and asks for nothing. -/
lemma Decided.MayDiffer.of_step (env : Env) {th : Thread} {s' : State}
    (ht : o.state.threads[t]? = some th) (hstep : ThreadStep env o.state t th s')
    (hdecides : o.state.decides th env = []) (hnone : th.answers env = [])
    (h : Decided.MayDiffer ⟨s', o.decided⟩) : o.MayDiffer := by
  have hnext := Decided.step_thread ht hstep hdecides
  obtain ⟨after, o', hmeets, hexec, hruns⟩ := h
  refine ⟨.thread t env :: after, o', ⟨?_, fun o₁ ho₁ => ?_⟩, ?_, hruns⟩
  · rw [NoAnswer, ht, Option.elim_some, hnone]
  · obtain rfl := Option.some.inj (hnext.symm.trans ho₁)
    exact hmeets
  · rw [Transition.exec_cons, hnext, Option.bind_some, hexec]

/-- The thread starts a worker with a configuration that was not decided on. -/
lemma mayDiffer_of_spawn (ht : o.state.threads[t]? = some ⟨poll, .spawn m cfg rest⟩)
    (hother : (m, cfg) ∉ o.decided) : o.MayDiffer := by
  refine .of_step {} ht (.spawn rfl) rfl rfl ⟨[], _, trivial, rfl, fun hruns => hother ?_⟩
  exact (hruns ⟨m, cfg, .start⟩ (List.mem_append_right _ (List.mem_singleton_self _))).2.1

/-- The thread increments the counter before. -/
lemma mayDiffer_of_fetchAdd (ht : o.state.threads[t]? = some ⟨poll, .fetchAdd m cfg rest⟩)
    (hother : (m, cfg) ∉ o.decided) : o.MayDiffer := by
  obtain ⟨hlt, -⟩ := List.getElem?_eq_some_iff.mp ht
  exact .of_step {} ht .fetchAdd rfl rfl (mayDiffer_of_spawn (List.getElem?_set_self hlt) hother)

/-- **After every answer that disagrees, a worker may run otherwise than decided**: the thread that
has got it increments the counter and starts the worker. -/
lemma mayDiffer_of_not_agree {a : Action} (hnot : ¬ AnswersAgree o a) (hstep : o.step a = some o') :
    o'.MayDiffer := by
  obtain ⟨t, env, th, m, cfg, rest, rfl, ht, hpc, hcfg, hother⟩ := exists_answer_of_not_agree hnot
  obtain ⟨poll, pc⟩ := th
  obtain rfl : pc = .config (m :: rest) := hpc
  obtain ⟨hlt, -⟩ := List.getElem?_eq_some_iff.mp ht
  obtain rfl := Option.some.inj ((Decided.step_thread ht (.config hcfg) rfl).symm.trans hstep)
  exact mayDiffer_of_fetchAdd (List.getElem?_set_self hlt) hother

end MayDiffer

/-- **Which answers are right**: those that agree, and no others. In a run whose answers agree, and
however it goes on without another answer, the workers run as decided; and if they do so however the
run goes on from any of its states, all answers agree.

**Proof sketch.** Answers that agree keep `Agreed`. After the first that does not, its thread goes
on to start a worker with it (`mayDiffer_of_not_agree`). -/
theorem answers_agree_iff (n : ℕ) (as : List Action) (o : Decided)
    (h : Transition.exec Decided.step (.init n) as = some o) :
    Transition.Meets Decided.step AnswersAgree (.init n) as ↔
      ∀ before o₁ after o₂, before <+: as →
        Transition.exec Decided.step (.init n) before = some o₁ →
        Transition.Meets Decided.step NoAnswer o₁ after →
        Transition.exec Decided.step o₁ after = some o₂ → o₂.RunsAsDecided := by
  constructor
  · intro hagree before o₁ after o₂ hbefore ho₁ hnone ho₂
    have hagreed := (Agreed.init n).exec (hagree.of_prefix hbefore) ho₁
    refine (Transition.guarded_invariant (I := Agreed) hagreed (fun o a o' hI hG hstep => ?_) after
      o₂ hnone ho₂).runs
    exact hI.step (answersAgree_of_noAnswer hG) hstep
  · intro hall
    by_contra hnot
    obtain ⟨before, a, o₁, o₂, hbefore, -, ho₁, hfirst, ho₂⟩ :=
      Transition.exists_first_violation h hnot
    obtain ⟨after, o₃, hnone, ho₃, hruns⟩ := mayDiffer_of_not_agree hfirst ho₂
    exact hruns (hall (before ++ [a]) o₂ after o₃ hbefore
      (Transition.exec_concat_eq_some.mpr ⟨o₁, ho₁, ho₂⟩) hnone ho₃)

/-- A task is enabled when `Pass` decides to schedule it, and disabled when it is asked again: its
worker runs with `periodicity_ms == -1`. -/
theorem disabled_after_decision :
    ¬ ∀ (n : ℕ) (as : List Action) (o : Decided),
      Transition.exec Decided.step (.init n) as = some o → o.RunsAsDecided := by
  intro hclaim
  obtain ⟨o, ho, hworkers⟩ : ∃ o, Transition.exec Decided.step (.init 1)
      [.call 0 .addTask, .thread 0 {}, .thread 0 {}, .call 0 .start, .thread 0 {}, .thread 0 {},
        .thread 0 {}, .thread 0 { config := fun _ => some { periodicityMs := -1 } }, .thread 0 {},
        .thread 0 {}] = some o ∧
      o.state.workers = [⟨0, { periodicityMs := -1 }, .start⟩] := ⟨_, rfl, rfl⟩
  refine (hclaim 1 _ o ho ⟨0, { periodicityMs := -1 }, .start⟩ ?_).1 rfl
  rw [hworkers]
  exact List.mem_singleton_self _

end TaskRunner

end RaCommon
