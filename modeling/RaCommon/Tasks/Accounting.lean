import RaCommon.Tasks.Destruction
import RaCommon.Tasks.Scheduling

set_option relaxedAutoImplicit false
set_option autoImplicit false

/-!
# Marks and counters after a failed `Pass` (`tasks/task_runner.hpp`)

`Pass` marks an entry before it asks the task for its configuration, and increments
`active_workers_` before it creates the worker's thread. `Config` and the constructor of
`std::thread` may throw, and the exception leaves `Pass` with the mark and the increment in place.
As long as no exception leaves a `Pass`, every mark stands for a worker or for one that is about to
be started; after the first one, some entry is marked for ever without a worker.

## Main definitions

* `RaCommon.TaskRunner.NoException` — what is asked and created in a step of `Pass` succeeds.
* `RaCommon.TaskRunner.State.Accounts` — the marks and the counter are those of the workers.
* `RaCommon.TaskRunner.Accounted`, `RaCommon.TaskRunner.Lost` — the invariants of runs without and
  with an exception.

## Main results

* `RaCommon.TaskRunner.accounts_iff` — when no `Pass` is in progress, marks and counter are those of
  the workers if and only if no exception has left a `Pass`.
* `RaCommon.TaskRunner.config_throws` — a run with an exception.
-/

namespace RaCommon

namespace TaskRunner

/-! ## Marks, counter and exceptions -/

/-- In `Pass`. -/
def ThreadPc.inPass : ThreadPc → Bool
  | .collect | .config _ | .fetchAdd _ _ _ | .spawn _ _ _ => true
  | _ => false

/-- No `Pass` is in progress. -/
def State.NoPass (s : State) : Prop := ∀ th ∈ s.threads, th.pc.inPass = false

/-- An entry is marked as scheduled exactly when a worker was started for it, and the counter is the
number of workers that have not decremented it yet. -/
def State.Accounts (s : State) : Prop :=
  (∀ m, (s.entry m).scheduled = true ↔ ∃ wk ∈ s.workers, wk.entry = m) ∧
    s.activeWorkers = s.workers.countP fun wk => wk.pc.counted = 1

/-- `Config` of every entry that the locked block of `Pass` asks answers. -/
def State.Answers (s : State) (env : Env) : Prop :=
  ∀ m ∈ s.managed, (s.entry m).status ≠ .completed → (s.entry m).scheduled = false →
    (env.config m).isSome

/-- What is asked and created in the next step of `Pass` succeeds. -/
def ThreadPc.Succeeds (s : State) (env : Env) : ThreadPc → Prop
  | .collect => s.Answers env
  | .config (m :: _) => (env.config m).isSome
  | .spawn _ _ _ => env.created = true
  | _ => True

/-- No exception leaves a `Pass` in this step. -/
def NoException (s : State) : Action → Prop
  | .thread t env => s.threads[t]?.elim True fun th => th.pc.Succeeds s env
  | .call _ _ | .worker _ _ => True

instance (s : State) (env : Env) : Decidable (s.Answers env) :=
  inferInstanceAs (Decidable (∀ m ∈ s.managed, (s.entry m).status ≠ .completed →
    (s.entry m).scheduled = false → (env.config m).isSome))

instance (s : State) (env : Env) (pc : ThreadPc) : Decidable (pc.Succeeds s env) :=
  match pc with
  | .collect => inferInstanceAs (Decidable (s.Answers env))
  | .config (m :: _) => inferInstanceAs (Decidable ((env.config m).isSome = true))
  | .spawn _ _ _ => inferInstanceAs (Decidable (env.created = true))
  | .idle | .push | .readRunning | .exchange | .spawnPoll | .pollLoop | .pollWait | .config []
  | .fetchAdd _ _ _ | .shutdown _ _ | .finished | .destroyed => isTrue trivial

instance (s : State) (a : Action) : Decidable (NoException s a) :=
  match a with
  | .thread t env =>
    match h : s.threads[t]? with
    | some th => decidable_of_iff (th.pc.Succeeds s env) (by simp [NoException, h])
    | none => isTrue (by simp [NoException, h])
  | .call _ _ | .worker _ _ => isTrue trivial

/-! ## Steps without an exception -/

/-- The workers that have not decremented the counter yet. -/
def State.live (s : State) : ℕ := Pool.total (fun wk : Worker => wk.pc.counted) s.workers

/-- What a step of thread `t`, which is `th`, does to tokens and counter if no exception leaves
`Pass`: nothing is lost. -/
structure Exact (s : State) (t : ℕ) (th : Thread) (s' : State) : Prop where
  threads : ∃ pc, (s'.threads = s.threads.set t { th with pc } ∨
      s'.threads = s.threads.set t { th with pc } ++ [⟨true, .pollLoop⟩]) ∧
    (∀ m, pc.pending.count m + s'.given m + (s.entry m).token =
      th.pc.pending.count m + s.given m + (s'.entry m).token) ∧
    s'.activeWorkers + s.live + th.pc.spawning = s.activeWorkers + s'.live + pc.spawning

namespace Exact

variable {s s' : State} {t : ℕ} {th : Thread} {pc : ThreadPc}

/-- A step that leaves marks, workers and counter alone. -/
lemma move (hthreads : s'.threads = s.threads.set t { th with pc } ∨
      s'.threads = s.threads.set t { th with pc } ++ [⟨true, .pollLoop⟩])
    (hpending : pc.pending = th.pc.pending) (hspawning : pc.spawning = th.pc.spawning)
    (htoken : ∀ m, (s'.entry m).token = (s.entry m).token) (hworkers : s'.workers = s.workers)
    (hactive : s'.activeWorkers = s.activeWorkers) : Exact s t th s' where
  threads := by
    refine ⟨pc, hthreads, fun m => ?_, ?_⟩
    · rw [hpending, htoken, State.given, State.given, hworkers]
    · rw [hspawning, hactive, State.live, State.live, hworkers]

end Exact

/-- **The locked block of `Pass` schedules an entry for every mark that it makes**, if no `Config`
throws; otherwise it has marked an entry for nothing. -/
lemma State.collected_cases (s : State) (env : Env) :
    (∃ l, (s.collected env).toSchedule = some l ∧ s.Answers env ∧
      ∀ m, l.count m + (s.entry m).token = ((s.collected env).entry m).token) ∨
    (s.collected env).toSchedule = none ∧ ¬ s.Answers env ∧
      ∃ m, (s.entry m).token = 0 ∧ ((s.collected env).entry m).token = 1 := by
  rcases collectLoop_cases env.config s.retained s.entry with ⟨l, hl, hcount, hsome⟩ |
    ⟨hnone, m, hm, hzero, hthrows, hone⟩
  · refine .inl ⟨l, hl, fun m hm hstatus hmark => ?_, hcount⟩
    exact hsome m (State.mem_retained.mpr ⟨hm, hstatus⟩) (Managed.token_eq_zero.mpr hmark)
  · obtain ⟨hmanaged, hstatus⟩ := State.mem_retained.mp hm
    refine .inr ⟨hnone, fun hanswers => ?_, m, hzero, hone⟩
    have hsome := hanswers m hmanaged hstatus (Managed.token_eq_zero.mp hzero)
    rw [hthrows] at hsome
    cases hsome

/-- **What a client or poll thread does to tokens and counter**, if no exception leaves `Pass`.

**Proof sketch.** By cases on how the step goes. The locked block of `Pass` schedules an entry for
every mark it makes (`State.collected_cases`); the increment of the counter and the start of the
worker move what is counted from the thread to the worker. -/
theorem exact_of_threadStep {s s' : State} {t : ℕ} {th : Thread} {env : Env} (hs : Scheduled s)
    (hsucceeds : th.pc.Succeeds s env) (h : ThreadStep env s t th s') : Exact s t th s' := by
  cases h with
  | push =>
    rw [hs.update_made]
    exact .move (.inl rfl) rfl rfl (fun _ => rfl) rfl rfl
  | readRunning | exchange | pollLoop | pollWait =>
    refine .move (.inl rfl) ?_ ?_ (fun _ => rfl) rfl rfl
    · split <;> rfl
    · split <;> rfl
  | spawnPoll => exact .move (.inr rfl) rfl rfl (fun _ => rfl) rfl rfl
  | collect hl =>
    rcases s.collected_cases env with ⟨l, hl', -, hcount⟩ | ⟨hnone, -⟩
    · obtain rfl := Option.some.inj (hl.symm.trans hl')
      refine ⟨_, .inl rfl, fun m => ?_, rfl⟩
      have := hcount m
      simp only [ThreadPc.pending, State.goto, State.afterCollect, State.given, List.count_nil]
      omega
    · cases hl.symm.trans hnone
  | collectThrows hnone =>
    rcases s.collected_cases env with ⟨l, hl, -⟩ | ⟨-, hthrows, -⟩
    · cases hl.symm.trans hnone
    · exact absurd hsucceeds hthrows
  | configThrows hnone =>
    rw [ThreadPc.Succeeds, hnone] at hsucceeds
    cases hsucceeds
  | spawnThrows hcreated => cases hcreated.symm.trans hsucceeds
  | @configDone poll =>
    refine .move (.inl rfl) ?_ ?_ (fun _ => rfl) rfl rfl
    · cases poll <;> rfl
    · cases poll <;> rfl
  | fetchAdd =>
    refine ⟨_, .inl rfl, fun _ => rfl, ?_⟩
    simp only [State.goto, State.live, ThreadPc.spawning]
    omega
  | spawn =>
    refine ⟨_, .inl rfl, fun m' => ?_, ?_⟩
    · simp only [ThreadPc.pending, State.goto, State.addWorker, State.given, Pool.total_concat,
        List.count_cons, beq_iff_eq]
      omega
    · simp only [State.goto, State.addWorker, State.live, ThreadPc.spawning, Pool.total_concat,
        WorkerPc.counted]
      omega
  | storeStop =>
    exact .move (.inl rfl) rfl rfl (token_storeStop s.entry s.managed) rfl rfl
  | config | spawnPollThrows | stop | notifyPoll | join | waitEnds | waitAgain =>
    exact .move (.inl rfl) rfl rfl (fun _ => rfl) rfl rfl
  | @clear poll last =>
    refine .move (.inl rfl) ?_ ?_ (fun _ => rfl) rfl rfl
    · cases last <;> rfl
    · cases last <;> rfl

/-- A thread that is not in `Pass` has no entry waiting, and is not starting a worker. -/
lemma ThreadPc.of_not_inPass {pc : ThreadPc} (h : pc.inPass = false) :
    pc.pending = [] ∧ pc.spawning = 0 := by
  cases pc with
  | collect | config | fetchAdd | spawn => cases h
  | _ => exact ⟨rfl, rfl⟩

/-- Where no `Pass` is in progress, only workers have tokens. -/
lemma State.NoPass.tokens_eq {s : State} (h : s.NoPass) (m : ℕ) : s.tokens m = s.given m := by
  have hnone : Pool.total (fun th : Thread => th.pc.pending.count m) s.threads = 0 :=
    Pool.total_eq_zero fun th hth => by rw [(ThreadPc.of_not_inPass (h th hth)).1, List.count_nil]
  rw [State.tokens, hnone, Nat.zero_add]

/-- Where no `Pass` is in progress, no worker is being started. -/
lemma State.NoPass.spawning_eq_zero {s : State} (h : s.NoPass) :
    Pool.total (fun th : Thread => th.pc.spawning) s.threads = 0 :=
  Pool.total_eq_zero fun th hth => (ThreadPc.of_not_inPass (h th hth)).2

/-- The workers that have not decremented the counter yet, as a count of workers. -/
lemma State.live_eq_countP (s : State) :
    s.live = s.workers.countP fun wk => wk.pc.counted = 1 := by
  have hcounted : (fun wk : Worker => wk.pc.counted) =
      fun wk => if wk.pc.counted = 1 then 1 else 0 := by
    funext wk
    cases wk.pc <;> rfl
  rw [State.live, hcounted, Pool.total_ite]

/-- What a worker does to the counter. -/
lemma counted_of_stepWorker {s s' : State} {w : ℕ} {wk : Worker} {env : Env}
    (h : s.stepWorker w wk env = some s') :
    ∃ pc, s'.workers = s.workers.set w { wk with pc } ∧
      s'.activeWorkers + wk.pc.counted = s.activeWorkers + pc.counted := by
  obtain ⟨m, cfg, pc⟩ := wk
  cases pc with
  | fetchSub =>
    cases h
    refine ⟨_, rfl, ?_⟩
    simp only [State.gotoWorker]
    split <;> simp [WorkerPc.counted]
  | lock =>
    simp only [State.stepWorker] at h
    split at h
    · cases h
      exact ⟨_, rfl, rfl⟩
    · cases h
  | done => cases h
  | start | loadStop | shouldStop | executing =>
    cases h
    refine ⟨_, rfl, ?_⟩
    simp only [State.gotoWorker]
    split <;> rfl
  | delay | onStop | storeRunning | execute | storeReady | sleep | storeCompleted | notify
  | unlock =>
    cases h
    exact ⟨_, rfl, rfl⟩

/-! ## Runs without an exception -/

/-- The invariant as long as no exception has left a `Pass`: every mark is that of a worker, or of
an entry that is waiting in a `Pass`, and the counter counts what it is meant to. -/
structure Accounted (s : State) : Prop where
  tokens_eq : ∀ m, s.tokens m = (s.entry m).token
  active_eq : s.activeWorkers = s.outstanding

namespace Accounted

variable {s s' : State}

/-- The invariant holds at the start. -/
lemma init (n : ℕ) : Accounted (.init n) where
  tokens_eq := fun m => by
    have hle := (Scheduled.init n).tokens_le m
    have hzero : ((State.init n).entry m).token = 0 := rfl
    omega
  active_eq := by
    have hidle : Pool.total (fun th : Thread => th.pc.spawning) (List.replicate n ⟨false, .idle⟩) =
        0 := Pool.total_eq_zero fun th hth => by
      rw [List.eq_of_mem_replicate hth]
      rfl
    have houtstanding : (State.init n).outstanding = 0 := by
      simpa [State.outstanding, State.init] using hidle
    rw [houtstanding]
    rfl

/-- A thread keeps the invariant, if no exception leaves `Pass`. -/
lemma of_exact (h : Accounted s) {t : ℕ} {th : Thread} (ht : s.threads[t]? = some th)
    (he : Exact s t th s') : Accounted s' := by
  obtain ⟨pc, hthreads, htokens, hactive⟩ := he.threads
  refine ⟨fun m => ?_, ?_⟩
  · have hle := h.tokens_eq m
    have hset := total_threads (fun th' => th'.pc.pending.count m) rfl ht hthreads
    have := htokens m
    simp only [State.tokens] at hle ⊢
    simp only at hset
    omega
  · have heq := h.active_eq
    have hset := total_threads (fun th' => th'.pc.spawning) rfl ht hthreads
    simp only [State.outstanding, State.live] at heq hactive ⊢
    simp only at hset
    omega

/-- A worker keeps the invariant. -/
lemma of_stepWorker (h : Accounted s) {w : ℕ} {wk : Worker} {env : Env}
    (hw : s.workers[w]? = some wk) (hstep : s.stepWorker w wk env = some s') : Accounted s' := by
  obtain ⟨pc, hworkers, hactive⟩ := counted_of_stepWorker hstep
  have heffect := effect_of_stepWorker hstep
  refine ⟨fun m => ?_, ?_⟩
  · rw [heffect.tokens_eq hw, heffect.token]
    exact h.tokens_eq m
  · have heq := h.active_eq
    have hset := Pool.total_set (fun wk' : Worker => wk'.pc.counted) hw { wk with pc }
    simp only [State.outstanding] at heq ⊢
    rw [heffect.threads, hworkers]
    simp only at hset
    omega

/-- **Every step** without an exception keeps the invariant. -/
theorem step (h : Accounted s) (hs : Scheduled s) {a : Action} (hno : NoException s a)
    (hstep : step s a = some s') : Accounted s' := by
  rcases step_cases hstep with ⟨t, c, rfl, ht, rfl⟩ | ⟨t, env, th, rfl, ht, hth⟩ |
    ⟨w, env, wk, rfl, hw, hwk⟩
  · refine h.of_exact ht (.move (.inl rfl) ?_ ?_ (fun _ => rfl) rfl rfl)
    · cases c <;> rfl
    · cases c <;> rfl
  · rw [NoException, ht, Option.elim_some] at hno
    exact h.of_exact ht (exact_of_threadStep hs hno hth)
  · exact h.of_stepWorker hw hwk

/-- Where no `Pass` is in progress, the marks and the counter are those of the workers. -/
lemma accounts (h : Accounted s) (hquiet : s.NoPass) : s.Accounts := by
  refine ⟨fun m => ?_, ?_⟩
  · have hle := (s.entry m).token_le_one
    have hone : (s.entry m).scheduled = true ↔ 0 < s.workers.countP (·.entry = m) := by
      rw [← State.given_eq_countP, ← hquiet.tokens_eq, h.tokens_eq, ← Managed.token_eq_one]
      omega
    simpa [List.countP_pos_iff] using hone
  · rw [h.active_eq, State.outstanding, hquiet.spawning_eq_zero, Nat.add_zero, ← State.live,
      State.live_eq_countP]

end Accounted

/-! ## Runs with an exception -/

/-- An entry that is marked as scheduled, has no worker, and is waiting in no `Pass`. -/
structure Lost (s : State) (m : ℕ) : Prop where
  scheduled : (s.entry m).scheduled = true
  tokens_eq : s.tokens m = 0

namespace Lost

variable {s s' : State} {m : ℕ}

/-- No thread finds a lost entry. -/
lemma of_effect (h : Lost s m) {t : ℕ} {th : Thread} {env : Env} (ht : s.threads[t]? = some th)
    (he : Effect env s t th s') : Lost s' m := by
  obtain ⟨pc, hthreads, htokens, -⟩ := he.threads
  have htoken := Managed.token_eq_one.mpr h.scheduled
  have hle := (s'.entry m).token_le_one
  have hzero := h.tokens_eq
  have hset := total_threads (fun th' => th'.pc.pending.count m) rfl ht hthreads
  have hwaiting := Pool.le_total (fun th' : Thread => th'.pc.pending.count m) ht
  have := htokens m
  simp only [State.tokens] at hzero
  simp only at hset hwaiting
  refine ⟨Managed.token_eq_one.mp ?_, ?_⟩
  · omega
  · rw [State.tokens]
    omega

/-- No worker finds a lost entry. -/
lemma of_workerEffect (h : Lost s m) {w : ℕ} {wk : Worker} (hw : s.workers[w]? = some wk)
    (he : WorkerEffect s w wk s') : Lost s' m := by
  refine ⟨?_, ?_⟩
  · rw [← Managed.token_eq_one, he.token, Managed.token_eq_one]
    exact h.scheduled
  · rw [he.tokens_eq hw]
    exact h.tokens_eq

/-- **A lost entry stays lost.** -/
theorem step (h : Lost s m) (hs : Scheduled s) {a : Action} (hstep : step s a = some s') :
    Lost s' m := by
  rcases step_cases hstep with ⟨t, c, rfl, ht, rfl⟩ | ⟨t, env, th, rfl, ht, hth⟩ |
    ⟨w, env, wk, rfl, hw, hwk⟩
  · exact h.of_effect ht (hs.effect_of_call c)
  · exact h.of_effect ht (effect_of_threadStep hs hth)
  · exact h.of_workerEffect hw (effect_of_stepWorker hwk)

/-- Where no `Pass` is in progress, a lost entry is marked for nothing. -/
lemma not_accounts (h : Lost s m) (hquiet : s.NoPass) : ¬ s.Accounts := by
  rintro ⟨hmarks, -⟩
  obtain ⟨wk, hwk, rfl⟩ := (hmarks m).mp h.scheduled
  obtain ⟨w, hw⟩ := List.mem_iff_getElem?.mp hwk
  have hgiven := State.one_le_given hw
  have hzero := h.tokens_eq
  rw [hquiet.tokens_eq] at hzero
  omega

end Lost

/-- An exception out of `Pass` loses an entry that was waiting in it. -/
lemma lost_of_waiting {s : State} {t : ℕ} {th : Thread} (hs : Scheduled s)
    (ht : s.threads[t]? = some th) {m : ℕ} (hm : m ∈ th.pc.pending) :
    Lost (s.goto t th .idle) m := by
  have hcount : 0 < th.pc.pending.count m := List.count_pos_iff.mpr hm
  have hset := Pool.total_set (fun th' : Thread => th'.pc.pending.count m) ht
    { th with pc := .idle }
  have hidle : ThreadPc.idle.pending.count m = 0 := rfl
  have hone := hs.tokens_le_one m
  have hle := hs.tokens_le m
  have hwaiting := Pool.le_total (fun th' : Thread => th'.pc.pending.count m) ht
  simp only [State.tokens] at hone hle
  simp only [hidle] at hset hwaiting
  refine ⟨Managed.token_eq_one.mp ?_, ?_⟩
  · simp only [State.goto]
    have htoken := (s.entry m).token_le_one
    omega
  · simp only [State.tokens, State.goto, State.given] at hone ⊢
    omega

/-- An exception out of the locked block of `Pass` loses an entry that was marked for nothing. -/
lemma lost_of_collect {s : State} {t : ℕ} {env : Env} {m : ℕ} (hs : Scheduled s)
    (ht : s.threads[t]? = some ⟨false, .collect⟩) (hzero : (s.entry m).token = 0)
    (hone : ((s.collected env).entry m).token = 1) :
    Lost ((s.afterCollect env).goto t ⟨false, .collect⟩ .idle) m := by
  have hle := hs.tokens_le m
  have hset := Pool.total_set (fun th' : Thread => th'.pc.pending.count m) ht ⟨false, .idle⟩
  have hcollect : ThreadPc.collect.pending.count m = 0 := rfl
  have hidle : ThreadPc.idle.pending.count m = 0 := rfl
  refine ⟨Managed.token_eq_one.mp hone, ?_⟩
  simp only [hcollect, hidle] at hset
  simp only [State.tokens, State.goto, State.afterCollect, State.given] at hle ⊢
  omega

/-- **An exception out of `Pass` loses an entry**: the one whose `Config` has thrown, or for which
no thread could be created. -/
theorem lost_of_threadStep {s s' : State} {t : ℕ} {th : Thread} {env : Env} (hs : Scheduled s)
    (ht : s.threads[t]? = some th) (hfails : ¬ th.pc.Succeeds s env)
    (h : ThreadStep env s t th s') : ∃ m, Lost s' m := by
  cases h with
  | collect hl =>
    rcases s.collected_cases env with ⟨-, -, hanswers, -⟩ | ⟨hnone, -⟩
    · exact absurd hanswers hfails
    · cases hl.symm.trans hnone
  | collectThrows hnone =>
    rcases s.collected_cases env with ⟨l, hl, -⟩ | ⟨-, -, m, hzero, hone⟩
    · cases hl.symm.trans hnone
    · exact ⟨m, lost_of_collect hs ht hzero hone⟩
  | config hcfg => exact absurd (by rw [ThreadPc.Succeeds, hcfg]; rfl) hfails
  | @configThrows m => exact ⟨m, lost_of_waiting hs ht (by simp [ThreadPc.pending])⟩
  | spawn hcreated => exact absurd hcreated hfails
  | @spawnThrows m => exact ⟨m, lost_of_waiting hs ht (by simp [ThreadPc.pending])⟩
  | _ => exact absurd trivial hfails

/-! ## Main result -/

/-- A run without an exception, and one with. -/
lemma accounted_or_lost (n : ℕ) (as : List Action) (s : State)
    (h : Transition.exec step (.init n) as = some s) :
    Transition.Meets step NoException (.init n) as ∧ Accounted s ∨
      ¬ Transition.Meets step NoException (.init n) as ∧ ∃ m, Lost s m := by
  refine Transition.exec_induction
    (I := fun as s => Transition.Meets step NoException (.init n) as ∧ Accounted s ∨
      ¬ Transition.Meets step NoException (.init n) as ∧ ∃ m, Lost s m)
    (.inl ⟨trivial, .init n⟩) (fun as s a s' hs hI hstep => ?_) as s h
  have hscheduled := (Observed.exec n as s hs).scheduled
  rw [Transition.meets_concat_iff hs]
  rcases hI with ⟨hmeets, haccounted⟩ | ⟨hmeets, m, hlost⟩
  · by_cases hno : NoException s a
    · exact .inl ⟨⟨hmeets, hno⟩, haccounted.step hscheduled hno hstep⟩
    · refine .inr ⟨fun hboth => hno hboth.2, ?_⟩
      cases a with
      | call t c => exact absurd trivial hno
      | worker w env => exact absurd trivial hno
      | thread t env =>
        obtain ⟨th, ht, hth⟩ := Option.bind_eq_some_iff.mp hstep
        rw [NoException, ht, Option.elim_some] at hno
        exact lost_of_threadStep hscheduled ht hno (threadStep_iff.mp hth)
  · exact .inr ⟨fun hboth => hmeets hboth.1, m, hlost.step hscheduled hstep⟩

/-- **When marks and counter are those of the workers.** In every state without a `Pass` in
progress that a run has led to, an entry is marked as scheduled exactly when a worker was started
for it, and the counter is the number of workers that have not decremented it, if and only if no
exception has left a `Pass` in the run.

**Proof sketch.** A step without an exception keeps `Accounted`, which gives the property where no
entry is waiting in a `Pass`. An exception leaves an entry marked that no worker was started for
(`lost_of_threadStep`); nothing takes the mark back (`Lost.step`). -/
theorem accounts_iff (n : ℕ) (as : List Action) (s : State)
    (h : Transition.exec step (.init n) as = some s) (hquiet : s.NoPass) :
    s.Accounts ↔ Transition.Meets step NoException (.init n) as := by
  rcases accounted_or_lost n as s h with ⟨hmeets, haccounted⟩ | ⟨hmeets, m, hlost⟩
  · exact iff_of_true (haccounted.accounts hquiet) hmeets
  · exact iff_of_false (hlost.not_accounts hquiet) hmeets

/-- `accounts_iff` for the run of a one-shot task. -/
theorem accounts_oneShot : ∃ s, Transition.exec step (.init 1) oneShot = some s ∧ s.Accounts := by
  obtain ⟨s, hs, hthreads⟩ : ∃ s, Transition.exec step (.init 1) oneShot = some s ∧
      s.threads = [⟨false, .idle⟩, ⟨true, .pollLoop⟩] := ⟨_, rfl, rfl⟩
  refine ⟨s, hs, (accounts_iff 1 oneShot s hs ?_).mpr (by decide)⟩
  intro th hth
  rw [hthreads] at hth
  revert th
  decide

/-- **An entry whose `Config` has thrown stays marked without a worker**: `Start` ends with the
exception, and no later `Pass` will schedule the task. -/
theorem config_throws :
    ¬ ∀ (n : ℕ) (as : List Action) (s : State), Transition.exec step (.init n) as = some s →
      s.NoPass → s.Accounts := by
  intro hclaim
  obtain ⟨s, hs, hthreads, hmark, hworkers⟩ : ∃ s, Transition.exec step (.init 1)
      [.call 0 .addTask, .thread 0 {}, .thread 0 {}, .call 0 .start, .thread 0 {}, .thread 0 {},
        .thread 0 { config := fun _ => none }] = some s ∧
      s.threads = [⟨false, .idle⟩, ⟨true, .pollLoop⟩] ∧ (s.entry 0).scheduled = true ∧
      s.workers = [] := ⟨_, rfl, rfl, rfl, rfl⟩
  have hquiet : s.NoPass := by
    intro th hth
    rw [hthreads] at hth
    revert th
    decide
  obtain ⟨wk, hwk, -⟩ := ((hclaim 1 _ s hs hquiet).1 0).mp hmark
  rw [hworkers] at hwk
  cases hwk

end TaskRunner

end RaCommon
