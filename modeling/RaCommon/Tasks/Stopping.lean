import RaCommon.Tasks.Accounting

set_option relaxedAutoImplicit false
set_option autoImplicit false

/-!
# Stopping the workers (`tasks/task_runner.hpp`)

`Shutdown` clears `running_`, marks the entries of `managed_` with `stop` and waits for the workers.
A `Pass` that has read `running_` before may still be about to enter its locked block, and an entry
that `AddTask` pushes after the marking has no `stop`: the `Pass` gives it a worker that nobody
tells to stop. Where no `Pass` schedules such an entry, every worker is told.

## Main definitions

* `RaCommon.TaskRunner.NoLateEntry` — the marking of `Shutdown` reaches all live workers, and no
  `Pass` schedules an entry without `stop` after it.
* `RaCommon.TaskRunner.Marked` — the invariant after the marking.
* `RaCommon.TaskRunner.Phase` — how far the one call of `Shutdown` has come.

## Main results

* `RaCommon.TaskRunner.shutdown_stops` — without late entries, every live worker has been told to
  stop when `Shutdown` waits.
* `RaCommon.TaskRunner.late_entry` — with one, a worker has not.
-/

namespace RaCommon

namespace TaskRunner

/-! ## Late entries -/

/-- In `Shutdown`. -/
def ThreadPc.inShutdown : ThreadPc → Bool
  | .shutdown _ _ => true
  | _ => false

/-- In `Shutdown`, before the marking. -/
def ThreadPc.unmarked : ThreadPc → Bool
  | .shutdown _ .exchange | .shutdown _ .storeStop => true
  | _ => false

/-- In `Shutdown`, after the marking, or without one if the runner was not running, and up to the
end of the wait. -/
def ThreadPc.marked : ThreadPc → Bool
  | .shutdown _ .notifyPoll | .shutdown _ .join | .shutdown _ .wait => true
  | _ => false

/-- A thread has marked the entries in `Shutdown`. -/
def State.AfterMarking (s : State) : Prop := ∃ th ∈ s.threads, th.pc.marked = true

/-- The task of entry `m` is not disabled. -/
def Env.enabled (env : Env) (m : ℕ) : Bool := (env.config m).any fun cfg => cfg.periodicityMs ≠ -1

/-- What the locked block of `Pass` schedules, if no `Config` throws, has `stop`. -/
def State.SchedulesStopped (s : State) (env : Env) : Prop :=
  s.Answers env → ∀ m ∈ s.managed, (s.entry m).status ≠ .completed →
    (s.entry m).scheduled = false → env.enabled m = true → (s.entry m).stop = true

/-- If the next step is the marking, all entries of live workers are in `managed_`; if it is the
locked block of `Pass` after a marking, what it schedules has `stop`. -/
def ThreadPc.StopsAll (s : State) (env : Env) : ThreadPc → Prop
  | .shutdown _ .storeStop => ∀ wk ∈ s.workers, wk.pc ≠ .done → wk.entry ∈ s.managed
  | .collect => s.AfterMarking → s.SchedulesStopped env
  | _ => True

/-- The marking reaches all live workers, and no `Pass` schedules an entry without `stop` after
it. -/
def NoLateEntry (s : State) : Action → Prop
  | .thread t env => s.threads[t]?.elim True fun th => th.pc.StopsAll s env
  | .call _ _ | .worker _ _ => True

instance (s : State) : Decidable s.AfterMarking :=
  inferInstanceAs (Decidable (∃ th ∈ s.threads, th.pc.marked = true))

instance (s : State) (env : Env) : Decidable (s.SchedulesStopped env) :=
  inferInstanceAs (Decidable (s.Answers env → ∀ m ∈ s.managed, (s.entry m).status ≠ .completed →
    (s.entry m).scheduled = false → env.enabled m = true → (s.entry m).stop = true))

instance (s : State) (env : Env) (pc : ThreadPc) : Decidable (pc.StopsAll s env) :=
  match pc with
  | .shutdown _ .storeStop =>
    inferInstanceAs (Decidable (∀ wk ∈ s.workers, wk.pc ≠ .done → wk.entry ∈ s.managed))
  | .collect => inferInstanceAs (Decidable (s.AfterMarking → s.SchedulesStopped env))
  | .idle | .push | .readRunning | .exchange | .spawnPoll | .pollLoop | .pollWait | .config _
  | .fetchAdd _ _ _ | .spawn _ _ _ | .shutdown _ .exchange | .shutdown _ .notifyPoll
  | .shutdown _ .join | .shutdown _ .wait | .shutdown _ .clear | .finished | .destroyed =>
    isTrue trivial

instance (s : State) (a : Action) : Decidable (NoLateEntry s a) :=
  match a with
  | .thread t env =>
    match h : s.threads[t]? with
    | some th => decidable_of_iff (th.pc.StopsAll s env) (by simp [NoLateEntry, h])
    | none => isTrue (by simp [NoLateEntry, h])
  | .call _ _ | .worker _ _ => isTrue trivial

/-- A call of `Shutdown`, or of the destructor. -/
def Action.isShutdown : Action → Bool
  | .call _ .shutdown | .call _ .destroy => true
  | _ => false

/-! ## Steps -/

/-- Where a thread can be as long as the runner has never been started. -/
def ThreadPc.dormant : ThreadPc → Bool
  | .idle | .push | .readRunning | .exchange | .shutdown _ .exchange => true
  | _ => false

/-- What a step of thread `t`, which is `th`, does, unless it is in `Shutdown` before the
marking. -/
structure Move (env : Env) (s : State) (t : ℕ) (th : Thread) (s' : State) : Prop where
  /-- The thread goes on, perhaps with a new poll thread. It does not enter `Shutdown`, an entry
  that is newly waiting has been scheduled in this step, and a runner that was never started has
  not been started unless it is running now. -/
  threads : ∃ pc, (s'.threads = s.threads.set t { th with pc } ∨
      s'.threads = s.threads.set t { th with pc } ++ [⟨true, .pollLoop⟩]) ∧
    (pc.inShutdown = true → th.pc.inShutdown = true) ∧ pc.unmarked = false ∧
    (pc.marked = true → th.pc.marked = true) ∧
    (∀ m ∈ pc.pending, m ∈ th.pc.pending ∨ th.pc = .collect ∧ s.Answers env ∧ m ∈ s.managed ∧
      (s.entry m).status ≠ .completed ∧ (s.entry m).scheduled = false ∧ env.enabled m = true) ∧
    (s.running = false → th.pc.dormant = true → s'.running = true ∨
      s'.threads = s.threads.set t { th with pc } ∧ pc.dormant = true)
  stop : ∀ m, (s'.entry m).stop = (s.entry m).stop
  managed : th.pc.inShutdown = false →
    ∀ m ∈ s.managed, (s.entry m).status ≠ .completed → m ∈ s'.managed
  running : s.running = true → s'.running = true

/-- A thread outside `Shutdown` is neither before its marking nor after it. -/
lemma ThreadPc.of_not_inShutdown {pc : ThreadPc} (h : pc.inShutdown = false) :
    pc.unmarked = false ∧ pc.marked = false := by
  cases pc with
  | shutdown => cases h
  | _ => exact ⟨rfl, rfl⟩

namespace Move

variable {env : Env} {s s' : State} {t : ℕ} {th : Thread} {pc : ThreadPc}

/-- A step to where no `Shutdown` is, which schedules nothing. -/
lemma outside (hthreads : s'.threads = s.threads.set t { th with pc } ∨
      s'.threads = s.threads.set t { th with pc } ++ [⟨true, .pollLoop⟩])
    (hpc : pc.inShutdown = false)
    (hdormant : s.running = false → th.pc.dormant = true → s'.running = true ∨
      s'.threads = s.threads.set t { th with pc } ∧ pc.dormant = true)
    (hpending : ∀ m ∈ pc.pending, m ∈ th.pc.pending)
    (hstop : ∀ m, (s'.entry m).stop = (s.entry m).stop)
    (hmanaged : ∀ m ∈ s.managed, (s.entry m).status ≠ .completed → m ∈ s'.managed)
    (hrunning : s.running = true → s'.running = true) : Move env s t th s' := by
  obtain ⟨hunmarked, hmarked⟩ := ThreadPc.of_not_inShutdown hpc
  refine ⟨⟨pc, hthreads, fun h => ?_, hunmarked, fun h => ?_, fun m hm => .inl (hpending m hm),
    hdormant⟩, hstop, fun _ => hmanaged, hrunning⟩
  · rw [hpc] at h
    cases h
  · rw [hmarked] at h
    cases h

/-- A step of a runner that has been started, which schedules nothing. -/
lemma awake (hawake : th.pc.dormant = false)
    (hthreads : s'.threads = s.threads.set t { th with pc } ∨
      s'.threads = s.threads.set t { th with pc } ++ [⟨true, .pollLoop⟩])
    (hpc : pc.inShutdown = false) (hpending : ∀ m ∈ pc.pending, m ∈ th.pc.pending)
    (hentry : s'.entry = s.entry) (hmanaged : s'.managed = s.managed)
    (hrunning : s'.running = s.running) : Move env s t th s' := by
  refine .outside hthreads hpc (fun _ h => ?_) hpending (fun m => ?_) (fun m hm _ => ?_) fun h => ?_
  · rw [hawake] at h
    cases h
  · rw [hentry]
  · rwa [hmanaged]
  · rwa [hrunning]

/-- A step of `Shutdown` after the marking. -/
lemma shutdown (hawake : th.pc.dormant = false) (hin : th.pc.inShutdown = true)
    (hthreads : s'.threads = s.threads.set t { th with pc }) (hunmarked : pc.unmarked = false)
    (hmarked : pc.marked = true → th.pc.marked = true) (hpending : pc.pending = [])
    (hentry : s'.entry = s.entry) (hrunning : s'.running = s.running) : Move env s t th s' := by
  refine ⟨⟨pc, .inl hthreads, fun _ => hin, hunmarked, hmarked, fun m hm => ?_, fun _ h => ?_⟩,
    fun m => ?_, fun h => ?_, fun h => ?_⟩
  · rw [hpending] at hm
    exact absurd hm List.not_mem_nil
  · rw [hawake] at h
    cases h
  · rw [hentry]
  · rw [hin] at h
    cases h
  · rwa [hrunning]

end Move

/-- **What the locked block of `Pass` schedules**: the entries of `managed_` that are not
`Completed` and not marked, and whose task is enabled. -/
lemma State.mem_toSchedule_iff {env : Env} {s : State} {l : List ℕ}
    (hl : (s.collected env).toSchedule = some l) {m : ℕ} :
    m ∈ l ↔ m ∈ s.managed ∧ (s.entry m).status ≠ .completed ∧ (s.entry m).scheduled = false ∧
      env.enabled m = true := by
  have henabled : env.enabled m = true ↔
      ∃ cfg, env.config m = some cfg ∧ cfg.periodicityMs ≠ -1 := by
    simp [Env.enabled, Option.any_eq_true]
  rw [henabled, ← Managed.token_eq_zero, ← and_assoc, ← State.mem_retained]
  exact ⟨mem_toSchedule hl, fun ⟨hm, hzero, cfg, hcfg, hne⟩ =>
    mem_toSchedule_of_enabled hl hm hzero hcfg hne⟩

/-- The locked block of `Pass`. What is then waiting in the thread at `pc` has been scheduled. -/
lemma move_of_collect {env : Env} {s : State} {t : ℕ} {poll : Bool} {pc : ThreadPc}
    (hpc : pc.inShutdown = false)
    (hpending : ∀ m ∈ pc.pending, ∃ l, (s.collected env).toSchedule = some l ∧ m ∈ l) :
    Move env s t ⟨poll, .collect⟩ ((s.afterCollect env).goto t ⟨poll, .collect⟩ pc) := by
  obtain ⟨hunmarked, hmarked⟩ := ThreadPc.of_not_inShutdown hpc
  refine ⟨⟨pc, .inl rfl, fun h => ?_, hunmarked, fun h => ?_, fun m hm => .inr ?_,
    fun _ hdormant => by cases hdormant⟩, s.stop_collected env,
    fun _ m hm hstatus => State.mem_retained.mpr ⟨hm, hstatus⟩, id⟩
  · rw [hpc] at h
    cases h
  · rw [hmarked] at h
    cases h
  · obtain ⟨l, hl, hm⟩ := hpending m hm
    have hanswers : s.Answers env := by
      rcases s.collected_cases env with ⟨-, -, hanswers, -⟩ | ⟨hnone, -⟩
      · exact hanswers
      · cases hl.symm.trans hnone
    exact ⟨rfl, hanswers, (State.mem_toSchedule_iff hl).mp hm⟩

/-- **What a client or poll thread does**, unless it is in `Shutdown` before the marking.

**Proof sketch.** By cases on how the step goes. The entries that are newly waiting come from the
locked block of `Pass`; of a runner that was never started, a thread only leaves the places
outside `Pass` by the exchange of `Start`. -/
theorem move_of_threadStep {env : Env} {s s' : State} {t : ℕ} {th : Thread} (hs : Scheduled s)
    (hunmarked : th.pc.unmarked = false) (h : ThreadStep env s t th s') : Move env s t th s' := by
  cases h with
  | push =>
    rw [hs.update_made]
    exact .outside (.inl rfl) rfl (fun _ _ => .inr ⟨rfl, rfl⟩) (fun _ hm => hm) (fun _ => rfl)
      (fun m hm _ => List.mem_append_left _ hm) id
  | readRunning =>
    refine .outside (.inl rfl) ?_ (fun hstopped _ => .inr ⟨rfl, ?_⟩) ?_ (fun _ => rfl)
      (fun _ hm _ => hm) id
    · split <;> rfl
    · rw [hstopped]
      rfl
    · split <;> exact fun _ hm => hm
  | exchange =>
    refine .outside (.inl rfl) ?_ (fun _ _ => .inl rfl) ?_ (fun _ => rfl) (fun _ hm _ => hm)
      fun _ => rfl
    · split <;> rfl
    · split <;> exact fun _ hm => hm
  | spawnPoll => exact .awake rfl (.inr rfl) rfl (fun _ hm => hm) rfl rfl rfl
  | pollLoop | pollWait =>
    refine .awake rfl (.inl rfl) ?_ ?_ rfl rfl rfl
    · split <;> rfl
    · split <;> exact fun _ hm => hm
  | collect hl => exact move_of_collect rfl fun m hm => ⟨_, hl, hm⟩
  | collectThrows => exact move_of_collect rfl fun m hm => absurd hm List.not_mem_nil
  | @configDone poll =>
    refine .awake rfl (.inl rfl) ?_ ?_ rfl rfl rfl
    · cases poll <;> rfl
    · cases poll <;> exact fun _ hm => hm
  | spawnPollThrows | config | fetchAdd =>
    exact .awake rfl (.inl rfl) rfl (fun _ hm => hm) rfl rfl rfl
  | configThrows | spawnThrows =>
    exact .awake rfl (.inl rfl) rfl (fun _ hm => absurd hm List.not_mem_nil) rfl rfl rfl
  | @spawn _ m =>
    exact .awake rfl (.inl rfl) rfl (fun _ hm => List.mem_cons_of_mem m hm) rfl rfl rfl
  | stop | storeStop => cases hunmarked
  | notifyPoll | join | waitAgain => exact .shutdown rfl rfl rfl rfl id rfl rfl rfl
  | waitEnds => exact .shutdown rfl rfl rfl rfl (fun _ => rfl) rfl rfl rfl
  | @clear poll last =>
    refine .shutdown rfl rfl rfl ?_ ?_ ?_ rfl rfl
    · cases last <;> rfl
    · cases last <;> exact id
    · cases last <;> rfl

/-- A call other than that of `Shutdown`. -/
lemma move_of_call {env : Env} {s : State} {t : ℕ} {c : Call}
    (hc : c ≠ .shutdown ∧ c ≠ .destroy) :
    Move env s t ⟨false, .idle⟩ (s.goto t ⟨false, .idle⟩ c.pc) := by
  have hpc : c.pc.dormant = true ∧ c.pc.inShutdown = false ∧ c.pc.pending = [] := by
    cases c with
    | shutdown => exact absurd rfl hc.1
    | destroy => exact absurd rfl hc.2
    | addTask | poke | start => exact ⟨rfl, rfl, rfl⟩
  obtain ⟨hdormant, hshutdown, hpending⟩ := hpc
  refine .outside (.inl rfl) hshutdown (fun _ _ => .inr ⟨rfl, hdormant⟩) (fun m hm => ?_)
    (fun _ => rfl) (fun _ hm _ => hm) id
  rwa [hpending] at hm

/-- What a worker leaves alone; it takes no step when it is done. -/
lemma stop_of_stepWorker {s s' : State} {w : ℕ} {wk : Worker} {env : Env}
    (h : s.stepWorker w wk env = some s') :
    (∀ m, (s'.entry m).stop = (s.entry m).stop) ∧ s'.running = s.running ∧
      s'.pollThread = s.pollThread ∧ wk.pc ≠ .done := by
  have hset : ∀ status m, (setStatus s.entry wk.entry status m).stop = (s.entry m).stop := by
    intro status m
    by_cases hm : m = wk.entry
    · subst hm
      rw [setStatus_self]
    · rw [setStatus_of_ne _ hm]
  obtain ⟨m, cfg, pc⟩ := wk
  cases pc with
  | lock =>
    simp only [State.stepWorker] at h
    split at h
    · cases h
      exact ⟨fun _ => rfl, rfl, rfl, by simp⟩
    · cases h
  | done => cases h
  | storeRunning | storeReady | storeCompleted =>
    cases h
    exact ⟨hset _, rfl, rfl, by simp⟩
  | start | delay | loadStop | shouldStop | onStop | execute | executing | sleep | fetchSub | notify
  | unlock =>
    cases h
    exact ⟨fun _ => rfl, rfl, rfl, by simp⟩

/-! ## The invariants -/

/-- The entries that are waiting in a `Pass` are in `managed_`. -/
def Kept (s : State) : Prop :=
  ∀ (t : ℕ) (th : Thread), s.threads[t]? = some th → ∀ m ∈ th.pc.pending, m ∈ s.managed

/-- No entry has been told to stop. -/
def Unstopped (s : State) : Prop := ∀ m, (s.entry m).stop = false

/-- The runner has never been started. -/
structure Quiet (s : State) : Prop where
  workers : s.workers = []
  threads : ∀ (t : ℕ) (th : Thread), s.threads[t]? = some th → th.pc.dormant = true

/-- The invariant before `Shutdown` clears `running_`. -/
structure Before (s : State) : Prop where
  started : s.running = true ∨ Quiet s
  kept : Kept s
  unstopped : Unstopped s

/-- The invariant after the marking: the live workers, and the entries that will be given one, have
`stop`. -/
structure Marked (s : State) : Prop where
  workers : ∀ wk ∈ s.workers, wk.pc ≠ .done → (s.entry wk.entry).stop = true
  pending : ∀ (t : ℕ) (th : Thread), s.threads[t]? = some th →
    ∀ m ∈ th.pc.pending, (s.entry m).stop = true

/-- A thread of a runner that was never started has no entry waiting. -/
lemma ThreadPc.pending_of_dormant {pc : ThreadPc} (h : pc.dormant = true) : pc.pending = [] := by
  cases pc with
  | config | fetchAdd | spawn => cases h
  | _ => rfl

section Move

variable {env : Env} {s s' : State} {t : ℕ} {th : Thread} {L : List Event}

/-- What holds of every thread, where thread `t` has moved. -/
lemma forall_threads {P : ℕ → Thread → Prop} {pc : ThreadPc}
    (h : ∀ t' th', s.threads[t']? = some th' → P t' th')
    (hthreads : s'.threads = s.threads.set t { th with pc } ∨
      s'.threads = s.threads.set t { th with pc } ++ [⟨true, .pollLoop⟩])
    (hpc : P t { th with pc }) (hpoll : ∀ t', P t' ⟨true, .pollLoop⟩) :
    ∀ t' th', s'.threads[t']? = some th' → P t' th' := by
  have hset := Pool.forall_set (fun t' th' ht' _ => h t' th' ht') hpc
  rcases hthreads with heq | heq
  · rw [heq]
    exact hset
  · rw [heq]
    exact Pool.forall_concat hset (hpoll _)

/-- A waiting entry stays in `managed_`, since it is not `Completed`. -/
lemma Kept.of_move (h : Kept s) (hobserved : Observed L s) (ht : s.threads[t]? = some th)
    (hmove : Move env s t th s') (hpc : th.pc.inShutdown = false) : Kept s' := by
  obtain ⟨pc, hthreads, -, -, -, hpending, -⟩ := hmove.threads
  have hstays : ∀ (t' : ℕ) (th' : Thread), s.threads[t']? = some th' →
      ∀ m ∈ th'.pc.pending, m ∈ s'.managed := by
    intro t' th' ht' m hm
    have hgiven := hobserved.scheduled.given_eq_zero ht' hm
    exact hmove.managed hpc m (h t' th' ht' m hm) (hobserved.unseen m hgiven).1
  refine forall_threads hstays hthreads (fun m hm => ?_) fun _ _ hm => absurd hm List.not_mem_nil
  rcases hpending m hm with hm | ⟨-, -, hmanaged, hstatus, -⟩
  · exact hstays t th ht m hm
  · exact hmove.managed hpc m hmanaged hstatus

/-- Only the marking sets `stop`. -/
lemma Unstopped.of_move (h : Unstopped s) (hmove : Move env s t th s') : Unstopped s' :=
  fun m => (hmove.stop m).trans (h m)

/-- A thread outside `Shutdown` keeps the invariant. -/
lemma Before.of_move (h : Before s) (hobserved : Observed L s) (ht : s.threads[t]? = some th)
    (hmove : Move env s t th s') (heffect : Effect env s t th s')
    (hpc : th.pc.inShutdown = false) : Before s' := by
  refine ⟨?_, h.kept.of_move hobserved ht hmove hpc, h.unstopped.of_move hmove⟩
  rcases h.started with hrunning | hquiet
  · exact .inl (hmove.running hrunning)
  · cases hrunning : s.running with
    | true => exact .inl (hmove.running hrunning)
    | false =>
      obtain ⟨pc, -, -, -, -, -, hdormant⟩ := hmove.threads
      have hth := hquiet.threads t th ht
      refine (hdormant hrunning hth).imp id fun ⟨hthreads, hnext⟩ => ⟨?_, ?_⟩
      · rcases heffect.workers with hworkers | ⟨m, hm, -⟩
        · rw [hworkers, hquiet.workers]
        · rw [ThreadPc.pending_of_dormant hth] at hm
          exact absurd hm List.not_mem_nil
      · rw [hthreads]
        exact Pool.forall_set (fun t' th' ht' _ => hquiet.threads t' th' ht') hnext

/-- A thread keeps the invariant, if what it schedules has `stop`. -/
lemma Marked.of_move (h : Marked s) (ht : s.threads[t]? = some th) (hmove : Move env s t th s')
    (heffect : Effect env s t th s') (hlate : th.pc = .collect → s.SchedulesStopped env) :
    Marked s' := by
  obtain ⟨pc, hthreads, -, -, -, hpending, -⟩ := hmove.threads
  refine ⟨fun wk hwk hlive => ?_, ?_⟩
  · rw [hmove.stop]
    rcases heffect.workers with hworkers | ⟨m, hm, cfg, -, hworkers⟩
    · exact h.workers wk (hworkers ▸ hwk) hlive
    · rw [hworkers] at hwk
      rcases List.mem_append.mp hwk with hwk | hwk
      · exact h.workers wk hwk hlive
      · rw [List.mem_singleton.mp hwk]
        exact h.pending t th ht m hm
  · refine forall_threads (fun t' th' ht' m hm => ?_) hthreads (fun m hm => ?_)
      fun _ _ hm => absurd hm List.not_mem_nil
    · rw [hmove.stop]
      exact h.pending t' th' ht' m hm
    · rw [hmove.stop]
      rcases hpending m hm with hm | ⟨hcollect, hanswers, hmanaged, hstatus, hmark, henabled⟩
      · exact h.pending t th ht m hm
      · exact hlate hcollect hanswers m hmanaged hstatus hmark henabled

/-- No thread gets past the marking without marking. -/
lemma State.AfterMarking.of_move (h : s'.AfterMarking) (ht : s.threads[t]? = some th)
    (hmove : Move env s t th s') : s.AfterMarking := by
  by_contra hnot
  have hnone : ∀ (t' : ℕ) (th' : Thread), s.threads[t']? = some th' → th'.pc.marked ≠ true :=
    fun t' th' ht' hmarked => hnot ⟨th', List.mem_of_getElem? ht', hmarked⟩
  obtain ⟨pc, hthreads, -, -, hmarked, -⟩ := hmove.threads
  have hnone' := forall_threads hnone hthreads (fun hpc => hnone t th ht (hmarked hpc))
    fun _ => Bool.false_ne_true
  obtain ⟨th', hth', hmarked'⟩ := h
  obtain ⟨t', ht'⟩ := List.mem_iff_getElem?.mp hth'
  exact hnone' t' th' ht' hmarked'

end Move

/-- A worker keeps the invariant after the marking. -/
lemma Marked.of_stepWorker {s s' : State} {w : ℕ} {wk : Worker} {env : Env} (h : Marked s)
    (hw : s.workers[w]? = some wk) (hstep : s.stepWorker w wk env = some s') : Marked s' := by
  obtain ⟨hstop, -, -, hlive⟩ := stop_of_stepWorker hstep
  obtain ⟨⟨pc, hworkers, -⟩, hthreads, -⟩ := effect_of_stepWorker hstep
  refine ⟨fun wk' hwk' hlive' => ?_, fun t th ht m hm => ?_⟩
  · rw [hstop]
    rw [hworkers] at hwk'
    rcases List.mem_or_eq_of_mem_set hwk' with hmem | rfl
    · exact h.workers wk' hmem hlive'
    · exact h.workers wk (List.mem_of_getElem? hw) hlive
  · rw [hstop]
    exact h.pending t th (hthreads ▸ ht) m hm

/-! ## One call of `Shutdown` -/

/-- How far the one call of `Shutdown` has come, of which there have been `k` so far. -/
inductive Phase : ℕ → State → Prop
  | before {s : State}
      (outside : ∀ (t : ℕ) (th : Thread), s.threads[t]? = some th → th.pc.inShutdown = false)
      (h : Before s) : Phase 0 s
  | called {s : State} {t : ℕ} {last : Bool}
      (client : s.threads[t]? = some ⟨false, .shutdown last .exchange⟩)
      (others : ∀ (t' : ℕ) (th : Thread), s.threads[t']? = some th → t' ≠ t →
        th.pc.inShutdown = false)
      (h : Before s) : Phase 1 s
  | exchanged {s : State} {t : ℕ} {last : Bool}
      (client : s.threads[t]? = some ⟨false, .shutdown last .storeStop⟩)
      (others : ∀ (t' : ℕ) (th : Thread), s.threads[t']? = some th → t' ≠ t →
        th.pc.inShutdown = false)
      (h : Kept s) (unstopped : Unstopped s) : Phase 1 s
  | marked {s : State}
      (passed : ∀ (t : ℕ) (th : Thread), s.threads[t]? = some th → th.pc.unmarked = false)
      (h : s.AfterMarking → Marked s) : Phase 1 s

namespace Phase

variable {k : ℕ} {s s' : State} {t : ℕ} {th : Thread} {env : Env} {L : List Event}

/-- The client is the only thread in `Shutdown`. -/
lemma eq_client {t₀ : ℕ} {th₀ : Thread} (client : s.threads[t₀]? = some th₀)
    (others : ∀ (t' : ℕ) (th' : Thread), s.threads[t']? = some th' → t' ≠ t₀ →
      th'.pc.inShutdown = false)
    (ht : s.threads[t]? = some th) (hin : th.pc.inShutdown = true) : t = t₀ ∧ th = th₀ := by
  by_cases hne : t = t₀
  · subst hne
    exact ⟨rfl, Option.some.inj (ht.symm.trans client)⟩
  · rw [others t th ht hne] at hin
    cases hin

/-- A thread that is not before the marking is not a client that is. -/
lemma ne_client {t₀ : ℕ} {th₀ : Thread} (client : s.threads[t₀]? = some th₀)
    (hclient : th₀.pc.unmarked = true) (ht : s.threads[t]? = some th)
    (hunmarked : th.pc.unmarked = false) : t ≠ t₀ := by
  rintro rfl
  obtain rfl := Option.some.inj (client.symm.trans ht)
  rw [hclient] at hunmarked
  cases hunmarked

/-- The others stay outside `Shutdown` when one of them moves. -/
lemma others_of_move {t₀ : ℕ} {th₀ : Thread} (client : s.threads[t₀]? = some th₀)
    (others : ∀ (t' : ℕ) (th' : Thread), s.threads[t']? = some th' → t' ≠ t₀ →
      th'.pc.inShutdown = false)
    (hne : t ≠ t₀) (ht : s.threads[t]? = some th) (hmove : Move env s t th s') :
    s'.threads[t₀]? = some th₀ ∧ ∀ (t' : ℕ) (th' : Thread), s'.threads[t']? = some th' → t' ≠ t₀ →
      th'.pc.inShutdown = false := by
  obtain ⟨pc, hthreads, hshutdown, -⟩ := hmove.threads
  have hpc : pc.inShutdown = false := by
    cases hpc : pc.inShutdown with
    | false => rfl
    | true => exact (hshutdown hpc).symm.trans (others t th ht hne)
  refine ⟨?_, forall_threads others hthreads (fun _ => hpc) fun _ _ => rfl⟩
  have hclient : (s.threads.set t { th with pc })[t₀]? = some th₀ := by
    rw [List.getElem?_set_ne hne]
    exact client
  rcases hthreads with heq | heq
  · rw [heq]
    exact hclient
  · obtain ⟨hlt, -⟩ := List.getElem?_eq_some_iff.mp hclient
    rw [heq, List.getElem?_append_left hlt]
    exact hclient

/-- A thread moves that is not in `Shutdown` before the marking. -/
lemma of_move (h : Phase k s) (hobserved : Observed L s) (ht : s.threads[t]? = some th)
    (hunmarked : th.pc.unmarked = false) (hmove : Move env s t th s')
    (heffect : Effect env s t th s')
    (hlate : th.pc = .collect → s.AfterMarking → s.SchedulesStopped env) : Phase k s' := by
  cases h with
  | before outside h =>
    have hpc := outside t th ht
    obtain ⟨pc, hthreads, hshutdown, -⟩ := hmove.threads
    refine .before (forall_threads outside hthreads ?_ fun _ => rfl)
      (h.of_move hobserved ht hmove heffect hpc)
    cases hnext : pc.inShutdown with
    | false => rfl
    | true => exact (hshutdown hnext).symm.trans hpc
  | called client others h =>
    have hne := ne_client client rfl ht hunmarked
    obtain ⟨client', others'⟩ := others_of_move client others hne ht hmove
    exact .called client' others' (h.of_move hobserved ht hmove heffect (others t th ht hne))
  | exchanged client others h unstopped =>
    have hne := ne_client client rfl ht hunmarked
    obtain ⟨client', others'⟩ := others_of_move client others hne ht hmove
    exact .exchanged client' others' (h.of_move hobserved ht hmove (others t th ht hne))
      (unstopped.of_move hmove)
  | marked passed h =>
    obtain ⟨pc, hthreads, -, hnext, -⟩ := hmove.threads
    refine .marked (forall_threads passed hthreads hnext fun _ => rfl) fun hafter => ?_
    have hbefore := hafter.of_move ht hmove
    exact (h hbefore).of_move ht hmove heffect fun hcollect => hlate hcollect hbefore

/-- A worker moves. -/
lemma of_stepWorker {w : ℕ} {wk : Worker} (h : Phase k s) (hw : s.workers[w]? = some wk)
    (hstep : s.stepWorker w wk env = some s') : Phase k s' := by
  obtain ⟨hstop, hrunning, -⟩ := stop_of_stepWorker hstep
  obtain ⟨-, hthreads, -, -, -, hmanaged⟩ := effect_of_stepWorker hstep
  have hunstopped : Unstopped s → Unstopped s' := fun h m => (hstop m).trans (h m)
  have hkept : Kept s → Kept s' := fun h t th ht m hm => by
    rw [hmanaged]
    exact h t th (hthreads ▸ ht) m hm
  have hbefore : Before s → Before s' := by
    rintro ⟨hstarted | hquiet, h, unstopped⟩
    · exact ⟨.inl (hrunning.trans hstarted), hkept h, hunstopped unstopped⟩
    · rw [hquiet.workers] at hw
      cases hw
  cases h with
  | before outside h => exact .before (hthreads ▸ outside) (hbefore h)
  | called client others h => exact .called (hthreads ▸ client) (hthreads ▸ others) (hbefore h)
  | exchanged client others h unstopped =>
    exact .exchanged (hthreads ▸ client) (hthreads ▸ others) (hkept h) (hunstopped unstopped)
  | marked passed h =>
    refine .marked (hthreads ▸ passed) fun hafter => ?_
    rw [State.AfterMarking, hthreads] at hafter
    exact (h hafter).of_stepWorker hw hstep

/-- **`Shutdown` clears `running_`**, and goes on to the marking if the runner was running. If it
was not, it has never been started. -/
theorem exchange {last : Bool} (client : s.threads[t]? = some ⟨false, .shutdown last .exchange⟩)
    (others : ∀ (t' : ℕ) (th' : Thread), s.threads[t']? = some th' → t' ≠ t →
      th'.pc.inShutdown = false)
    (h : Before s)
    (hstep : ThreadStep env s t ⟨false, .shutdown last .exchange⟩ s') : Phase 1 s' := by
  obtain ⟨hlt, -⟩ := List.getElem?_eq_some_iff.mp client
  cases hstep
  cases hrunning : s.running with
  | true =>
    rw [if_pos rfl]
    refine .exchanged (List.getElem?_set_self hlt) (Pool.forall_set ?_ fun hne => absurd rfl hne)
      (Pool.forall_set ?_ fun _ hm => absurd hm List.not_mem_nil) h.unstopped
    · exact fun t' th' ht' hne _ => others t' th' ht' hne
    · exact fun t' th' ht' _ => h.kept t' th' ht'
  | false =>
    have hquiet := h.started.resolve_left (by rw [hrunning]; exact Bool.false_ne_true)
    rw [if_neg Bool.false_ne_true]
    refine .marked (Pool.forall_set ?_ rfl) fun _ =>
      ⟨fun wk hwk => ?_, Pool.forall_set ?_ fun _ hm => absurd hm List.not_mem_nil⟩
    · exact fun t' th' ht' hne => (ThreadPc.of_not_inShutdown (others t' th' ht' hne)).1
    · have hnone : wk ∈ s.workers := hwk
      rw [hquiet.workers] at hnone
      cases hnone
    · intro t' th' ht' _ m hm
      rw [ThreadPc.pending_of_dormant (hquiet.threads t' th' ht')] at hm
      exact absurd hm List.not_mem_nil

/-- **`Shutdown` marks the entries**: those of the live workers, if all are in `managed_`, and those
that are waiting in a `Pass`. -/
theorem storeStop {last : Bool}
    (others : ∀ (t' : ℕ) (th' : Thread), s.threads[t']? = some th' → t' ≠ t →
      th'.pc.inShutdown = false)
    (h : Kept s) (hlate : ∀ wk ∈ s.workers, wk.pc ≠ .done → wk.entry ∈ s.managed)
    (hstep : ThreadStep env s t ⟨false, .shutdown last .storeStop⟩ s') : Phase 1 s' := by
  cases hstep
  refine .marked (Pool.forall_set ?_ rfl) fun _ =>
    ⟨fun wk hwk hlive => ?_, Pool.forall_set ?_ fun _ hm => absurd hm List.not_mem_nil⟩
  · exact fun t' th' ht' hne => (ThreadPc.of_not_inShutdown (others t' th' ht' hne)).1
  · exact stop_storeStop s.entry (hlate wk hwk hlive)
  · exact fun t' th' ht' _ m hm => stop_storeStop s.entry (h t' th' ht' m hm)

/-- `Shutdown` is called. -/
lemma call {c : Call} (h : Phase 0 s) (hc : c = .shutdown ∨ c = .destroy)
    (ht : s.threads[t]? = some ⟨false, .idle⟩) : Phase 1 (s.goto t ⟨false, .idle⟩ c.pc) := by
  obtain ⟨last, hpc⟩ : ∃ last, c.pc = .shutdown last .exchange := by
    rcases hc with rfl | rfl
    · exact ⟨false, rfl⟩
    · exact ⟨true, rfl⟩
  obtain ⟨hlt, -⟩ := List.getElem?_eq_some_iff.mp ht
  rw [hpc]
  cases h with
  | before outside h =>
    refine .called (List.getElem?_set_self hlt) (Pool.forall_set ?_ fun hne => absurd rfl hne)
      ⟨h.started.imp id fun hquiet => ⟨hquiet.workers, Pool.forall_set ?_ rfl⟩,
        Pool.forall_set ?_ fun _ hm => absurd hm List.not_mem_nil, h.unstopped⟩
    · exact fun t' th' ht' _ _ => outside t' th' ht'
    · exact fun t' th' ht' _ => hquiet.threads t' th' ht'
    · exact fun t' th' ht' _ => h.kept t' th' ht'

/-- The step of a thread. -/
lemma of_threadStep (h : Phase k s) (hobserved : Observed L s) (ht : s.threads[t]? = some th)
    (hlate : th.pc.StopsAll s env) (hstep : ThreadStep env s t th s') : Phase k s' := by
  cases hunmarked : th.pc.unmarked with
  | false =>
    have hscheduled := hobserved.scheduled
    refine h.of_move hobserved ht hunmarked (move_of_threadStep hscheduled hunmarked hstep)
      (effect_of_threadStep hscheduled hstep) fun hcollect => ?_
    rw [hcollect] at hlate
    exact hlate
  | true =>
    have hin : th.pc.inShutdown = true := by
      cases hpc : th.pc with
      | shutdown => rfl
      | _ => rw [hpc] at hunmarked; cases hunmarked
    cases h with
    | before outside h =>
      rw [outside t th ht] at hin
      cases hin
    | called client others h =>
      obtain ⟨rfl, rfl⟩ := eq_client client others ht hin
      exact exchange client others h hstep
    | exchanged client others h =>
      obtain ⟨rfl, rfl⟩ := eq_client client others ht hin
      exact storeStop others h hlate hstep
    | marked passed h =>
      rw [passed t th ht] at hunmarked
      cases hunmarked

/-- The invariant holds at the start. -/
lemma init (n : ℕ) : Phase 0 (.init n) := by
  have hidle : ∀ (t : ℕ) (th : Thread), (State.init n).threads[t]? = some th →
      th = ⟨false, .idle⟩ := fun t th ht => List.eq_of_mem_replicate (List.mem_of_getElem? ht)
  refine .before (fun t th ht => ?_)
    ⟨.inr ⟨rfl, fun t th ht => ?_⟩, fun t th ht m hm => ?_, fun _ => rfl⟩
  · rw [hidle t th ht]
    rfl
  · rw [hidle t th ht]
    rfl
  · rw [hidle t th ht] at hm
    exact absurd hm List.not_mem_nil

/-- **Every step** keeps the invariant, if it leaves no late entry and there is only one call of
`Shutdown`. -/
theorem step {a : Action} (h : Phase k s) (hobserved : Observed L s) (hlate : NoLateEntry s a)
    (hone : k + [a].countP Action.isShutdown ≤ 1) (hstep : step s a = some s') :
    Phase (k + [a].countP Action.isShutdown) s' := by
  rcases step_cases hstep with ⟨t, c, rfl, ht, rfl⟩ | ⟨t, env, th, rfl, ht, hth⟩ |
    ⟨w, env, wk, rfl, hw, hwk⟩
  · by_cases hc : c = .shutdown ∨ c = .destroy
    · have hcount : [Action.call t c].countP Action.isShutdown = 1 := by
        rcases hc with rfl | rfl <;> rfl
      obtain rfl : k = 0 := by omega
      rw [hcount]
      exact h.call hc ht
    · have hcount : [Action.call t c].countP Action.isShutdown = 0 := by
        cases c with
        | shutdown | destroy => simp at hc
        | addTask | poke | start => rfl
      rw [hcount]
      exact h.of_move hobserved ht rfl (move_of_call (not_or.mp hc))
        (hobserved.scheduled.effect_of_call c) fun hcollect => by cases hcollect
  · rw [NoLateEntry, ht, Option.elim_some] at hlate
    exact h.of_threadStep hobserved ht hlate hth
  · exact h.of_stepWorker hw hwk

/-- **The invariant holds throughout every run** with one call of `Shutdown` and without late
entries. -/
theorem exec (n : ℕ) (as : List Action) (s : State)
    (h : Transition.exec TaskRunner.step (.init n) as = some s)
    (hone : as.countP Action.isShutdown ≤ 1)
    (hmeets : Transition.Meets TaskRunner.step NoLateEntry (.init n) as) :
    Phase (as.countP Action.isShutdown) s := by
  refine Transition.exec_induction
    (I := fun as s => as.countP Action.isShutdown ≤ 1 →
      Transition.Meets TaskRunner.step NoLateEntry (.init n) as →
        Phase (as.countP Action.isShutdown) s)
    (fun _ _ => init n) (fun as s a s' hs hI hstep hone hmeets => ?_) as s h hone hmeets
  rw [List.countP_append] at hone ⊢
  obtain ⟨hmeets, hlate⟩ := (Transition.meets_concat_iff hs).mp hmeets
  exact (hI (by omega) hmeets).step (Observed.exec n as s hs) hlate hone hstep

end Phase

/-! ## Main results -/

/-- **Without late entries, `Shutdown` waits for stopped workers only**: in every run with any
number of calls of `AddTask`, `Poke` and `Start` and one of `Shutdown` or the destructor, in which
the marking reaches all live workers and no `Pass` schedules an entry without `stop` after it, when
`Shutdown` has joined the poll thread and waits, every worker that is still alive has `stop`, and
leaves its loop when it next reads it.

**Proof sketch.** An entry that is waiting in a `Pass` is in `managed_` (`Kept`), since it is not
`Completed`; so the marking reaches it (`Phase.storeStop`). After it, a `Pass` gives a worker only
to entries that were waiting or have `stop` (`Marked.of_move`). -/
theorem shutdown_stops (n : ℕ) (as : List Action) (s : State)
    (h : Transition.exec step (.init n) as = some s) (hone : as.countP Action.isShutdown ≤ 1)
    (hmeets : Transition.Meets step NoLateEntry (.init n) as) (t : ℕ) (last : Bool)
    (hwait : s.threads[t]? = some (⟨false, .shutdown last .wait⟩ : Thread)) :
    ∀ (w : ℕ) (wk : Worker), s.workers[w]? = some wk → wk.pc ≠ .done →
      (s.entry wk.entry).stop = true ∧
        (wk.pc = .loadStop → ∀ env, step s (.worker w env) = some (s.gotoWorker w wk .onStop)) := by
  intro w wk hw hlive
  have hphase := Phase.exec n as s h hone hmeets
  generalize as.countP Action.isShutdown = k at hphase
  have hmarked : Marked s := by
    cases hphase with
    | before outside => cases outside t _ hwait
    | called client others => cases (Phase.eq_client client others hwait rfl).2
    | exchanged client others => cases (Phase.eq_client client others hwait rfl).2
    | marked passed hafter => exact hafter ⟨_, List.mem_of_getElem? hwait, rfl⟩
  have hstop := hmarked.workers wk (List.mem_of_getElem? hw) hlive
  refine ⟨hstop, fun hpc env => ?_⟩
  simp only [step, hw, Option.bind_some, State.stepWorker, hpc, hstop, if_true]

/-- A run: the client starts a runner with a periodic task, whose worker is in its loop when the
client calls `Shutdown`, joins the poll thread, and waits. -/
def periodicShutdown : List Action :=
  let env : Env := { config := fun _ => some { periodicityMs := 10 } }
  [.call 0 .addTask, .thread 0 env, .thread 0 env, .call 0 .start] ++
    List.replicate 7 (.thread 0 env) ++ [.worker 0 env, .call 0 .shutdown] ++
    List.replicate 3 (.thread 0 env) ++ [.thread 1 env, .thread 0 env]

/-- `shutdown_stops` for a periodic task. -/
theorem shutdown_stops_periodic :
    ∃ s, Transition.exec step (.init 1) periodicShutdown = some s ∧ ∃ wk ∈ s.workers,
      wk.pc = .loadStop ∧ (s.entry wk.entry).stop = true := by
  obtain ⟨s, hs, hthread, hworker⟩ : ∃ s, Transition.exec step (.init 1) periodicShutdown = some s ∧
      s.threads[0]? = some (⟨false, .shutdown false .wait⟩ : Thread) ∧
      s.workers[0]? = some (⟨0, { periodicityMs := 10 }, .loadStop⟩ : Worker) := ⟨_, rfl, rfl, rfl⟩
  obtain ⟨hstop, -⟩ := shutdown_stops 1 periodicShutdown s hs (by decide) (by decide) 0 false
    hthread 0 _ hworker (by decide)
  exact ⟨s, hs, _, List.mem_of_getElem? hworker, rfl, hstop⟩

/-- A run: the poll thread has read `running_` and is about to enter its locked block, `Shutdown`
marks the entries, a client pushes a periodic task, and the poll thread schedules it and ends. -/
def lateEntry : List Action :=
  let env : Env := { config := fun _ => some { periodicityMs := 10 } }
  [.call 0 .start] ++ List.replicate 4 (.thread 0 env) ++ List.replicate 2 (.thread 2 env) ++
    [.call 0 .shutdown] ++ List.replicate 3 (.thread 0 env) ++
    [.call 1 .addTask, .thread 1 env, .thread 1 env] ++ List.replicate 6 (.thread 2 env) ++
    [.thread 0 env]

/-- **An entry that is pushed after the marking may get a worker that is not told to stop.** -/
theorem late_entry :
    ¬ ∀ (n : ℕ) (as : List Action) (s : State), Transition.exec step (.init n) as = some s →
      as.countP Action.isShutdown ≤ 1 →
      ∀ (t : ℕ) (last : Bool), s.threads[t]? = some (⟨false, .shutdown last .wait⟩ : Thread) →
        ∀ wk ∈ s.workers, wk.pc ≠ .done → (s.entry wk.entry).stop = true := by
  intro hclaim
  obtain ⟨s, hs, hthread, hworker, hstop⟩ : ∃ s,
      Transition.exec step (.init 2) lateEntry = some s ∧
      s.threads[0]? = some (⟨false, .shutdown false .wait⟩ : Thread) ∧
      s.workers[0]? = some (⟨0, { periodicityMs := 10 }, .start⟩ : Worker) ∧
      (s.entry 0).stop = false := ⟨_, rfl, rfl, rfl, rfl⟩
  have htold := hclaim 2 lateEntry s hs (by decide) 0 false hthread _
    (List.mem_of_getElem? hworker) (by decide)
  rw [hstop] at htold
  cases htold

end TaskRunner

end RaCommon
