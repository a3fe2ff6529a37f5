import RaCommon.Tasks.ThreadStep

set_option relaxedAutoImplicit false
set_option autoImplicit false

/-!
# At most one worker for an entry (`tasks/task_runner.hpp`)

Several threads may run `Pass` at once over the same entries, while workers change their status.
An entry that is going to be scheduled, or has a worker, holds the one token that its mark
`scheduled` stands for. With at most one worker for an entry, what is seen of its task is what one
run of `Worker` does.

## Main definitions

* `RaCommon.TaskRunner.State.tokens` — how often an entry is waiting in a `Pass` or has a worker.
* `RaCommon.TaskRunner.Scheduled` — the invariant of the tokens.
* `RaCommon.TaskRunner.Follows` — what has been seen of the entry of a worker.

## Main results

* `RaCommon.TaskRunner.scheduled_exec` — the tokens of an entry never exceed its mark.
* `RaCommon.TaskRunner.scheduling` — one worker for an entry, and what follows for its task.
-/

namespace RaCommon

namespace TaskRunner

/-! ## Tokens -/

/-- The entries that a thread in `Pass` is going to start a worker for. -/
def ThreadPc.pending : ThreadPc → List ℕ
  | .config rest => rest
  | .fetchAdd m _ rest | .spawn m _ rest => m :: rest
  | _ => []

/-- The entry that a thread is starting a worker for, and the configuration it has got for it. -/
def ThreadPc.configured : ThreadPc → Option (ℕ × TaskConfig)
  | .fetchAdd m cfg _ | .spawn m cfg _ => some (m, cfg)
  | _ => none

namespace State

/-- How many workers entry `m` has been given. -/
def given (s : State) (m : ℕ) : ℕ :=
  Pool.total (fun wk : Worker => if wk.entry = m then 1 else 0) s.workers

/-- How often entry `m` is waiting in a `Pass`, or has been given a worker. -/
def tokens (s : State) (m : ℕ) : ℕ :=
  Pool.total (fun th : Thread => th.pc.pending.count m) s.threads + s.given m

end State

/-- The invariant: the tokens of an entry are covered by its mark, and the memory of entries that
have not been made yet is untouched. -/
structure Scheduled (s : State) : Prop where
  tokens_le : ∀ m, s.tokens m ≤ (s.entry m).token
  untouched : ∀ m, s.made ≤ m → s.entry m = {}
  managed_lt : ∀ m ∈ s.managed, m < s.made

/-- The entry that `AddTask` makes is as its memory was before. -/
lemma Scheduled.update_made {s : State} (hs : Scheduled s) :
    Function.update s.entry s.made {} = s.entry :=
  Function.update_eq_self_iff.mpr (hs.untouched s.made (Nat.le_refl s.made)).symm

/-- What a step of thread `t`, which is `th`, can do to the entries and the workers. -/
structure Effect (env : Env) (s : State) (t : ℕ) (th : Thread) (s' : State) : Prop where
  /-- The thread goes on, perhaps with a new poll thread. Tokens are only made with marks, and a
  configuration is one that the task has answered. -/
  threads : ∃ pc, (s'.threads = s.threads.set t { th with pc } ∨
      s'.threads = s.threads.set t { th with pc } ++ [⟨true, .pollLoop⟩]) ∧
    (∀ m, pc.pending.count m + s'.given m + (s.entry m).token ≤
      th.pc.pending.count m + s.given m + (s'.entry m).token) ∧
    ∀ m cfg, pc.configured = some (m, cfg) →
      th.pc.configured = some (m, cfg) ∨ env.config m = some cfg
  /-- No status changes. -/
  status : ∀ m, (s'.entry m).status = (s.entry m).status
  /-- At most one worker is started, for an entry that was waiting. -/
  workers : s'.workers = s.workers ∨
    ∃ m ∈ th.pc.pending, ∃ cfg, th.pc.configured = some (m, cfg) ∧
      s'.workers = s.workers ++ [⟨m, cfg, .start⟩]
  untouched : ∀ m, s'.made ≤ m → s'.entry m = {}
  managed_lt : ∀ m ∈ s'.managed, m < s'.made

namespace Effect

variable {env : Env} {s s' : State} {t : ℕ} {th : Thread}

/-- A step that leaves entries and workers alone. -/
lemma quiet (hs : Scheduled s) (hentry : s'.entry = s.entry) (hworkers : s'.workers = s.workers)
    (hmade : s'.made = s.made) (hmanaged : ∀ m ∈ s'.managed, m ∈ s.managed)
    (hthreads : ∃ pc, (s'.threads = s.threads.set t { th with pc } ∨
        s'.threads = s.threads.set t { th with pc } ++ [⟨true, .pollLoop⟩]) ∧
      (∀ m, pc.pending.count m ≤ th.pc.pending.count m) ∧
      ∀ m cfg, pc.configured = some (m, cfg) →
        th.pc.configured = some (m, cfg) ∨ env.config m = some cfg) : Effect env s t th s' where
  threads := by
    obtain ⟨pc, hset, hpending, hconfigured⟩ := hthreads
    refine ⟨pc, hset, fun m => ?_, hconfigured⟩
    have := hpending m
    rw [hentry, State.given, State.given, hworkers]
    omega
  status := fun m => by rw [hentry]
  workers := .inl hworkers
  untouched := fun m hm => by
    rw [hentry]
    exact hs.untouched m (hmade ▸ hm)
  managed_lt := fun m hm => by
    rw [hmade]
    exact hs.managed_lt m (hmanaged m hm)

/-- A step to where no entry is waiting in the thread, which leaves entries and workers alone. -/
lemma move {pc : ThreadPc} (hs : Scheduled s)
    (hthreads : s'.threads = s.threads.set t { th with pc }) (hpending : pc.pending = [])
    (hconfigured : pc.configured = none) (hentry : s'.entry = s.entry)
    (hworkers : s'.workers = s.workers) (hmade : s'.made = s.made)
    (hmanaged : ∀ m ∈ s'.managed, m ∈ s.managed) : Effect env s t th s' := by
  refine .quiet hs hentry hworkers hmade hmanaged
    ⟨pc, .inl hthreads, fun m => ?_, fun m cfg hcfg => ?_⟩
  · rw [hpending]
    exact Nat.zero_le _
  · rw [hconfigured] at hcfg
    cases hcfg

end Effect

/-- Setting `stop` for all of `managed_` leaves tokens, status and workers alone. -/
lemma effect_of_storeStop {env : Env} {s : State} {t : ℕ} {th : Thread} {last : Bool}
    (hs : Scheduled s) :
    Effect env s t th ({ s with entry := storeStop s.entry s.managed }.goto t th
      (.shutdown last .notifyPoll)) := by
  refine ⟨⟨_, .inl rfl, fun m => ?_, by simp [ThreadPc.configured]⟩, fun m => ?_, .inl rfl,
    fun m hm => ?_, hs.managed_lt⟩
  · simp [ThreadPc.pending, State.goto, State.given]
  · simp [State.goto]
  · have hnot : m ∉ s.managed := fun hmem => absurd hm (Nat.not_le.mpr (hs.managed_lt m hmem))
    exact (storeStop_of_not_mem s.entry hnot).trans (hs.untouched m hm)

/-- `AddTask` pushes a new entry, whose memory was untouched. -/
lemma effect_of_push {env : Env} {s : State} {t : ℕ} {th : Thread} (hs : Scheduled s) :
    Effect env s t th ({ s with
      entry := Function.update s.entry s.made {}
      made := s.made + 1
      managed := s.managed ++ [s.made] }.goto t th .readRunning) := by
  rw [hs.update_made]
  refine ⟨⟨_, .inl rfl, fun m => ?_, by simp [ThreadPc.configured]⟩, fun _ => rfl, .inl rfl,
    fun m hm => hs.untouched m (Nat.le_of_succ_le hm), fun m hm => ?_⟩
  · simp [ThreadPc.pending, State.goto, State.given]
  · rcases List.mem_append.mp hm with hm | hm
    · exact Nat.lt_succ_of_lt (hs.managed_lt m hm)
    · rw [List.mem_singleton.mp hm]
      exact Nat.lt_succ_self s.made

/-- **The locked block of `Pass`** marks an entry for every time that it schedules it, and changes
no status. What it schedules is what is waiting in the thread at `pc`, where it goes next; after an
exception that is nothing. -/
lemma effect_of_collect {env : Env} {s : State} {t : ℕ} {poll : Bool} {pc : ThreadPc}
    (hs : Scheduled s) (hpc : ∀ m, pc.pending.count m ≤
      ((s.collected env).toSchedule.getD []).count m) (hconfigured : pc.configured = none) :
    Effect env s t ⟨poll, .collect⟩ ((s.afterCollect env).goto t ⟨poll, .collect⟩ pc) := by
  have hlt : ∀ m ∈ s.retained, m < s.made :=
    fun m hm => hs.managed_lt m (State.mem_retained.mp hm).1
  refine ⟨⟨pc, .inl rfl, fun m => ?_, fun m cfg hcfg => ?_⟩, fun m => ?_, .inl rfl,
    fun m hm => ?_, hlt⟩
  · have hcount := count_collectLoop env.config s.retained s.entry m
    have hwaiting := hpc m
    simp only [ThreadPc.pending, State.goto, State.afterCollect, State.given, List.count_nil,
      State.collected] at hwaiting ⊢
    omega
  · rw [hconfigured] at hcfg
    cases hcfg
  · obtain ⟨b, hb⟩ := s.collected_apply env m
    simp only [State.goto, State.afterCollect, hb]
  · have hnot : m ∉ s.retained := fun hmem => absurd hm (Nat.not_le.mpr (hlt m hmem))
    exact (collectLoop_of_not_mem env.config s.entry hnot).trans (hs.untouched m hm)

/-- **What a client or poll thread can do** to the entries and the workers.

**Proof sketch.** By cases on how the step goes. Of interest are the push of a new entry, the
locked block of `Pass`, and the start of a worker, whose entry was waiting in the thread. -/
theorem effect_of_threadStep {s s' : State} {t : ℕ} {th : Thread} {env : Env} (hs : Scheduled s)
    (h : ThreadStep env s t th s') : Effect env s t th s' := by
  cases h with
  | push => exact effect_of_push hs
  | storeStop => exact effect_of_storeStop hs
  | collect hl => exact effect_of_collect hs (fun m => by rw [hl]; exact Nat.le_refl _) rfl
  | collectThrows => exact effect_of_collect hs (fun m => Nat.zero_le _) rfl
  | readRunning | exchange | pollLoop | pollWait =>
    refine .move hs rfl ?_ ?_ rfl rfl rfl fun _ hm => hm
    · split <;> rfl
    · split <;> rfl
  | spawnPoll =>
    exact .quiet hs rfl rfl rfl (fun _ hm => hm) ⟨_, .inr rfl, by simp [ThreadPc.pending],
      by simp [ThreadPc.configured]⟩
  | @configDone poll =>
    refine .move hs rfl ?_ ?_ rfl rfl rfl fun _ hm => hm
    · cases poll <;> rfl
    · cases poll <;> rfl
  | config hcfg =>
    exact .quiet hs rfl rfl rfl (fun _ hm => hm) ⟨_, .inl rfl, by simp [ThreadPc.pending],
      by simp [ThreadPc.configured, hcfg]⟩
  | fetchAdd =>
    exact .quiet hs rfl rfl rfl (fun _ hm => hm) ⟨_, .inl rfl, by simp [ThreadPc.pending],
      by simp [ThreadPc.configured]⟩
  | @spawn poll m cfg rest =>
    refine ⟨⟨_, .inl rfl, fun m' => ?_, by simp [ThreadPc.configured]⟩, fun _ => rfl,
      .inr ⟨m, by simp [ThreadPc.pending], cfg, rfl, rfl⟩, hs.untouched, hs.managed_lt⟩
    simp only [ThreadPc.pending, State.goto, State.addWorker, State.given, Pool.total_concat,
      List.count_cons, beq_iff_eq]
    omega
  | spawnPollThrows | configThrows | spawnThrows | stop | notifyPoll | join | waitEnds
  | waitAgain =>
    exact .move hs rfl rfl rfl rfl rfl rfl fun _ hm => hm
  | @clear poll last =>
    refine .move hs rfl ?_ ?_ rfl rfl rfl fun _ hm => absurd hm List.not_mem_nil
    · cases last <;> rfl
    · cases last <;> rfl

/-! ## What a worker shows -/

/-- A worker that has left its loop. -/
def WorkerPc.hasLeft : WorkerPc → Bool
  | .storeCompleted | .fetchSub | .lock | .notify | .unlock | .done => true
  | _ => false

/-- A worker that has stored `Completed`. -/
def WorkerPc.hasCompleted : WorkerPc → Bool
  | .fetchSub | .lock | .notify | .unlock | .done => true
  | _ => false

/-- A worker that may have called `Execute`, if its task is not periodic. -/
def WorkerPc.hasRun : WorkerPc → Bool
  | .executing | .storeCompleted | .fetchSub | .lock | .notify | .unlock | .done => true
  | _ => false

/-- A worker goes on from `pc` to `pc'` within its loop, or after it, with nothing to be seen. -/
def WorkerPc.Silent (pc pc' : WorkerPc) : Prop :=
  pc'.hasLeft = pc.hasLeft ∧ pc'.hasCompleted = pc.hasCompleted ∧ pc'.hasRun = pc.hasRun ∧
    pc ≠ .executing ∧ pc' ≠ .executing ∧
    (pc' = .storeReady ∨ pc' = .sleep → pc = .storeReady ∨ pc = .sleep)

instance (pc pc' : WorkerPc) : Decidable (pc.Silent pc') :=
  inferInstanceAs (Decidable (_ ∧ _ ∧ _ ∧ _ ∧ _ ∧ _))

/-- What has been seen (`L`) of the entry of a worker, and the entry's status. -/
structure Follows (L : List Event) (status : TaskStatus) (wk : Worker) : Prop where
  begins : L.count (.executeBegins wk.entry) =
    L.count (.executeEnds wk.entry) + if wk.pc = .executing then 1 else 0
  onStop : L.count (.onStop wk.entry) ≤ if wk.pc.hasLeft then 1 else 0
  completed_mem : .completed wk.entry ∈ L ↔ wk.pc.hasCompleted = true
  completed_status : status = .completed ↔ wk.pc.hasCompleted = true
  once : wk.cfg.periodicityMs ≤ 0 → wk.pc ≠ .storeReady ∧ wk.pc ≠ .sleep ∧
    L.count (.executeBegins wk.entry) ≤ if wk.pc.hasRun then 1 else 0

namespace Follows

variable {L : List Event} {status status' : TaskStatus} {m : ℕ} {cfg : TaskConfig}
  {pc pc' : WorkerPc}

/-- A silent step, which does not change whether the entry is `Completed`. -/
lemma silent (h : Follows L status ⟨m, cfg, pc⟩) (hsilent : pc.Silent pc')
    (hstatus : status' = .completed ↔ status = .completed) :
    Follows (L ++ []) status' ⟨m, cfg, pc'⟩ := by
  obtain ⟨hleft, hcompleted, hrun, hpc, hpc', hperiodic⟩ := hsilent
  obtain ⟨hbegins, honStop, hmem, hcompletedStatus, honce⟩ := h
  rw [List.append_nil]
  refine ⟨?_, ?_, ?_, ?_, fun hcfg => ?_⟩
  · rw [if_neg hpc] at hbegins
    rw [if_neg hpc', hbegins]
  · rwa [hleft]
  · rwa [hcompleted]
  · rw [hcompleted]
    exact hstatus.trans hcompletedStatus
  · obtain ⟨hready, hsleep, hcount⟩ := honce hcfg
    rw [hrun]
    refine ⟨fun he => ?_, fun he => ?_, hcount⟩
    · exact (hperiodic (.inl he)).elim hready hsleep
    · exact (hperiodic (.inr he)).elim hready hsleep

/-- `Execute` begins. -/
lemma execute (h : Follows L status ⟨m, cfg, .execute⟩) :
    Follows (L ++ [.executeBegins m]) status ⟨m, cfg, .executing⟩ := by
  obtain ⟨hbegins, honStop, hmem, hstatus, honce⟩ := h
  refine ⟨?_, ?_, ?_, ?_, fun hcfg => ?_⟩
  · simpa using hbegins
  · simpa [WorkerPc.hasLeft] using honStop
  · simpa [WorkerPc.hasCompleted] using hmem
  · simpa [WorkerPc.hasCompleted] using hstatus
  · simpa [WorkerPc.hasRun] using (honce hcfg).2.2

/-- `Execute` ends. -/
lemma executing (h : Follows L status ⟨m, cfg, .executing⟩) :
    Follows (L ++ [.executeEnds m]) status
      ⟨m, cfg, if cfg.periodicityMs ≤ 0 then .storeCompleted else .storeReady⟩ := by
  obtain ⟨hbegins, honStop, hmem, hstatus, honce⟩ := h
  have hnoStop : L.count (.onStop m) = 0 := by simpa [WorkerPc.hasLeft] using honStop
  refine ⟨?_, ?_, ?_, ?_, fun hcfg => ?_⟩
  · split <;> simpa using hbegins
  · simp [hnoStop]
  · split <;> simpa [WorkerPc.hasCompleted] using hmem
  · split <;> simpa [WorkerPc.hasCompleted] using hstatus
  · have hcount := (honce hcfg).2.2
    simp only [hcfg, if_true]
    simpa [WorkerPc.hasRun] using hcount

/-- `OnStop` is called. -/
lemma stopping (h : Follows L status ⟨m, cfg, .onStop⟩) :
    Follows (L ++ [.onStop m]) status ⟨m, cfg, .storeCompleted⟩ := by
  obtain ⟨hbegins, honStop, hmem, hstatus, honce⟩ := h
  refine ⟨?_, ?_, ?_, ?_, fun hcfg => ?_⟩
  · simpa using hbegins
  · simpa [WorkerPc.hasLeft] using honStop
  · simpa [WorkerPc.hasCompleted] using hmem
  · simpa [WorkerPc.hasCompleted] using hstatus
  · have hcount : L.count (.executeBegins m) = 0 := by
      simpa [WorkerPc.hasRun] using (honce hcfg).2.2
    simp [hcount]

/-- `Completed` is stored. -/
lemma complete (h : Follows L status ⟨m, cfg, .storeCompleted⟩) :
    Follows (L ++ [.completed m]) .completed ⟨m, cfg, .fetchSub⟩ := by
  obtain ⟨hbegins, honStop, hmem, hstatus, honce⟩ := h
  refine ⟨?_, ?_, ?_, ?_, fun hcfg => ?_⟩
  · simpa using hbegins
  · simpa [WorkerPc.hasLeft] using honStop
  · simp [WorkerPc.hasCompleted]
  · simp [WorkerPc.hasCompleted]
  · simpa [WorkerPc.hasRun] using (honce hcfg).2.2

end Follows

/-- What a step of worker `w`, which is `wk`, can do. -/
structure WorkerEffect (s : State) (w : ℕ) (wk : Worker) (s' : State) : Prop where
  workers : ∃ pc, s'.workers = s.workers.set w { wk with pc } ∧
    ∀ L, Follows L (s.entry wk.entry).status wk →
      Follows (L ++ wk.emit) (s'.entry wk.entry).status { wk with pc }
  threads : s'.threads = s.threads
  entry : ∀ m, m ≠ wk.entry → s'.entry m = s.entry m
  token : ∀ m, (s'.entry m).token = (s.entry m).token
  made : s'.made = s.made
  managed : s'.managed = s.managed

/-- A step of a worker that changes no entry. -/
lemma WorkerEffect.local {s s' : State} {w : ℕ} {wk : Worker} {pc : WorkerPc}
    (hworkers : s'.workers = s.workers.set w { wk with pc }) (hthreads : s'.threads = s.threads)
    (hentry : s'.entry = s.entry) (hmade : s'.made = s.made) (hmanaged : s'.managed = s.managed)
    (hfollows : ∀ L, Follows L (s.entry wk.entry).status wk →
      Follows (L ++ wk.emit) (s.entry wk.entry).status { wk with pc }) :
    WorkerEffect s w wk s' where
  workers := ⟨pc, hworkers, by rwa [hentry]⟩
  threads := hthreads
  entry := fun _ _ => by rw [hentry]
  token := fun _ => by rw [hentry]
  made := hmade
  managed := hmanaged

/-- A silent step of a worker that changes no entry. -/
lemma WorkerEffect.silent {s s' : State} {w m : ℕ} {cfg : TaskConfig} {pc pc' : WorkerPc}
    (hsilent : pc.Silent pc') (hemit : (⟨m, cfg, pc⟩ : Worker).emit = [])
    (hworkers : s'.workers = s.workers.set w ⟨m, cfg, pc'⟩) (hthreads : s'.threads = s.threads)
    (hentry : s'.entry = s.entry) (hmade : s'.made = s.made) (hmanaged : s'.managed = s.managed) :
    WorkerEffect s w ⟨m, cfg, pc⟩ s' :=
  .local hworkers hthreads hentry hmade hmanaged fun L hL => by
    rw [hemit]
    exact hL.silent hsilent Iff.rfl

/-- Storing a status leaves the mark. -/
lemma token_setStatus (entry : ℕ → Managed) (a : ℕ) (status : TaskStatus) (m : ℕ) :
    (setStatus entry a status m).token = (entry m).token := by
  by_cases hm : m = a
  · subst hm
    simp [Managed.token]
  · simp [hm]

/-- A step of a worker that stores a status. -/
lemma WorkerEffect.store {s s' : State} {w : ℕ} {wk : Worker} {pc : WorkerPc}
    (status : TaskStatus) (hworkers : s'.workers = s.workers.set w { wk with pc })
    (hthreads : s'.threads = s.threads) (hentry : s'.entry = setStatus s.entry wk.entry status)
    (hmade : s'.made = s.made) (hmanaged : s'.managed = s.managed)
    (hfollows : ∀ L, Follows L (s.entry wk.entry).status wk →
      Follows (L ++ wk.emit) status { wk with pc }) :
    WorkerEffect s w wk s' where
  workers := ⟨pc, hworkers, by
    rw [hentry, setStatus_self]
    exact hfollows⟩
  threads := hthreads
  entry := fun _ hm => by rw [hentry, setStatus_of_ne _ hm]
  token := fun m => by rw [hentry, token_setStatus]
  made := hmade
  managed := hmanaged

/-- **What a worker can do**, and that what is seen of it follows what it does. -/
theorem effect_of_stepWorker {s s' : State} {w : ℕ} {wk : Worker} {env : Env}
    (h : s.stepWorker w wk env = some s') : WorkerEffect s w wk s' := by
  obtain ⟨m, cfg, pc⟩ := wk
  cases pc with
  | start =>
    cases h
    refine .silent ?_ rfl rfl rfl rfl rfl rfl
    split <;> decide
  | delay =>
    cases h
    exact .silent (by decide) rfl rfl rfl rfl rfl rfl
  | loadStop | shouldStop =>
    cases h
    refine .silent ?_ rfl rfl rfl rfl rfl rfl
    split <;> decide
  | onStop =>
    cases h
    exact .local rfl rfl rfl rfl rfl fun L hL => hL.stopping
  | storeRunning =>
    cases h
    refine .store .running rfl rfl rfl rfl rfl fun L hL => ?_
    have hstatus := hL.completed_status
    exact hL.silent (by decide) (by simpa [WorkerPc.hasCompleted] using hstatus)
  | execute =>
    cases h
    exact .local rfl rfl rfl rfl rfl fun L hL => hL.execute
  | executing =>
    cases h
    exact .local rfl rfl rfl rfl rfl fun L hL => hL.executing
  | storeReady =>
    cases h
    refine .store .ready rfl rfl rfl rfl rfl fun L hL => ?_
    have hstatus := hL.completed_status
    exact hL.silent (by decide) (by simpa [WorkerPc.hasCompleted] using hstatus)
  | sleep =>
    cases h
    exact .silent (by decide) rfl rfl rfl rfl rfl rfl
  | storeCompleted =>
    cases h
    exact .store .completed rfl rfl rfl rfl rfl fun L hL => hL.complete
  | fetchSub =>
    cases h
    refine .silent ?_ rfl rfl rfl rfl rfl rfl
    split <;> decide
  | lock =>
    simp only [State.stepWorker] at h
    split at h
    · cases h
      exact .silent (by decide) rfl rfl rfl rfl rfl rfl
    · cases h
  | notify | unlock =>
    cases h
    exact .silent (by decide) rfl rfl rfl rfl rfl rfl
  | done => cases h

/-! ## Runs -/

namespace State

/-- A worker is counted for its entry. -/
lemma one_le_given {s : State} {w : ℕ} {wk : Worker} (h : s.workers[w]? = some wk) :
    1 ≤ s.given wk.entry := by
  have := Pool.le_total (fun wk' : Worker => if wk'.entry = wk.entry then 1 else 0) h
  simpa [given] using this

/-- How many workers an entry has been given, as a count of workers. -/
lemma given_eq_countP (s : State) (m : ℕ) : s.given m = s.workers.countP (·.entry = m) :=
  Pool.total_ite _ s.workers

end State

/-- A worker gives no entry a worker. -/
lemma WorkerEffect.given_eq {s s' : State} {w : ℕ} {wk : Worker} (he : WorkerEffect s w wk s')
    (hw : s.workers[w]? = some wk) (m : ℕ) : s'.given m = s.given m := by
  obtain ⟨pc, hworkers, -⟩ := he.workers
  have hset := Pool.total_set (fun wk' : Worker => if wk'.entry = m then 1 else 0) hw { wk with pc }
  simp only at hset
  rw [State.given, State.given, hworkers]
  omega

/-- A worker leaves the tokens alone. -/
lemma WorkerEffect.tokens_eq {s s' : State} {w : ℕ} {wk : Worker} (he : WorkerEffect s w wk s')
    (hw : s.workers[w]? = some wk) (m : ℕ) : s'.tokens m = s.tokens m := by
  rw [State.tokens, State.tokens, he.threads, he.given_eq hw]

/-- How a measure of the threads changes when thread `t` moves, perhaps with a new poll thread. -/
lemma total_threads (f : Thread → ℕ) (hpoll : f ⟨true, .pollLoop⟩ = 0) {s s' : State} {t : ℕ}
    {th th' : Thread} (ht : s.threads[t]? = some th)
    (hthreads : s'.threads = s.threads.set t th' ∨
      s'.threads = s.threads.set t th' ++ [⟨true, .pollLoop⟩]) :
    Pool.total f s'.threads + f th = Pool.total f s.threads + f th' := by
  have hset := Pool.total_set f ht th'
  rcases hthreads with heq | heq
  · rwa [heq]
  · rwa [heq, Pool.total_concat, hpoll, Nat.add_zero]

namespace Scheduled

variable {s s' : State}

/-- An entry has at most one token. -/
lemma tokens_le_one (h : Scheduled s) (m : ℕ) : s.tokens m ≤ 1 :=
  Nat.le_trans (h.tokens_le m) (s.entry m).token_le_one

/-- Two workers of one entry are one worker. -/
lemma worker_unique (h : Scheduled s) {w w' : ℕ} {wk wk' : Worker}
    (hw : s.workers[w]? = some wk) (hw' : s.workers[w']? = some wk')
    (hentry : wk.entry = wk'.entry) : w = w' := by
  by_contra hne
  have htwo := Pool.add_le_total (fun wk'' : Worker => if wk''.entry = wk.entry then 1 else 0)
    hne hw hw'
  have hone := h.tokens_le_one wk.entry
  simp only [if_true, if_pos hentry.symm] at htwo
  rw [State.tokens, State.given] at hone
  omega

/-- A waiting entry has no worker. -/
lemma given_eq_zero (h : Scheduled s) {t m : ℕ} {th : Thread} (ht : s.threads[t]? = some th)
    (hm : m ∈ th.pc.pending) : s.given m = 0 := by
  have hwaiting := Pool.le_total (fun th' : Thread => th'.pc.pending.count m) ht
  have hcount : 0 < th.pc.pending.count m := List.count_pos_iff.mpr hm
  have hone := h.tokens_le_one m
  rw [State.tokens] at hone
  omega

/-- The invariant holds at the start. -/
lemma init (n : ℕ) : Scheduled (.init n) where
  tokens_le := fun m => by
    have hidle : Pool.total (fun th : Thread => th.pc.pending.count m)
        (List.replicate n ⟨false, .idle⟩) = 0 :=
      Pool.total_eq_zero fun th hth => by
        rw [List.eq_of_mem_replicate hth]
        rfl
    have htokens : (State.init n).tokens m = 0 := by
      simpa [State.tokens, State.init, State.given] using hidle
    omega
  untouched := fun _ _ => rfl
  managed_lt := by simp [State.init]

/-- A thread keeps the invariant. -/
lemma of_effect (h : Scheduled s) {t : ℕ} {th : Thread} {env : Env}
    (ht : s.threads[t]? = some th) (he : Effect env s t th s') : Scheduled s' where
  tokens_le := fun m => by
    obtain ⟨pc, hthreads, htokens, -⟩ := he.threads
    have hle := h.tokens_le m
    have hset := total_threads (fun th' => th'.pc.pending.count m) rfl ht hthreads
    have := htokens m
    simp only [State.tokens] at hle ⊢
    simp only at hset
    omega
  untouched := he.untouched
  managed_lt := he.managed_lt

/-- A worker keeps the invariant. -/
lemma of_workerEffect (h : Scheduled s) {w : ℕ} {wk : Worker} (hw : s.workers[w]? = some wk)
    (he : WorkerEffect s w wk s') : Scheduled s' := by
  have htokens := he.tokens_eq hw
  obtain ⟨-, -, hentry, htoken, hmade, hmanaged⟩ := he
  refine ⟨fun m => ?_, fun m hm => ?_, fun m hm => ?_⟩
  · rw [htokens, htoken]
    exact h.tokens_le m
  · have hne : m ≠ wk.entry := by
      rintro rfl
      have hgiven := State.one_le_given hw
      have hle := h.tokens_le wk.entry
      rw [h.untouched wk.entry (hmade ▸ hm)] at hle
      simp only [State.tokens, Managed.token] at hle
      simp at hle
      omega
    rw [hentry m hne]
    exact h.untouched m (hmade ▸ hm)
  · rw [hmade]
    exact h.managed_lt m (hmanaged ▸ hm)

/-- The effect of a call is that of a step that changes nothing. -/
lemma effect_of_call (h : Scheduled s) {t : ℕ} (c : Call) :
    Effect { config := fun _ => none } s t ⟨false, .idle⟩ (s.goto t ⟨false, .idle⟩ c.pc) := by
  refine .move h rfl ?_ ?_ rfl rfl rfl fun _ hm => hm
  · cases c <;> rfl
  · cases c <;> rfl

end Scheduled

/-- No `Execute` of an entry begins after `OnStop`, or after the entry is `Completed`. -/
def Ordered (L : List Event) : Prop :=
  L.Pairwise fun a b => ∀ m, a = .onStop m ∨ a = .completed m → b ≠ .executeBegins m

/-- The invariant of a run of which `L` has been seen. -/
structure Observed (L : List Event) (s : State) : Prop where
  scheduled : Scheduled s
  follows : ∀ (w : ℕ) (wk : Worker), s.workers[w]? = some wk →
    Follows L (s.entry wk.entry).status wk
  unseen : ∀ m, s.given m = 0 → (s.entry m).status ≠ .completed ∧ ∀ e ∈ L, e.entry ≠ m
  ordered : Ordered L

/-- A worker that has just been started. -/
lemma Follows.start {L : List Event} {status : TaskStatus} {m : ℕ} {cfg : TaskConfig}
    (hstatus : status ≠ .completed) (hL : ∀ e ∈ L, e.entry ≠ m) :
    Follows L status ⟨m, cfg, .start⟩ := by
  have hcount : ∀ e : Event, e.entry = m → L.count e = 0 := fun e he =>
    List.count_eq_zero.mpr fun hmem => hL e hmem he
  refine ⟨?_, ?_, ?_, ?_, fun _ => ⟨by simp, by simp, ?_⟩⟩
  · rw [hcount _ rfl, hcount _ rfl]
    rfl
  · rw [hcount _ rfl]
    exact Nat.zero_le _
  · simpa [WorkerPc.hasCompleted] using fun hmem => hL _ hmem rfl
  · simpa [WorkerPc.hasCompleted] using hstatus
  · rw [hcount _ rfl]
    exact Nat.zero_le _

/-- What is seen of other entries changes nothing. -/
lemma Follows.other {L evs : List Event} {status : TaskStatus} {wk : Worker}
    (h : Follows L status wk) (hevs : ∀ e ∈ evs, e.entry ≠ wk.entry) :
    Follows (L ++ evs) status wk := by
  have hcount : ∀ e : Event, e.entry = wk.entry → (L ++ evs).count e = L.count e := by
    intro e he
    rw [List.count_append, List.count_eq_zero.mpr fun hmem => hevs e hmem he, Nat.add_zero]
  obtain ⟨hbegins, honStop, hmem, hstatus, honce⟩ := h
  refine ⟨?_, ?_, ?_, hstatus, fun hcfg => ?_⟩
  · rw [hcount _ rfl, hcount _ rfl]
    exact hbegins
  · rw [hcount _ rfl]
    exact honStop
  · rw [← hmem, List.mem_append]
    exact ⟨fun hm => hm.resolve_right fun hm' => hevs _ hm' rfl, .inl⟩
  · rw [hcount _ rfl]
    exact honce hcfg

/-- A worker shows its own entry. -/
lemma entry_of_mem_emit {wk : Worker} {e : Event} (h : e ∈ wk.emit) : e.entry = wk.entry := by
  rw [Worker.emit] at h
  split at h
  all_goals first
    | exact absurd h List.not_mem_nil
    | (rw [List.mem_singleton.mp h]; rfl)

/-- Only a worker about to call `Execute` shows that it begins. -/
lemma execute_of_mem_emit {wk : Worker} {m : ℕ} (h : .executeBegins m ∈ wk.emit) :
    wk.pc = .execute ∧ m = wk.entry := by
  rw [Worker.emit] at h
  split at h
  · next hpc => exact ⟨hpc, by simpa using h⟩
  all_goals simp at h

namespace Observed

variable {L : List Event} {s s' : State}

/-- The invariant holds at the start. -/
lemma init (n : ℕ) : Observed [] (.init n) where
  scheduled := .init n
  follows := by simp [State.init]
  unseen := by simp [State.init]
  ordered := List.Pairwise.nil

/-- A client or poll thread keeps the invariant. -/
lemma of_effect (h : Observed L s) {t : ℕ} {th : Thread} {env : Env}
    (ht : s.threads[t]? = some th) (he : Effect env s t th s') : Observed L s' := by
  have hstatus := he.status
  rcases he.workers with hworkers | ⟨m, hm, cfg, -, hworkers⟩
  · refine ⟨h.scheduled.of_effect ht he, fun w wk hw => ?_, fun m hgiven => ?_, h.ordered⟩
    · rw [hstatus]
      exact h.follows w wk (hworkers ▸ hw)
    · rw [hstatus]
      rw [State.given, hworkers] at hgiven
      exact h.unseen m hgiven
  · refine ⟨h.scheduled.of_effect ht he, fun w wk hw => ?_, fun m' hgiven => ?_, h.ordered⟩
    · rw [hstatus]
      rw [hworkers] at hw
      rcases Pool.getElem?_concat_cases hw with ⟨-, rfl⟩ | hw
      · obtain ⟨hne, hL⟩ := h.unseen m (h.scheduled.given_eq_zero ht hm)
        exact .start hne hL
      · exact h.follows w wk hw
    · rw [hstatus]
      rw [State.given, hworkers, Pool.total_concat] at hgiven
      exact h.unseen m' (Nat.eq_zero_of_add_eq_zero_right hgiven)

/-- A worker keeps the invariant. -/
lemma of_workerEffect (h : Observed L s) {w : ℕ} {wk : Worker} (hw : s.workers[w]? = some wk)
    (he : WorkerEffect s w wk s') : Observed (L ++ wk.emit) s' := by
  obtain ⟨pc, hworkers, hfollows⟩ := he.workers
  have hwk := h.follows w wk hw
  refine ⟨h.scheduled.of_workerEffect hw he, fun j wk' hj => ?_, fun m hgiven => ?_, ?_⟩
  · rw [hworkers] at hj
    rcases Pool.getElem?_set_cases hj with ⟨-, rfl⟩ | ⟨hne, hj⟩
    · exact hfollows L hwk
    · have hentry : wk.entry ≠ wk'.entry := fun heq =>
        hne (h.scheduled.worker_unique hw hj heq).symm
      rw [he.entry _ hentry.symm]
      exact (h.follows j wk' hj).other fun e he => (entry_of_mem_emit he).trans_ne hentry
  · rw [he.given_eq hw] at hgiven
    have hne : m ≠ wk.entry := by
      rintro rfl
      have := State.one_le_given hw
      omega
    obtain ⟨hstatus, hL⟩ := h.unseen m hgiven
    refine ⟨by rwa [he.entry m hne], fun e hmem => ?_⟩
    rcases List.mem_append.mp hmem with hmem | hmem
    · exact hL e hmem
    · exact (entry_of_mem_emit hmem).trans_ne hne.symm
  · refine List.pairwise_append.mpr ⟨h.ordered, ?_, fun a ha b hb m hab hbegins => ?_⟩
    · rw [Worker.emit]
      split <;> first | exact List.pairwise_singleton _ _ | exact List.Pairwise.nil
    · subst hbegins
      obtain ⟨hpc, rfl⟩ := execute_of_mem_emit hb
      rcases hab with rfl | rfl
      · have honStop := hwk.onStop
        rw [hpc] at honStop
        have hcount := List.count_pos_iff.mpr ha
        simp only [WorkerPc.hasLeft, Bool.false_eq_true, if_false] at honStop
        omega
      · have hcompleted := hwk.completed_mem.mp ha
        rw [hpc] at hcompleted
        cases hcompleted

/-- **Every step** keeps the invariant. -/
theorem step (h : Observed L s) {a : Action} (hstep : step s a = some s') :
    Observed (L ++ emit s a) s' := by
  rcases step_cases hstep with ⟨t, c, rfl, ht, rfl⟩ | ⟨t, env, th, rfl, ht, hth⟩ |
    ⟨w, env, wk, rfl, hw, hwk⟩
  · rw [emit, List.append_nil]
    exact h.of_effect ht (h.scheduled.effect_of_call c)
  · rw [emit, List.append_nil]
    exact h.of_effect ht (effect_of_threadStep h.scheduled hth)
  · rw [emit, hw, Option.elim_some]
    exact h.of_workerEffect hw (effect_of_stepWorker hwk)

/-- **The invariant holds throughout every run.** -/
theorem exec (n : ℕ) (as : List Action) (s : State)
    (h : Transition.exec TaskRunner.step (.init n) as = some s) :
    Observed (Transition.trace TaskRunner.step emit (.init n) as) s := by
  refine Transition.exec_induction
    (I := fun as s => Observed (Transition.trace TaskRunner.step emit (.init n) as) s)
    (init n) (fun as s a t hs hI hstep => ?_) as s h
  rw [Transition.trace_concat hs]
  exact hI.step hstep

end Observed

/-! ## Main result -/

/-- What the task of entry `m` answers to `Config` during an action. -/
def Action.config : Action → ℕ → Option TaskConfig
  | .thread _ env, m => env.config m
  | .call _ _, _ | .worker _ _, _ => none

/-- A thread at the locked block of `Pass`. -/
def State.AtPass (s : State) (t : ℕ) : Prop := ∃ poll, s.threads[t]? = some ⟨poll, .collect⟩

/-- `Pass` removes from `managed_` what is `Completed`, and nothing else. -/
lemma completed_of_pass {s s' : State} {t : ℕ} {env : Env} (ht : s.AtPass t)
    (h : step s (.thread t env) = some s') :
    ∀ m, m ∈ s'.managed ↔ m ∈ s.managed ∧ (s.entry m).status ≠ .completed := by
  obtain ⟨poll, ht⟩ := ht
  have hmanaged : s'.managed = s.managed.filter fun m => (s.entry m).status ≠ .completed := by
    simp only [step, ht, Option.bind_some, State.stepThread] at h
    split at h
    · cases h
      rfl
    · rw [State.raise] at h
      split at h
      · cases h
      · cases h
        rfl
  intro m
  rw [hmanaged, List.mem_filter, decide_eq_true_iff]

/-- An entry with a worker, and one without. -/
lemma Observed.cases {L : List Event} {s : State} (h : Observed L s) (m : ℕ) :
    (∃ wk ∈ s.workers, wk.entry = m ∧ Follows L (s.entry m).status wk) ∨
      ((s.entry m).status ≠ .completed ∧ ∀ e ∈ L, e.entry ≠ m) := by
  by_cases hgiven : s.given m = 0
  · exact .inr (h.unseen m hgiven)
  · have hex : ∃ wk ∈ s.workers, wk.entry = m := by
      by_contra hno
      push Not at hno
      exact hgiven (Pool.total_eq_zero fun wk hwk => if_neg (hno wk hwk))
    obtain ⟨wk, hwk, rfl⟩ := hex
    obtain ⟨w, hw⟩ := List.mem_iff_getElem?.mp hwk
    exact .inl ⟨wk, hwk, rfl, h.follows w wk hw⟩

/-- What has been seen of an entry, in numbers. -/
lemma Observed.counts {L : List Event} {s : State} (h : Observed L s) (m : ℕ) :
    L.count (.executeBegins m) ≤ L.count (.executeEnds m) + 1 ∧ L.count (.onStop m) ≤ 1 ∧
      (.completed m ∈ L ↔ (s.entry m).status = .completed) := by
  rcases h.cases m with ⟨wk, -, rfl, hwk⟩ | ⟨hstatus, hL⟩
  · refine ⟨?_, ?_, hwk.completed_mem.trans hwk.completed_status.symm⟩
    · rw [hwk.begins]
      split <;> omega
    · refine Nat.le_trans hwk.onStop ?_
      split <;> omega
  · have hcount : ∀ e : Event, e.entry = m → L.count e = 0 := fun e he =>
      List.count_eq_zero.mpr fun hmem => hL e hmem he
    rw [hcount _ rfl, hcount _ rfl, hcount _ rfl]
    exact ⟨Nat.zero_le _, Nat.zero_le _, fun hmem => absurd rfl (hL _ hmem),
      fun hc => absurd hc hstatus⟩

/-- A worker that was told that its task is not periodic executes it at most once. -/
lemma Observed.executed_once {L : List Event} {s : State} (h : Observed L s) {wk : Worker}
    (hwk : wk ∈ s.workers) (hcfg : wk.cfg.periodicityMs = 0) :
    L.count (.executeBegins wk.entry) ≤ 1 := by
  obtain ⟨w, hw⟩ := List.mem_iff_getElem?.mp hwk
  have hle : wk.cfg.periodicityMs ≤ 0 := hcfg ▸ Int32.le_refl 0
  refine Nat.le_trans ((h.follows w wk hw).once hle).2.2 ?_
  split <;> omega

/-- Where workers and threads have their configurations from. -/
structure Answered (as : List Action) (s : State) : Prop where
  threads : ∀ (t : ℕ) (th : Thread) (m : ℕ) (cfg : TaskConfig), s.threads[t]? = some th →
    th.pc.configured = some (m, cfg) → ∃ a ∈ as, a.config m = some cfg
  workers : ∀ wk ∈ s.workers, ∃ a ∈ as, a.config wk.entry = some wk.cfg

/-- A thread keeps the invariant, if its answers are among the actions. -/
lemma Answered.of_effect {as as' : List Action} {env : Env} {s s' : State} {t : ℕ} {th : Thread}
    (h : Answered as s) (ht : s.threads[t]? = some th) (he : Effect env s t th s')
    (hsub : ∀ a ∈ as, a ∈ as')
    (hanswers : ∀ m cfg, env.config m = some cfg → ∃ a ∈ as', a.config m = some cfg) :
    Answered as' s' := by
  have hold : ∀ m cfg, (∃ a ∈ as, a.config m = some cfg) → ∃ a ∈ as', a.config m = some cfg :=
    fun m cfg ⟨a, ha, hcfg⟩ => ⟨a, hsub a ha, hcfg⟩
  obtain ⟨pc, hthreads, -, hconfigured⟩ := he.threads
  have hset : ∀ (t' : ℕ) (th' : Thread) (m : ℕ) (cfg : TaskConfig),
      (s.threads.set t { th with pc })[t']? = some th' → th'.pc.configured = some (m, cfg) →
        ∃ a ∈ as', a.config m = some cfg := by
    intro t' th' m cfg ht' hcfg
    rcases Pool.getElem?_set_cases ht' with ⟨-, rfl⟩ | ⟨-, ht'⟩
    · rcases hconfigured m cfg hcfg with hcfg | hcfg
      · exact hold m cfg (h.threads t th m cfg ht hcfg)
      · exact hanswers m cfg hcfg
    · exact hold m cfg (h.threads t' th' m cfg ht' hcfg)
  refine ⟨fun t' th' m cfg ht' hcfg => ?_, fun wk hwk => ?_⟩
  · rcases hthreads with heq | heq
    · exact hset t' th' m cfg (heq ▸ ht') hcfg
    · rw [heq] at ht'
      rcases Pool.getElem?_concat_cases ht' with ⟨-, rfl⟩ | ht'
      · cases hcfg
      · exact hset t' th' m cfg ht' hcfg
  · rcases he.workers with hworkers | ⟨m, -, cfg, hcfg, hworkers⟩
    · exact hold _ _ (h.workers wk (hworkers ▸ hwk))
    · rw [hworkers] at hwk
      rcases List.mem_append.mp hwk with hwk | hwk
      · exact hold _ _ (h.workers wk hwk)
      · rw [List.mem_singleton.mp hwk]
        exact hold m cfg (h.threads t th m cfg ht hcfg)

/-- **Every worker runs with a configuration that its task has answered.** -/
theorem answered_exec (n : ℕ) (as : List Action) (s : State)
    (h : Transition.exec step (.init n) as = some s) : Answered as s := by
  refine Transition.exec_induction (I := Answered) ⟨fun t th m cfg ht hcfg => ?_, ?_⟩
    (fun as s a s' hs hI hstep => ?_) as s h
  · rw [List.eq_of_mem_replicate (List.mem_of_getElem? ht)] at hcfg
    cases hcfg
  · simp [State.init]
  · have hscheduled := (Observed.exec n as s hs).scheduled
    have hsub : ∀ b ∈ as, b ∈ as ++ [a] := fun b hb => List.mem_append_left _ hb
    rcases step_cases hstep with ⟨t, c, rfl, ht, rfl⟩ | ⟨t, env, th, rfl, ht, hth⟩ |
      ⟨w, env, wk, rfl, hw, hwk⟩
    · exact hI.of_effect ht (hscheduled.effect_of_call c) hsub fun _ _ hcfg => by cases hcfg
    · exact hI.of_effect ht (effect_of_threadStep hscheduled hth) hsub fun m cfg hcfg =>
        ⟨.thread t env, by simp, hcfg⟩
    · obtain ⟨⟨pc, hworkers, -⟩, hthreads, -⟩ := effect_of_stepWorker hwk
      refine ⟨fun t th m cfg ht hcfg => ?_, fun wk' hwk' => ?_⟩
      · obtain ⟨b, hb, hbcfg⟩ := hI.threads t th m cfg (hthreads ▸ ht) hcfg
        exact ⟨b, hsub b hb, hbcfg⟩
      · rw [hworkers] at hwk'
        have hsame : ∃ wk'' ∈ s.workers, wk''.entry = wk'.entry ∧ wk''.cfg = wk'.cfg := by
          rcases List.mem_or_eq_of_mem_set hwk' with hmem | rfl
          · exact ⟨wk', hmem, rfl, rfl⟩
          · exact ⟨wk, List.mem_of_getElem? hw, rfl, rfl⟩
        obtain ⟨wk'', hmem, hentry, hcfg⟩ := hsame
        obtain ⟨b, hb, hbcfg⟩ := hI.workers wk'' hmem
        exact ⟨b, hsub b hb, by rw [← hentry, ← hcfg, hbcfg]⟩

/-- **Every entry is scheduled once, and its task runs as its one worker runs it**, in every
interleaving of the calls and `Pass`es of any number of threads with the workers' steps. Of a run
`as` that has led to `s`, and of which `L` has been seen:

* an entry is given at most one worker;
* at most one `Execute` of an entry is in progress;
* a task that is not periodic is executed at most once, whether that is what its worker has been
  told, or what its `Config` always answers;
* `OnStop` is called at most once for an entry, and no `Execute` of it begins after that, or after
  the entry is `Completed`;
* `Completed` is final;
* `Pass` removes no entry from `managed_` that is not `Completed`.

**Proof sketch.** Every step keeps the tokens of an entry below its mark (`Scheduled`), so that the
entry has at most one worker; and what is seen of an entry follows the steps of that worker
(`Follows`). -/
theorem scheduling (n : ℕ) (as : List Action) (s : State)
    (h : Transition.exec step (.init n) as = some s) :
    let L := Transition.trace step emit (.init n) as
    (∀ m, s.workers.countP (·.entry = m) ≤ 1) ∧
    (∀ m, L.count (.executeBegins m) ≤ L.count (.executeEnds m) + 1) ∧
    (∀ wk ∈ s.workers, wk.cfg.periodicityMs = 0 → L.count (.executeBegins wk.entry) ≤ 1) ∧
    (∀ m, (∀ a ∈ as, ∀ cfg, a.config m = some cfg → cfg.periodicityMs = 0) →
      L.count (.executeBegins m) ≤ 1) ∧
    (∀ m, L.count (.onStop m) ≤ 1) ∧
    (L.Pairwise fun a b => ∀ m, a = .onStop m ∨ a = .completed m → b ≠ .executeBegins m) ∧
    (∀ m bs t, (s.entry m).status = .completed → Transition.exec step s bs = some t →
      (t.entry m).status = .completed) ∧
    (∀ t env s', s.AtPass t → step s (.thread t env) = some s' →
      ∀ m ∈ s.managed, m ∉ s'.managed → (s.entry m).status = .completed) := by
  have hobserved := Observed.exec n as s h
  refine ⟨fun m => ?_, fun m => (hobserved.counts m).1,
    fun wk hwk hcfg => hobserved.executed_once hwk hcfg, fun m hcfg => ?_,
    fun m => (hobserved.counts m).2.1, hobserved.ordered, fun m bs t hm hbs => ?_,
    fun t env s' ht hstep m hm hnot => ?_⟩
  · have hone := hobserved.scheduled.tokens_le_one m
    rw [State.tokens, State.given_eq_countP] at hone
    omega
  · rcases hobserved.cases m with ⟨wk, hwk, rfl, -⟩ | ⟨-, hL⟩
    · obtain ⟨a, ha, hanswer⟩ := (answered_exec n as s h).workers wk hwk
      exact hobserved.executed_once hwk (hcfg a ha wk.cfg hanswer)
    · rw [List.count_eq_zero.mpr fun hmem => hL _ hmem rfl]
      exact Nat.zero_le 1
  · have hrun : Transition.exec step (.init n) (as ++ bs) = some t := by
      rw [Transition.exec_append, h]
      exact hbs
    refine ((Observed.exec n (as ++ bs) t hrun).counts m).2.2.mp ?_
    rw [Transition.trace_append h]
    exact List.mem_append_left _ ((hobserved.counts m).2.2.mpr hm)
  · by_contra hstatus
    exact hnot ((completed_of_pass ht hstep m).mpr ⟨hm, hstatus⟩)

/-- A one-shot task has one worker, is executed once and not stopped. -/
theorem scheduling_oneShot :
    ∃ s, Transition.exec step (.init 1) oneShot = some s ∧
      (∀ m, s.workers.countP (·.entry = m) ≤ 1) ∧
      Transition.trace step emit (.init 1) oneShot =
        [.executeBegins 0, .executeEnds 0, .completed 0] ∧
      ∀ m, (Transition.trace step emit (.init 1) oneShot).count (.executeBegins m) ≤ 1 := by
  obtain ⟨s, hs⟩ : ∃ s, Transition.exec step (.init 1) oneShot = some s := ⟨_, rfl⟩
  obtain ⟨hgiven, -, -, honce, -⟩ := scheduling 1 oneShot s hs
  refine ⟨s, hs, hgiven, by decide, fun m => honce m ?_⟩
  simp [oneShot, Action.config]

end TaskRunner

end RaCommon
