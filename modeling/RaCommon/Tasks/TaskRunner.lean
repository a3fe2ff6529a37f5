import Mathlib.Logic.Function.Basic
import RaCommon.Library.Pool
import RaCommon.Library.Transition

set_option relaxedAutoImplicit false
set_option autoImplicit false

/-!
# The task runner (`tasks/task_runner.hpp`, `tasks/task_config.hpp`)

The task runner as a step relation over its shared state. Every atomic operation and every block
under `mutex_` is one step; a program counter says which step a thread takes next. The parties are
client threads, which make the calls, poll threads, which `Start` creates, and worker threads, one
for each task that `Pass` schedules. An action names the party that moves.

What lies outside the runner is part of the action and arbitrary: what a task's `Config` and
`ShouldStop` answer at each call, and whether a thread can be created. Nothing is timed, so that a
sleep, or a wait with a timeout, may end at any moment.

## Main definitions

* `RaCommon.TaskRunner.Managed`, `RaCommon.TaskRunner.Thread`, `RaCommon.TaskRunner.Worker` — an
  entry of `managed_`, a client or poll thread, and a worker thread.
* `RaCommon.TaskRunner.State`, `RaCommon.TaskRunner.step` — the states and the steps.
* `RaCommon.TaskRunner.Event`, `RaCommon.TaskRunner.emit` — what is seen of the tasks.

## Main results

* `RaCommon.TaskRunner.count_collectLoop` — an entry is scheduled at most once while it is marked
  as scheduled.
* `RaCommon.TaskRunner.collectLoop_cases` — what the locked block of `Pass` does.
-/

namespace RaCommon

namespace TaskRunner

/-! ## Tasks -/

/-- `TaskStatus`. -/
inductive TaskStatus where
  | ready
  | running
  | completed
  deriving DecidableEq, Repr

/-- `TaskConfig`, with the fields that the runner reads. -/
structure TaskConfig where
  periodicityMs : Int32 := 0
  delayed : Bool := false
  delayMs : Int32 := 0
  deriving DecidableEq, Repr

/-- `TaskRunner::Managed`. Of its task nothing is known but what it answers. -/
structure Managed where
  status : TaskStatus := .ready
  stop : Bool := false
  scheduled : Bool := false
  deriving DecidableEq, Repr

/-- What code outside the runner does during a step: `Config()` of the task of each entry (`none`
if it throws), `ShouldStop()`, and whether a `std::thread` can be constructed. -/
structure Env where
  config : ℕ → Option TaskConfig := fun _ => some {}
  shouldStop : Bool := false
  created : Bool := true

/-! ## Threads -/

/-- Where a thread is in `Shutdown`. -/
inductive ShutdownPc where
  | exchange
  | storeStop
  | notifyPoll
  | join
  | wait
  | clear
  deriving DecidableEq, Repr

/-- Where a client or poll thread is. In `Pass`, `rest` holds what is left of `to_schedule`. The
flag `last` marks the `Shutdown` of the destructor. -/
inductive ThreadPc where
  | idle
  | push
  | readRunning
  | exchange
  | spawnPoll
  | pollLoop
  | pollWait
  | collect
  | config (rest : List ℕ)
  | fetchAdd (m : ℕ) (cfg : TaskConfig) (rest : List ℕ)
  | spawn (m : ℕ) (cfg : TaskConfig) (rest : List ℕ)
  | shutdown (last : Bool) (pc : ShutdownPc)
  | finished
  | destroyed
  deriving DecidableEq, Repr

/-- A client thread, or a poll thread. -/
structure Thread where
  poll : Bool
  pc : ThreadPc
  deriving DecidableEq, Repr

/-- Where `Pass` returns to. -/
def Thread.home (th : Thread) : ThreadPc := if th.poll then .pollLoop else .idle

/-- Where a worker thread is: in `Worker` up to `storeCompleted`, then in its lambda. -/
inductive WorkerPc where
  | start
  | delay
  | loadStop
  | shouldStop
  | onStop
  | storeRunning
  | execute
  | executing
  | storeReady
  | sleep
  | storeCompleted
  | fetchSub
  | lock
  | notify
  | unlock
  | done
  deriving DecidableEq, Repr

/-- A worker thread: its copies of `m` and `cfg`, and where it is. -/
structure Worker where
  entry : ℕ
  cfg : TaskConfig
  pc : WorkerPc
  deriving DecidableEq, Repr

/-! ## States and actions -/

/-- A thread that can hold a mutex. -/
inductive Party where
  | thread (t : ℕ)
  | worker (w : ℕ)
  deriving DecidableEq, Repr

/-- The runner and its threads. Entries are numbered: `entry` is the memory they live in, of which
`made` have been created so far, and `managed` is `managed_`. The counter `activeWorkers` is an
integer, so that it does not wrap around as a `std::atomic<int>` would. A block under `mutex_` is
one step, so that nobody is ever seen holding it; `workersMutex` is the holder of
`workers_mutex_`, and `pollThread` the thread of a joinable `poll_thread_`. All threads started so
far are kept, also when they have ended. -/
structure State where
  running : Bool
  entry : ℕ → Managed
  made : ℕ
  managed : List ℕ
  activeWorkers : ℤ
  workersMutex : Option Party
  pollThread : Option ℕ
  threads : List Thread
  workers : List Worker

/-- A new runner, and `n` client threads outside any call. -/
def State.init (n : ℕ) : State where
  running := false
  entry := fun _ => {}
  made := 0
  managed := []
  activeWorkers := 0
  workersMutex := none
  pollThread := none
  threads := List.replicate n ⟨false, .idle⟩
  workers := []

/-- A call; `destroy` is the destructor. -/
inductive Call where
  | addTask
  | poke
  | start
  | shutdown
  | destroy
  deriving DecidableEq, Repr

/-- Where a call begins. -/
def Call.pc : Call → ThreadPc
  | .addTask => .push
  | .poke => .readRunning
  | .start => .exchange
  | .shutdown => .shutdown false .exchange
  | .destroy => .shutdown true .exchange

/-- An action: a client thread makes a call, or a thread takes its next step. -/
inductive Action where
  | call (t : ℕ) (c : Call)
  | thread (t : ℕ) (env : Env)
  | worker (w : ℕ) (env : Env)

/-! ## Steps of client and poll threads -/

/-- `m->scheduled = b`. -/
def setScheduled (entry : ℕ → Managed) (m : ℕ) (b : Bool) : ℕ → Managed :=
  Function.update entry m { entry m with scheduled := b }

/-- `m->status.store(status)`. -/
def setStatus (entry : ℕ → Managed) (m : ℕ) (status : TaskStatus) : ℕ → Managed :=
  Function.update entry m { entry m with status }

/-- What the locked block of `Pass` leaves: the entries, and `to_schedule` unless `Config` has
thrown. -/
structure Collected where
  entry : ℕ → Managed
  toSchedule : Option (List ℕ)

/-- The loop of the locked block of `Pass` over `managed_`. -/
def collectLoop (config : ℕ → Option TaskConfig) : List ℕ → (ℕ → Managed) → Collected
  | [], entry => ⟨entry, some []⟩
  | m :: ms, entry =>
    if (entry m).scheduled then collectLoop config ms entry
    else
      match config m with
      | none => ⟨setScheduled entry m true, none⟩
      | some cfg =>
        -- A disabled task is left to the next `Pass`.
        if cfg.periodicityMs = -1 then
          collectLoop config ms (setScheduled (setScheduled entry m true) m false)
        else
          let rest := collectLoop config ms (setScheduled entry m true)
          ⟨rest.entry, rest.toSchedule.map (m :: ·)⟩

/-- `m->stop.store(true)` for all of `managed_`. -/
def storeStop (entry : ℕ → Managed) (managed : List ℕ) : ℕ → Managed :=
  managed.foldl (fun entry m => Function.update entry m { entry m with stop := true }) entry

/-- 1 for an entry that is marked as scheduled. -/
def Managed.token (entry : Managed) : ℕ := if entry.scheduled then 1 else 0

@[simp] lemma setScheduled_self (entry : ℕ → Managed) (m : ℕ) (b : Bool) :
    setScheduled entry m b m = { entry m with scheduled := b } :=
  Function.update_self m _ entry

@[simp] lemma setScheduled_of_ne (entry : ℕ → Managed) {m m' : ℕ} (h : m' ≠ m) (b : Bool) :
    setScheduled entry m b m' = entry m' :=
  Function.update_of_ne h _ entry

@[simp] lemma setStatus_self (entry : ℕ → Managed) (m : ℕ) (status : TaskStatus) :
    setStatus entry m status m = { entry m with status } :=
  Function.update_self m _ entry

@[simp] lemma setStatus_of_ne (entry : ℕ → Managed) {m m' : ℕ} (h : m' ≠ m)
    (status : TaskStatus) : setStatus entry m status m' = entry m' :=
  Function.update_of_ne h _ entry

/-- Marking an entry leaves its status and its `stop`. -/
lemma setScheduled_apply (entry : ℕ → Managed) (m m' : ℕ) (b : Bool) :
    ∃ b', setScheduled entry m b m' = { entry m' with scheduled := b' } := by
  by_cases h : m' = m
  · subst h
    exact ⟨b, setScheduled_self entry m' b⟩
  · exact ⟨(entry m').scheduled, setScheduled_of_ne entry h b⟩

/-- The locked block of `Pass` changes nothing of an entry but its mark. -/
lemma collectLoop_apply (config : ℕ → Option TaskConfig) (ms : List ℕ) (entry : ℕ → Managed)
    (m : ℕ) : ∃ b, (collectLoop config ms entry).entry m = { entry m with scheduled := b } := by
  induction ms generalizing entry with
  | nil => exact ⟨(entry m).scheduled, rfl⟩
  | cons a ms ih =>
    rw [collectLoop]
    split
    · exact ih entry
    · obtain ⟨b, hb⟩ := setScheduled_apply entry a m true
      split
      · exact ⟨b, hb⟩
      · split
        · obtain ⟨b', hb'⟩ := setScheduled_apply (setScheduled entry a true) a m false
          obtain ⟨b'', hb''⟩ := ih (setScheduled (setScheduled entry a true) a false)
          exact ⟨b'', by rw [hb'', hb', hb]⟩
        · obtain ⟨b', hb'⟩ := ih (setScheduled entry a true)
          exact ⟨b', by rw [hb', hb]⟩

/-- The locked block of `Pass` marks no entry that is not in `managed_`. -/
lemma collectLoop_of_not_mem (config : ℕ → Option TaskConfig) {ms : List ℕ}
    (entry : ℕ → Managed) {m : ℕ} (h : m ∉ ms) :
    (collectLoop config ms entry).entry m = entry m := by
  induction ms generalizing entry with
  | nil => rfl
  | cons a ms ih =>
    obtain ⟨hne, hmem⟩ := not_or.mp (mt List.mem_cons.mpr h)
    rw [collectLoop]
    split
    · exact ih entry hmem
    · split
      · exact setScheduled_of_ne entry hne true
      · split
        · rw [ih _ hmem, setScheduled_of_ne _ hne, setScheduled_of_ne _ hne]
        · rw [ih _ hmem, setScheduled_of_ne _ hne]

/-- Marking an entry that is not marked. -/
lemma token_setScheduled_true {entry : ℕ → Managed} {a : ℕ} (h : ¬ (entry a).scheduled = true)
    (m : ℕ) :
    (setScheduled entry a true m).token = (entry m).token + if m = a then 1 else 0 := by
  by_cases hm : m = a
  · subst hm
    simp [Managed.token, h]
  · simp [Managed.token, hm]

/-- Marking an entry that is not marked, and taking the mark back. -/
lemma token_setScheduled_false {entry : ℕ → Managed} {a : ℕ} (h : ¬ (entry a).scheduled = true)
    (m : ℕ) :
    (setScheduled (setScheduled entry a true) a false m).token = (entry m).token := by
  by_cases hm : m = a
  · subst hm
    simp [Managed.token, h]
  · simp [Managed.token, hm]

/-- **An entry is scheduled at most once while it is marked**, and only if it was not marked: what
the block of `Pass` schedules and the marks before it are covered by the marks after it.

**Proof sketch.** By induction on `managed_`. An entry that is scheduled was not marked and is
from then on, so that the loop passes it over if it comes upon it again; where the mark is taken
back, or `Config` throws, the entry is not scheduled. -/
theorem count_collectLoop (config : ℕ → Option TaskConfig) (ms : List ℕ) (entry : ℕ → Managed)
    (m : ℕ) :
    ((collectLoop config ms entry).toSchedule.getD []).count m + (entry m).token ≤
      ((collectLoop config ms entry).entry m).token := by
  induction ms generalizing entry with
  | nil => simp [collectLoop]
  | cons a ms ih =>
    rw [collectLoop]
    split
    · exact ih entry
    · next hmark =>
      have hset := token_setScheduled_true hmark m
      split
      · simp only [Option.getD_none, List.count_nil]
        omega
      · split
        · have h := ih (setScheduled (setScheduled entry a true) a false)
          rwa [token_setScheduled_false hmark m] at h
        · have h := ih (setScheduled entry a true)
          generalize collectLoop config ms (setScheduled entry a true) = collected at h
          have hcount : ((collected.toSchedule.map (a :: ·)).getD []).count m ≤
              (collected.toSchedule.getD []).count m + if m = a then 1 else 0 := by
            cases collected.toSchedule with
            | none => simp
            | some l =>
              by_cases hm : m = a
              · subst hm
                simp
              · simp [hm, Ne.symm hm]
          simp only
          omega

/-- An entry has at most one token. -/
lemma Managed.token_le_one (entry : Managed) : entry.token ≤ 1 := by
  rw [token]
  split <;> omega

/-- An entry without a mark has no token. -/
lemma Managed.token_eq_zero {entry : Managed} : entry.token = 0 ↔ entry.scheduled = false := by
  cases h : entry.scheduled <;> simp [token, h]

/-- An entry with a mark has one. -/
lemma Managed.token_eq_one {entry : Managed} : entry.token = 1 ↔ entry.scheduled = true := by
  cases h : entry.scheduled <;> simp [token, h]

/-- **What the locked block of `Pass` does**: it schedules an entry for every mark that it makes, or
`Config` of an entry without a mark throws, and the block has marked that entry for nothing.

**Proof sketch.** By induction on `managed_`, as the loop goes. An entry whose mark is taken back
has the tokens that it had; one that is scheduled has the one token that its mark stands for. -/
theorem collectLoop_cases (config : ℕ → Option TaskConfig) (ms : List ℕ) (entry : ℕ → Managed) :
    (∃ l, (collectLoop config ms entry).toSchedule = some l ∧
      (∀ m, l.count m + (entry m).token = ((collectLoop config ms entry).entry m).token) ∧
      ∀ m ∈ ms, (entry m).token = 0 → (config m).isSome) ∨
    (collectLoop config ms entry).toSchedule = none ∧
      ∃ m ∈ ms, (entry m).token = 0 ∧ config m = none ∧
        ((collectLoop config ms entry).entry m).token = 1 := by
  induction ms generalizing entry with
  | nil => exact .inl ⟨[], rfl, by simp [collectLoop], by simp⟩
  | cons a ms ih =>
    rw [collectLoop]
    by_cases hmark : (entry a).scheduled = true
    · rw [if_pos hmark]
      refine (ih entry).imp ?_ ?_
      · rintro ⟨l, hl, hcount, hsome⟩
        refine ⟨l, hl, hcount, fun m hm hzero => ?_⟩
        rcases List.mem_cons.mp hm with rfl | hm
        · rw [Managed.token_eq_zero, hmark] at hzero
          cases hzero
        · exact hsome m hm hzero
      · rintro ⟨hnone, m, hm, hthrows⟩
        exact ⟨hnone, m, List.mem_cons_of_mem a hm, hthrows⟩
    · rw [if_neg hmark]
      have hset := token_setScheduled_true hmark
      have hzero : (entry a).token = 0 := Managed.token_eq_zero.mpr (Bool.eq_false_iff.mpr hmark)
      cases hconfig : config a with
      | none =>
        refine .inr ⟨rfl, a, by simp, hzero, hconfig, ?_⟩
        rw [hset, hzero, if_pos rfl]
      | some cfg =>
        simp only
        split_ifs with hdisabled
        · have hback := token_setScheduled_false hmark
          rcases ih (setScheduled (setScheduled entry a true) a false) with
            ⟨l, hl, hcount, hsome⟩ | ⟨hnone, m, hm, hmzero, hthrows⟩
          · refine .inl ⟨l, hl, fun m => ?_, fun m hm hmzero => ?_⟩
            · rw [← hback m]
              exact hcount m
            · rcases List.mem_cons.mp hm with rfl | hm
              · rw [hconfig]
                rfl
              · exact hsome m hm ((hback m).trans hmzero)
          · exact .inr ⟨hnone, m, List.mem_cons_of_mem a hm, (hback m).symm.trans hmzero, hthrows⟩
        · rcases ih (setScheduled entry a true) with
            ⟨l, hl, hcount, hsome⟩ | ⟨hnone, m, hm, hmzero, hthrows⟩
          · refine .inl ⟨a :: l, by rw [hl, Option.map_some], fun m => ?_, fun m hm hmzero => ?_⟩
            · have hrest := hcount m
              rw [hset] at hrest
              simp only [List.count_cons, beq_iff_eq, eq_comm (a := a)]
              omega
            · rcases List.mem_cons.mp hm with rfl | hm
              · rw [hconfig]
                rfl
              · by_cases hma : m = a
                · rw [hma, hconfig]
                  rfl
                · refine hsome m hm ?_
                  rw [hset, hmzero, if_neg hma]
          · refine .inr ⟨by rw [hnone, Option.map_none], m, List.mem_cons_of_mem a hm, ?_, hthrows⟩
            rw [hset] at hmzero
            omega

/-- An entry that is scheduled is in `managed_`, was not marked, and its task is enabled. -/
lemma mem_toSchedule {config : ℕ → Option TaskConfig} {ms : List ℕ} {entry : ℕ → Managed}
    {l : List ℕ} (h : (collectLoop config ms entry).toSchedule = some l) {m : ℕ} (hm : m ∈ l) :
    m ∈ ms ∧ (entry m).token = 0 ∧ ∃ cfg, config m = some cfg ∧ cfg.periodicityMs ≠ -1 := by
  induction ms generalizing entry l with
  | nil =>
    obtain rfl := Option.some.inj h
    exact absurd hm List.not_mem_nil
  | cons a ms ih =>
    rw [collectLoop] at h
    by_cases hmark : (entry a).scheduled = true
    · rw [if_pos hmark] at h
      obtain ⟨hmem, hrest⟩ := ih h hm
      exact ⟨List.mem_cons_of_mem a hmem, hrest⟩
    · rw [if_neg hmark] at h
      have hset := token_setScheduled_true hmark m
      cases hconfig : config a with
      | none =>
        rw [hconfig] at h
        cases h
      | some cfg =>
        simp only [hconfig] at h
        split_ifs at h with hdisabled
        · obtain ⟨hmem, hzero, hrest⟩ := ih h hm
          rw [token_setScheduled_false hmark] at hzero
          exact ⟨List.mem_cons_of_mem a hmem, hzero, hrest⟩
        · obtain ⟨l', hl', rfl⟩ := Option.map_eq_some_iff.mp h
          rcases List.mem_cons.mp hm with rfl | hm
          · exact ⟨by simp, Managed.token_eq_zero.mpr (Bool.eq_false_iff.mpr hmark), cfg, hconfig,
              hdisabled⟩
          · obtain ⟨hmem, hzero, hrest⟩ := ih hl' hm
            exact ⟨List.mem_cons_of_mem a hmem, by omega, hrest⟩

/-- All entries of `managed_` that are not marked, and whose task is enabled, are scheduled. -/
lemma mem_toSchedule_of_enabled {config : ℕ → Option TaskConfig} {ms : List ℕ}
    {entry : ℕ → Managed} {l : List ℕ} (h : (collectLoop config ms entry).toSchedule = some l)
    {m : ℕ} (hm : m ∈ ms) (hzero : (entry m).token = 0) {cfg : TaskConfig}
    (hcfg : config m = some cfg) (henabled : cfg.periodicityMs ≠ -1) : m ∈ l := by
  induction ms generalizing entry l with
  | nil => exact absurd hm List.not_mem_nil
  | cons a ms ih =>
    rw [collectLoop] at h
    by_cases hmark : (entry a).scheduled = true
    · rw [if_pos hmark] at h
      have hne : m ≠ a := by
        rintro rfl
        rw [Managed.token_eq_zero, hmark] at hzero
        cases hzero
      exact ih h ((List.mem_cons.mp hm).resolve_left hne) hzero
    · rw [if_neg hmark] at h
      cases hconfig : config a with
      | none =>
        rw [hconfig] at h
        cases h
      | some cfg' =>
        simp only [hconfig] at h
        split_ifs at h with hdisabled
        · have hne : m ≠ a := by
            rintro rfl
            exact henabled (Option.some.inj (hcfg.symm.trans hconfig) ▸ hdisabled)
          refine ih h ((List.mem_cons.mp hm).resolve_left hne) ?_
          rw [token_setScheduled_false hmark, hzero]
        · obtain ⟨l', hl', rfl⟩ := Option.map_eq_some_iff.mp h
          by_cases hma : m = a
          · exact hma ▸ List.mem_cons_self
          · refine List.mem_cons_of_mem a (ih hl' ((List.mem_cons.mp hm).resolve_left hma) ?_)
            rw [token_setScheduled_true hmark, hzero, if_neg hma]

/-- Setting `stop` leaves the status and the mark of every entry. -/
lemma storeStop_apply (entry : ℕ → Managed) (managed : List ℕ) (m : ℕ) :
    ∃ b, storeStop entry managed m = { entry m with stop := b } := by
  induction managed generalizing entry with
  | nil => exact ⟨(entry m).stop, rfl⟩
  | cons a managed ih =>
    obtain ⟨b, hb⟩ := ih (Function.update entry a { entry a with stop := true })
    refine ⟨b, hb.trans ?_⟩
    by_cases hm : m = a
    · subst hm
      rw [Function.update_self]
    · rw [Function.update_of_ne hm]

/-- Setting `stop` leaves the tokens of every entry. -/
@[simp] lemma token_storeStop (entry : ℕ → Managed) (managed : List ℕ) (m : ℕ) :
    (storeStop entry managed m).token = (entry m).token := by
  obtain ⟨b, hb⟩ := storeStop_apply entry managed m
  rw [hb, Managed.token, Managed.token]

/-- Setting `stop` leaves the status of every entry. -/
@[simp] lemma status_storeStop (entry : ℕ → Managed) (managed : List ℕ) (m : ℕ) :
    (storeStop entry managed m).status = (entry m).status := by
  obtain ⟨b, hb⟩ := storeStop_apply entry managed m
  rw [hb]

/-- Setting `stop` leaves the entries that are not in `managed_`. -/
lemma storeStop_of_not_mem (entry : ℕ → Managed) {managed : List ℕ} {m : ℕ} (h : m ∉ managed) :
    storeStop entry managed m = entry m := by
  induction managed generalizing entry with
  | nil => rfl
  | cons a managed ih =>
    obtain ⟨hne, hmem⟩ := not_or.mp (mt List.mem_cons.mpr h)
    exact (ih _ hmem).trans (Function.update_of_ne hne _ entry)

/-- Setting `stop` sets it for all of `managed_`. -/
lemma stop_storeStop (entry : ℕ → Managed) {managed : List ℕ} {m : ℕ} (h : m ∈ managed) :
    (storeStop entry managed m).stop = true := by
  induction managed generalizing entry with
  | nil => exact absurd h List.not_mem_nil
  | cons a managed ih =>
    by_cases hm : m ∈ managed
    · exact ih _ hm
    · obtain rfl : m = a := (List.mem_cons.mp h).resolve_right hm
      have hrest := storeStop_of_not_mem (Function.update entry m { entry m with stop := true }) hm
      show (storeStop (Function.update entry m { entry m with stop := true }) managed m).stop = true
      rw [hrest, Function.update_self]

namespace State

/-- Thread `t`, which is `th`, goes on to `pc`. -/
def goto (s : State) (t : ℕ) (th : Thread) (pc : ThreadPc) : State :=
  { s with threads := s.threads.set t { th with pc } }

/-- An exception leaves `Pass`: out of the call that a client has made, while in a poll thread the
process ends. -/
def raise (s : State) (t : ℕ) (th : Thread) : Option State :=
  if th.poll then none else some (s.goto t th .idle)

/-- The next step of thread `t` in `Shutdown`. -/
def stepShutdown (s : State) (t : ℕ) (th : Thread) (last : Bool) : ShutdownPc → Option State
  | .exchange =>
    let next := if s.running then .storeStop else .join
    some ({ s with running := false }.goto t th (.shutdown last next))
  | .storeStop =>
    some ({ s with entry := storeStop s.entry s.managed }.goto t th (.shutdown last .notifyPoll))
  | .notifyPoll => some (s.goto t th (.shutdown last .join))
  | .join =>
    match s.pollThread with
    | none => some (s.goto t th (.shutdown last .wait))
    | some p =>
      -- `join` returns once the poll thread has ended.
      if s.threads[p]? = some (⟨true, .finished⟩ : Thread) then
        some ({ s with pollThread := none }.goto t th (.shutdown last .wait))
      else none
  | .wait =>
    -- The predicate is evaluated under `workers_mutex_`, which is kept when it is true; the wait
    -- may also end spuriously.
    if s.workersMutex = none then
      if s.activeWorkers = 0 then
        some ({ s with workersMutex := some (.thread t) }.goto t th (.shutdown last .clear))
      else some (s.goto t th (.shutdown last .wait))
    else none
  | .clear =>
    some ({ s with managed := [], workersMutex := none }.goto t th
      (if last then .destroyed else .idle))

/-- The next step of thread `t`. -/
def stepThread (s : State) (t : ℕ) (th : Thread) (env : Env) : Option State :=
  match th.pc with
  | .push =>
    some ({ s with
      entry := Function.update s.entry s.made {}
      made := s.made + 1
      managed := s.managed ++ [s.made] }.goto t th .readRunning)
  | .readRunning => some (s.goto t th (if s.running then .collect else .idle))
  | .exchange =>
    some ({ s with running := true }.goto t th (if s.running then .idle else .spawnPoll))
  | .spawnPoll =>
    if env.created then
      match s.pollThread with
      | none =>
        let s := s.goto t th .collect
        some { s with
          pollThread := some s.threads.length
          threads := s.threads ++ [⟨true, .pollLoop⟩] }
      -- Assigning to a joinable `std::thread` ends the process.
      | some _ => none
    else some (s.goto t th .idle)
  | .pollLoop => some (s.goto t th (if s.running then .pollWait else .finished))
  | .pollWait => some (s.goto t th (if s.running then .collect else .finished))
  | .collect =>
    let managed := s.managed.filter fun m => (s.entry m).status ≠ .completed
    let collected := collectLoop env.config managed s.entry
    let s := { s with managed, entry := collected.entry }
    match collected.toSchedule with
    | some toSchedule => some (s.goto t th (.config toSchedule))
    | none => s.raise t th
  | .config [] => some (s.goto t th th.home)
  | .config (m :: rest) =>
    match env.config m with
    | some cfg => some (s.goto t th (.fetchAdd m cfg rest))
    | none => s.raise t th
  | .fetchAdd m cfg rest =>
    some ({ s with activeWorkers := s.activeWorkers + 1 }.goto t th (.spawn m cfg rest))
  | .spawn m cfg rest =>
    if env.created then
      let s := s.goto t th (.config rest)
      some { s with workers := s.workers ++ [⟨m, cfg, .start⟩] }
    -- The counter stays incremented, and the rest of `to_schedule` is lost.
    else s.raise t th
  | .shutdown last pc => s.stepShutdown t th last pc
  | .idle | .finished | .destroyed => none

/-! ## Steps of workers -/

/-- Worker `w`, which is `wk`, goes on to `pc`. -/
def gotoWorker (s : State) (w : ℕ) (wk : Worker) (pc : WorkerPc) : State :=
  { s with workers := s.workers.set w { wk with pc } }

/-- The next step of worker `w`. -/
def stepWorker (s : State) (w : ℕ) (wk : Worker) (env : Env) : Option State :=
  match wk.pc with
  | .start =>
    some (s.gotoWorker w wk (if wk.cfg.delayed ∧ 0 < wk.cfg.delayMs then .delay else .loadStop))
  | .delay => some (s.gotoWorker w wk .loadStop)
  | .loadStop =>
    some (s.gotoWorker w wk (if (s.entry wk.entry).stop then .onStop else .shouldStop))
  | .shouldStop => some (s.gotoWorker w wk (if env.shouldStop then .onStop else .storeRunning))
  | .onStop => some (s.gotoWorker w wk .storeCompleted)
  | .storeRunning =>
    some ({ s with entry := setStatus s.entry wk.entry .running }.gotoWorker w wk .execute)
  | .execute => some (s.gotoWorker w wk .executing)
  | .executing =>
    some (s.gotoWorker w wk (if wk.cfg.periodicityMs ≤ 0 then .storeCompleted else .storeReady))
  | .storeReady =>
    some ({ s with entry := setStatus s.entry wk.entry .ready }.gotoWorker w wk .sleep)
  | .sleep => some (s.gotoWorker w wk .loadStop)
  | .storeCompleted =>
    some ({ s with entry := setStatus s.entry wk.entry .completed }.gotoWorker w wk .fetchSub)
  | .fetchSub =>
    some ({ s with activeWorkers := s.activeWorkers - 1 }.gotoWorker w wk
      (if s.activeWorkers = 1 then .lock else .done))
  | .lock =>
    if s.workersMutex = none then
      some ({ s with workersMutex := some (.worker w) }.gotoWorker w wk .notify)
    else none
  | .notify => some (s.gotoWorker w wk .unlock)
  | .unlock => some ({ s with workersMutex := none }.gotoWorker w wk .done)
  | .done => none

end State

/-! ## Steps -/

/-- A step. -/
def step (s : State) : Action → Option State
  | .call t c =>
    if s.threads[t]? = some (⟨false, .idle⟩ : Thread) then some (s.goto t ⟨false, .idle⟩ c.pc)
    else none
  | .thread t env => s.threads[t]?.bind fun th => s.stepThread t th env
  | .worker w env => s.workers[w]?.bind fun wk => s.stepWorker w wk env

/-- A run: the client adds a one-shot task and calls `Start`, and the task's worker runs it and
decrements the counter. -/
def oneShot : List Action :=
  [.call 0 .addTask, .thread 0 {}, .thread 0 {}, .call 0 .start] ++
    List.replicate 7 (.thread 0 {}) ++ List.replicate 8 (.worker 0 {})

/-- What is seen of the task of an entry: `Execute` begins and ends, `OnStop` is called, and its
status becomes `Completed`. -/
inductive Event where
  | executeBegins (m : ℕ)
  | executeEnds (m : ℕ)
  | onStop (m : ℕ)
  | completed (m : ℕ)
  deriving DecidableEq, Repr

/-- The entry of an event. -/
def Event.entry : Event → ℕ
  | .executeBegins m | .executeEnds m | .onStop m | .completed m => m

/-- What is seen of the next step of a worker. -/
def Worker.emit (wk : Worker) : List Event :=
  match wk.pc with
  | .execute => [.executeBegins wk.entry]
  | .executing => [.executeEnds wk.entry]
  | .onStop => [.onStop wk.entry]
  | .storeCompleted => [.completed wk.entry]
  | _ => []

/-- What is seen of an action. -/
def emit (s : State) : Action → List Event
  | .worker w _ => s.workers[w]?.elim [] Worker.emit
  | .call _ _ | .thread _ _ => []

end TaskRunner

end RaCommon
