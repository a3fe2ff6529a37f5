import RaCommon.Tasks.TaskRunner

set_option relaxedAutoImplicit false
set_option autoImplicit false

/-!
# What a step of a thread does (`tasks/task_runner.hpp`)

The step function of client and poll threads, read off once: one case for each way that a step can
go, with its guard and the state it leads to. What later modules say about a step is shown by cases
on this relation.

## Main definitions

* `RaCommon.TaskRunner.ThreadStep` — the ways that a step of a thread can go.

## Main results

* `RaCommon.TaskRunner.threadStep_iff` — these are the steps of `State.stepThread`.
* `RaCommon.TaskRunner.step_cases` — what an action can be.
-/

namespace RaCommon

namespace TaskRunner

namespace State

/-- The entries that the locked block of `Pass` keeps in `managed_`. -/
def retained (s : State) : List ℕ := s.managed.filter fun m => (s.entry m).status ≠ .completed

/-- What the loop of the locked block of `Pass` leaves. -/
def collected (s : State) (env : Env) : Collected := collectLoop env.config s.retained s.entry

/-- The state after the locked block of `Pass`. -/
def afterCollect (s : State) (env : Env) : State :=
  { s with managed := s.retained, entry := (s.collected env).entry }

/-- A new poll thread, which is joinable. -/
def addPoll (s : State) : State :=
  { s with
    pollThread := some s.threads.length
    threads := s.threads ++ [⟨true, .pollLoop⟩] }

/-- A new worker. -/
def addWorker (s : State) (m : ℕ) (cfg : TaskConfig) : State :=
  { s with workers := s.workers ++ [⟨m, cfg, .start⟩] }

variable {s s' : State} {t : ℕ} {th : Thread} {m : ℕ}

/-- `Pass` keeps what is not `Completed`. -/
lemma mem_retained : m ∈ s.retained ↔ m ∈ s.managed ∧ (s.entry m).status ≠ .completed := by
  rw [retained, List.mem_filter, decide_eq_true_iff]

/-- The locked block of `Pass` changes nothing of an entry but its mark. -/
lemma collected_apply (s : State) (env : Env) (m : ℕ) :
    ∃ b, (s.collected env).entry m = { s.entry m with scheduled := b } :=
  collectLoop_apply env.config s.retained s.entry m

/-- In particular not its `stop`. -/
lemma stop_collected (s : State) (env : Env) (m : ℕ) :
    ((s.collected env).entry m).stop = (s.entry m).stop := by
  obtain ⟨b, hb⟩ := s.collected_apply env m
  rw [hb]

/-- An exception leaves a client's `Pass`, never one of a poll thread. -/
lemma raise_eq_some : s.raise t th = some s' ↔ th.poll = false ∧ s.goto t th .idle = s' := by
  rw [raise]
  cases th.poll <;> simp

end State

/-- **The ways that a step of thread `t` can go.** A step whose name ends in `Throws` ends a call by
an exception. Out of a `Pass` it does so in a client only: in a poll thread it would end the
process. -/
inductive ThreadStep (env : Env) (s : State) (t : ℕ) : Thread → State → Prop where
  | push {poll : Bool} : ThreadStep env s t ⟨poll, .push⟩ ({ s with
      entry := Function.update s.entry s.made {}
      made := s.made + 1
      managed := s.managed ++ [s.made] }.goto t ⟨poll, .push⟩ .readRunning)
  | readRunning {poll : Bool} : ThreadStep env s t ⟨poll, .readRunning⟩
      (s.goto t ⟨poll, .readRunning⟩ (if s.running then .collect else .idle))
  | exchange {poll : Bool} : ThreadStep env s t ⟨poll, .exchange⟩
      ({ s with running := true }.goto t ⟨poll, .exchange⟩
        (if s.running then .idle else .spawnPoll))
  | spawnPoll {poll : Bool} (hcreated : env.created = true) (hnone : s.pollThread = none) :
      ThreadStep env s t ⟨poll, .spawnPoll⟩ (s.goto t ⟨poll, .spawnPoll⟩ .collect).addPoll
  | spawnPollThrows {poll : Bool} (hcreated : env.created = false) :
      ThreadStep env s t ⟨poll, .spawnPoll⟩ (s.goto t ⟨poll, .spawnPoll⟩ .idle)
  | pollLoop {poll : Bool} : ThreadStep env s t ⟨poll, .pollLoop⟩
      (s.goto t ⟨poll, .pollLoop⟩ (if s.running then .pollWait else .finished))
  | pollWait {poll : Bool} : ThreadStep env s t ⟨poll, .pollWait⟩
      (s.goto t ⟨poll, .pollWait⟩ (if s.running then .collect else .finished))
  | collect {poll : Bool} {l : List ℕ} (hl : (s.collected env).toSchedule = some l) :
      ThreadStep env s t ⟨poll, .collect⟩ ((s.afterCollect env).goto t ⟨poll, .collect⟩ (.config l))
  | collectThrows (hnone : (s.collected env).toSchedule = none) :
      ThreadStep env s t ⟨false, .collect⟩ ((s.afterCollect env).goto t ⟨false, .collect⟩ .idle)
  | configDone {poll : Bool} : ThreadStep env s t ⟨poll, .config []⟩
      (s.goto t ⟨poll, .config []⟩ (Thread.home ⟨poll, .config []⟩))
  | config {poll : Bool} {m : ℕ} {rest : List ℕ} {cfg : TaskConfig}
      (hcfg : env.config m = some cfg) : ThreadStep env s t ⟨poll, .config (m :: rest)⟩
        (s.goto t ⟨poll, .config (m :: rest)⟩ (.fetchAdd m cfg rest))
  | configThrows {m : ℕ} {rest : List ℕ} (hnone : env.config m = none) :
      ThreadStep env s t ⟨false, .config (m :: rest)⟩
        (s.goto t ⟨false, .config (m :: rest)⟩ .idle)
  | fetchAdd {poll : Bool} {m : ℕ} {cfg : TaskConfig} {rest : List ℕ} :
      ThreadStep env s t ⟨poll, .fetchAdd m cfg rest⟩
        ({ s with activeWorkers := s.activeWorkers + 1 }.goto t ⟨poll, .fetchAdd m cfg rest⟩
          (.spawn m cfg rest))
  | spawn {poll : Bool} {m : ℕ} {cfg : TaskConfig} {rest : List ℕ} (hcreated : env.created = true) :
      ThreadStep env s t ⟨poll, .spawn m cfg rest⟩
        ((s.goto t ⟨poll, .spawn m cfg rest⟩ (.config rest)).addWorker m cfg)
  | spawnThrows {m : ℕ} {cfg : TaskConfig} {rest : List ℕ} (hcreated : env.created = false) :
      ThreadStep env s t ⟨false, .spawn m cfg rest⟩
        (s.goto t ⟨false, .spawn m cfg rest⟩ .idle)
  | stop {poll last : Bool} : ThreadStep env s t ⟨poll, .shutdown last .exchange⟩
      ({ s with running := false }.goto t ⟨poll, .shutdown last .exchange⟩
        (.shutdown last (if s.running then .storeStop else .join)))
  | storeStop {poll last : Bool} : ThreadStep env s t ⟨poll, .shutdown last .storeStop⟩
      ({ s with entry := storeStop s.entry s.managed }.goto t ⟨poll, .shutdown last .storeStop⟩
        (.shutdown last .notifyPoll))
  | notifyPoll {poll last : Bool} : ThreadStep env s t ⟨poll, .shutdown last .notifyPoll⟩
      (s.goto t ⟨poll, .shutdown last .notifyPoll⟩ (.shutdown last .join))
  | join {poll last : Bool}
      (hended : ∀ p, s.pollThread = some p → s.threads[p]? = some (⟨true, .finished⟩ : Thread)) :
      ThreadStep env s t ⟨poll, .shutdown last .join⟩
        ({ s with pollThread := none }.goto t ⟨poll, .shutdown last .join⟩ (.shutdown last .wait))
  | waitEnds {poll last : Bool} (hmutex : s.workersMutex = none) (hactive : s.activeWorkers = 0) :
      ThreadStep env s t ⟨poll, .shutdown last .wait⟩
        ({ s with workersMutex := some (.thread t) }.goto t ⟨poll, .shutdown last .wait⟩
          (.shutdown last .clear))
  | waitAgain {poll last : Bool} (hmutex : s.workersMutex = none) (hactive : s.activeWorkers ≠ 0) :
      ThreadStep env s t ⟨poll, .shutdown last .wait⟩
        (s.goto t ⟨poll, .shutdown last .wait⟩ (.shutdown last .wait))
  | clear {poll last : Bool} : ThreadStep env s t ⟨poll, .shutdown last .clear⟩
      ({ s with managed := [], workersMutex := none }.goto t ⟨poll, .shutdown last .clear⟩
        (if last then .destroyed else .idle))

/-- The steps of `Shutdown`. -/
lemma threadStep_of_stepShutdown {env : Env} {s s' : State} {t : ℕ} {poll last : Bool}
    {pc : ShutdownPc} (h : s.stepShutdown t ⟨poll, .shutdown last pc⟩ last pc = some s') :
    ThreadStep env s t ⟨poll, .shutdown last pc⟩ s' := by
  cases pc with
  | exchange =>
    cases h
    exact .stop
  | storeStop =>
    cases h
    exact .storeStop
  | notifyPoll =>
    cases h
    exact .notifyPoll
  | join =>
    simp only [State.stepShutdown] at h
    split at h
    · next hnone =>
      cases h
      have hs : s = { s with pollThread := none } := by rw [← hnone]
      rw [hs]
      exact .join fun p hp => by cases hp
    · next p hp =>
      split at h
      · next hended =>
        cases h
        exact .join fun p' hp' => by rwa [← Option.some.inj (hp.symm.trans hp')]
      · cases h
  | wait =>
    simp only [State.stepShutdown] at h
    split at h
    · next hmutex =>
      split at h
      · next hactive =>
        cases h
        exact .waitEnds hmutex hactive
      · next hactive =>
        cases h
        exact .waitAgain hmutex hactive
    · cases h
  | clear =>
    cases h
    exact .clear

/-- A step of a thread goes one of these ways. -/
lemma threadStep_of_stepThread {env : Env} {s s' : State} {t : ℕ} {th : Thread}
    (h : s.stepThread t th env = some s') : ThreadStep env s t th s' := by
  obtain ⟨poll, pc⟩ := th
  cases pc with
  | idle => cases h
  | finished => cases h
  | destroyed => cases h
  | push =>
    cases h
    exact .push
  | readRunning =>
    cases h
    exact .readRunning
  | exchange =>
    cases h
    exact .exchange
  | spawnPoll =>
    simp only [State.stepThread] at h
    split at h
    · next hcreated =>
      split at h
      · next hnone =>
        cases h
        exact .spawnPoll hcreated hnone
      · cases h
    · next hcreated =>
      cases h
      exact .spawnPollThrows (Bool.eq_false_iff.mpr hcreated)
  | pollLoop =>
    cases h
    exact .pollLoop
  | pollWait =>
    cases h
    exact .pollWait
  | collect =>
    simp only [State.stepThread] at h
    split at h
    · next hl =>
      cases h
      exact .collect hl
    · next hnone =>
      obtain ⟨hpoll, rfl⟩ := State.raise_eq_some.mp h
      cases hpoll
      exact .collectThrows hnone
  | config rest =>
    cases rest with
    | nil =>
      cases h
      exact .configDone
    | cons m rest =>
      simp only [State.stepThread] at h
      split at h
      · next hcfg =>
        cases h
        exact .config hcfg
      · next hnone =>
        obtain ⟨hpoll, rfl⟩ := State.raise_eq_some.mp h
        cases hpoll
        exact .configThrows hnone
  | fetchAdd m cfg rest =>
    cases h
    exact .fetchAdd
  | spawn m cfg rest =>
    simp only [State.stepThread] at h
    split at h
    · next hcreated =>
      cases h
      exact .spawn hcreated
    · next hcreated =>
      obtain ⟨hpoll, rfl⟩ := State.raise_eq_some.mp h
      cases hpoll
      exact .spawnThrows (Bool.eq_false_iff.mpr hcreated)
  | shutdown last pc => exact threadStep_of_stepShutdown h

/-- Each way can be gone if its guard holds. -/
lemma ThreadStep.stepThread_eq_some {env : Env} {s s' : State} {t : ℕ} {th : Thread}
    (h : ThreadStep env s t th s') : s.stepThread t th env = some s' := by
  cases h with
  | push | readRunning | exchange | pollLoop | pollWait | configDone | fetchAdd | stop | storeStop
  | notifyPoll | clear => rfl
  | spawnPoll hcreated hnone => simp [State.stepThread, State.addPoll, hcreated, hnone]
  | spawnPollThrows hcreated => simp [State.stepThread, hcreated]
  | collect hl =>
    simp only [State.stepThread]
    split
    · next hl' =>
      rw [State.afterCollect, ← Option.some.inj (hl'.symm.trans hl)]
      rfl
    · next hnone => cases hl.symm.trans hnone
  | collectThrows hnone =>
    simp only [State.stepThread]
    split
    · next hl => cases hl.symm.trans hnone
    · exact State.raise_eq_some.mpr ⟨rfl, rfl⟩
  | config hcfg => simp [State.stepThread, hcfg]
  | configThrows hnone => simp [State.stepThread, hnone, State.raise]
  | spawn hcreated => simp [State.stepThread, State.addWorker, hcreated]
  | spawnThrows hcreated => simp [State.stepThread, State.raise, hcreated]
  | join hended =>
    simp only [State.stepThread, State.stepShutdown]
    split
    · next hnone =>
      have hs : s = { s with pollThread := none } := by rw [← hnone]
      rw [← hs]
    · next p hp => rw [if_pos (hended p hp)]
  | waitEnds hmutex hactive => simp [State.stepThread, State.stepShutdown, hmutex, hactive]
  | waitAgain hmutex hactive => simp [State.stepThread, State.stepShutdown, hmutex, hactive]

/-- **The steps of a thread** are the ways that its step can go. -/
theorem threadStep_iff {env : Env} {s s' : State} {t : ℕ} {th : Thread} :
    s.stepThread t th env = some s' ↔ ThreadStep env s t th s' :=
  ⟨threadStep_of_stepThread, ThreadStep.stepThread_eq_some⟩

/-- **What an action can be**: a call of a client outside any other call, a step of a thread, or one
of a worker. -/
theorem step_cases {s s' : State} {a : Action} (h : step s a = some s') :
    (∃ t c, a = .call t c ∧ s.threads[t]? = some ⟨false, .idle⟩ ∧
      s' = s.goto t ⟨false, .idle⟩ c.pc) ∨
    (∃ t env th, a = .thread t env ∧ s.threads[t]? = some th ∧ ThreadStep env s t th s') ∨
    ∃ w env wk, a = .worker w env ∧ s.workers[w]? = some wk ∧ s.stepWorker w wk env = some s' := by
  cases a with
  | call t c =>
    rw [step] at h
    split at h
    · next ht => exact .inl ⟨t, c, rfl, ht, (Option.some.inj h).symm⟩
    · cases h
  | thread t env =>
    obtain ⟨th, ht, hth⟩ := Option.bind_eq_some_iff.mp h
    exact .inr (.inl ⟨t, env, th, rfl, ht, threadStep_iff.mp hth⟩)
  | worker w env =>
    obtain ⟨wk, hw, hwk⟩ := Option.bind_eq_some_iff.mp h
    exact .inr (.inr ⟨w, env, wk, rfl, hw, hwk⟩)

end TaskRunner

end RaCommon
