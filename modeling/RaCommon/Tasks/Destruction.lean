import RaCommon.Tasks.ThreadStep

set_option relaxedAutoImplicit false
set_option autoImplicit false

/-!
# Destroying the task runner (`tasks/task_runner.hpp`)

Workers are detached: the destructor waits until the counter `active_workers_` is 0. A worker
decrements the counter before it locks `workers_mutex_` to notify, so that the wait may end, and
the runner be destroyed, while that worker has yet to lock. Where no wait ends so early, no worker
uses a destroyed runner, if a single client thread makes all calls.

## Main definitions

* `RaCommon.TaskRunner.State.Destroyed`, `RaCommon.TaskRunner.State.MemberStep` — the destructor
  has returned, and a worker is about to use a member of the runner.
* `RaCommon.TaskRunner.NoEarlyCheck` — the wait does not end before the last worker has locked.
* `RaCommon.TaskRunner.Drained` — the invariant.

## Main results

* `RaCommon.TaskRunner.destruction` — without early checks, no worker uses a destroyed runner.
* `RaCommon.TaskRunner.use_after_destruction` — with one, a worker does.
* `RaCommon.TaskRunner.early_check` — after every early check a worker may use a destroyed runner.
-/

namespace RaCommon

namespace TaskRunner

/-! ## Destruction -/

/-- A worker whose next step reads, locks or writes a member of the runner. -/
def WorkerPc.usesRunner : WorkerPc → Bool
  | .fetchSub | .lock | .notify | .unlock => true
  | _ => false

/-- The destructor has returned. -/
def State.Destroyed (s : State) : Prop :=
  ∃ t : ℕ, s.threads[t]? = some (⟨false, .destroyed⟩ : Thread)

/-- The next step of worker `w` uses a member of the runner. -/
def State.MemberStep (s : State) (w : ℕ) : Prop :=
  ∃ wk, s.workers[w]? = some wk ∧ wk.pc.usesRunner = true

/-- If the destructor's wait ends, no worker stands between the decrement that made the counter 0
and its lock of `workers_mutex_`. -/
def NoEarlyCheck (s : State) : Action → Prop
  | .thread t _ =>
    s.threads[t]? = some (⟨false, .shutdown true .wait⟩ : Thread) →
      s.workersMutex = none → s.activeWorkers = 0 → ∀ wk ∈ s.workers, wk.pc ≠ .lock
  | .call _ _ | .worker _ _ => True

instance (s : State) (a : Action) : Decidable (NoEarlyCheck s a) :=
  match a with
  | .thread t _ =>
    inferInstanceAs (Decidable (s.threads[t]? = some (⟨false, .shutdown true .wait⟩ : Thread) →
      s.workersMutex = none → s.activeWorkers = 0 → ∀ wk ∈ s.workers, wk.pc ≠ .lock))
  | .call _ _ | .worker _ _ => isTrue trivial

/-! ## The invariant -/

/-- A worker that has not decremented the counter yet. -/
def WorkerPc.counted : WorkerPc → ℕ
  | .lock | .notify | .unlock | .done => 0
  | _ => 1

/-- A thread that has incremented the counter for a worker it has not started yet. -/
def ThreadPc.spawning : ThreadPc → ℕ
  | .spawn _ _ _ => 1
  | _ => 0

/-- Where a poll thread can be. -/
def ThreadPc.polls : ThreadPc → Bool
  | .pollLoop | .pollWait | .collect | .config _ | .fetchAdd _ _ _ | .spawn _ _ _ | .finished =>
    true
  | _ => false

/-- In `Shutdown` after the poll thread was joined. -/
def ThreadPc.joined : ThreadPc → Bool
  | .shutdown _ .wait | .shutdown _ .clear | .destroyed => true
  | _ => false

/-- The destructor's wait has ended. -/
def ThreadPc.waited : ThreadPc → Bool
  | .shutdown true .clear | .destroyed => true
  | _ => false

/-- A worker that holds `workers_mutex_`. -/
def WorkerPc.holds : WorkerPc → Bool
  | .notify | .unlock => true
  | _ => false

/-- A worker that is not counted any more, and neither locks nor holds the mutex. -/
lemma WorkerPc.eq_done {pc : WorkerPc} (hcounted : pc.counted = 0) (hholds : pc.holds = false)
    (hlock : pc ≠ .lock) : pc = .done := by
  cases pc <;> simp_all [WorkerPc.counted, WorkerPc.holds]

/-- The workers and threads that the counter counts. -/
def State.outstanding (s : State) : ℕ :=
  Pool.total (fun wk : Worker => wk.pc.counted) s.workers +
    Pool.total (fun th : Thread => th.pc.spawning) s.threads

/-- The invariant with a single client thread, thread 0, which is at `pc`. -/
structure Drained (pc : ThreadPc) (s : State) : Prop where
  client : s.threads[0]? = some ⟨false, pc⟩
  /-- All other threads are poll threads, and one that has not ended is joinable. -/
  polls : ∀ (t : ℕ) (th : Thread), t ≠ 0 → s.threads[t]? = some th →
    th.poll = true ∧ th.pc.polls = true ∧ (th.pc ≠ .finished → s.pollThread = some t)
  joined : pc.joined = true → s.pollThread = none
  counted : (s.outstanding : ℤ) ≤ s.activeWorkers
  /-- A worker that notifies holds the mutex, and so does `Shutdown` when it clears. -/
  worker_holds : ∀ (w : ℕ) (wk : Worker), s.workers[w]? = some wk → wk.pc.holds = true →
    s.workersMutex = some (.worker w)
  client_holds : ∀ last, pc = .shutdown last .clear → s.workersMutex = some (.thread 0)
  /-- After the destructor's wait, all workers are done. -/
  done : pc.waited = true → ∀ wk ∈ s.workers, wk.pc = .done

namespace Drained

variable {s s' : State} {t : ℕ} {th : Thread} {pc pc' : ThreadPc}

/-- A thread that is not in the poll loop is the client. -/
lemma eq_client (h : Drained pc s) (ht : s.threads[t]? = some th) (hpc : th.pc.polls = false) :
    t = 0 ∧ th = ⟨false, pc⟩ := by
  by_cases h0 : t = 0
  · subst h0
    rw [h.client] at ht
    exact ⟨rfl, (Option.some.inj ht).symm⟩
  · have hpolls := (h.polls t th h0 ht).2.1
    rw [hpc] at hpolls
    cases hpolls

/-- While a thread other than the client runs, the client has not joined it. -/
lemma not_joined (h : Drained pc s) (h0 : t ≠ 0) (ht : s.threads[t]? = some th)
    (hlive : th.pc ≠ .finished) : pc.joined = false := by
  cases hjoined : pc.joined with
  | false => rfl
  | true =>
    have hsome := (h.polls t th h0 ht).2.2 hlive
    rw [h.joined hjoined] at hsome
    cases hsome

/-- Past the destructor's wait the poll thread was joined. -/
lemma joined_of_waited (h : pc.waited = true) : pc.joined = true := by
  cases pc with
  | destroyed => rfl
  | shutdown last at_ =>
    cases at_ <;> first | rfl | (cases last <;> cases h)
  | _ => cases h

/-- A move of thread `t`, which may start workers, keeps the counter at least the count. -/
lemma counted_move {new : List Worker} (h : Drained pc s) (ht : s.threads[t]? = some th)
    (hthreads : s'.threads = s.threads.set t { th with pc := pc' })
    (hworkers : s'.workers = s.workers ++ new)
    (hactive : s.activeWorkers + pc'.spawning + Pool.total (fun wk : Worker => wk.pc.counted) new ≤
      s'.activeWorkers + th.pc.spawning) :
    (s'.outstanding : ℤ) ≤ s'.activeWorkers := by
  have hcounted := h.counted
  have hset := Pool.total_set (fun th' : Thread => th'.pc.spawning) ht { th with pc := pc' }
  rw [State.outstanding] at hcounted ⊢
  rw [hthreads, hworkers, Pool.total_append]
  simp only at hset
  omega

/-- New workers do not hold the mutex. -/
lemma worker_holds_start {new : List Worker} (h : Drained pc s)
    (hworkers : s'.workers = s.workers ++ new) (hmutex : s'.workersMutex = s.workersMutex)
    (hnew : ∀ wk ∈ new, wk.pc.holds = false) (w : ℕ) (wk : Worker)
    (hw : s'.workers[w]? = some wk) (hholds : wk.pc.holds = true) :
    s'.workersMutex = some (.worker w) := by
  rw [hworkers, List.getElem?_append] at hw
  split at hw
  · exact hmutex.trans (h.worker_holds w wk hw hholds)
  · rw [hnew wk (List.mem_of_getElem? hw)] at hholds
    cases hholds

/-- The other threads after a move of the client. -/
lemma polls_client_move (h : Drained pc s)
    (hthreads : s'.threads = s.threads.set 0 ⟨false, pc'⟩) (hpoll : s'.pollThread = s.pollThread) :
    ∀ (t : ℕ) (th : Thread), t ≠ 0 → s'.threads[t]? = some th →
      th.poll = true ∧ th.pc.polls = true ∧ (th.pc ≠ .finished → s'.pollThread = some t) := by
  intro t th h0 ht
  rw [hthreads] at ht
  rw [hpoll]
  rcases Pool.getElem?_set_cases ht with ⟨h0', -⟩ | ⟨-, ht⟩
  · exact absurd h0' h0
  · exact h.polls t th h0 ht

/-- The client after its own move. -/
lemma client_set (h : Drained pc s) (hthreads : s'.threads = s.threads.set 0 ⟨false, pc'⟩) :
    s'.threads[0]? = some ⟨false, pc'⟩ := by
  obtain ⟨hlt, -⟩ := List.getElem?_eq_some_iff.mp h.client
  rw [hthreads, List.getElem?_set_self hlt]

/-- The client moves on. -/
lemma client_move (h : Drained pc s) (hthreads : s'.threads = s.threads.set 0 ⟨false, pc'⟩)
    (hworkers : s'.workers = s.workers) (hpoll : s'.pollThread = s.pollThread)
    (hactive : s.activeWorkers + pc'.spawning ≤ s'.activeWorkers + pc.spawning)
    (hjoined : pc'.joined = true → s.pollThread = none)
    (hworker : ∀ w, s.workersMutex = some (.worker w) → s'.workersMutex = some (.worker w))
    (hclient : ∀ last, pc' = .shutdown last .clear → s'.workersMutex = some (.thread 0))
    (hdone : pc'.waited = true → ∀ wk ∈ s.workers, wk.pc = .done) : Drained pc' s' where
  client := h.client_set hthreads
  polls := h.polls_client_move hthreads hpoll
  joined := fun hpc => hpoll.trans (hjoined hpc)
  counted := h.counted_move h.client hthreads (hworkers.trans (List.append_nil _).symm)
    (by simpa using hactive)
  worker_holds := fun w wk hw hpc => hworker w (h.worker_holds w wk (hworkers ▸ hw) hpc)
  client_holds := hclient
  done := fun hpc => hworkers ▸ hdone hpc

/-- A thread moves on, outside the part of `Shutdown` after the join, and may start workers. -/
lemma move_start {new : List Worker} (h : Drained pc s) (ht : s.threads[t]? = some th)
    (hlive : th.pc ≠ .finished) (hthreads : s'.threads = s.threads.set t { th with pc := pc' })
    (hworkers : s'.workers = s.workers ++ new) (hpoll : s'.pollThread = s.pollThread)
    (hmutex : s'.workersMutex = s.workersMutex)
    (hactive : s.activeWorkers + pc'.spawning + Pool.total (fun wk : Worker => wk.pc.counted) new ≤
      s'.activeWorkers + th.pc.spawning)
    (hnew : ∀ wk ∈ new, wk.pc.holds = false)
    (hjoined : pc'.joined = false)
    (hpolls : th.poll = true → th.pc.polls = true → pc'.polls = true) :
    ∃ pc, Drained pc s' := by
  have hcounted := h.counted_move ht hthreads hworkers hactive
  have hholds := h.worker_holds_start hworkers hmutex hnew
  by_cases h0 : t = 0
  · subst h0
    obtain rfl : th = ⟨false, pc⟩ := Option.some.inj (ht.symm.trans h.client)
    refine ⟨pc', h.client_set hthreads, h.polls_client_move hthreads hpoll, ?_, hcounted, hholds,
      ?_, ?_⟩
    · rw [hjoined]
      exact fun hpc => by cases hpc
    · rintro last rfl
      cases hjoined
    · intro hwaited
      rw [joined_of_waited hwaited] at hjoined
      cases hjoined
  · -- The client has not joined this thread, so that it is not past its wait either.
    have hclient := h.not_joined h0 ht hlive
    obtain ⟨hth, hthpolls, hthpoll⟩ := h.polls t th h0 ht
    refine ⟨pc, ?_, fun t' th' h0' ht' => ?_, fun hpc => hpoll.trans (h.joined hpc), hcounted,
      hholds, fun last hpc => hmutex.trans (h.client_holds last hpc), fun hpc => ?_⟩
    · rw [hthreads, List.getElem?_set_ne h0]
      exact h.client
    · rw [hthreads] at ht'
      rw [hpoll]
      rcases Pool.getElem?_set_cases ht' with ⟨rfl, rfl⟩ | ⟨-, ht'⟩
      · exact ⟨hth, hpolls hth hthpolls, fun _ => hthpoll hlive⟩
      · exact h.polls t' th' h0' ht'
    · rw [joined_of_waited hpc] at hclient
      cases hclient

/-- A thread moves on, outside the part of `Shutdown` after the join. -/
lemma move (h : Drained pc s) (ht : s.threads[t]? = some th) (hlive : th.pc ≠ .finished)
    (hthreads : s'.threads = s.threads.set t { th with pc := pc' })
    (hworkers : s'.workers = s.workers) (hpoll : s'.pollThread = s.pollThread)
    (hmutex : s'.workersMutex = s.workersMutex)
    (hactive : s.activeWorkers + pc'.spawning ≤ s'.activeWorkers + th.pc.spawning)
    (hjoined : pc'.joined = false)
    (hpolls : th.poll = true → th.pc.polls = true → pc'.polls = true) : ∃ pc, Drained pc s' :=
  h.move_start ht hlive hthreads (hworkers.trans (List.append_nil _).symm) hpoll hmutex
    (by simpa using hactive) (by simp) hjoined hpolls

/-- The poll thread is created. -/
lemma spawnPoll (h : Drained .spawnPoll s) (hnone : s.pollThread = none)
    (hthreads : s'.threads = s.threads.set 0 ⟨false, .collect⟩ ++ [⟨true, .pollLoop⟩])
    (hworkers : s'.workers = s.workers) (hpoll : s'.pollThread = some s.threads.length)
    (hmutex : s'.workersMutex = s.workersMutex) (hactive : s'.activeWorkers = s.activeWorkers) :
    Drained .collect s' := by
  obtain ⟨hlt, -⟩ := List.getElem?_eq_some_iff.mp h.client
  refine ⟨?_, fun t th h0 ht => ?_, fun hpc => (by cases hpc), ?_, fun w wk hw hpc => ?_,
    fun last hpc => (by cases hpc), fun hpc => (by cases hpc)⟩
  · rw [hthreads, List.getElem?_append_left (by simpa using hlt), List.getElem?_set_self hlt]
  · rw [hthreads] at ht
    rcases Pool.getElem?_concat_cases ht with ⟨hlen, rfl⟩ | ht
    · refine ⟨rfl, rfl, fun _ => ?_⟩
      rw [hpoll, hlen, List.length_set]
    · rcases Pool.getElem?_set_cases ht with ⟨h0', -⟩ | ⟨-, ht⟩
      · exact absurd h0' h0
      · obtain ⟨hth, hpolls, hjoinable⟩ := h.polls t th h0 ht
        refine ⟨hth, hpolls, fun hlive => ?_⟩
        have hsome := hjoinable hlive
        rw [hnone] at hsome
        cases hsome
  · have hcounted := h.counted
    have hset := Pool.total_set (fun th' : Thread => th'.pc.spawning) h.client ⟨false, .collect⟩
    rw [State.outstanding] at hcounted ⊢
    rw [hworkers, hthreads, hactive, Pool.total_concat]
    have hbefore : ThreadPc.spawnPoll.spawning = 0 := rfl
    have hafter : ThreadPc.collect.spawning = 0 := rfl
    have hnew : ThreadPc.pollLoop.spawning = 0 := rfl
    simp only at hset ⊢
    omega
  · exact hmutex.trans (h.worker_holds w wk (hworkers ▸ hw) hpc)

/-- The poll thread is joined once it has ended, if there is one. -/
lemma join {last : Bool} (h : Drained (.shutdown last .join) s)
    (hfinished : ∀ p, s.pollThread = some p → s.threads[p]? = some ⟨true, .finished⟩) :
    Drained (.shutdown last .wait)
      ({ s with pollThread := none }.goto 0 ⟨false, .shutdown last .join⟩
        (.shutdown last .wait)) := by
  have hended : Drained (.shutdown last .join) { s with pollThread := none } := by
    refine ⟨h.client, fun t th h0 ht => ?_, fun _ => rfl, h.counted, h.worker_holds,
      h.client_holds, h.done⟩
    obtain ⟨hth, hpolls, hjoinable⟩ := h.polls t th h0 ht
    refine ⟨hth, hpolls, fun hlive => absurd ?_ hlive⟩
    have hthread := hfinished t (hjoinable hlive)
    rw [Option.some.inj (ht.symm.trans hthread)]
  exact hended.client_move rfl rfl rfl (Int.le_refl _) (fun _ => rfl) (fun _ hw => hw)
    (fun _ hpc => by cases hpc) (fun hpc => by cases last <;> cases hpc)

/-- All workers are done where the destructor's wait ends, if none is about to lock. -/
lemma done_of_check (h : Drained pc s) (hmutex : s.workersMutex = none)
    (hactive : s.activeWorkers = 0) (hlock : ∀ wk ∈ s.workers, wk.pc ≠ .lock) :
    ∀ wk ∈ s.workers, wk.pc = .done := by
  intro wk hwk
  obtain ⟨w, hw⟩ := List.mem_iff_getElem?.mp hwk
  have hnotCounted : wk.pc.counted = 0 := by
    have hle := Pool.le_total (fun wk' : Worker => wk'.pc.counted) hw
    have hcounted := h.counted
    rw [State.outstanding, hactive] at hcounted
    omega
  have hnotHolding : wk.pc.holds = false := by
    cases hholds : wk.pc.holds with
    | false => rfl
    | true =>
      have hsome := h.worker_holds w wk hw hholds
      rw [hmutex] at hsome
      cases hsome
  exact WorkerPc.eq_done hnotCounted hnotHolding (hlock wk hwk)

/-- **The destructor's wait ends**, not early, or that of a call of `Shutdown`. -/
lemma waitEnds {last : Bool} (h : Drained (.shutdown last .wait) s) (hmutex : s.workersMutex = none)
    (hactive : s.activeWorkers = 0) (hlock : last = true → ∀ wk ∈ s.workers, wk.pc ≠ .lock) :
    Drained (.shutdown last .clear)
      ({ s with workersMutex := some (.thread 0) }.goto 0 ⟨false, .shutdown last .wait⟩
        (.shutdown last .clear)) := by
  refine h.client_move rfl rfl rfl (Int.le_refl _) (fun _ => h.joined rfl) (fun w hw => ?_)
    (fun _ _ => rfl) (fun hwaited => ?_)
  · rw [hmutex] at hw
    cases hw
  · -- Only after the destructor's check all workers have to be done.
    cases last with
    | true => exact h.done_of_check hmutex hactive (hlock rfl)
    | false => cases hwaited

/-- `Shutdown` clears `managed_` and returns. -/
lemma clear {last : Bool} (h : Drained (.shutdown last .clear) s) :
    Drained (if last then .destroyed else .idle)
      ({ s with managed := [], workersMutex := none }.goto 0 ⟨false, .shutdown last .clear⟩
        (if last then .destroyed else .idle)) := by
  refine h.client_move rfl rfl rfl ?_ (fun _ => h.joined rfl) (fun w hw => ?_) ?_
    (fun hwaited => ?_)
  · cases last <;> exact Int.le_refl _
  · rw [h.client_holds last rfl] at hw
    cases hw
  · intro last' hpc
    cases last <;> cases hpc
  · cases last with
    | true => exact h.done rfl
    | false => cases hwaited

/-- **A client or poll thread keeps the invariant**, if the destructor's wait does not end
early.

**Proof sketch.** By cases on how the step goes. Outside `Pass` and the poll loop, the thread is the
client (`eq_client`). -/
theorem threadStep {env : Env} (h : Drained pc s) (ht : s.threads[t]? = some th)
    (hcheck : th = ⟨false, .shutdown true .wait⟩ → s.workersMutex = none → s.activeWorkers = 0 →
      ∀ wk ∈ s.workers, wk.pc ≠ .lock)
    (hstep : ThreadStep env s t th s') : ∃ pc, Drained pc s' := by
  cases hstep with
  | push | spawnPollThrows | storeStop | notifyPoll =>
    exact h.move ht (by simp) rfl rfl rfl rfl (Int.le_refl _) rfl fun _ hpolls => by cases hpolls
  | readRunning | exchange | stop =>
    refine h.move ht (by simp) rfl rfl rfl rfl ?_ ?_ fun _ hpolls => by cases hpolls
    · split <;> exact Int.le_refl _
    · split <;> rfl
  | spawnPoll hcreated hnone =>
    obtain ⟨rfl, hth⟩ := h.eq_client ht rfl
    cases hth
    refine ⟨_, h.spawnPoll hnone rfl rfl ?_ rfl rfl⟩
    simp [State.goto, State.addPoll]
  | pollLoop | pollWait =>
    refine h.move ht (by simp) rfl rfl rfl rfl ?_ ?_ fun _ _ => ?_
    · split <;> exact Int.le_refl _
    · split <;> rfl
    · split <;> rfl
  | collect | config =>
    exact h.move ht (by simp) rfl rfl rfl rfl (Int.le_refl _) rfl fun _ _ => rfl
  | collectThrows | configThrows =>
    exact h.move ht (by simp) rfl rfl rfl rfl (Int.le_refl _) rfl fun hpoll => by cases hpoll
  | @configDone poll =>
    refine h.move ht (by simp) rfl rfl rfl rfl ?_ ?_ fun hpoll _ => ?_
    · cases poll <;> exact Int.le_refl _
    · cases poll <;> rfl
    · cases hpoll
      rfl
  | fetchAdd =>
    refine h.move ht (by simp) rfl rfl rfl rfl ?_ rfl fun _ _ => rfl
    simp [State.goto, ThreadPc.spawning]
  | spawn =>
    refine h.move_start ht (by simp) rfl rfl rfl rfl ?_ (by simp [WorkerPc.holds]) rfl
      fun _ _ => rfl
    simp [State.goto, State.addWorker, ThreadPc.spawning, WorkerPc.counted]
  | spawnThrows =>
    refine h.move ht (by simp) rfl rfl rfl rfl ?_ rfl fun hpoll => by cases hpoll
    simp only [State.goto, ThreadPc.spawning]
    omega
  | join hended =>
    obtain ⟨rfl, hth⟩ := h.eq_client ht rfl
    cases hth
    exact ⟨_, h.join hended⟩
  | waitEnds hmutex hactive =>
    obtain ⟨rfl, hth⟩ := h.eq_client ht rfl
    cases hth
    exact ⟨_, h.waitEnds hmutex hactive fun hlast => hcheck (by rw [hlast]) hmutex hactive⟩
  | @waitAgain poll last =>
    obtain ⟨rfl, hth⟩ := h.eq_client ht rfl
    cases hth
    exact ⟨_, h.client_move rfl rfl rfl (Int.le_refl _) (fun _ => h.joined rfl) (fun _ hw => hw)
      (fun _ hpc => by cases hpc) (fun hpc => by cases last <;> cases hpc)⟩
  | clear =>
    obtain ⟨rfl, hth⟩ := h.eq_client ht rfl
    cases hth
    exact ⟨_, h.clear⟩

/-- A worker moves on. -/
lemma worker_move {w : ℕ} {wk : Worker} {pc' : WorkerPc} (h : Drained pc s)
    (hw : s.workers[w]? = some wk) (hlive : wk.pc ≠ .done) (hthreads : s'.threads = s.threads)
    (hworkers : s'.workers = s.workers.set w { wk with pc := pc' })
    (hpoll : s'.pollThread = s.pollThread)
    (hactive : s.activeWorkers + pc'.counted ≤ s'.activeWorkers + wk.pc.counted)
    (hother : ∀ p, p ≠ .worker w → s.workersMutex = some p → s'.workersMutex = some p)
    (hholds : pc'.holds = true → s'.workersMutex = some (.worker w)) : Drained pc s' where
  client := hthreads ▸ h.client
  polls := by
    rw [hthreads, hpoll]
    exact h.polls
  joined := fun hpc => hpoll.trans (h.joined hpc)
  counted := by
    have hcounted := h.counted
    have hset := Pool.total_set (fun wk' : Worker => wk'.pc.counted) hw { wk with pc := pc' }
    rw [State.outstanding] at hcounted ⊢
    rw [hthreads, hworkers]
    simp only at hset
    omega
  worker_holds := fun w' wk' hw' hpc => by
    rw [hworkers] at hw'
    rcases Pool.getElem?_set_cases hw' with ⟨rfl, rfl⟩ | ⟨hne, hw'⟩
    · exact hholds hpc
    · exact hother _ (by simpa using hne) (h.worker_holds w' wk' hw' hpc)
  client_holds := fun last hpc => hother _ (by simp) (h.client_holds last hpc)
  done := fun hpc => absurd (h.done hpc wk (List.mem_of_getElem? hw)) hlive

/-- A worker that neither counts itself out nor uses the mutex. -/
lemma worker_quiet {w : ℕ} {wk : Worker} {pc' : WorkerPc} (h : Drained pc s)
    (hw : s.workers[w]? = some wk) (hlive : wk.pc ≠ .done) (hthreads : s'.threads = s.threads)
    (hworkers : s'.workers = s.workers.set w { wk with pc := pc' })
    (hpoll : s'.pollThread = s.pollThread) (hmutex : s'.workersMutex = s.workersMutex)
    (hactive : s'.activeWorkers = s.activeWorkers) (hcounted : pc'.counted = wk.pc.counted)
    (hholds : pc'.holds = wk.pc.holds) : Drained pc s' := by
  refine h.worker_move hw hlive hthreads hworkers hpoll ?_ (fun p _ hp => hmutex.trans hp)
    (fun hpc => ?_)
  · omega
  · exact hmutex.trans (h.worker_holds w wk hw (hholds.symm.trans hpc))

/-- **A worker keeps the invariant.** -/
theorem stepWorker {w : ℕ} {wk : Worker} {env : Env} (h : Drained pc s)
    (hw : s.workers[w]? = some wk) (hstep : s.stepWorker w wk env = some s') : Drained pc s' := by
  obtain ⟨m, cfg, wpc⟩ := wk
  cases wpc with
  | start | loadStop | shouldStop | executing =>
    cases hstep
    refine h.worker_quiet hw (by simp) rfl rfl rfl rfl rfl ?_ ?_
    · split <;> rfl
    · split <;> rfl
  | fetchSub =>
    cases hstep
    refine h.worker_move hw (by simp) rfl rfl rfl ?_ (fun _ _ hp => hp) (fun hpc => ?_)
    · have hfree : ∀ c : Prop, [Decidable c] →
          (if c then WorkerPc.lock else WorkerPc.done).counted = 0 := by
        intro c _
        split <;> rfl
      rw [hfree]
      simp only [State.gotoWorker, WorkerPc.counted]
      omega
    · split at hpc <;> cases hpc
  | lock =>
    simp only [State.stepWorker] at hstep
    split at hstep
    · next hmutex =>
      cases hstep
      refine h.worker_move hw (by simp) rfl rfl rfl (Int.le_refl _) (fun p _ hp => ?_) fun _ => rfl
      rw [hmutex] at hp
      cases hp
    · cases hstep
  | unlock =>
    cases hstep
    refine h.worker_move hw (by simp) rfl rfl rfl (Int.le_refl _) (fun p hne hp => ?_)
      (fun hpc => by cases hpc)
    have hself := h.worker_holds w _ hw rfl
    exact absurd (Option.some.inj (hp.symm.trans hself)) hne
  | done => cases hstep
  | delay | onStop | storeRunning | execute | storeReady | sleep | storeCompleted | notify =>
    cases hstep
    exact h.worker_quiet hw (by simp) rfl rfl rfl rfl rfl rfl rfl

/-- The invariant holds at the start. -/
lemma init : Drained .idle (.init 1) where
  client := rfl
  polls := fun t th h0 ht => by
    obtain ⟨t, rfl⟩ := Nat.exists_eq_succ_of_ne_zero h0
    simp [State.init] at ht
  joined := fun hpc => by cases hpc
  counted := Int.le_refl 0
  worker_holds := by simp [State.init]
  client_holds := fun _ hpc => by cases hpc
  done := fun hpc => by cases hpc

/-- **Every step keeps the invariant**, if the destructor's wait does not end early. -/
theorem step {a : Action} (h : Drained pc s) (hcheck : NoEarlyCheck s a)
    (hstep : step s a = some s') : ∃ pc, Drained pc s' := by
  rcases step_cases hstep with ⟨t, c, rfl, ht, rfl⟩ | ⟨t, env, th, rfl, ht, hth⟩ |
    ⟨w, env, wk, rfl, hw, hwk⟩
  · refine h.move ht (by simp) rfl rfl rfl rfl ?_ ?_ fun hpoll => by cases hpoll
    · cases c <;> exact Int.le_refl _
    · cases c <;> rfl
  · exact h.threadStep ht (fun hwait => hcheck (hwait ▸ ht)) hth
  · exact ⟨pc, h.stepWorker hw hwk⟩

end Drained

/-! ## Main results -/

/-- The client destroys the runner: `Shutdown` up to the join, the end of the poll thread, and the
rest of `Shutdown`. -/
def destroy : List Action :=
  .call 0 .destroy :: List.replicate 3 (.thread 0 {}) ++ .thread 1 {} ::
    List.replicate 3 (.thread 0 {})

/-- **Without early checks, no worker uses a destroyed runner**: in every run with a single client
thread in which the destructor's wait never ends while a worker stands between the decrement that
made the counter 0 and its lock, no step of a worker after the destructor has returned uses a
member of the runner.

**Proof sketch.** Every step keeps `Drained`. The counter is at least the number of workers that
have not decremented it, and a worker that notifies holds the mutex; so if the wait ends, with the
mutex free and the counter 0, every worker is about to lock or done. No worker is started any more,
since the poll thread was joined and the client is in the destructor. -/
theorem destruction (as : List Action) (s : State)
    (h : Transition.exec step (.init 1) as = some s)
    (hcheck : Transition.Meets step NoEarlyCheck (.init 1) as) (hdestroyed : s.Destroyed) :
    ∀ w env s', step s (.worker w env) = some s' → ¬ s.MemberStep w := by
  obtain ⟨pc, hdrained⟩ := Transition.guarded_invariant (I := fun s => ∃ pc, Drained pc s)
    ⟨_, Drained.init⟩ (fun s a t ⟨pc, hI⟩ hG hstep => hI.step hG hstep) as s hcheck h
  obtain ⟨t, ht⟩ := hdestroyed
  obtain ⟨-, hth⟩ := hdrained.eq_client ht rfl
  rintro w env s' - ⟨wk, hw, huses⟩
  have hdone := hdrained.done (by cases hth; rfl) wk (List.mem_of_getElem? hw)
  rw [hdone] at huses
  cases huses

/-- The destruction of a runner whose worker has locked, notified and unlocked before. -/
theorem destruction_oneShot :
    ∃ s, Transition.exec step (.init 1) (oneShot ++ List.replicate 3 (.worker 0 {}) ++ destroy) =
        some s ∧ s.Destroyed ∧
      ∀ w env s', step s (.worker w env) = some s' → ¬ s.MemberStep w := by
  obtain ⟨s, hs, hthread⟩ : ∃ s, Transition.exec step (.init 1)
      (oneShot ++ List.replicate 3 (.worker 0 {}) ++ destroy) = some s ∧
      s.threads[0]? = some (⟨false, .destroyed⟩ : Thread) := ⟨_, rfl, rfl⟩
  exact ⟨s, hs, ⟨0, hthread⟩, destruction _ s hs (by decide) ⟨0, hthread⟩⟩

/-- **The destructor may return while a worker has yet to lock**: the worker decrements the counter
to 0, the destructor's wait ends at once, and the worker's next step locks the mutex of the
destroyed runner. -/
theorem use_after_destruction :
    ¬ ∀ (as : List Action) (s : State), Transition.exec step (.init 1) as = some s → s.Destroyed →
      ∀ w env s', step s (.worker w env) = some s' → ¬ s.MemberStep w := by
  intro hclaim
  obtain ⟨s, s', hs, hthread, hstep, hworker⟩ : ∃ s s',
      Transition.exec step (.init 1) (oneShot ++ destroy) = some s ∧
      s.threads[0]? = some (⟨false, .destroyed⟩ : Thread) ∧
      step s (.worker 0 {}) = some s' ∧ s.workers[0]? = some (⟨0, {}, .lock⟩ : Worker) :=
    ⟨_, _, rfl, rfl, rfl, rfl⟩
  exact hclaim _ s hs ⟨0, hthread⟩ 0 {} s' hstep ⟨_, hworker, rfl⟩

/-- **After every early check a worker may use a destroyed runner**: if the destructor's wait can
end while worker `w` is about to lock `workers_mutex_`, then the client's next two steps destroy the
runner, and the lock, which is free again, is a step that `w` can take. -/
theorem early_check {s : State} {wk : Worker} {w : ℕ}
    (hclient : s.threads[0]? = some (⟨false, .shutdown true .wait⟩ : Thread))
    (hmutex : s.workersMutex = none) (hactive : s.activeWorkers = 0)
    (hw : s.workers[w]? = some wk) (hlock : wk.pc = .lock) :
    ∃ s' s'', Transition.exec step s [.thread 0 {}, .thread 0 {}] = some s' ∧ s'.Destroyed ∧
      step s' (.worker w {}) = some s'' ∧ s'.MemberStep w := by
  obtain ⟨hlt, -⟩ := List.getElem?_eq_some_iff.mp hclient
  have hwait : step s (.thread 0 {}) = some ({ s with workersMutex := some (.thread 0) }.goto 0
      ⟨false, .shutdown true .wait⟩ (.shutdown true .clear)) := by
    simp [step, hclient, State.stepThread, State.stepShutdown, hmutex, hactive]
  generalize hchecked : { s with workersMutex := some (.thread 0) }.goto 0
    ⟨false, .shutdown true .wait⟩ (.shutdown true .clear) = checked at hwait
  have hchecked0 : checked.threads[0]? = some ⟨false, .shutdown true .clear⟩ := by
    rw [← hchecked]
    exact List.getElem?_set_self hlt
  obtain ⟨hlt', -⟩ := List.getElem?_eq_some_iff.mp hchecked0
  have hclear : step checked (.thread 0 {}) = some ({ checked with
      managed := [], workersMutex := none }.goto 0 ⟨false, .shutdown true .clear⟩ .destroyed) := by
    simp [step, hchecked0, State.stepThread, State.stepShutdown]
  generalize hdestroyed : { checked with managed := [], workersMutex := none }.goto 0
    ⟨false, .shutdown true .clear⟩ .destroyed = destroyed at hclear
  have hworker : destroyed.workers[w]? = some wk := by
    rw [← hdestroyed, ← hchecked]
    exact hw
  have hfree : destroyed.workersMutex = none := by
    rw [← hdestroyed]
    rfl
  refine ⟨destroyed, { destroyed with workersMutex := some (.worker w) }.gotoWorker w wk .notify,
    ?_, ⟨0, ?_⟩, ?_, wk, hworker, ?_⟩
  · rw [Transition.exec_cons, hwait, Option.bind_some, Transition.exec_cons, hclear]
    rfl
  · rw [← hdestroyed]
    exact List.getElem?_set_self hlt'
  · simp [step, hworker, State.stepWorker, hlock, hfree]
  · rw [hlock]
    rfl

end TaskRunner

end RaCommon
