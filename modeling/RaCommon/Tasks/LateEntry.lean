import RaCommon.Tasks.Stopping

set_option relaxedAutoImplicit false
set_option autoImplicit false

/-!
# What a late entry leads to (`tasks/task_runner.hpp`)

A step that leaves a late entry does no harm in every run: its worker may end by itself before
`Shutdown` waits. But the threads can always be scheduled so that it does not, unless `Start` has
been called meanwhile: what is left of a `Pass` is carried out, the poll thread ends, and `Shutdown`
joins it and waits while a worker is alive that was not told to stop.

## Main definitions

* `RaCommon.TaskRunner.Polling` — where poll threads can be.
* `RaCommon.TaskRunner.RunsTo` — a thread is run to some place while all others stand still.
* `RaCommon.TaskRunner.State.Missed` — a live worker has not been told to stop.

## Main results

* `RaCommon.TaskRunner.late_entry_waits` — in a run that leaves a late entry, `Shutdown` may come to
  wait for a worker that has not been told to stop.
-/

namespace RaCommon

namespace TaskRunner

/-! ## Poll threads -/

/-- Poll threads are in their loop or in a `Pass`, and the thread of `poll_thread_` is one. -/
structure Polling (s : State) : Prop where
  polls : ∀ (t : ℕ) (th : Thread), s.threads[t]? = some th → th.poll = true → th.pc.polls = true
  joinable : ∀ p, s.pollThread = some p → ∃ th, s.threads[p]? = some th ∧ th.poll = true

namespace Polling

variable {s s' : State} {t : ℕ} {th : Thread} {pc : ThreadPc}

/-- A thread moves on, and no new thread is joinable. -/
lemma of_set (h : Polling s) (ht : s.threads[t]? = some th)
    (hthreads : s'.threads = s.threads.set t { th with pc })
    (hpoll : ∀ p, s'.pollThread = some p → s.pollThread = some p)
    (hpc : th.poll = true → th.pc.polls = true → pc.polls = true) : Polling s' where
  polls := by
    rw [hthreads]
    exact Pool.forall_set (fun t' th' ht' _ => h.polls t' th' ht')
      fun hth => hpc hth (h.polls t th ht hth)
  joinable := fun p hp => by
    obtain ⟨th', hth', hth'poll⟩ := h.joinable p (hpoll p hp)
    obtain ⟨hlt, -⟩ := List.getElem?_eq_some_iff.mp ht
    rw [hthreads]
    by_cases hpt : p = t
    · subst hpt
      obtain rfl := Option.some.inj (ht.symm.trans hth')
      exact ⟨_, List.getElem?_set_self hlt, hth'poll⟩
    · exact ⟨th', by rw [List.getElem?_set_ne (Ne.symm hpt), hth'], hth'poll⟩

/-- The poll thread is created. -/
lemma addPoll (h : Polling s) : Polling s.addPoll where
  polls := Pool.forall_concat h.polls fun _ => rfl
  joinable := fun p hp => by
    obtain rfl := Option.some.inj hp
    exact ⟨⟨true, .pollLoop⟩, List.getElem?_concat_length, rfl⟩

/-- A client or poll thread keeps the invariant. -/
lemma threadStep {env : Env} (h : Polling s) (ht : s.threads[t]? = some th)
    (hstep : ThreadStep env s t th s') : Polling s' := by
  cases hstep with
  | spawnPoll =>
    have hgoto : Polling (s.goto t _ .collect) :=
      h.of_set ht rfl (fun _ hp => hp) fun _ hpc => by cases hpc
    exact hgoto.addPoll
  | collect | config | fetchAdd | spawn =>
    exact h.of_set ht rfl (fun _ hp => hp) fun _ _ => rfl
  | pollLoop | pollWait =>
    refine h.of_set ht rfl (fun _ hp => hp) fun _ _ => ?_
    split <;> rfl
  | configDone =>
    refine h.of_set ht rfl (fun _ hp => hp) fun hpoll _ => ?_
    cases hpoll
    rfl
  | collectThrows | configThrows | spawnThrows =>
    exact h.of_set ht rfl (fun _ hp => hp) fun hpoll => by cases hpoll
  | join => exact h.of_set ht rfl (fun _ hp => by cases hp) fun _ hpc => by cases hpc
  | push | readRunning | exchange | spawnPollThrows | stop | storeStop | notifyPoll | waitEnds
  | waitAgain | clear =>
    exact h.of_set ht rfl (fun _ hp => hp) fun _ hpc => by cases hpc

/-- **Every step** keeps the invariant. -/
lemma step {a : Action} (h : Polling s) (hstep : step s a = some s') : Polling s' := by
  rcases step_cases hstep with ⟨t, c, rfl, ht, rfl⟩ | ⟨t, env, th, rfl, ht, hth⟩ |
    ⟨w, env, wk, rfl, hw, hwk⟩
  · exact h.of_set ht rfl (fun _ hp => hp) fun hpoll => by cases hpoll
  · exact h.threadStep ht hth
  · obtain ⟨-, -, hpoll, -⟩ := stop_of_stepWorker hwk
    obtain ⟨-, hthreads, -⟩ := effect_of_stepWorker hwk
    exact ⟨hthreads ▸ h.polls, fun p hp => hthreads ▸ h.joinable p (hpoll ▸ hp)⟩

/-- **Every run** keeps the invariant. -/
lemma exec {as : List Action} (h : Polling s)
    (hexec : Transition.exec TaskRunner.step s as = some s') : Polling s' :=
  Transition.exec_induction (I := fun _ s => Polling s) h
    (fun _ _ _ _ _ hI hstep => hI.step hstep) as s' hexec

/-- The invariant holds at the start. -/
lemma init (n : ℕ) : Polling (.init n) := by
  refine ⟨fun t th ht hpoll => ?_, by simp [State.init]⟩
  rw [List.eq_of_mem_replicate (List.mem_of_getElem? ht)] at hpoll
  cases hpoll

end Polling

/-! ## Running a thread -/

/-- Thread `t` is run, without any call of `Shutdown`, to where it is `th`, while all others stand
still. Workers may have been started. -/
structure RunsTo (t : ℕ) (th : Thread) (s s' : State) : Prop where
  reaches : Transition.Reaches step (fun a => a.isShutdown = false) s s'
  thread : s'.threads[t]? = some th
  others : ∀ t', t' ≠ t → s'.threads[t']? = s.threads[t']?
  stop : ∀ m, (s'.entry m).stop = (s.entry m).stop
  workers : s.workers ⊆ s'.workers
  running : s'.running = s.running
  pollThread : s'.pollThread = s.pollThread

namespace RunsTo

variable {s s' s'' : State} {t : ℕ} {th th' : Thread}

/-- A thread that is there already. -/
lemma refl (ht : s.threads[t]? = some th) : RunsTo t th s s where
  reaches := .refl s
  thread := ht
  others := fun _ _ => rfl
  stop := fun _ => rfl
  workers := List.Subset.refl _
  running := rfl
  pollThread := rfl

/-- First to one place, then to another. -/
lemma trans (h : RunsTo t th s s') (h' : RunsTo t th' s' s'') : RunsTo t th' s s'' where
  reaches := h.reaches.trans h'.reaches
  thread := h'.thread
  others := fun t' hne => (h'.others t' hne).trans (h.others t' hne)
  stop := fun m => (h'.stop m).trans (h.stop m)
  workers := List.Subset.trans h.workers h'.workers
  running := h'.running.trans h.running
  pollThread := h'.pollThread.trans h.pollThread

/-- A step of the thread. -/
lemma single (env : Env) (ht : s.threads[t]? = some th) (h : ThreadStep env s t th s')
    (hthreads : s'.threads = s.threads.set t th')
    (hstop : ∀ m, (s'.entry m).stop = (s.entry m).stop) (hworkers : s.workers ⊆ s'.workers)
    (hrunning : s'.running = s.running) (hpoll : s'.pollThread = s.pollThread) :
    RunsTo t th' s s' where
  reaches := .single (a := .thread t env) rfl
    (Option.bind_eq_some_iff.mpr ⟨th, ht, threadStep_iff.mpr h⟩)
  thread := by
    obtain ⟨hlt, -⟩ := List.getElem?_eq_some_iff.mp ht
    rw [hthreads, List.getElem?_set_self hlt]
  others := fun t' hne => by rw [hthreads, List.getElem?_set_ne (Ne.symm hne)]
  stop := hstop
  workers := hworkers
  running := hrunning
  pollThread := hpoll

end RunsTo

section Run

variable {s : State} {t : ℕ}

/-- **What is left of a `Pass` can be carried out**: every entry in `to_schedule` gets a worker, and
`Pass` returns.

**Proof sketch.** By induction on what is left. For each entry three steps ask for the
configuration, increment the counter and start the worker. -/
lemma pass_ends {poll : Bool} {rest : List ℕ} (ht : s.threads[t]? = some ⟨poll, .config rest⟩) :
    ∃ s', RunsTo t ⟨poll, if poll then .pollLoop else .idle⟩ s s' ∧
      ∀ m ∈ rest, (⟨m, {}, .start⟩ : Worker) ∈ s'.workers := by
  induction rest generalizing s with
  | nil =>
    refine ⟨_, .single {} ht .configDone rfl (fun _ => rfl) (List.Subset.refl _) rfl rfl,
      fun m hm => absurd hm List.not_mem_nil⟩
  | cons m rest ih =>
    have hconfig := RunsTo.single {} ht (.config rfl) rfl (fun _ => rfl)
      (List.Subset.refl _) rfl rfl
    have hfetchAdd := RunsTo.single {} hconfig.thread .fetchAdd rfl (fun _ => rfl)
      (List.Subset.refl _) rfl rfl
    have hspawn := RunsTo.single {} hfetchAdd.thread (.spawn rfl) rfl (fun _ => rfl)
      (List.subset_append_left _ _) rfl rfl
    obtain ⟨s', hs', hworkers⟩ := ih hspawn.thread
    refine ⟨s', ((hconfig.trans hfetchAdd).trans hspawn).trans hs', fun m' hm' => ?_⟩
    rcases List.mem_cons.mp hm' with rfl | hm'
    · exact hs'.workers (List.mem_append_right _ (List.mem_singleton_self _))
    · exact hworkers m' hm'

/-- A `Pass` of the poll thread can be carried out, and then the poll thread ends. -/
lemma poll_pass_ends {rest : List ℕ} (hstopped : s.running = false)
    (ht : s.threads[t]? = some ⟨true, .config rest⟩) : ∃ s', RunsTo t ⟨true, .finished⟩ s s' := by
  obtain ⟨s', hs', -⟩ := pass_ends ht
  refine ⟨_, hs'.trans (.single {} hs'.thread .pollLoop ?_ (fun _ => rfl)
    (List.Subset.refl _) rfl rfl)⟩
  rw [hs'.running, hstopped]
  rfl

/-- **The poll thread can end** once `running_` is cleared. -/
lemma poll_ends {pc : ThreadPc} (hstopped : s.running = false)
    (ht : s.threads[t]? = some ⟨true, pc⟩) (hpc : pc.polls = true) :
    ∃ s', RunsTo t ⟨true, .finished⟩ s s' := by
  cases pc with
  | finished => exact ⟨s, .refl ht⟩
  | pollLoop =>
    refine ⟨_, .single {} ht .pollLoop ?_ (fun _ => rfl) (List.Subset.refl _) rfl rfl⟩
    rw [hstopped]
    rfl
  | pollWait =>
    refine ⟨_, .single {} ht .pollWait ?_ (fun _ => rfl) (List.Subset.refl _) rfl rfl⟩
    rw [hstopped]
    rfl
  | collect =>
    have hanswers : s.Answers {} := fun _ _ _ _ => rfl
    rcases s.collected_cases {} with ⟨l, hl, -⟩ | ⟨-, hthrows, -⟩
    · have hcollect := RunsTo.single {} ht (.collect hl) rfl (s.stop_collected {})
        (List.Subset.refl _) rfl rfl
      obtain ⟨s', hs'⟩ := poll_pass_ends (hcollect.running.trans hstopped) hcollect.thread
      exact ⟨s', hcollect.trans hs'⟩
    · exact absurd hanswers hthrows
  | config rest => exact poll_pass_ends hstopped ht
  | fetchAdd m cfg rest =>
    have hfetchAdd := RunsTo.single {} ht .fetchAdd rfl (fun _ => rfl)
      (List.Subset.refl _) rfl rfl
    have hspawn := RunsTo.single {} hfetchAdd.thread (.spawn rfl) rfl (fun _ => rfl)
      (List.subset_append_left _ _) rfl rfl
    have hboth := hfetchAdd.trans hspawn
    obtain ⟨s', hs'⟩ := poll_pass_ends (hboth.running.trans hstopped) hboth.thread
    exact ⟨s', hboth.trans hs'⟩
  | spawn m cfg rest =>
    have hspawn := RunsTo.single {} ht (.spawn rfl) rfl (fun _ => rfl)
      (List.subset_append_left _ _) rfl rfl
    obtain ⟨s', hs'⟩ := poll_pass_ends (hspawn.running.trans hstopped) hspawn.thread
    exact ⟨s', hspawn.trans hs'⟩
  | _ => cases hpc

/-- A live worker has not been told to stop. -/
def State.Missed (s : State) : Prop :=
  ∃ wk ∈ s.workers, wk.pc ≠ .done ∧ (s.entry wk.entry).stop = false

/-- It is not told by a step that sets no `stop`. -/
lemma State.Missed.mono {s' : State} (h : s.Missed) (hworkers : s.workers ⊆ s'.workers)
    (hstop : ∀ m, (s'.entry m).stop = (s.entry m).stop) : s'.Missed := by
  obtain ⟨wk, hwk, hlive, hentry⟩ := h
  exact ⟨wk, hworkers hwk, hlive, (hstop wk.entry).trans hentry⟩

/-- `Shutdown` of thread `t` waits, or can do so, while a live worker has not been told to stop. -/
def State.MayWait (s : State) (t : ℕ) : Prop :=
  ∃ s' last, Transition.Reaches step (fun a => a.isShutdown = false) s s' ∧
    s'.threads[t]? = some ⟨false, .shutdown last .wait⟩ ∧ s'.Missed

/-- What can be reached can be reached earlier. -/
lemma State.MayWait.of_reaches {s' : State} (h : s'.MayWait t)
    (hs : Transition.Reaches step (fun a => a.isShutdown = false) s s') : s.MayWait t := by
  obtain ⟨s'', last, hreaches, hwait, hmissed⟩ := h
  exact ⟨s'', last, hs.trans hreaches, hwait, hmissed⟩

/-- `Shutdown` can join the poll thread, which can end. -/
lemma mayWait_of_join {last : Bool} (hstopped : s.running = false) (hpolling : Polling s)
    (ht : s.threads[t]? = some ⟨false, .shutdown last .join⟩) (hmissed : s.Missed) :
    s.MayWait t := by
  -- The thread to join, if there is one, has ended in `s'`.
  have hended : ∃ s', Transition.Reaches step (fun a => a.isShutdown = false) s s' ∧
      s'.threads[t]? = some ⟨false, .shutdown last .join⟩ ∧ s'.Missed ∧
      ∀ p, s'.pollThread = some p → s'.threads[p]? = some (⟨true, .finished⟩ : Thread) := by
    cases hpoll : s.pollThread with
    | none => exact ⟨s, .refl s, ht, hmissed, fun p hp => by cases hpoll.symm.trans hp⟩
    | some p =>
      obtain ⟨⟨poll, pc⟩, hp, rfl⟩ := hpolling.joinable p hpoll
      obtain ⟨s', hs'⟩ := poll_ends hstopped hp (hpolling.polls p _ hp rfl)
      have hne : t ≠ p := by
        rintro rfl
        cases ht.symm.trans hp
      refine ⟨s', hs'.reaches, (hs'.others t hne).trans ht, hmissed.mono hs'.workers hs'.stop,
        fun p' hp' => ?_⟩
      obtain rfl := Option.some.inj ((hs'.pollThread.trans hpoll).symm.trans hp')
      exact hs'.thread
  obtain ⟨s', hs', ht', hmissed', hfinished⟩ := hended
  obtain ⟨hlt, -⟩ := List.getElem?_eq_some_iff.mp ht'
  have hstep : step s' (.thread t {}) = some _ :=
    Option.bind_eq_some_iff.mpr ⟨_, ht', threadStep_iff.mpr (.join hfinished)⟩
  exact ⟨_, last, hs'.trans (.single rfl hstep), List.getElem?_set_self hlt,
    hmissed'.mono (List.Subset.refl _) fun _ => rfl⟩

/-- **`Shutdown` can wait for a worker that it has missed**, once the entries are marked. -/
lemma mayWait_of_missed {last : Bool} {pc : ShutdownPc} (hstopped : s.running = false)
    (hpolling : Polling s) (ht : s.threads[t]? = some ⟨false, .shutdown last pc⟩)
    (hmarked : (ThreadPc.shutdown last pc).marked = true) (hmissed : s.Missed) : s.MayWait t := by
  cases pc with
  | notifyPoll =>
    have hstep : ThreadStep {} s t ⟨false, .shutdown last .notifyPoll⟩ _ := .notifyPoll
    have hnotify := RunsTo.single {} ht hstep rfl (fun _ => rfl) (List.Subset.refl _) rfl rfl
    exact (mayWait_of_join (hnotify.running.trans hstopped) (hpolling.threadStep ht hstep)
      hnotify.thread (hmissed.mono hnotify.workers hnotify.stop)).of_reaches hnotify.reaches
  | join => exact mayWait_of_join hstopped hpolling ht hmissed
  | wait => exact ⟨s, last, .refl s, ht, hmissed⟩
  | _ => cases hmarked

/-- The marking misses a live worker whose entry is not in `managed_`. -/
lemma mayWait_of_storeStop {last : Bool} (hstopped : s.running = false) (hpolling : Polling s)
    (hunstopped : Unstopped s) (ht : s.threads[t]? = some ⟨false, .shutdown last .storeStop⟩)
    {wk : Worker} (hwk : wk ∈ s.workers) (hlive : wk.pc ≠ .done) (hnot : wk.entry ∉ s.managed) :
    ({ s with entry := storeStop s.entry s.managed }.goto t ⟨false, .shutdown last .storeStop⟩
      (.shutdown last .notifyPoll)).MayWait t := by
  have hstep : ThreadStep {} s t ⟨false, .shutdown last .storeStop⟩ _ := .storeStop
  obtain ⟨hlt, -⟩ := List.getElem?_eq_some_iff.mp ht
  refine mayWait_of_missed hstopped (hpolling.threadStep ht hstep) (List.getElem?_set_self hlt) rfl
    ⟨wk, hwk, hlive, ?_⟩
  exact (congrArg Managed.stop (storeStop_of_not_mem s.entry hnot)).trans (hunstopped wk.entry)

/-- After the marking, a `Pass` schedules an entry that is not told to stop, and starts its
worker. -/
lemma mayWait_of_collect {env : Env} {poll : Bool} {l : List ℕ} (hstopped : s.running = false)
    (hpolling : Polling s) (ht : s.threads[t]? = some ⟨poll, .collect⟩) (hafter : s.AfterMarking)
    (hl : (s.collected env).toSchedule = some l) {m : ℕ} (hm : m ∈ l)
    (hstop : (s.entry m).stop = false) :
    ∃ t', ((s.afterCollect env).goto t ⟨poll, .collect⟩ (.config l)).MayWait t' := by
  have hstep : ThreadStep env s t ⟨poll, .collect⟩ _ := .collect hl
  have hcollect := RunsTo.single env ht hstep rfl (s.stop_collected env) (List.Subset.refl _) rfl
    rfl
  obtain ⟨s', hs', hworkers⟩ := pass_ends hcollect.thread
  obtain ⟨th, hth, hmarked⟩ := hafter
  obtain ⟨t', ht'⟩ := List.mem_iff_getElem?.mp hth
  have hne : t' ≠ t := by
    rintro rfl
    obtain rfl := Option.some.inj (ht.symm.trans ht')
    cases hmarked
  -- The thread after the marking is a client in `Shutdown`.
  obtain ⟨poll', pc⟩ := th
  have hclient : poll' = false ∧ ∃ last at_, pc = .shutdown last at_ := by
    cases pc with
    | shutdown last at_ =>
      cases poll' with
      | false => exact ⟨rfl, last, at_, rfl⟩
      | true => cases hpolling.polls t' _ ht' rfl
    | _ => cases hmarked
  obtain ⟨rfl, last, at_, rfl⟩ := hclient
  obtain ⟨as, -, has⟩ := hs'.reaches
  refine ⟨t', (mayWait_of_missed ((hcollect.trans hs').running.trans hstopped)
    ((hpolling.threadStep ht hstep).exec has) ?_ hmarked ⟨_, hworkers m hm, by simp, ?_⟩).of_reaches
      hs'.reaches⟩
  · rw [(hcollect.trans hs').others t' hne, ht']
  · rw [(hcollect.trans hs').stop, hstop]

/-- What a `Pass` does that leaves a late entry. -/
lemma late_of_not_stopsAll {env : Env} (h : ¬ ThreadPc.collect.StopsAll s env) :
    s.AfterMarking ∧ s.Answers env ∧ ∃ m ∈ s.managed, (s.entry m).status ≠ .completed ∧
      (s.entry m).scheduled = false ∧ env.enabled m = true ∧ (s.entry m).stop = false := by
  simpa [ThreadPc.StopsAll, State.SchedulesStopped] using h

end Run

/-! ## Main results -/

/-- **The first step that leaves a late entry** leads to where `Shutdown` may wait for a worker that
has not been told to stop.

**Proof sketch.** Before the marking no entry has `stop`, so that it misses a live worker whose
entry is not in `managed_`. After the marking, the `Pass` that schedules an entry without `stop` is
carried out, which starts its worker. In either case the poll thread then ends, and is joined. -/
theorem exists_mayWait_of_late_entry (n : ℕ) (as : List Action) (s : State)
    (h : Transition.exec step (.init n) as = some s) (hone : as.countP Action.isShutdown ≤ 1)
    (hmeets : Transition.Meets step NoLateEntry (.init n) as) {a : Action} {s' : State}
    (hlate : ¬ NoLateEntry s a) (hstep : step s a = some s') (hstopped : s.running = false) :
    ∃ t, s'.MayWait t := by
  have hpolling := (Polling.init n).exec h
  have hphase := Phase.exec n as s h hone hmeets
  generalize as.countP Action.isShutdown = k at hphase
  rcases step_cases hstep with ⟨t, c, rfl, ht, rfl⟩ | ⟨t, env, th, rfl, ht, hth⟩ |
    ⟨w, env, wk, rfl, hw, hwk⟩
  · exact absurd trivial hlate
  · rw [NoLateEntry, ht, Option.elim_some] at hlate
    cases hth with
    | storeStop =>
      obtain ⟨wk, hwk, hlive, hnot⟩ : ∃ wk ∈ s.workers, wk.pc ≠ .done ∧ wk.entry ∉ s.managed := by
        simpa [ThreadPc.StopsAll] using hlate
      cases hphase with
      | before outside => cases outside t _ ht
      | called client others => cases (Phase.eq_client client others ht rfl).2
      | exchanged client others _ unstopped =>
        cases (Phase.eq_client client others ht rfl).2
        exact ⟨t, mayWait_of_storeStop hstopped hpolling unstopped ht hwk hlive hnot⟩
      | marked passed => cases passed t _ ht
    | collect hl =>
      obtain ⟨hafter, -, m, hm, hstatus, hmark, henabled, hstop⟩ := late_of_not_stopsAll hlate
      exact mayWait_of_collect hstopped hpolling ht hafter hl
        ((State.mem_toSchedule_iff hl).mpr ⟨hm, hstatus, hmark, henabled⟩) hstop
    | collectThrows hnone =>
      obtain ⟨-, hanswers, -⟩ := late_of_not_stopsAll hlate
      rcases s.collected_cases env with ⟨l, hl, -⟩ | ⟨-, hthrows, -⟩
      · cases hl.symm.trans hnone
      · exact absurd hanswers hthrows
    | _ => exact absurd trivial hlate
  · exact absurd trivial hlate

/-- **A run that leaves a late entry may end with `Shutdown` waiting for a worker that has not been
told to stop**: it need only go on otherwise after its first such step, if `running_` is clear
there, as it is unless `Start` has been called again. -/
theorem late_entry_waits (n : ℕ) (as : List Action) (s : State)
    (h : Transition.exec step (.init n) as = some s) (hone : as.countP Action.isShutdown ≤ 1)
    (hlate : ¬ Transition.Meets step NoLateEntry (.init n) as) :
    ∃ before a s₁ s₂, before ++ [a] <+: as ∧ Transition.exec step (.init n) before = some s₁ ∧
      step s₁ a = some s₂ ∧ (s₁.running = false → ∃ t, s₂.MayWait t) := by
  obtain ⟨before, a, s₁, s₂, hbefore, hmeets, hs₁, hfirst, hs₂⟩ :=
    Transition.exists_first_violation h hlate
  have hcount : before.countP Action.isShutdown ≤ as.countP Action.isShutdown :=
    ((List.prefix_append before [a]).trans hbefore).sublist.countP_le
  exact ⟨before, a, s₁, s₂, hbefore, hs₁, hs₂, exists_mayWait_of_late_entry n before s₁ hs₁
    (Nat.le_trans hcount hone) hmeets hfirst hs₂⟩

end TaskRunner

end RaCommon
