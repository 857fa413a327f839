import DreamAifd.GenerationInvariant

/-! Whether a generation run can stop short. The one way is a sentinel that waits for space in a
queue whose workers have all raised; it needs as many samples as fill the queue behind them. -/
namespace DreamAifd.OfflineGeneration

section Waiting

variable {args : Args} {s t : State}

/-- The main task cannot go on before something is taken from the queue. -/
def WaitsForSpace (args : Args) (s : State) : Prop :=
  args.full s.queue = true ∧ ((∃ rest, s.main = .feeding rest ∧ s.cancelEvent = false) ∨ ∃ left, s.main = .sending left)

structure Progress (args : Args) (s : State) : Prop where
  enabled : (∀ outcome, s.main ≠ .finished outcome) → Machine.Enabled (step args) s
  consumer : WaitsForSpace args s → ∃ w ∈ s.workers, w.live = true

/-- The failure at which the tracker signals is among the events. -/
def SignalledIn (args : Args) (s : State) (events : List Event) : Prop :=
  ∃ before i after mid, events = before ++ .fail i :: after ∧ Machine.run (step args) before s = some mid ∧
    mid.tracker.recordFailure.2 = true

/-- No run of the tasks ends before `main` does, and an abort reaches the caller. -/
structure NeverDeadlocks (args : Args) (toProcess : List Nat) : Prop where
  progress : ∀ events s, Machine.run (step args) events (start args toProcess) = some s → Progress args s
  abort : ∀ events s outcome, Machine.run (step args) events (start args toProcess) = some s →
    s.main = .finished outcome → SignalledIn args (start args toProcess) events → outcome = .aborted args.threshold

/-- A sentinel waits, and nothing takes from the queue any more. -/
def Stranded (args : Args) (s : State) : Prop :=
  ∃ left, s.main = .sending left ∧ args.full s.queue = true ∧ ∀ w ∈ s.workers, w = .raised

theorem full_iff {queue : List (Option Nat)} :
    args.full queue = true ↔ 0 < args.concurrency ∧ args.concurrency * 4 ≤ queue.length := by
  rw [Args.full, Bool.and_eq_true, decide_eq_true_iff, decide_eq_true_iff, Args.maxsize]
  omega

theorem length_queue (s : State) : s.queue.length = s.samples + s.sentinels := by
  unfold State.samples State.sentinels
  induction s.queue with
  | nil => rfl
  | cons item queue ih =>
    cases item <;> simp <;> omega

theorem length_workers (s : State) : s.workers.length = s.count Worker.live + s.count Worker.isRaised +
    s.count Worker.isReturned + s.count Worker.isCancelled := by
  unfold State.count
  induction s.workers with
  | nil => rfl
  | cons w workers ih =>
    simp only [List.length_cons, List.countP_cons, ih]
    cases w <;> simp [Worker.live, Worker.done, Worker.isRaised, Worker.isReturned, Worker.isCancelled] <;> omega

theorem enabled_of_mayFail {i idx : Nat} {phase : Phase} (found : s.workers[i]? = some (.busy idx phase))
    (mayFail : phase.mayFail = true) : Machine.Enabled (step args) s := by
  exact ⟨.fail i, failed s i idx, step_eq_some.mpr (.fail found mayFail)⟩

/-- A permit is free, or some worker has it and goes on. -/
theorem enabled_of_permits (phase : Phase) (positive : 0 < args.concurrency) (mayFail : phase.mayFail = true)
    (free : permits args s phase = true → Machine.Enabled (step args) s) : Machine.Enabled (step args) s := by
  cases held : permits args s phase with
  | true => exact free held
  | false =>
    have taken : args.concurrency ≤ s.workers.countP (Worker.isIn phase) := by
      simpa [permits] using held
    obtain ⟨w, member, inside⟩ := List.countP_pos_iff.mp (positive.trans_le taken)
    obtain ⟨i, found⟩ := List.getElem?_of_mem member
    cases w with
    | busy idx here =>
      cases of_decide_eq_true inside
      exact enabled_of_mayFail found mayFail
    | _ => contradiction

theorem enabled_of_busy {i idx : Nat} {phase : Phase} (positive : 0 < args.concurrency)
    (found : s.workers[i]? = some (.busy idx phase)) : Machine.Enabled (step args) s := by
  cases phase with
  | acquiring =>
    apply enabled_of_permits .requesting positive rfl
    intro free
    exact ⟨.move i .requesting, s.setWorker i (.busy idx .requesting), step_eq_some.mpr (.move found free)⟩
  | acquiringWrite =>
    apply enabled_of_permits .writing positive rfl
    intro free
    exact ⟨.move i .writing, s.setWorker i (.busy idx .writing), step_eq_some.mpr (.move found free)⟩
  | requesting => exact enabled_of_mayFail found rfl
  | unlocking => exact enabled_of_mayFail found rfl
  | writing => exact enabled_of_mayFail found rfl

/-- A worker that is left goes on while there is something in the queue. -/
theorem enabled_of_live (positive : 0 < args.concurrency) (queued : s.queue ≠ [])
    (alive : 0 < s.count Worker.live) : Machine.Enabled (step args) s := by
  obtain ⟨w, member, live⟩ := List.countP_pos_iff.mp alive
  obtain ⟨i, found⟩ := List.getElem?_of_mem member
  cases w with
  | getting =>
    obtain ⟨item, queue, head⟩ := List.exists_cons_of_ne_nil queued
    exact ⟨.get i, took s i item queue, step_eq_some.mpr (.get found head)⟩
  | busy idx phase => exact enabled_of_busy positive found
  | _ => contradiction

theorem enabled_of_mainStep (moves : mainStep args s ≠ none) : Machine.Enabled (step args) s := by
  obtain ⟨t, stepped⟩ := Option.ne_none_iff_exists'.mp moves
  exact ⟨.main, t, stepped⟩

/-- Nobody has raised while the event is unset, so behind a full queue the whole pool is left. -/
theorem enabled_of_feeding {samples : Nat} (invariant : Invariant args samples s) {rest : List Nat}
    (here : s.main = .feeding rest) : Machine.Enabled (step args) s := by
  have stage := invariant.stage
  unfold Stage at stage
  rw [here] at stage
  obtain ⟨_, size, _, unreturned, uncancelled⟩ := stage
  cases blocked : !s.cancelEvent && args.full s.queue with
  | false =>
    apply enabled_of_mainStep
    simp [mainStep, here, blocked]
  | true =>
    obtain ⟨unset, full⟩ := Bool.and_eq_true_iff.mp blocked
    obtain ⟨positive, length⟩ := full_iff.mp full
    have unraised : ¬ 0 < s.count Worker.isRaised := by
      rw [← invariant.signalled]
      simpa using unset
    have total := length_workers s
    have nonempty : s.queue ≠ [] := List.ne_nil_of_length_pos (by omega)
    exact enabled_of_live positive nonempty (by omega)

/-- A worker that has returned has seen the samples out, and sentinels alone do not fill the queue. -/
theorem raised_of_full {samples left : Nat} (invariant : Invariant args samples s) (here : s.main = .sending left)
    (full : args.full s.queue = true) (dead : s.count Worker.live = 0) : ∀ w ∈ s.workers, w = .raised := by
  have stage := invariant.stage
  unfold Stage at stage
  rw [here] at stage
  obtain ⟨_, size, sentinels, uncancelled, _, drained⟩ := stage
  obtain ⟨positive, length⟩ := full_iff.mp full
  have total := length_workers s
  have queued := length_queue s
  have unreturned : s.count Worker.isReturned = 0 := by
    by_contra some
    have empty := drained (Nat.pos_of_ne_zero some)
    omega
  have all : s.workers.countP Worker.isRaised = s.workers.length := by
    unfold State.count at total dead unreturned uncancelled
    omega
  intro w member
  have raised := List.countP_eq_length.mp all w member
  cases w with
  | raised => rfl
  | _ => contradiction

theorem enabled_or_stranded_of_sending {samples left : Nat} (invariant : Invariant args samples s)
    (here : s.main = .sending left) : Machine.Enabled (step args) s ∨ Stranded args s := by
  cases full : args.full s.queue with
  | false =>
    left
    apply enabled_of_mainStep
    simp [mainStep, here, full]
  | true =>
    obtain ⟨positive, length⟩ := full_iff.mp full
    rcases Nat.eq_zero_or_pos (s.count Worker.live) with dead | alive
    · right
      exact ⟨left, here, full, raised_of_full invariant here full dead⟩
    · left
      have nonempty : s.queue ≠ [] := List.ne_nil_of_length_pos (by omega)
      exact enabled_of_live positive nonempty alive

/-- Every worker that is left finds its sentinel. -/
theorem enabled_of_gathering {samples : Nat} (invariant : Invariant args samples s) (here : s.main = .gathering) :
    Machine.Enabled (step args) s := by
  have stage := invariant.stage
  unfold Stage at stage
  rw [here] at stage
  obtain ⟨size, sentinels⟩ := stage
  have total := length_workers s
  have queued := length_queue s
  rcases Nat.eq_zero_or_pos (s.count Worker.live) with dead | alive
  · have ended := (live_eq_zero s).mp dead
    apply enabled_of_mainStep
    simp [mainStep, here, ended]
  · have nonempty : s.queue ≠ [] := by
      intro empty
      rw [empty, List.length_nil] at queued
      omega
    exact enabled_of_live (by omega) nonempty alive

/-- Where a run stops, the main task has returned or a sentinel is stranded. -/
theorem enabled_or_stranded {samples : Nat} (invariant : Invariant args samples s) :
    (∃ outcome, s.main = .finished outcome) ∨ Machine.Enabled (step args) s ∨ Stranded args s := by
  cases here : s.main with
  | feeding rest => exact .inr (.inl (enabled_of_feeding invariant here))
  | sending left => exact .inr (enabled_or_stranded_of_sending invariant here)
  | gathering => exact .inr (.inl (enabled_of_gathering invariant here))
  | finished outcome => exact .inl ⟨outcome, rfl⟩

/-- Every worker has raised with a sample of its own, the streak before the first came from others,
and the queue holds the rest. -/
theorem Stranded.bound {samples : Nat} (invariant : Invariant args samples s) (stranded : Stranded args s) :
    0 < args.concurrency ∧ 4 * args.concurrency + args.signalAfter ≤ samples := by
  obtain ⟨left, here, full, dead⟩ := stranded
  obtain ⟨positive, length⟩ := full_iff.mp full
  have stage := invariant.stage
  have balance := invariant.balance
  have queued := length_queue s
  unfold Stage at stage
  rw [here] at stage
  obtain ⟨waiting, size, sentinels, -⟩ := stage
  have raised : s.count Worker.isRaised = args.concurrency * 2 := by
    rw [← size]
    apply List.countP_eq_length.mpr
    intro w member
    rw [dead w member]
    rfl
  have set : s.cancelEvent = true := invariant.signalled.mpr (by omega)
  have aborted := invariant.aborted set
  exact ⟨positive, by omega⟩

theorem live_of_step {event : Event} (stepped : step args s event = some t) (other : event ≠ .main) :
    ∃ w ∈ s.workers, w.live = true := by
  cases step_eq_some.mp stepped with
  | main moved => contradiction
  | get found _ => exact ⟨_, List.mem_of_getElem? found, rfl⟩
  | move found _ => exact ⟨_, List.mem_of_getElem? found, rfl⟩
  | save found => exact ⟨_, List.mem_of_getElem? found, rfl⟩
  | fail found _ => exact ⟨_, List.mem_of_getElem? found, rfl⟩

theorem WaitsForSpace.mainStep_eq_none (waits : WaitsForSpace args s) : mainStep args s = none := by
  obtain ⟨full, ⟨rest, here, unset⟩ | ⟨left, here⟩⟩ := waits
  · simp [mainStep, here, unset, full]
  · simp [mainStep, here, full]

theorem WaitsForSpace.not_finished (waits : WaitsForSpace args s) (outcome : Outcome) :
    s.main ≠ .finished outcome := by
  intro finished
  obtain ⟨_, ⟨rest, here, _⟩ | ⟨left, here⟩⟩ := waits <;> rw [here] at finished <;> contradiction

theorem progress_iff {samples : Nat} (invariant : Invariant args samples s) :
    Progress args s ↔ ¬ Stranded args s := by
  constructor
  · rintro progress ⟨left, here, full, dead⟩
    obtain ⟨w, member, live⟩ := progress.consumer ⟨full, .inr ⟨left, here⟩⟩
    rw [dead w member] at live
    contradiction
  · intro free
    have enabled : (∀ outcome, s.main ≠ .finished outcome) → Machine.Enabled (step args) s := by
      intro unfinished
      rcases enabled_or_stranded invariant with ⟨outcome, finished⟩ | enabled | stranded
      · exact absurd finished (unfinished outcome)
      · exact enabled
      · exact absurd stranded free
    refine ⟨enabled, ?_⟩
    intro waits
    obtain ⟨event, t, stepped⟩ := enabled waits.not_finished
    apply live_of_step stepped
    rintro rfl
    rw [step, waits.mainStep_eq_none] at stepped
    contradiction

end Waiting

section Abort

variable {args : Args} {s t : State}

theorem cancelEvent_shutdownWorkers (s : State) : (shutdownWorkers args s).cancelEvent = s.cancelEvent := by
  unfold shutdownWorkers
  split <;> rfl

theorem cancelEvent_resumeFeeding (s : State) (rest : List Nat) :
    (resumeFeeding args s rest).cancelEvent = s.cancelEvent := by
  unfold resumeFeeding
  split
  · rfl
  · exact cancelEvent_shutdownWorkers _

/-- Nothing clears the event. -/
theorem cancelEvent_step {event : Event} (set : s.cancelEvent = true) (stepped : step args s event = some t) :
    t.cancelEvent = true := by
  cases step_eq_some.mp stepped with
  | main moved =>
    unfold mainStep at moved
    cases here : s.main with
    | feeding rest =>
      rw [here] at moved
      obtain ⟨_, resumed⟩ := Option.ite_none_left_eq_some.mp moved
      cases resumed
      exact (cancelEvent_resumeFeeding s rest).trans set
    | sending left =>
      rw [here] at moved
      obtain ⟨_, resumed⟩ := Option.ite_none_left_eq_some.mp moved
      cases resumed
      exact set
    | gathering =>
      rw [here] at moved
      obtain ⟨_, resumed⟩ := Option.ite_none_right_eq_some.mp moved
      cases resumed
      exact set
    | finished outcome =>
      rw [here] at moved
      contradiction
  | @get i item queue found head =>
    cases item with
    | none => exact set
    | some idx =>
      rw [took_sample, if_pos set]
      exact set
  | move found may => exact set
  | save found => exact set
  | @fail i idx phase found may =>
    show (s.cancelEvent || s.tracker.recordFailure.2) = true
    rw [set, Bool.true_or]

/-- A run that has signalled and ends, ends with the abort. -/
theorem aborted_of_signalledIn {toProcess : List Nat} {events : List Event} {outcome : Outcome}
    (ran : Machine.run (step args) events (start args toProcess) = some s) (finished : s.main = .finished outcome)
    (signalled : SignalledIn args (start args toProcess) events) : outcome = .aborted args.threshold := by
  obtain ⟨before, i, after, mid, rfl, reached, signal⟩ := signalled
  obtain ⟨next, stepped, rest⟩ := Machine.run_cut reached ran
  have set : next.cancelEvent = true := by
    cases step_eq_some.mp stepped with
    | @fail i idx phase found may =>
      show (mid.cancelEvent || mid.tracker.recordFailure.2) = true
      rw [signal, Bool.or_true]
  have last : s.cancelEvent = true := Machine.run_invariant cancelEvent_step set rest
  have invariant := invariant_run ran
  have stage := invariant.stage
  unfold Stage at stage
  rw [finished] at stage
  obtain ⟨_, rfl⟩ := stage
  have raised : s.workers.contains .raised = true := by
    obtain ⟨w, member, is⟩ := List.countP_pos_iff.mp (invariant.signalled.mp last)
    cases w with
    | raised => exact List.contains_iff_mem.mpr member
    | _ => contradiction
  rw [gathered, if_pos raised, invariant.threshold]

/-- With fewer samples than a full queue and a streak, no run is stranded. -/
theorem neverDeadlocks_of_lt {toProcess : List Nat}
    (few : args.concurrency = 0 ∨ toProcess.length < 4 * args.concurrency + args.signalAfter) :
    NeverDeadlocks args toProcess := by
  constructor
  · intro events s ran
    have invariant := invariant_run ran
    apply (progress_iff invariant).mpr
    intro stranded
    have bound := stranded.bound invariant
    omega
  · intro events s outcome ran finished signalled
    exact aborted_of_signalledIn ran finished signalled

end Abort

end DreamAifd.OfflineGeneration
