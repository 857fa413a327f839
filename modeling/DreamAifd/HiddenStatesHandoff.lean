import DreamAifd.HiddenStatesQueue

/-! The hidden-states connector hands its files over. Every step of the system is a step of the hand-over of lock
files, or leaves it as it is, whatever file names the requests are given. Only that a client is back behind its
request's save needs names that are not given to two requests. -/
namespace DreamAifd.HiddenStatesWorker

open Machine ConnectorScheduler LockHandoff

structure Tables (config : Config) (s : State) : Prop where
  written : ∀ reqId, reqId ∈ s.submitted ↔ ∃ writer, s.writers.get? reqId = some writer
  unsent : ∀ reqId fd, s.lockFds.get? reqId = some fd → reqId ∉ s.submitted
  opening : ∀ reqId fd, flocking s reqId = some fd → s.lockFds.get? reqId = none ∧ reqId ∉ s.submitted
  arrived : ∀ reqId, lockState s reqId ≠ none → ∃ params, s.scheduler.arrived.get? reqId = some params
  unlocked : config.useLock = false → ∀ reqId, lockState s reqId = none
  computed : ∀ reqId ∈ s.computed, Secured config s reqId
  published : ∀ reqId ∈ s.published, reqId ∈ s.computed

structure Polled (s : State) : Prop where
  accumulated : ∀ reqId ∈ s.accumulatedFinishedReqIds, reqId ∈ s.submitted
  events : ∀ reqId ∈ s.submitted, reqId ∈ s.reqCopyEvents ∨ reqId ∈ s.copied
  sent : ∀ reqId ∈ s.doneSending, reqId ∈ s.copied ∧ reqId ∈ s.submitted

def Distinct (config : Config) (s : State) : Prop := ∀ reqId params other params',
  s.scheduler.arrived.get? reqId = some params → s.scheduler.arrived.get? other = some params' →
    filename config.scheduler reqId params = filename config.scheduler other params' → reqId = other

structure Invariant (distinct : Bool) (config : Config) (s : State) : Prop where
  scheduler : ConnectorScheduler.Invariant config.scheduler s.scheduler
  held : Holds s.scheduler s.copied
  names : distinct = true → Distinct config s
  queued : Queued config s
  tables : Tables config s
  polled : Polled s
  handoff : LockHandoff.Invariant distinct (handoff config s)

variable {distinct : Bool} {config : Config} {s t : State} {reqId : String} {fd : Nat}

theorem lockPath_eq {params : Params} (known : s.scheduler.arrived.get? reqId = some params) :
    lockPath config s reqId = filename config.scheduler reqId params ++ ".lock" := by
  rw [lockPath, known, Option.elim_some]

theorem handoff_owner {stage : OwnerStage} (state : lockState s reqId = some (fd, stage)) :
    (handoff config s).owner reqId = some ⟨lockPath config s reqId, fd, stage⟩ := by
  simp only [handoff, state, Option.map_some]

theorem handoff_owner_cases {owner : Owner} (owns : (handoff config s).owner reqId = some owner) :
    ∃ fd stage, lockState s reqId = some (fd, stage) ∧ owner = ⟨lockPath config s reqId, fd, stage⟩ := by
  obtain ⟨⟨fd, stage⟩, state, rfl⟩ := Option.map_eq_some_iff.mp owns
  exact ⟨fd, stage, state, rfl⟩

/-- The hand-over is the same where the files, the clients and the requests' descriptors are. -/
theorem handoff_congr (invariant : LockHandoff.Invariant distinct (handoff config s)) (files : t.files = s.files)
    (clients : t.clients = s.clients) (locks : ∀ reqId, lockState t reqId = lockState s reqId)
    (path : ∀ reqId, lockState s reqId ≠ none → lockPath config t reqId = lockPath config s reqId) :
    LockHandoff.Invariant distinct (handoff config t) := by
  have owners : (handoff config t).owner = (handoff config s).owner := by
    funext reqId
    simp only [handoff, locks]
    cases state : lockState s reqId with
    | none => rfl
    | some own => rw [Option.map_some, Option.map_some, path reqId (by simp [state])]
  have same : handoff config t = handoff config s := by
    rw [handoff, handoff, LockHandoff.State.mk.injEq]
    exact ⟨files, owners, clients⟩
  exact same ▸ invariant

/-- One request's descriptor has changed. -/
theorem handoff_setOwner {stage : OwnerStage} (now : lockState t reqId = some (fd, stage))
    (others : ∀ other ≠ reqId, lockState t other = lockState s other) (scheduler : t.scheduler = s.scheduler)
    (clients : t.clients = s.clients) :
    handoff config t = (handoff config s).setOwner reqId ⟨lockPath config s reqId, fd, stage⟩ t.files := by
  have path : ∀ other, lockPath config t other = lockPath config s other := fun other => by
    rw [lockPath, lockPath, scheduler]
  rw [handoff, State.setOwner, LockHandoff.State.mk.injEq]
  refine ⟨rfl, funext fun other => ?_, clients⟩
  by_cases same : other = reqId
  · rw [same, now, Option.map_some, Function.update_self, path]
  · rw [others other same, Function.update_of_ne same, path]
    rfl

theorem Secured.congr (secured : Secured config s reqId) (locks : lockState t reqId = lockState s reqId) :
    Secured config t reqId := fun useLock => locks ▸ secured useLock

theorem Queued.flocking_rest (queued : Queued config s) {task : Task} {todo : List Task}
    (next : s.todo = task :: todo) (rest : t.todo = todo) (reqId : String) : flocking t reqId = none := by
  refine flocking_none fun fd first => queued.head reqId fd ?_
  rw [rest] at first
  rw [next, List.tail_cons]
  exact List.mem_of_mem_head? first

theorem flocking_of_ne {task : Task} {todo : List Task} (next : s.todo = task :: todo)
    (noFlock : ∀ fd, task ≠ .flock reqId fd) : flocking s reqId = none := by
  refine flocking_none fun fd first => noFlock fd ?_
  rwa [next, List.head?_cons, Option.some.injEq] at first

theorem Tables.unwritten (tables : Tables config s) (unsubmitted : reqId ∉ s.submitted) :
    s.writers.get? reqId = none := by
  by_contra some
  exact unsubmitted ((tables.written reqId).mpr (Option.ne_none_iff_exists'.mp some))

theorem Tables.unheld (tables : Tables config s) (submitted : reqId ∈ s.submitted) :
    s.lockFds.get? reqId = none := by
  by_contra some
  obtain ⟨fd, held⟩ := Option.ne_none_iff_exists'.mp some
  exact tables.unsent reqId fd held submitted

/-- A request without a lock and without a save has no descriptor but one the worker is about to lock. -/
theorem Tables.lockState_eq (tables : Tables config s) (unheld : s.lockFds.get? reqId = none)
    (unsubmitted : reqId ∉ s.submitted) : lockState s reqId = (flocking s reqId).map fun fd => (fd, .opened) :=
  lockState_opening unheld fun writer present => by
    rw [tables.unwritten unsubmitted] at present
    cases present

/-- The tables where the worker's own have not changed. -/
theorem Tables.congr (tables : Tables config s) (lockFds : t.lockFds = s.lockFds) (writers : t.writers = s.writers)
    (submitted : t.submitted = s.submitted) (todo : ∀ reqId, flocking t reqId = flocking s reqId)
    (arrived : ∀ reqId params, s.scheduler.arrived.get? reqId = some params →
      t.scheduler.arrived.get? reqId = some params)
    (computed : ∀ reqId ∈ t.computed, Secured config s reqId)
    (published : ∀ reqId ∈ t.published, reqId ∈ t.computed) : Tables config t := by
  have locks : ∀ reqId, lockState t reqId = lockState s reqId := fun reqId =>
    lockState_congr (by rw [lockFds]) (by rw [writers]) (todo reqId)
  refine ⟨?_, ?_, ?_, ?_, ?_, fun reqId member => (computed reqId member).congr (locks reqId), published⟩
  · rw [submitted, writers]
    exact tables.written
  · rw [submitted, lockFds]
    exact tables.unsent
  · intro reqId fd opening
    rw [submitted, lockFds]
    exact tables.opening reqId fd (todo reqId ▸ opening)
  · intro reqId some
    obtain ⟨params, known⟩ := tables.arrived reqId (locks reqId ▸ some)
    exact ⟨params, arrived reqId params known⟩
  · intro unlocked reqId
    exact (locks reqId).trans (tables.unlocked unlocked reqId)

section Worker

variable {todo : List Task}

/-- A task that changes neither the tables nor the files. -/
theorem invariant_quietTask (invariant : Invariant distinct config s) {task : Task} (next : s.todo = task :: todo)
    (rest : t.todo = todo) (scheduler : t.scheduler = s.scheduler) (copied : t.copied = s.copied)
    (submitted : t.submitted = s.submitted) (lockFds : t.lockFds = s.lockFds) (writers : t.writers = s.writers)
    (files : t.files = s.files) (clients : t.clients = s.clients) (noSave : task.savedId = none)
    (noFlock : ∀ reqId fd, task ≠ .flock reqId fd) (secures : ∀ reqId, task.secures reqId → Secured config s reqId)
    (computed : ∀ reqId ∈ t.computed, Secured config s reqId)
    (published : ∀ reqId ∈ t.published, reqId ∈ t.computed) (polled : Polled t) : Invariant distinct config t := by
  have opening : ∀ reqId, flocking t reqId = flocking s reqId := fun reqId => by
    rw [invariant.queued.flocking_rest next rest, flocking_of_ne next (noFlock reqId)]
  have locks : ∀ reqId, lockState t reqId = lockState s reqId := fun reqId =>
    lockState_congr (by rw [lockFds]) (by rw [writers]) (opening reqId)
  have path : ∀ reqId, lockPath config t reqId = lockPath config s reqId := fun reqId => by
    rw [lockPath, lockPath, scheduler]
  refine ⟨?_, ?_, ?_, ?_, ?_, polled, ?_⟩
  · rw [scheduler]
    exact invariant.scheduler
  · rw [scheduler, copied]
    exact invariant.held
  · intro apart
    rw [Distinct, scheduler]
    exact invariant.names apart
  · refine invariant.queued.pop next rest scheduler (by simp [submitted, noSave]) fun reqId secured => ?_
    exact (secured.elim id (secures reqId)).congr (locks reqId)
  · exact invariant.tables.congr lockFds writers submitted opening (by rw [scheduler]; exact fun _ _ => id)
      computed published
  · exact handoff_congr invariant.handoff files clients locks fun reqId _ => path reqId

/-- The worker opens the lock file of a request, which nobody has opened before where names are `distinct`. -/
theorem invariant_openLock (invariant : Invariant distinct config s) {name : String}
    (next : s.todo = .openLock reqId name :: todo) (unheld : s.lockFds.get? reqId = none) :
    Invariant distinct config { s with
      files := s.files.create (name ++ ".lock")
      todo := .flock reqId s.files.descriptions.length :: todo } := by
  set t : State := { s with
    files := s.files.create (name ++ ".lock")
    todo := .flock reqId s.files.descriptions.length :: todo } with opened
  have member : .openLock reqId name ∈ s.todo := next ▸ List.mem_cons_self
  obtain ⟨params, known, own⟩ := invariant.queued.named reqId name member
  have unsubmitted := invariant.queued.unsubmitted reqId name member
  have unlocked : ∀ other, flocking s other = none := fun other => flocking_of_ne next fun fd => by simp
  have before : lockState s reqId = none := by
    rw [invariant.tables.lockState_eq unheld unsubmitted, unlocked, Option.map_none]
  have opening : ∀ other fd, flocking t other = some fd ↔ other = reqId ∧ fd = s.files.descriptions.length := by
    intro other fd
    rw [flocking_iff, opened, List.head?_cons, Option.some.injEq, Task.flock.injEq]
    exact and_congr eq_comm eq_comm
  have now : lockState t reqId = some (s.files.descriptions.length, .opened) := by
    refine (lockState_opening (s := t) unheld fun writer present => ?_).trans ?_
    · exact absurd (present.symm.trans (invariant.tables.unwritten unsubmitted)) (Option.some_ne_none writer)
    · rw [(opening reqId _).mpr ⟨rfl, rfl⟩, Option.map_some]
  have others : ∀ other ≠ reqId, lockState t other = lockState s other := by
    intro other different
    refine lockState_congr rfl rfl ?_
    rw [unlocked]
    exact flocking_none fun fd first => different ((opening other fd).mp (flocking_iff.mpr first)).1
  have secured : ∀ other, Secured config s other → Secured config t other := by
    intro other taken
    by_cases same : other = reqId
    · intro useLock
      obtain ⟨fd, stage, state, -⟩ := taken useLock
      rw [same, before] at state
      cases state
    · exact taken.congr (others other same)
  obtain ⟨accumulated, events, sent⟩ := invariant.polled
  refine ⟨invariant.scheduler, invariant.held, invariant.names, ?_, ?_, ⟨accumulated, events, sent⟩, ?_⟩
  · exact invariant.queued.opened next rfl rfl rfl secured
  · refine ⟨invariant.tables.written, invariant.tables.unsent, ?_, ?_, ?_, ?_, invariant.tables.published⟩
    · intro other fd first
      obtain ⟨rfl, -⟩ := (opening other fd).mp first
      exact ⟨unheld, unsubmitted⟩
    · intro other some
      by_cases same : other = reqId
      · exact ⟨params, same ▸ known⟩
      · exact invariant.tables.arrived other (others other same ▸ some)
    · intro without
      exact absurd (.inl ⟨name, rfl⟩) (invariant.queued.unlocked without _ member reqId)
    · exact fun other computed => secured other (invariant.tables.computed other computed)
  · rw [handoff_setOwner now others rfl rfl, lockPath_eq known, ← own]
    refine LockHandoff.invariant_step invariant.handoff (.ownerOpens reqId (name ++ ".lock") ?_ ?_)
    · simp [handoff, before]
    · intro apart other owner owns same
      obtain ⟨fd, stage, state, rfl⟩ := handoff_owner_cases owns
      obtain ⟨params', known'⟩ := invariant.tables.arrived other (by simp [state])
      rw [lockPath_eq known', own] at same
      obtain rfl := invariant.names apart other params' reqId params known' known
        ((String.append_left_inj ".lock").mp same)
      rw [before] at state
      cases state

/-- The worker takes the lock of the file it has just opened. -/
theorem invariant_flock (invariant : Invariant distinct config s) (next : s.todo = .flock reqId fd :: todo)
    {files : LockFiles} (locked : s.files.lock fd = some files) :
    Invariant distinct config { s with files, todo, lockFds := s.lockFds.set reqId fd } := by
  set t : State := { s with files, todo, lockFds := s.lockFds.set reqId fd } with taken
  have first : flocking s reqId = some fd := flocking_iff.mpr (by rw [next, List.head?_cons])
  obtain ⟨unheld, unsubmitted⟩ := invariant.tables.opening reqId fd first
  have before : lockState s reqId = some (fd, .opened) := by
    rw [invariant.tables.lockState_eq unheld unsubmitted, first, Option.map_some]
  have now : lockState t reqId = some (fd, .locked) := lockState_held (Dict.get?_set_self _ _ _)
  have opening : ∀ other, flocking t other = none := invariant.queued.flocking_rest next rfl
  have others : ∀ other ≠ reqId, lockState t other = lockState s other := by
    intro other different
    refine lockState_congr (Dict.get?_set_ne _ _ different) rfl ?_
    rw [opening, flocking_of_ne next fun own => by simp [different.symm]]
  have secured : ∀ other, Secured config s other ∨ (Task.flock reqId fd).secures other → Secured config t other := by
    intro other taken useLock
    by_cases same : other = reqId
    · exact ⟨fd, .locked, same ▸ now, by simp⟩
    · rcases taken with taken | ⟨name, opens⟩ | ⟨own, flocks⟩
      · exact (taken.congr (others other same)) useLock
      · cases opens
      · cases flocks
        exact absurd rfl same
  obtain ⟨accumulated, events, sent⟩ := invariant.polled
  refine ⟨invariant.scheduler, invariant.held, invariant.names, ?_, ?_, ⟨accumulated, events, sent⟩, ?_⟩
  · exact invariant.queued.pop next rfl rfl (List.append_nil _).symm secured
  · refine ⟨invariant.tables.written, ?_, ?_, ?_, ?_, ?_, invariant.tables.published⟩
    · intro other own held
      by_cases same : other = reqId
      · exact same ▸ unsubmitted
      · exact invariant.tables.unsent other own ((Dict.get?_set_ne _ _ same).symm.trans held)
    · intro other own some
      rw [opening] at some
      cases some
    · intro other some
      by_cases same : other = reqId
      · exact same ▸ invariant.tables.arrived reqId (by simp [before])
      · exact invariant.tables.arrived other (others other same ▸ some)
    · intro without
      rw [invariant.tables.unlocked without] at before
      cases before
    · exact fun other computed => secured other (.inl (invariant.tables.computed other computed))
  · rw [handoff_setOwner now others rfl rfl]
    exact LockHandoff.invariant_step invariant.handoff (.ownerLocks reqId _ files (handoff_owner before) rfl locked)

/-- A save starts with the lock its request has in the table, and without one only where no locks are used. -/
theorem invariant_startWriter (invariant : Invariant distinct config s) {save : PendingSave}
    (next : s.todo = .submit save :: todo) (unsubmitted : save.reqId ∉ s.submitted) (lockFds : Dict String Nat)
    (erased : ∀ other, lockFds.get? other = if other = save.reqId then none else s.lockFds.get? other) :
    Invariant distinct config (startWriter { s with todo, lockFds } save.reqId (s.lockFds.get? save.reqId)) := by
  set t : State := startWriter { s with todo, lockFds } save.reqId (s.lockFds.get? save.reqId) with started
  have opening : ∀ other, flocking t other = none := invariant.queued.flocking_rest next rfl
  have unlocked : ∀ other, flocking s other = none := fun other => flocking_of_ne next fun fd => by simp
  have written : t.writers.get? save.reqId = some ⟨s.lockFds.get? save.reqId, .queued⟩ := Dict.get?_set_self _ _ _
  have unheld : t.lockFds.get? save.reqId = none := (erased save.reqId).trans (if_pos rfl)
  have locks : ∀ other, lockState t other = lockState s other := by
    intro other
    by_cases same : other = save.reqId
    · subst same
      rw [lockState_writer unheld (opening _) written]
      cases held : s.lockFds.get? save.reqId with
      | some fd =>
        rw [lockState_held held]
        rfl
      | none =>
        rw [invariant.tables.lockState_eq held unsubmitted, unlocked]
        rfl
    · refine lockState_congr ((erased other).trans (if_neg same)) (Dict.get?_set_ne _ _ same) ?_
      rw [opening, unlocked]
  have secured : ∀ other, Secured config s other ∨ (Task.submit save).secures other → Secured config t other :=
    fun other taken => (taken.resolve_right Task.not_secures_submit).congr (locks other)
  obtain ⟨accumulated, events, sent⟩ := invariant.polled
  refine ⟨invariant.scheduler, invariant.held, invariant.names, ?_, ?_, ⟨?_, ?_, ?_⟩, ?_⟩
  · exact invariant.queued.pop next rfl rfl rfl secured
  · refine ⟨?_, ?_, ?_, ?_, ?_, fun other computed => secured other (.inl (invariant.tables.computed other computed)),
      invariant.tables.published⟩
    · intro other
      rw [started, startWriter, List.mem_append, List.mem_singleton]
      simp only [Dict.get?_set]
      split
      next same => simp [same]
      next different => simp [different, invariant.tables.written]
    · intro other fd held
      rw [started, startWriter] at held
      simp only [erased] at held
      split at held
      next => cases held
      next different =>
        rw [started, startWriter, List.mem_append, List.mem_singleton]
        exact not_or.mpr ⟨invariant.tables.unsent other fd held, different⟩
    · intro other fd some
      rw [opening] at some
      cases some
    · exact fun other some => invariant.tables.arrived other (locks other ▸ some)
    · exact fun without other => (locks other).trans (invariant.tables.unlocked without other)
  · exact fun other member => List.mem_append_left _ (accumulated other member)
  · intro other member
    rcases List.mem_append.mp member with before | now
    · exact (events other before).imp_left (List.mem_append_left _)
    · exact .inl (List.mem_append_right _ now)
  · exact fun other member => (sent other member).imp_right (List.mem_append_left _)
  · exact handoff_congr invariant.handoff rfl rfl locks fun _ _ => rfl

theorem closeLeftovers_eq (reqIds : List String) (unheld : ∀ reqId ∈ reqIds, s.lockFds.get? reqId = none) :
    closeLeftovers reqIds s = s := by
  induction reqIds with
  | nil => rfl
  | cons reqId reqIds ih =>
    rw [closeLeftovers, unheld reqId List.mem_cons_self]
    exact ih fun other member => unheld other (List.mem_cons_of_mem _ member)

/-- The poll finds no lock that is left over, and reports requests whose copy is complete. -/
theorem invariant_getFinished (invariant : Invariant distinct config s) {finishedReqIds : List String}
    (next : s.todo = .getFinished finishedReqIds :: todo) :
    Invariant distinct config (getFinished { s with todo } finishedReqIds) := by
  obtain ⟨accumulated, events, sent⟩ := invariant.polled
  have polled : ∀ reqId ∈ finishedReqIds, reqId ∈ s.submitted := fun reqId member =>
    (next ▸ invariant.queued.saved reqId).1 ⟨finishedReqIds, rfl, member⟩
  set merged := s.accumulatedFinishedReqIds ++ finishedReqIds.filter (· ∉ s.accumulatedFinishedReqIds) with all
  have submitted : ∀ reqId ∈ merged, reqId ∈ s.submitted := by
    intro reqId member
    rcases List.mem_append.mp member with before | now
    · exact accumulated reqId before
    · exact polled reqId (List.mem_of_mem_filter now)
  set done := merged.filter fun reqId => reqId ∉ s.reqCopyEvents || reqId ∈ s.copied with finished
  have reported : ∀ reqId ∈ done, reqId ∈ s.copied ∧ reqId ∈ s.submitted := by
    intro reqId member
    obtain ⟨among, complete⟩ := List.mem_filter.mp member
    refine ⟨?_, submitted reqId among⟩
    rw [Bool.or_eq_true, decide_eq_true_eq, decide_eq_true_eq] at complete
    exact complete.elim (events reqId (submitted reqId among)).resolve_left id
  have nothing : getFinished { s with todo } finishedReqIds = { s with
      todo
      reqCopyEvents := s.reqCopyEvents.filter (· ∉ done)
      accumulatedFinishedReqIds := merged.filter (· ∉ done)
      doneSending := s.doneSending ++ done } :=
    closeLeftovers_eq done fun reqId member => invariant.tables.unheld (reported reqId member).2
  rw [nothing]
  refine invariant_quietTask invariant next rfl rfl rfl rfl rfl rfl rfl rfl rfl (fun _ _ => by simp)
    (fun reqId secures => absurd secures Task.not_secures_getFinished) invariant.tables.computed
    invariant.tables.published ⟨?_, ?_, ?_⟩
  · exact fun reqId member => submitted reqId (List.mem_of_mem_filter member)
  · intro reqId member
    by_cases now : reqId ∈ done
    · exact .inr (reported reqId now).1
    · exact (events reqId member).imp_left fun event => List.mem_filter.mpr ⟨event, by simpa using now⟩
  · intro reqId member
    rcases List.mem_append.mp member with before | now
    · exact sent reqId before
    · exact reported reqId now

theorem invariant_workerStep (invariant : Invariant distinct config s) (stepped : workerStep config s = some t) :
    Invariant distinct config t := by
  unfold workerStep at stepped
  split at stepped
  next => cases stepped
  next task todo next =>
    cases task with
    | openLock reqId name =>
      simp only [perform] at stepped
      split at stepped
      next held =>
        cases stepped
        obtain ⟨accumulated, events, sent⟩ := invariant.polled
        refine invariant_quietTask invariant next rfl rfl rfl rfl rfl rfl rfl rfl rfl (fun _ _ => by simp) ?_
          invariant.tables.computed invariant.tables.published ⟨accumulated, events, sent⟩
        rintro other (⟨own, opens⟩ | ⟨fd, flocks⟩)
        · cases opens
          obtain ⟨fd, kept⟩ := Option.isSome_iff_exists.mp held
          exact fun _ => ⟨fd, .locked, lockState_held kept, by simp⟩
        · cases flocks
      next unheld =>
        cases stepped
        exact invariant_openLock invariant next (Option.not_isSome_iff_eq_none.mp unheld)
    | flock reqId fd =>
      obtain ⟨files, locked, rfl⟩ := Option.map_eq_some_iff.mp stepped
      exact invariant_flock invariant next locked
    | submit save =>
      have unsubmitted : save.reqId ∉ s.submitted := by
        have once := invariant.scheduler.once
        rw [← invariant.scheduler.savedIds, ← invariant.queued.saves, next] at once
        intro before
        exact (List.nodup_append.mp (List.nodup_append.mp once).1).2.2 _ before _ List.mem_cons_self rfl
      have start := invariant_startWriter invariant next unsubmitted
      simp only [perform, submitAsyncWrite] at stepped
      split at stepped
      next =>
        split at stepped
        next fd held =>
          cases stepped
          exact held ▸ start _ fun other => Dict.get?_erase _ _ _
        next unheld =>
          split at stepped
          next useLock =>
            obtain ⟨fd, stage, state, taken⟩ :=
              (next ▸ invariant.queued.locks save.reqId).1 (.inl ⟨save, rfl, rfl⟩) useLock
            rw [invariant.tables.lockState_eq unheld unsubmitted, flocking_of_ne next fun fd => by simp] at state
            cases state
          next =>
            cases stepped
            refine unheld ▸ start s.lockFds fun other => ?_
            split
            next same => rw [same, unheld]
            next => rfl
      next => cases stepped
    | flockSubmit save fd => exact absurd (next ▸ List.mem_cons_self) (invariant.queued.once save fd)
    | getFinished finishedReqIds =>
      cases stepped
      exact invariant_getFinished invariant next
    | output scheduledReqIds =>
      cases stepped
      obtain ⟨accumulated, events, sent⟩ := invariant.polled
      refine invariant_quietTask invariant next rfl rfl rfl rfl rfl rfl rfl rfl rfl (fun _ _ => by simp)
        (fun other secures => absurd secures Task.not_secures_output) ?_ ?_ ⟨accumulated, events, sent⟩
      · intro reqId member
        rcases List.mem_append.mp member with before | now
        · exact invariant.tables.computed reqId before
        · exact (next ▸ invariant.queued.locks reqId).1 (.inr ⟨scheduledReqIds, rfl, now⟩)
      · exact fun reqId member => List.mem_append_left _ (invariant.tables.published reqId member)

end Worker

/-- A step of a writer or of a client. -/
theorem invariant_outside (invariant : Invariant distinct config s) (writers : Dict String Writer) (files : LockFiles)
    (clients : List (Client String))
    (written : ∀ reqId, (∃ writer, writers.get? reqId = some writer) ↔ ∃ writer, s.writers.get? reqId = some writer)
    (locks : ∀ reqId, lockState { s with writers, files, clients } reqId ≠ none → lockState s reqId ≠ none)
    (secured : ∀ reqId, Secured config s reqId → Secured config { s with writers, files, clients } reqId)
    (handoff : LockHandoff.Invariant distinct (handoff config { s with writers, files, clients })) :
    Invariant distinct config { s with writers, files, clients } := by
  obtain ⟨accumulated, events, sent⟩ := invariant.polled
  refine ⟨invariant.scheduler, invariant.held, invariant.names, ?_, ?_, ⟨accumulated, events, sent⟩, handoff⟩
  · exact invariant.queued.congr rfl rfl (fun _ _ => id) rfl secured
  · refine ⟨?_, invariant.tables.unsent, invariant.tables.opening, ?_, ?_, ?_, invariant.tables.published⟩
    · exact fun reqId => (invariant.tables.written reqId).trans (written reqId).symm
    · exact fun reqId some => invariant.tables.arrived reqId (locks reqId some)
    · intro without reqId
      by_contra some
      exact locks reqId some (invariant.tables.unlocked without reqId)
    · exact fun reqId member => secured reqId (invariant.tables.computed reqId member)

theorem Tables.lockState_written (tables : Tables config s) {writer : Writer}
    (present : s.writers.get? reqId = some writer) : s.lockFds.get? reqId = none ∧ flocking s reqId = none ∧
      lockState s reqId = writer.lockFd.map fun fd => (fd, if writer.stage = .done then .finished else .locked) := by
  have submitted := (tables.written reqId).mpr ⟨writer, present⟩
  have unlocked : flocking s reqId = none := by
    by_contra some
    obtain ⟨fd, first⟩ := Option.ne_none_iff_exists'.mp some
    exact (tables.opening reqId fd first).2 submitted
  exact ⟨tables.unheld submitted, unlocked, lockState_writer (tables.unheld submitted) unlocked present⟩

/-- A writer goes on. -/
theorem invariant_setWriter (invariant : Invariant distinct config s) {writer : Writer}
    (present : s.writers.get? reqId = some writer) (stage : WriterStage) (files : LockFiles)
    (handoff : (∀ other ≠ reqId, lockState { setWriter s reqId { writer with stage } with files } other =
        lockState s other) →
      lockState { setWriter s reqId { writer with stage } with files } reqId =
        (writer.lockFd.map fun fd => (fd, if stage = .done then .finished else .locked)) →
      LockHandoff.Invariant distinct (handoff config { setWriter s reqId { writer with stage } with files })) :
    Invariant distinct config { setWriter s reqId { writer with stage } with files } := by
  obtain ⟨unheld, unlocked, before⟩ := invariant.tables.lockState_written present
  set t : State := { setWriter s reqId { writer with stage } with files } with went
  have written : t.writers.get? reqId = some { writer with stage } := Dict.get?_set_self _ _ _
  have now := lockState_writer (s := t) unheld unlocked written
  have others : ∀ other ≠ reqId, t.writers.get? other = s.writers.get? other :=
    fun other different => Dict.get?_set_ne _ _ different
  have kept : ∀ other ≠ reqId, lockState t other = lockState s other :=
    fun other different => lockState_congr rfl (others other different) rfl
  refine invariant_outside invariant _ files s.clients ?_ ?_ ?_ (handoff kept now)
  · intro other
    by_cases same : other = reqId
    · subst same
      exact iff_of_true ⟨_, written⟩ ⟨_, present⟩
    · exact (others other same).symm ▸ Iff.rfl
  · intro other some
    by_cases same : other = reqId
    · subst same
      rw [before]
      exact fun none => some (now.trans (by simpa using none))
    · exact kept other same ▸ some
  · intro other taken
    by_cases same : other = reqId
    · subst same
      intro useLock
      obtain ⟨fd, earlier, state, -⟩ := taken useLock
      obtain ⟨own, lockFd, -⟩ := Option.map_eq_some_iff.mp (before.symm.trans state)
      refine ⟨own, _, now.trans (by rw [lockFd, Option.map_some]), ?_⟩
      split <;> simp
    · exact taken.congr (kept other same)

/-- The save attempt leaves the lock with the writer. -/
theorem invariant_attempted (invariant : Invariant distinct config s) {writer : Writer}
    (present : s.writers.get? reqId = some writer) (queued : writer.stage = .queued) :
    Invariant distinct config (setWriter s reqId { writer with stage := .attempted }) := by
  refine invariant_setWriter invariant present .attempted s.files fun others now => ?_
  obtain ⟨-, -, before⟩ := invariant.tables.lockState_written present
  refine handoff_congr invariant.handoff rfl rfl (fun other => ?_) fun _ _ => rfl
  by_cases same : other = reqId
  · rw [same, before, queued]
    exact now
  · exact others other same

/-- The writer closes the descriptor that its request's save came with. -/
theorem invariant_closed (invariant : Invariant distinct config s) {writer : Writer}
    (present : s.writers.get? reqId = some writer) (attempted : writer.stage = .attempted) :
    Invariant distinct config { setWriter s reqId { writer with stage := .done } with
      files := writer.lockFd.elim s.files s.files.close } := by
  refine invariant_setWriter invariant present .done _ fun others now => ?_
  obtain ⟨-, -, before⟩ := invariant.tables.lockState_written present
  cases own : writer.lockFd with
  | none =>
    rw [own] at now before others
    rw [Option.elim_none] at now others ⊢
    refine handoff_congr invariant.handoff rfl rfl (fun other => ?_) fun _ _ => rfl
    by_cases same : other = reqId
    · rw [same, before]
      exact now
    · exact others other same
  | some fd =>
    rw [own, attempted] at before
    rw [own] at now others
    rw [handoff_setOwner now others rfl rfl]
    exact LockHandoff.invariant_step invariant.handoff (.ownerCloses reqId _ (handoff_owner before) rfl)

/-- A client's step touches the files and the clients alone. -/
theorem invariant_client (invariant : Invariant distinct config s) (files : LockFiles) (clients : List (Client String))
    (stepped : LockHandoff.Step distinct (handoff config s) { handoff config s with files, clients }) :
    Invariant distinct config { s with files, clients } :=
  invariant_outside invariant s.writers files clients (fun _ => Iff.rfl) (fun _ => id) (fun _ => id)
    (LockHandoff.invariant_step invariant.handoff stepped)

/-- A client is told the path of a request whose lock has been taken. -/
theorem invariant_clientOpens (invariant : Invariant distinct config s) (published : reqId ∈ s.published)
    {files : LockFiles} (opened : s.files.openExisting (lockPath config s reqId) = some files) : Invariant distinct config { s with
      files
      clients := s.clients ++ [⟨reqId, lockPath config s reqId, s.files.descriptions.length, .opened⟩] } := by
  have locks : config.useLock = true := by
    obtain ⟨inode, named, -⟩ := LockFiles.openExisting_cases opened
    obtain ⟨other, owner, owns, -⟩ := invariant.handoff.named _ inode named
    obtain ⟨fd, stage, state, -⟩ := handoff_owner_cases owns
    cases same : config.useLock with
    | true => rfl
    | false =>
      rw [invariant.tables.unlocked same] at state
      cases state
  have computed := invariant.tables.published reqId published
  obtain ⟨fd, stage, state, taken⟩ := invariant.tables.computed reqId computed locks
  exact invariant_client invariant files _ (.clientOpens reqId _ files (handoff_owner state) taken opened)

theorem invariant_clientStep (invariant : Invariant distinct config s) {i : Nat} {client : Client String}
    (present : s.clients[i]? = some client) {event : Event} (stepped : clientStep s i client event = some t) :
    Invariant distinct config t := by
  cases event with
  | clientLocks =>
    simp only [clientStep] at stepped
    split at stepped
    next stage =>
      obtain ⟨files, locked, rfl⟩ := Option.map_eq_some_iff.mp stepped
      exact invariant_client invariant files _ (.clientLocks i client files present stage locked)
    next => cases stepped
  | clientFails =>
    simp only [clientStep] at stepped
    split at stepped
    next stage =>
      cases stepped
      exact invariant_client invariant _ _ (.clientFails i client present stage)
    next => cases stepped
  | clientCloses =>
    simp only [clientStep] at stepped
    split at stepped
    next stage =>
      cases stepped
      exact invariant_client invariant _ _ (.clientCloses i client present stage)
    next => cases stepped
  | clientRemoves =>
    simp only [clientStep] at stepped
    split at stepped
    next stage =>
      obtain ⟨files, removed, rfl⟩ := Option.map_eq_some_iff.mp stepped
      exact invariant_client invariant files _ (.clientRemoves i client files present stage removed)
    next => cases stepped
  | scheduler | worker | copied | attempted | closed | clientOpens => cases stepped

theorem invariant_copied (invariant : Invariant distinct config s) (reqId : String) :
    Invariant distinct config { s with copied := s.copied ++ [reqId] } := by
  obtain ⟨accumulated, events, sent⟩ := invariant.polled
  obtain ⟨written, unsent, opening, arrived, unlocked, computed, published⟩ := invariant.tables
  refine ⟨invariant.scheduler, invariant.held.mono (List.subset_append_left _ _), invariant.names, ?_,
    ⟨written, unsent, opening, arrived, unlocked, computed, published⟩, ⟨accumulated, ?_, ?_⟩, invariant.handoff⟩
  · exact invariant.queued.congr rfl rfl (fun _ _ => id) rfl fun _ => id
  · exact fun other member => (events other member).imp_right (List.mem_append_left _)
  · exact fun other member => (sent other member).imp_left (List.mem_append_left _)

/-- What the scheduler appends to the worker's tasks is no lock that is about to be taken. -/
theorem flocking_append {more : List Task} (todo : t.todo = s.todo ++ more)
    (noFlock : ∀ fd, .flock reqId fd ∉ more) : flocking t reqId = flocking s reqId := by
  cases before : s.todo with
  | cons task rest =>
    rw [flocking, flocking, todo, before, List.cons_append]
    cases task <;> rfl
  | nil =>
    have nothing : flocking s reqId = none := by rw [flocking, before]
    rw [nothing]
    refine flocking_none fun fd first => noFlock fd ?_
    rw [todo, before, List.nil_append] at first
    exact List.mem_of_mem_head? first

/-- A client is told the path only of a request whose output is there. -/
theorem told_computed {event : ConnectorScheduler.Event} (onTime : timely s event) (member : reqId ∈ told event) :
    reqId ∈ s.computed := by
  unfold told at member
  split at member
  next other _ _ =>
    rw [List.mem_singleton.mp member]
    exact of_decide_eq_true onTime
  next => cases member

/-- A request that arrives with a name of its own leaves the names different. -/
theorem Distinct.step (names : Distinct config s) {event : ConnectorScheduler.Event}
    (allowed : distinctNames config s (.scheduler event))
    (arrivals : ∀ reqId params, t.scheduler.arrived.get? reqId = some params →
      s.scheduler.arrived.get? reqId = some params ∨ event = .addRequest reqId params) : Distinct config t := by
  have fresh : ∀ reqId params other params', event = .addRequest reqId params →
      s.scheduler.arrived.get? other = some params' →
      filename config.scheduler other params' = filename config.scheduler reqId params → other = reqId := by
    rintro reqId params other params' rfl before same
    rcases of_decide_eq_true allowed other (Dict.mem_keys.mpr ⟨params', before⟩) with own | apart
    · exact own
    · rw [before] at apart
      exact absurd same (of_decide_eq_true apart)
  intro reqId params other params' arrived arrived' same
  rcases arrivals reqId params arrived with before | now <;>
    rcases arrivals other params' arrived' with before' | now'
  · exact names reqId params other params' before before' same
  · exact fresh other params' reqId params now' before same
  · exact (fresh reqId params other params' now before' same.symm).symm
  · cases now.symm.trans now'
    rfl

theorem invariant_schedulerStep (invariant : Invariant distinct config s) {event : ConnectorScheduler.Event}
    (allowed : distinct = true → distinctNames config s (.scheduler event))
    (stepped : schedulerStep config s event = some t) :
    Invariant distinct config t := by
  unfold schedulerStep at stepped
  split at stepped
  next onTime =>
    obtain ⟨next, moved, rest⟩ := Option.bind_eq_some_iff.mp stepped
    split at rest
    next quiet =>
      cases rest
      obtain ⟨handed, known, arrivals⟩ := step_handing invariant.scheduler moved
      obtain ⟨accumulated, events, sent⟩ := invariant.polled
      set more := (next.outputs.drop s.scheduler.outputs.length).flatMap (tasks config) with appended
      set t : State := { s with
        scheduler := next, todo := s.todo ++ more, published := s.published ++ told event } with after
      have opening : ∀ reqId, flocking t reqId = flocking s reqId := by
        refine fun reqId => flocking_append rfl fun fd member => ?_
        obtain ⟨output, -, inside⟩ := List.mem_flatMap.mp member
        simp [mem_tasks] at inside
      have locks : ∀ reqId, lockState t reqId = lockState s reqId := fun reqId =>
        lockState_congr rfl rfl (opening reqId)
      refine ⟨invariant_of_quiet invariant.scheduler moved quiet, ?_,
        fun apart => (invariant.names apart).step (allowed apart) arrivals, ?_, ?_, ⟨accumulated, events, sent⟩, ?_⟩
      · refine holds_step invariant.scheduler moved invariant.held fun reqId released => ?_
        subst released
        exact (sent reqId (of_decide_eq_true onTime)).1
      · rcases handed with ⟨output, outputs, handing⟩ | outputs
        · refine invariant.queued.handed invariant.scheduler handing ?_ outputs known rfl
            fun reqId taken => taken.congr (locks reqId)
          rw [after, appended, outputs, List.drop_left, List.flatMap_singleton]
        · refine invariant.queued.congr ?_ outputs known rfl fun reqId taken => taken.congr (locks reqId)
          rw [after, appended, outputs, List.drop_length, List.flatMap_nil, List.append_nil]
      · refine invariant.tables.congr rfl rfl rfl opening known invariant.tables.computed fun reqId member => ?_
        exact (List.mem_append.mp member).elim (invariant.tables.published reqId) (told_computed onTime)
      · refine handoff_congr invariant.handoff rfl rfl locks fun reqId some => ?_
        obtain ⟨params, before⟩ := invariant.tables.arrived reqId some
        rw [lockPath_eq before, lockPath_eq (known reqId params before)]
    next => cases rest
  next => cases stepped

theorem invariant_step {event : Event} (invariant : Invariant distinct config s)
    (allowed : distinct = true → distinctNames config s event) (stepped : step config s event = some t) :
    Invariant distinct config t := by
  cases event with
  | scheduler event => exact invariant_schedulerStep invariant allowed stepped
  | worker => exact invariant_workerStep invariant stepped
  | copied reqId =>
    simp only [step] at stepped
    split at stepped
    next =>
      cases stepped
      exact invariant_copied invariant reqId
    next => cases stepped
  | attempted reqId synchronized =>
    obtain ⟨writer, present, attempted⟩ := Option.bind_eq_some_iff.mp stepped
    split at attempted
    next may =>
      cases attempted
      exact invariant_attempted invariant present may.1
    next => cases attempted
  | closed reqId =>
    obtain ⟨writer, present, closed⟩ := Option.bind_eq_some_iff.mp stepped
    split at closed
    next stage =>
      cases closed
      exact invariant_closed invariant present stage
    next => cases closed
  | clientOpens reqId =>
    simp only [step] at stepped
    split at stepped
    next published =>
      obtain ⟨files, opened, rfl⟩ := Option.map_eq_some_iff.mp stepped
      exact invariant_clientOpens invariant published opened
    next => cases stepped
  | clientLocks i | clientFails i | clientCloses i | clientRemoves i =>
    obtain ⟨client, present, moved⟩ := Option.bind_eq_some_iff.mp stepped
    exact invariant_clientStep invariant present moved

theorem invariant_initial (config : Config) : Invariant distinct config initial where
  scheduler := ConnectorScheduler.invariant_initial config.scheduler
  held ended member := by simp [initial, ConnectorScheduler.initial] at member
  names _ reqId params other params' arrived := by simp [initial, ConnectorScheduler.initial] at arrived
  queued := queued_initial config
  tables := by
    have none : ∀ reqId, lockState initial reqId = none := fun reqId => by
      simp [lockState, initial, flocking]
    refine ⟨?_, ?_, ?_, fun reqId some => absurd (none reqId) some, fun _ => none, ?_, ?_⟩ <;>
      simp [initial, flocking]
  polled := by refine ⟨?_, ?_, ?_⟩ <;> simp [initial]
  handoff := by
    have same : handoff config initial = ⟨.empty, fun _ => none, []⟩ := by
      rw [handoff, LockHandoff.State.mk.injEq]
      refine ⟨rfl, funext fun reqId => ?_, rfl⟩
      simp [lockState, initial, flocking]
    exact same ▸ LockHandoff.invariant_initial

/-- A descriptor that is not closed is still to be closed by somebody. -/
theorem Invariant.inUse (invariant : Invariant distinct config s) (opened : fd < s.files.descriptions.length)
    (unclosed : fd ∉ s.files.closed) : InUse s fd := by
  rcases invariant.handoff.inUse opened unclosed with owned | ⟨client, member, own, isOpen⟩
  · obtain ⟨reqId, owner, owns, rfl, unfinished⟩ := owned
    obtain ⟨fd, stage, state, rfl⟩ := handoff_owner_cases owns
    rcases lockState_cases state with ⟨kept, -⟩ | ⟨writer, present, own, rfl⟩ | ⟨first, -⟩
    · exact .held reqId kept fun sent => invariant.tables.unsent reqId fd kept (invariant.polled.sent reqId sent).2
    · exact .writing reqId writer present own fun done => unfinished (if_pos done)
    · exact .locking reqId (flocking_iff.mp first)
  · exact .waiting client member own isOpen

theorem released_of_invariant (invariant : Invariant distinct config s) : Released config s where
  closedOnce := invariant.handoff.closedOnce
  closed fd opened := or_iff_not_imp_left.mpr (invariant.inUse opened)
  written reqId writer fd present own := by
    obtain ⟨-, -, state⟩ := invariant.tables.lockState_written present
    rw [own, Option.map_some] at state
    obtain ⟨inode, kept⟩ := invariant.handoff.owners reqId _ (handoff_owner state)
    refine kept.closed.trans ⟨fun finished => ?_, fun done => if_pos done⟩
    by_contra unfinished
    rw [if_neg unfinished] at finished
    cases finished
  sent reqId member := (invariant.polled.sent reqId member).1
  reused allocations t stepped a among block new ended member uncopied := by
    simp only [step, schedulerStep] at stepped
    split at stepped
    next =>
      obtain ⟨next, scheduled, -⟩ := Option.bind_eq_some_iff.mp stepped
      obtain ⟨-, requests, allocated, -⟩ := schedule_cases (step_cases invariant.scheduler.quiet scheduled)
      obtain ⟨request, present, status, blocks⟩ := invariant.held ended member uncopied
      exact blocks ▸ scheduleRequests_unheld allocated present status among new
    next => cases stepped

theorem handedOff_of_invariant (invariant : Invariant true config s) : HandedOff config s where
  toReleased := released_of_invariant invariant
  returned client member returned := by
    obtain ⟨owner, owns, finished⟩ := invariant.handoff.finished member (by simp [returned, ClientStage.hadLock])
    obtain ⟨fd, stage, state, rfl⟩ := handoff_owner_cases owns
    rcases lockState_cases state with ⟨-, locked⟩ | ⟨writer, present, -, ended⟩ | ⟨-, opened⟩
    · cases finished.symm.trans locked
    · refine ⟨writer, present, fun queued => ?_⟩
      rw [queued] at ended
      cases finished.symm.trans ended
    · cases finished.symm.trans opened

/-- Whatever the order in which the scheduler, the worker, the copies, the writers and the clients take their
steps, descriptors are closed once and blocks given out behind the copies. Files that are not given to two requests
are handed over, too. -/
theorem handedOff_of_distinct {events : List Event} (ran : run (step config) events initial = some s) :
    Released config s ∧ (along (step config) (distinctNames config) events initial → HandedOff config s) := by
  constructor
  · have reached : Invariant false config s := run_invariant
      (fun invariant => invariant_step invariant fun absurdity => absurd absurdity Bool.false_ne_true)
      (invariant_initial config) ran
    exact released_of_invariant reached
  · intro allows
    have reached : Invariant true config s := run_invariant_along
      (fun invariant allowed => invariant_step invariant fun _ => allowed) (invariant_initial config) allows ran
    exact handedOff_of_invariant reached

/-- The names the connector gives by itself are never the same. -/
theorem distinctNames_of_given (given : config.scheduler.allowCustomSavePath = false) {params : Params}
    (relative : reqId.toList.head? ≠ some '/')
    (others : ∀ other ∈ s.scheduler.arrived.keys, other.toList.head? ≠ some '/') :
    distinctNames config s (.scheduler (.addRequest reqId params)) := by
  refine decide_eq_true fun other member => ?_
  obtain ⟨known, arrived⟩ := Dict.mem_keys.mp member
  by_cases same : other = reqId
  · exact .inl same
  · rw [arrived]
    exact .inr (decide_eq_true fun names => same (filename_injective given (others other member) relative names))

/-- The settings a server has: no file names of the requests' own, and lock files. -/
def served : Config := ⟨tmpStorage, true⟩

def prompted (path : Option String) : Params := ⟨.tokenIds [1, 2], path, false, false⟩

/-- A request that stops after its first step and is saved with the next one, while a client waits for it. -/
def savedWhileWaiting : List Event := [
  .scheduler (.addRequest "a" (prompted none)), .scheduler (.schedule [⟨"a", [], [1], 2⟩]),
  .worker, .worker, .worker, .worker, .scheduler (.updateFromOutput "a" [3] 0 true), .clientOpens "a",
  .scheduler (.addRequest "b" (prompted none)), .scheduler (.schedule [⟨"b", [], [2], 2⟩]), .worker,
  .copied "a", .attempted "a" true, .closed "a", .clientLocks 0, .worker, .clientCloses 0, .clientRemoves 0]

theorem handedOff_savedWhileWaiting : ∃ s, run (step served) savedWhileWaiting initial = some s ∧
    s.doneSending = ["a"] ∧ HandedOff served s := by
  have ends : ((run (step served) savedWhileWaiting initial).map (·.doneSending)) = some ["a"] := by decide +kernel
  obtain ⟨s, ran, sent⟩ := Option.map_eq_some_iff.mp ends
  exact ⟨s, ran, sent, (handedOff_of_distinct ran).2 (by decide +kernel)⟩

/-- Three requests are given the same file name by clients that may choose it. The first client removes the lock
file of the second request; the second client opens the one that is made for the third, and has its lock before the
worker takes it. -/
def sharedName : List Event := [
  .scheduler (.addRequest "a" (prompted (some "/x"))), .scheduler (.schedule [⟨"a", [], [1], 2⟩]),
  .worker, .worker, .worker, .worker, .scheduler (.updateFromOutput "a" [3] 0 true),
  .scheduler (.addRequest "b" (prompted (some "/x"))), .scheduler (.schedule [⟨"b", [], [2], 2⟩]), .worker,
  .copied "a", .attempted "a" true, .closed "a", .clientOpens "a", .clientLocks 0, .clientCloses 0,
  .worker, .worker, .worker, .worker, .clientRemoves 0, .scheduler (.updateFromOutput "b" [3] 0 true),
  .scheduler (.addRequest "c" (prompted (some "/x"))), .scheduler (.schedule [⟨"c", [], [3], 2⟩]),
  .worker, .worker, .worker, .clientOpens "b", .clientLocks 1, .clientCloses 1, .clientRemoves 1]

def customPaths : Config := ⟨{ tmpStorage with allowCustomSavePath := true }, true⟩

/-- The second client is back before its request's save has been tried. -/
def earlyReturn (s : State) : Bool := s.clients.any fun client =>
  client.stage = .returned && (s.writers.get? client.key).all (·.stage = .queued)

theorem not_handedOff_sharedName :
    ¬ ∀ config events s, run (step config) events initial = some s → HandedOff config s := by
  intro handedOff
  have ends : ((run (step customPaths) sharedName initial).map earlyReturn) = some true := by decide +kernel
  obtain ⟨s, ran, early⟩ := Option.map_eq_some_iff.mp ends
  obtain ⟨client, member, back⟩ := List.any_eq_true.mp early
  obtain ⟨returned, queued⟩ := Bool.and_eq_true_iff.mp back
  obtain ⟨writer, present, tried⟩ :=
    (handedOff customPaths sharedName s ran).returned client member (of_decide_eq_true returned)
  rw [present] at queued
  exact tried (of_decide_eq_true queued)

end DreamAifd.HiddenStatesWorker
