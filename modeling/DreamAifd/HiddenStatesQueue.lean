import DreamAifd.HiddenStatesWorker
import DreamAifd.Precedence

/-! The order of the worker's tasks. The lock of a request is ahead of its save and of its output, its save is
ahead of the poll for it, and a request that is saved is not locked again. -/
namespace DreamAifd.HiddenStatesWorker

open Machine ConnectorScheduler LockHandoff

def Task.opens (reqId : String) (task : Task) : Prop := ∃ filename, task = .openLock reqId filename

def Task.secures (reqId : String) (task : Task) : Prop := task.opens reqId ∨ ∃ fd, task = .flock reqId fd

def Task.submits (reqId : String) (task : Task) : Prop :=
  ∃ save : PendingSave, task = .submit save ∧ save.reqId = reqId

theorem Task.not_secures_submit {reqId : String} {save : PendingSave} : ¬ (Task.submit save).secures reqId := by
  simp [Task.secures, Task.opens]

theorem Task.not_secures_getFinished {reqId : String} {reqIds : List String} :
    ¬ (Task.getFinished reqIds).secures reqId := by
  simp [Task.secures, Task.opens]

theorem Task.not_secures_output {reqId : String} {reqIds : List String} :
    ¬ (Task.output reqIds).secures reqId := by
  simp [Task.secures, Task.opens]

def Task.needsLock (reqId : String) (task : Task) : Prop :=
  task.submits reqId ∨ ∃ reqIds, task = .output reqIds ∧ reqId ∈ reqIds

def Task.polls (reqId : String) (task : Task) : Prop := ∃ reqIds, task = .getFinished reqIds ∧ reqId ∈ reqIds

def Task.savedId : Task → Option String
  | .submit save => some save.reqId
  | _ => none

def Secured (config : Config) (s : State) (reqId : String) : Prop := config.useLock = true →
  ∃ fd stage, lockState s reqId = some (fd, stage) ∧ stage ≠ .opened

/-- The order of what the worker has still to do. -/
structure Queued (config : Config) (s : State) : Prop where
  named : ∀ reqId name, .openLock reqId name ∈ s.todo →
    ∃ params, s.scheduler.arrived.get? reqId = some params ∧ name = filename config.scheduler reqId params
  saves : s.submitted ++ s.todo.filterMap Task.savedId = s.scheduler.handedSaves.map (·.reqId)
  head : ∀ reqId fd, .flock reqId fd ∉ s.todo.tail
  once : ∀ save fd, .flockSubmit save fd ∉ s.todo
  locks : ∀ reqId, Supplied (Task.secures reqId) (Task.needsLock reqId) (Secured config s reqId) s.todo
  saved : ∀ reqId, Supplied (Task.submits reqId) (Task.polls reqId) (reqId ∈ s.submitted) s.todo
  order : s.todo.Pairwise fun first later => ∀ reqId, first.submits reqId → ¬ later.opens reqId
  unsubmitted : ∀ reqId name, .openLock reqId name ∈ s.todo → reqId ∉ s.submitted
  scheduled : ∀ reqId ∈ s.scheduler.scheduledReqIds, Secured config s reqId ∨ ∃ task ∈ s.todo, task.secures reqId
  unlocked : config.useLock = false → ∀ task ∈ s.todo, ∀ reqId, ¬ task.secures reqId

variable {config : Config} {s t : State}

/-- The worker's next task is done. -/
theorem Queued.pop (queued : Queued config s) {task : Task} {todo : List Task} (next : s.todo = task :: todo)
    (rest : t.todo = todo) (scheduler : t.scheduler = s.scheduler)
    (submitted : t.submitted = s.submitted ++ task.savedId.toList)
    (secured : ∀ reqId, Secured config s reqId ∨ task.secures reqId → Secured config t reqId) : Queued config t := by
  have later : ∀ other ∈ todo, other ∈ s.todo := fun other member => next ▸ List.mem_cons_of_mem _ member
  have tail : s.todo.tail = todo := by rw [next, List.tail_cons]
  obtain ⟨behind, order⟩ := List.pairwise_cons.mp (next ▸ queued.order)
  refine ⟨?_, ?_, ?_, ?_, ?_, ?_, rest ▸ order, ?_, ?_, ?_⟩
  · intro reqId name member
    exact scheduler ▸ queued.named reqId name (later _ (rest ▸ member))
  · rw [rest, scheduler, ← queued.saves, submitted, next, List.append_assoc]
    cases savedId : task.savedId <;> simp [savedId]
  · intro reqId fd member
    exact queued.head reqId fd (tail ▸ rest ▸ List.mem_of_mem_tail member)
  · intro save fd member
    exact queued.once save fd (later _ (rest ▸ member))
  · intro reqId
    exact rest ▸ (next ▸ queued.locks reqId).2.mono (secured reqId)
  · intro reqId
    refine rest ▸ (next ▸ queued.saved reqId).2.mono ?_
    rintro (before | ⟨save, rfl, rfl⟩)
    · exact submitted ▸ List.mem_append_left _ before
    · exact submitted ▸ List.mem_append_right _ (List.mem_singleton_self _)
  · intro reqId name member
    rw [submitted, List.mem_append]
    rintro (before | now)
    · exact queued.unsubmitted reqId name (later _ (rest ▸ member)) before
    · cases task with
      | submit save =>
        refine behind _ (rest ▸ member) reqId ⟨save, rfl, ?_⟩ ⟨name, rfl⟩
        exact (List.mem_singleton.mp now).symm
      | openLock | flock | flockSubmit | getFinished | output => exact absurd now List.not_mem_nil
  · intro reqId member
    rcases queued.scheduled reqId (scheduler ▸ member) with already | ⟨other, among, secures⟩
    · exact .inl (secured reqId (.inl already))
    · rcases List.mem_cons.mp (next ▸ among) with rfl | behind
      · exact .inl (secured reqId (.inr secures))
      · exact .inr ⟨other, rest ▸ behind, secures⟩
  · intro without other member
    exact queued.unlocked without other (later _ (rest ▸ member))

/-- The worker has opened a lock file, whose lock it takes next. -/
theorem Queued.opened (queued : Queued config s) {reqId name : String} {fd : Nat} {todo : List Task}
    (next : s.todo = .openLock reqId name :: todo) (rest : t.todo = .flock reqId fd :: todo)
    (scheduler : t.scheduler = s.scheduler) (submitted : t.submitted = s.submitted)
    (secured : ∀ reqId, Secured config s reqId → Secured config t reqId) : Queued config t := by
  have later : ∀ other ∈ todo, other ∈ s.todo := fun other member => next ▸ List.mem_cons_of_mem _ member
  obtain ⟨-, order⟩ := List.pairwise_cons.mp (next ▸ queued.order)
  have split : ∀ other ∈ t.todo, other = .flock reqId fd ∨ other ∈ s.todo := fun other member =>
    (List.mem_cons.mp (rest ▸ member)).imp_right (later other)
  refine ⟨?_, ?_, ?_, ?_, ?_, ?_, ?_, ?_, ?_, ?_⟩
  · intro other own member
    exact scheduler ▸ queued.named other own ((split _ member).resolve_left (by simp))
  · rw [rest, scheduler, submitted, ← queued.saves, next]
    rfl
  · intro other own member
    have inside : Task.flock other own ∈ todo := by
      rw [rest] at member
      exact member
    exact queued.head other own (by rw [next]; exact inside)
  · intro save own member
    exact queued.once save own ((split _ member).resolve_left (by simp))
  · intro other
    obtain ⟨-, supplied⟩ := next ▸ queued.locks other
    rw [rest]
    refine ⟨by simp [Task.needsLock, Task.submits], supplied.mono ?_⟩
    rintro (already | ⟨own, same⟩ | ⟨own, same⟩)
    · exact .inl (secured other already)
    · cases same
      exact .inr (.inr ⟨fd, rfl⟩)
    · cases same
  · intro other
    obtain ⟨-, supplied⟩ := next ▸ queued.saved other
    rw [rest, submitted]
    refine ⟨by simp [Task.polls], supplied.mono ?_⟩
    rintro (before | ⟨save, same, -⟩)
    · exact .inl before
    · cases same
  · rw [rest]
    refine List.pairwise_cons.mpr ⟨?_, order⟩
    rintro other - own ⟨save, same, -⟩
    cases same
  · intro other own member
    rw [submitted]
    exact queued.unsubmitted other own ((split _ member).resolve_left (by simp))
  · intro other member
    rcases queued.scheduled other (scheduler ▸ member) with already | ⟨task, among, secures⟩
    · exact .inl (secured other already)
    · rcases List.mem_cons.mp (next ▸ among) with rfl | behind
      · obtain ⟨own, same⟩ | ⟨own, same⟩ := secures
        · cases same
          exact .inr ⟨_, rest ▸ List.mem_cons_self, .inr ⟨fd, rfl⟩⟩
        · cases same
      · exact .inr ⟨task, rest ▸ List.mem_cons_of_mem _ behind, secures⟩
  · intro without other member own secures
    have opens := queued.unlocked without _ (next ▸ List.mem_cons_self) reqId (.inl ⟨name, rfl⟩)
    exact opens

/-- Nothing the worker has to do changes. -/
theorem Queued.congr (queued : Queued config s) (todo : t.todo = s.todo)
    (outputs : t.scheduler.outputs = s.scheduler.outputs)
    (arrived : ∀ reqId params, s.scheduler.arrived.get? reqId = some params →
      t.scheduler.arrived.get? reqId = some params)
    (submitted : t.submitted = s.submitted)
    (secured : ∀ reqId, Secured config s reqId → Secured config t reqId) : Queued config t := by
  refine ⟨?_, ?_, todo ▸ queued.head, todo ▸ queued.once, ?_, ?_, todo ▸ queued.order, ?_, ?_, todo ▸ queued.unlocked⟩
  · intro reqId name member
    obtain ⟨params, known, own⟩ := queued.named reqId name (todo ▸ member)
    exact ⟨params, arrived reqId params known, own⟩
  · rw [todo, submitted, State.handedSaves, outputs]
    exact queued.saves
  · intro reqId
    exact todo ▸ (queued.locks reqId).mono (secured reqId)
  · exact todo ▸ submitted ▸ queued.saved
  · exact todo ▸ submitted ▸ queued.unsubmitted
  · intro reqId member
    rw [State.scheduledReqIds, outputs] at member
    rw [todo]
    exact (queued.scheduled reqId member).imp_left (secured reqId)

theorem mem_tasks {output : SchedulerOutput} {task : Task} : task ∈ tasks config output ↔
    (config.useLock = true ∧ ∃ new ∈ output.newReqFilenames, .openLock new.1 new.2 = task) ∨
      (∃ save ∈ output.pendingSaves, .submit save = task) ∨ task = .getFinished output.finishedReqIds ∨
        task = .output output.scheduledReqIds := by
  have locks : (task ∈ if config.useLock then output.newReqFilenames.map fun new => .openLock new.1 new.2 else []) ↔
      config.useLock = true ∧ ∃ new ∈ output.newReqFilenames, .openLock new.1 new.2 = task := by
    split
    next locks => simp only [locks, true_and, List.mem_map]
    next unlocked => simp [unlocked]
  simp only [tasks, List.mem_append, List.mem_singleton]
  split
  next => rw [List.mem_append, locks, List.mem_append, List.mem_map, List.mem_singleton, or_assoc, or_assoc]
  next =>
    rw [List.mem_append, locks, List.mem_append, List.mem_map, List.mem_singleton]
    simp only [or_assoc, or_left_comm]

theorem tasks_savedIds (config : Config) (output : SchedulerOutput) :
    (tasks config output).filterMap Task.savedId = output.pendingSaves.map (·.reqId) := by
  have saves : (output.pendingSaves.map Task.submit).filterMap Task.savedId = output.pendingSaves.map (·.reqId) := by
    rw [List.filterMap_map, ← List.filterMap_eq_map]
    rfl
  have locks : (output.newReqFilenames.map fun new => Task.openLock new.1 new.2).filterMap Task.savedId = [] := by
    rw [List.filterMap_map]
    exact List.filterMap_eq_nil_iff.mpr fun new _ => rfl
  have last : Task.savedId (.getFinished output.finishedReqIds) = none := rfl
  have result : Task.savedId (.output output.scheduledReqIds) = none := rfl
  unfold tasks
  cases config.useLock <;> cases config.scheduler.useV2ModelRunner <;>
    simp [List.filterMap_append, saves, locks, last, result]

variable {output : SchedulerOutput} {reqId : String}

theorem Queued.submitted_finished (queued : Queued config s)
    (invariant : ConnectorScheduler.Invariant config.scheduler s.scheduler) (submitted : reqId ∈ s.submitted) :
    reqId ∈ s.scheduler.finishedIds := by
  rw [← invariant.savedIds, ← queued.saves]
  exact List.mem_append_left _ (List.mem_append_left _ submitted)

theorem Queued.submits_finished (queued : Queued config s)
    (invariant : ConnectorScheduler.Invariant config.scheduler s.scheduler) {task : Task} (member : task ∈ s.todo)
    (submits : task.submits reqId) : reqId ∈ s.scheduler.finishedIds := by
  obtain ⟨save, rfl, rfl⟩ := submits
  rw [← invariant.savedIds, ← queued.saves]
  exact List.mem_append_left _ (List.mem_append_right _ (List.mem_filterMap.mpr ⟨_, member, rfl⟩))

/-- A step's saves are of requests that finished before it. -/
theorem saves_finished (invariant : ConnectorScheduler.Invariant config.scheduler s.scheduler)
    (handing : Handing config.scheduler s.scheduler output) {task : Task} (member : task ∈ tasks config output)
    (submits : task.submits reqId) : reqId ∈ s.scheduler.finishedIds := by
  obtain ⟨save, rfl, rfl⟩ := submits
  rw [← invariant.savedIds, ← handing.pendingSaves]
  rcases mem_tasks.mp member with ⟨-, new, -, same⟩ | ⟨own, among, same⟩ | same | same
  · cases same
  · cases same
    exact List.mem_append_right _ (List.mem_map_of_mem among)
  · cases same
  · cases same

/-- A step's lock files are of requests that have not finished. -/
theorem locks_unfinished (handing : Handing config.scheduler s.scheduler output) {name : String}
    (member : .openLock reqId name ∈ tasks config output) : config.useLock = true ∧
      reqId ∉ s.scheduler.finishedIds ∧ ∃ params, s.scheduler.arrived.get? reqId = some params ∧
        name = filename config.scheduler reqId params := by
  rcases mem_tasks.mp member with ⟨locks, new, among, same⟩ | ⟨own, among, same⟩ | same | same
  · cases same
    exact ⟨locks, handing.newReqFilenames new among⟩
  · cases same
  · cases same
  · cases same

/-- Within a step, the lock of a request that runs in it is ahead of its output. -/
theorem tasks_locks (invariant : ConnectorScheduler.Invariant config.scheduler s.scheduler)
    (handing : Handing config.scheduler s.scheduler output) {present : Prop}
    (scheduled : reqId ∈ s.scheduler.scheduledReqIds ∨ config.useLock = false → present) :
    Supplied (Task.secures reqId) (Task.needsLock reqId) present (tasks config output) := by
  by_cases there : present
  · exact .of_present there
  have unscheduled : reqId ∉ s.scheduler.scheduledReqIds := fun before => there (scheduled (.inl before))
  have locks : config.useLock = true := by
    cases same : config.useLock with
    | true => rfl
    | false => exact absurd (scheduled (.inr same)) there
  refine Supplied.append.mpr ⟨.of_forall fun task member needs => ?_, fun needs => .inr ?_, trivial⟩
  · have listed : task ∈ tasks config output := List.mem_append_left _ member
    obtain submits | ⟨reqIds, rfl, -⟩ := needs
    · exact unscheduled (invariant.scheduled (saves_finished invariant handing listed submits))
    · split at member <;> simp at member
  · obtain ⟨save, same, -⟩ | ⟨reqIds, same, among⟩ := needs
    · cases same
    · cases same
      obtain ⟨new, member, rfl⟩ :=
        List.mem_map.mp ((handing.scheduledReqIds reqId among).resolve_left unscheduled)
      refine ⟨.openLock new.1 new.2, ?_, .inl ⟨_, rfl⟩⟩
      split <;> simp only [List.mem_append, List.mem_map] <;> grind

/-- Within a step, the save of a request is ahead of the poll for it. -/
theorem tasks_saved (invariant : ConnectorScheduler.Invariant config.scheduler s.scheduler)
    (handing : Handing config.scheduler s.scheduler output) (present : Prop) :
    Supplied (Task.submits reqId) (Task.polls reqId) present (tasks config output) := by
  have locks : ∀ present, Supplied (Task.submits reqId) (Task.polls reqId) present
      (if config.useLock then output.newReqFilenames.map fun new => .openLock new.1 new.2 else []) := by
    refine fun present => .of_forall fun task member polls => ?_
    obtain ⟨reqIds, rfl, -⟩ := polls
    split at member <;> simp at member
  have saves : ∀ present, Supplied (Task.submits reqId) (Task.polls reqId) present
      (output.pendingSaves.map .submit ++ [.getFinished output.finishedReqIds]) := by
    refine fun present => Supplied.append.mpr ⟨.of_forall fun task member polls => ?_, fun polls => .inr ?_, trivial⟩
    · obtain ⟨reqIds, rfl, -⟩ := polls
      simp at member
    · obtain ⟨reqIds, same, among⟩ := polls
      cases same
      rw [handing.finishedReqIds, invariant.told, ← handing.pendingSaves] at among
      obtain ⟨save, member, own⟩ := List.mem_map.mp among
      exact ⟨_, List.mem_map_of_mem member, save, rfl, own⟩
  have last : ∀ present, Supplied (Task.submits reqId) (Task.polls reqId) present
      [.output output.scheduledReqIds] := by
    refine fun present => .of_forall fun task member polls => ?_
    obtain ⟨reqIds, rfl, -⟩ := polls
    simp at member
  refine Supplied.append.mpr ⟨?_, last _⟩
  split
  next => exact Supplied.append.mpr ⟨locks _, saves _⟩
  next => exact Supplied.append.mpr ⟨saves _, locks _⟩

/-- The worker is handed a step. -/
theorem Queued.handed (queued : Queued config s)
    (invariant : ConnectorScheduler.Invariant config.scheduler s.scheduler)
    (handing : Handing config.scheduler s.scheduler output) (todo : t.todo = s.todo ++ tasks config output)
    (outputs : t.scheduler.outputs = s.scheduler.outputs ++ [output])
    (arrived : ∀ reqId params, s.scheduler.arrived.get? reqId = some params →
      t.scheduler.arrived.get? reqId = some params)
    (submitted : t.submitted = s.submitted)
    (secured : ∀ reqId, Secured config s reqId → Secured config t reqId) : Queued config t := by
  have without : config.useLock = false → ∀ reqId, Secured config t reqId := by
    intro unlocked reqId locks
    rw [unlocked] at locks
    cases locks
  refine ⟨?_, ?_, ?_, ?_, ?_, ?_, ?_, ?_, ?_, ?_⟩
  · intro reqId name member
    rw [todo] at member
    rcases List.mem_append.mp member with before | now
    · obtain ⟨params, known, own⟩ := queued.named reqId name before
      exact ⟨params, arrived reqId params known, own⟩
    · obtain ⟨-, -, params, known, own⟩ := locks_unfinished handing now
      exact ⟨params, arrived reqId params known, own⟩
  · rw [todo, submitted, List.filterMap_append, tasks_savedIds, ← List.append_assoc, queued.saves,
      State.handedSaves, State.handedSaves, outputs, List.flatMap_append, List.map_append, List.flatMap_singleton]
  · intro reqId fd member
    have listed : Task.flock reqId fd ∈ s.todo.tail ∨ Task.flock reqId fd ∈ tasks config output := by
      rw [todo] at member
      cases before : s.todo with
      | nil =>
        rw [before, List.nil_append] at member
        exact .inr (List.mem_of_mem_tail member)
      | cons task rest =>
        rw [before, List.cons_append, List.tail_cons] at member
        exact List.mem_append.mp member
    rcases listed with before | now
    · exact queued.head reqId fd before
    · simp [mem_tasks] at now
  · intro save fd member
    rw [todo] at member
    rcases List.mem_append.mp member with before | now
    · exact queued.once save fd before
    · simp [mem_tasks] at now
  · intro reqId
    rw [todo]
    refine Supplied.append.mpr ⟨(queued.locks reqId).mono (secured reqId), tasks_locks invariant handing ?_⟩
    rintro (scheduled | unlocked)
    · exact (queued.scheduled reqId scheduled).imp_left (secured reqId)
    · exact .inl (without unlocked reqId)
  · intro reqId
    rw [todo, submitted]
    exact Supplied.append.mpr ⟨queued.saved reqId, tasks_saved invariant handing _⟩
  · rw [todo]
    refine List.pairwise_append.mpr ⟨queued.order, ?_, ?_⟩
    · refine List.pairwise_of_forall_mem_list fun first member later among reqId submits opens => ?_
      obtain ⟨name, rfl⟩ := opens
      exact (locks_unfinished handing among).2.1 (saves_finished invariant handing member submits)
    · intro first member later among reqId submits opens
      obtain ⟨name, rfl⟩ := opens
      exact (locks_unfinished handing among).2.1 (queued.submits_finished invariant member submits)
  · intro reqId name member already
    rw [todo] at member
    rw [submitted] at already
    rcases List.mem_append.mp member with before | now
    · exact queued.unsubmitted reqId name before already
    · exact (locks_unfinished handing now).2.1 (queued.submitted_finished invariant already)
  · intro reqId member
    have earlier : reqId ∈ s.scheduler.scheduledReqIds →
        Secured config t reqId ∨ ∃ task ∈ t.todo, task.secures reqId := by
      intro before
      rcases queued.scheduled reqId before with already | ⟨task, among, secures⟩
      · exact .inl (secured reqId already)
      · exact .inr ⟨task, todo ▸ List.mem_append_left _ among, secures⟩
    rw [State.scheduledReqIds, outputs, List.flatMap_append, List.flatMap_singleton] at member
    rcases List.mem_append.mp member with before | now
    · exact earlier before
    · rcases handing.scheduledReqIds reqId now with before | new
      · exact earlier before
      · obtain ⟨entry, among, rfl⟩ := List.mem_map.mp new
        cases locks : config.useLock with
        | false => exact .inl (without locks _)
        | true =>
          have listed := mem_tasks.mpr (.inl ⟨locks, entry, among, rfl⟩)
          exact .inr ⟨_, todo ▸ List.mem_append_right _ listed, .inl ⟨_, rfl⟩⟩
  · intro unlocked task member reqId secures
    rw [todo] at member
    rcases List.mem_append.mp member with before | now
    · exact queued.unlocked unlocked task before reqId secures
    · obtain ⟨name, rfl⟩ | ⟨fd, rfl⟩ := secures
      · exact absurd (locks_unfinished handing now).1 (by simp [unlocked])
      · simp [mem_tasks] at now

theorem queued_initial (config : Config) : Queued config initial where
  named reqId name member := by simp [initial] at member
  saves := rfl
  head reqId fd member := by simp [initial] at member
  once save fd member := by simp [initial] at member
  locks _ := trivial
  saved _ := trivial
  order := .nil
  unsubmitted reqId name member := by simp [initial] at member
  scheduled reqId member := by simp [initial, ConnectorScheduler.initial, State.scheduledReqIds] at member
  unlocked _ task member := by simp [initial] at member

end DreamAifd.HiddenStatesWorker
