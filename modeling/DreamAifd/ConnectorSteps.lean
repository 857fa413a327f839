import DreamAifd.ConnectorScheduler

/-! What one step of the scheduler means for the worker: the output it hands over, the requests that stay known,
and the blocks that finished requests hold until they are released. -/
namespace DreamAifd.ConnectorScheduler

variable {config : Config} {s t : State} {reqId : String}

/-- A step that does not raise keeps the invariant. -/
theorem invariant_of_quiet {event : Event} (invariant : Invariant config s) (stepped : step config s event = some t)
    (quiet : t.raised = none) : Invariant config t := by
  cases allowed : reachesScheduled s event with
  | true => exact invariant_step invariant allowed stepped
  | false => exact absurd quiet (raises_of_unscheduled invariant allowed stepped).1

/-- What a step hands to the worker, in terms of the scheduler before it. -/
structure Handing (config : Config) (s : State) (output : SchedulerOutput) : Prop where
  finishedReqIds : output.finishedReqIds = s.finishedReqIds
  pendingSaves : output.pendingSaves = s.connector.pendingSaves
  newReqFilenames : ∀ new ∈ output.newReqFilenames, new.1 ∉ s.finishedIds ∧
    ∃ params, s.arrived.get? new.1 = some params ∧ new.2 = filename config new.1 params
  scheduledReqIds : ∀ reqId ∈ output.scheduledReqIds, reqId ∈ s.scheduledReqIds ∨
    reqId ∈ output.newReqFilenames.map (·.1)

theorem schedule_handing (invariant : Invariant config s) {allocations : List Allocation}
    (stepped : schedule config s allocations = some t) :
    ∃ output, t.outputs = s.outputs ++ [output] ∧ Handing config s output := by
  obtain ⟨distinct, requests, allocated, rfl⟩ := schedule_cases stepped
  obtain ⟨-, given⟩ := scheduleRequests_get? distinct allocated
  refine ⟨_, rfl, rfl, rfl, ?_, ?_⟩
  · intro new listed
    obtain ⟨entry, among, rfl⟩ := List.mem_map.mp listed
    obtain ⟨a, -, request, present, status, rfl⟩ := mem_scheduledNewReqs.mp among
    rcases status with waits | ⟨-, preempted⟩
    · obtain ⟨arrived, -, unfinished, -⟩ := (invariant.tracked a.reqId).of_waiting present (.inl waits)
      exact ⟨unfinished, request.params, arrived, rfl⟩
    · obtain ⟨arrived, -, unfinished, -⟩ := (invariant.tracked a.reqId).of_active present
        (by simp [preempted, RequestStatus.active])
      exact ⟨unfinished, request.params, arrived, rfl⟩
  · intro reqId member
    obtain ⟨a, among, rfl⟩ := List.mem_map.mp member
    obtain ⟨request, present, waits | active, -⟩ := given a among
    · refine .inr ?_
      rw [List.map_map]
      exact List.mem_map.mpr ⟨(a.reqId, request.params),
        mem_scheduledNewReqs.mpr ⟨a, among, request, present, .inl waits, rfl⟩, rfl⟩
    · exact .inl ((invariant.tracked a.reqId).of_active present active).2.1

theorem freeRequest_outputs (config : Config) (s : State) (reqId : String) (request : Request) :
    (freeRequest config s reqId request).outputs = s.outputs ∧
      (freeRequest config s reqId request).arrived = s.arrived := by
  simp only [freeRequest]
  split <;> exact ⟨rfl, rfl⟩

theorem freeRequests_outputs (config : Config) (reqIds : List String) (s : State) :
    (freeRequests config reqIds s).outputs = s.outputs ∧ (freeRequests config reqIds s).arrived = s.arrived := by
  induction reqIds generalizing s with
  | nil => exact ⟨rfl, rfl⟩
  | cons reqId reqIds ih =>
    simp only [freeRequests]
    split
    next => exact ih s
    next request _ =>
      have first := freeRequest_outputs config s reqId request
      split
      next =>
        obtain ⟨outputs, arrived⟩ := ih (freeRequest config s reqId request)
        exact ⟨outputs.trans first.1, arrived.trans first.2⟩
      next => exact first

/-- A step hands at most one output to the worker, and what arrived stays known. -/
theorem step_handing (invariant : Invariant config s) {event : Event} (stepped : step config s event = some t) :
    ((∃ output, t.outputs = s.outputs ++ [output] ∧ Handing config s output) ∨ t.outputs = s.outputs) ∧
      (∀ reqId params, s.arrived.get? reqId = some params → t.arrived.get? reqId = some params) ∧
      ∀ reqId params, t.arrived.get? reqId = some params →
        s.arrived.get? reqId = some params ∨ event = .addRequest reqId params := by
  have outcome := step_cases invariant.quiet stepped
  cases event with
  | addRequest reqId params =>
    obtain ⟨fresh, rfl⟩ := outcome
    refine ⟨.inr rfl, fun other before known => ?_, fun other now known => ?_⟩
    · have different : other ≠ reqId := by
        rintro rfl
        rw [fresh] at known
        cases known
      exact (Dict.get?_set_ne _ _ different).trans known
    · rw [Dict.get?_set] at known
      split at known
      next same =>
        cases known
        exact .inr (by rw [same])
      next => exact .inl known
  | schedule allocations =>
    refine ⟨.inl (schedule_handing invariant outcome), ?_⟩
    obtain ⟨-, requests, -, rfl⟩ := schedule_cases outcome
    exact ⟨fun _ _ => id, fun _ _ => .inl⟩
  | updateFromOutput reqId newTokenIds numRejected stopped =>
    obtain ⟨request, -, -, rfl⟩ := outcome
    unfold updateFromOutput
    split
    next =>
      obtain ⟨outputs, arrived⟩ := freeRequest_outputs config s reqId _
      rw [arrived]
      exact ⟨.inr outputs, fun _ _ => id, fun _ _ => .inl⟩
    next => exact ⟨.inr rfl, fun _ _ => id, fun _ _ => .inl⟩
  | finishRequests reqIds =>
    obtain rfl := outcome
    obtain ⟨outputs, arrived⟩ := freeRequests_outputs config (reqIds.dedup.filter (isValid s)) s
    rw [finishRequests, arrived]
    exact ⟨.inr outputs, fun _ _ => id, fun _ _ => .inl⟩
  | grammarReady | preempt | finishedSending =>
    obtain ⟨request, -, -, rfl⟩ := outcome
    exact ⟨.inr rfl, fun _ _ => id, fun _ _ => .inl⟩

/-- The names the connector gives are different for different requests, whose identifiers are no absolute paths. -/
theorem filename_injective (given : config.allowCustomSavePath = false) {other : String}
    (relative : reqId.toList.head? ≠ some '/') (relative' : other.toList.head? ≠ some '/') {params params' : Params}
    (same : filename config reqId params = filename config other params') : reqId = other := by
  have default : ∀ reqId params, filename config reqId params =
      joinPath config.storagePath (reqId ++ ".safetensors") := by
    intro reqId params
    unfold filename
    cases params.hiddenStatesPath <;> simp [given]
  have below : ∀ reqId : String, reqId.toList.head? ≠ some '/' →
      (reqId ++ ".safetensors").toList.head? ≠ some '/' := by
    intro reqId relative
    rw [String.toList_append]
    cases inside : reqId.toList with
    | nil => decide
    | cons first rest =>
      rw [inside] at relative
      exact relative
  rw [default, default, joinPath, joinPath, if_neg (below reqId relative), if_neg (below other relative')] at same
  split at same
  next => exact (String.append_left_inj _).mp ((String.append_right_inj _).mp same)
  next => exact (String.append_left_inj _).mp ((String.append_right_inj _).mp same)

/-- A finished request holds the blocks it had until it is released. -/
def Holds (s : State) (released : List String) : Prop :=
  ∀ ended ∈ s.finished, ended.1 ∉ released → ∃ request, s.requests.get? ended.1 = some request ∧
    request.status = .finished ∧ request.blockIds = ended.2.blockIds

variable {released : List String}

theorem Holds.mono {more : List String} (holds : Holds s released) (among : released ⊆ more) : Holds s more :=
  fun ended member held => holds ended member fun before => held (among before)

theorem holds_set (holds : Holds s released) (changed : Request) (unfinished : reqId ∉ s.finishedIds) :
    Holds { s with requests := s.requests.set reqId changed } released := by
  intro ended member held
  have different : ended.1 ≠ reqId := fun same =>
    unfinished (same ▸ List.mem_map.mpr ⟨ended, member, rfl⟩)
  obtain ⟨request, present, rest⟩ := holds ended member held
  exact ⟨request, (Dict.get?_set_ne _ _ different).trans present, rest⟩

theorem holds_freeRequest (holds : Holds s released) (request : Request) (unfinished : reqId ∉ s.finishedIds) :
    Holds (freeRequest config s reqId request) released := by
  have marked := holds_set holds { request with status := .finished } unfinished
  simp only [freeRequest]
  split
  next => exact marked
  next =>
    intro ended member held
    rcases List.mem_append.mp member with earlier | now
    · exact marked ended earlier held
    · obtain rfl := List.mem_singleton.mp now
      exact ⟨_, Dict.get?_set_self _ _ _, rfl, rfl⟩

theorem freeRequest_finishedIds {request : Request} {other : String}
    (member : other ∈ (freeRequest config s reqId request).finishedIds) : other ∈ s.finishedIds ∨ other = reqId := by
  simp only [freeRequest] at member
  split at member
  next => exact .inl member
  next => simpa [State.finishedIds] using member

theorem holds_freeRequests (reqIds : List String) (distinct : reqIds.Nodup) (holds : Holds s released)
    (unfinished : ∀ reqId ∈ reqIds, reqId ∉ s.finishedIds) : Holds (freeRequests config reqIds s) released := by
  induction reqIds generalizing s with
  | nil => exact holds
  | cons reqId reqIds ih =>
    obtain ⟨fresh, tail⟩ := List.nodup_cons.mp distinct
    have later : ∀ other ∈ reqIds, other ∉ s.finishedIds := fun other member =>
      unfinished other (List.mem_cons_of_mem _ member)
    simp only [freeRequests]
    split
    next => exact ih tail holds later
    next request _ =>
      have first : Holds (freeRequest config s reqId request) released :=
        holds_freeRequest holds request (unfinished reqId List.mem_cons_self)
      split
      next =>
        refine ih tail first fun other member finished => ?_
        rcases freeRequest_finishedIds finished with before | rfl
        · exact later other member before
        · exact fresh member
      next => exact first

/-- A request that is not finished is not among the finished ones. -/
theorem Invariant.unfinished (invariant : Invariant config s) {request : Request}
    (present : s.requests.get? reqId = some request) (status : request.status ≠ .finished) :
    reqId ∉ s.finishedIds := by
  cases invariant.tracked reqId with
  | unscheduled _ unfinished => exact unfinished
  | active _ unfinished => exact unfinished
  | ended _ _ _ _ gone => exact absurd (gone request present) status

/-- Only scheduled requests finish. -/
theorem Invariant.scheduled (invariant : Invariant config s) (finished : reqId ∈ s.finishedIds) :
    reqId ∈ s.scheduledReqIds := by
  cases invariant.tracked reqId with
  | unscheduled _ unfinished => exact absurd finished unfinished
  | active _ unfinished => exact absurd finished unfinished
  | ended _ scheduled => exact scheduled

/-- Blocks are held until their request is released. -/
theorem holds_step (invariant : Invariant config s) {event : Event} (stepped : step config s event = some t)
    (holds : Holds s released) (allowed : ∀ reqId, event = .finishedSending reqId → reqId ∈ released) :
    Holds t released := by
  have outcome := step_cases invariant.quiet stepped
  cases event with
  | addRequest reqId params =>
    obtain ⟨fresh, rfl⟩ := outcome
    refine holds_set holds _ fun finished => ?_
    obtain ⟨ended, member, rfl⟩ := List.mem_map.mp finished
    exact absurd (fresh.symm.trans (invariant.known ended member)) (by simp)
  | grammarReady reqId | preempt reqId =>
    obtain ⟨request, present, status, rfl⟩ := outcome
    exact holds_set holds _ (invariant.unfinished present (by simp [status]))
  | schedule allocations =>
    obtain ⟨distinct, requests, allocated, rfl⟩ := schedule_cases outcome
    obtain ⟨unchanged, given⟩ := scheduleRequests_get? distinct allocated
    intro ended member held
    obtain ⟨request, present, status, rest⟩ := holds ended member held
    refine ⟨request, (unchanged ended.1 fun among => ?_).trans present, status, rest⟩
    obtain ⟨a, inside, same⟩ := List.mem_map.mp among
    obtain ⟨other, before, may, -⟩ := given a inside
    obtain rfl := Option.some.inj (present.symm.trans (same ▸ before))
    simp [status, RequestStatus.active] at may
  | updateFromOutput reqId newTokenIds numRejected stopped =>
    obtain ⟨request, present, status, rfl⟩ := outcome
    have unfinished := ((invariant.tracked reqId).of_active present status).2.2.1
    unfold updateFromOutput
    split
    next => exact holds_freeRequest holds _ unfinished
    next => exact holds_set holds _ unfinished
  | finishRequests reqIds =>
    obtain rfl := outcome
    refine holds_freeRequests _ (reqIds.nodup_dedup.filter _) holds fun reqId member => ?_
    have valid := (List.mem_filter.mp member).2
    unfold isValid at valid
    cases present : s.requests.get? reqId with
    | none => simp [present] at valid
    | some request =>
      exact invariant.unfinished present (by simpa [present] using valid)
  | finishedSending reqId =>
    obtain ⟨request, present, status, rfl⟩ := outcome
    intro ended member held
    obtain ⟨other, before, rest⟩ := holds ended member held
    have different : ended.1 ≠ reqId := fun same => held (same ▸ allowed reqId rfl)
    exact ⟨other, (Dict.get?_erase _ _ _).trans ((if_neg different).trans before), rest⟩

/-- No step gives out a block that a finished request still holds. -/
theorem scheduleRequests_unheld {allocations : List Allocation} {requests next : Dict String Request}
    (stepped : scheduleRequests allocations requests = some next) {request : Request}
    (present : requests.get? reqId = some request) (status : request.status = .finished) {a : Allocation}
    (among : a ∈ allocations) {block : Nat} (new : block ∈ a.newBlockIds) : block ∉ request.blockIds := by
  induction allocations generalizing requests with
  | nil => exact absurd among List.not_mem_nil
  | cons b allocations ih =>
    obtain ⟨middle, first, rest⟩ := Option.bind_eq_some_iff.mp stepped
    obtain ⟨other, before, may, free, rfl⟩ := scheduleRequest_cases first
    rcases List.mem_cons.mp among with rfl | later
    · have unheld := of_decide_eq_true free reqId (Dict.mem_keys.mpr ⟨request, present⟩) block new
      simpa [present] using unheld
    · refine ih rest ((Dict.get?_set_ne _ _ ?_).trans present) later
      rintro rfl
      obtain rfl := Option.some.inj (present.symm.trans before)
      simp [status, RequestStatus.active] at may

end DreamAifd.ConnectorScheduler
