import DreamAifd.GenerationProgress

/-! A schedule that strands a sentinel. One worker sees to the first samples and leaves a streak one
short of the threshold; then every worker takes a sample, the queue fills up with the rest and
with sentinels, and all of the requests fail. -/
namespace DreamAifd.OfflineGeneration

open Machine

section Stream

variable (args : Args) (toProcess : List Nat)

/-- All that the main task puts, unless it is cancelled. -/
def stream : List (Option Nat) := toProcess.map some ++ List.replicate (args.concurrency * 2) none

def mainAt (put : Nat) : Main :=
  if put < toProcess.length then .feeding (toProcess.drop put)
  else .sending (toProcess.length + args.concurrency * 2 - put)

/-- A full queue, behind what was taken. -/
def window (taken : Nat) : List (Option Nat) :=
  ((stream args toProcess).take (taken + args.concurrency * 4)).drop taken

theorem length_stream : (stream args toProcess).length = toProcess.length + args.concurrency * 2 := by
  rw [stream, List.length_append, List.length_map, List.length_replicate]

variable {args toProcess}

theorem stream_sample (args : Args) {k : Nat} (inside : k < toProcess.length) :
    (stream args toProcess)[k]? = some (some toProcess[k]) := by
  rw [stream, List.getElem?_append_left (by simpa using inside), List.getElem?_map, List.getElem?_eq_getElem inside]
  rfl

theorem length_window {taken : Nat}
    (enough : taken + args.concurrency * 4 ≤ toProcess.length + args.concurrency * 2) :
    (window args toProcess taken).length = args.concurrency * 4 := by
  rw [window, List.length_drop, List.length_take, length_stream]
  omega

/-- The head of a window is the next sample. -/
theorem window_eq_cons {taken : Nat} (positive : 0 < args.concurrency) (inside : taken < toProcess.length) :
    window args toProcess taken =
      some toProcess[taken] :: ((stream args toProcess).take (taken + args.concurrency * 4)).drop (taken + 1) := by
  have bound : taken < ((stream args toProcess).take (taken + args.concurrency * 4)).length := by
    rw [List.length_take, length_stream]
    omega
  rw [window, List.drop_eq_getElem_cons bound, List.getElem_take]
  congr 1
  have here := stream_sample args inside
  exact (List.getElem?_eq_some_iff.mp here).2

/-- What is left of a window, with the next of the stream behind it, is the next window. -/
theorem window_succ {taken : Nat} {entry : Option Nat} (positive : 0 < args.concurrency)
    (next : (stream args toProcess)[taken + args.concurrency * 4]? = some entry) :
    ((stream args toProcess).take (taken + args.concurrency * 4)).drop (taken + 1) ++ [entry] =
      window args toProcess (taken + 1) := by
  have bound := (List.getElem?_eq_some_iff.mp next).1
  rw [window, show taken + 1 + args.concurrency * 4 = taken + args.concurrency * 4 + 1 by omega, List.take_add_one,
    next, Option.toList_some, List.drop_append_of_le_length]
  rw [List.length_take]
  omega

end Stream

section Main

variable {args : Args} {toProcess : List Nat} {s : State}

theorem full_eq_false {queue : List (Option Nat)} (short : queue.length < args.concurrency * 4) :
    args.full queue = false := by
  rw [← Bool.not_eq_true, full_iff]
  omega

theorem full_eq_true {queue : List (Option Nat)} (positive : 0 < args.concurrency)
    (length : queue.length = args.concurrency * 4) : args.full queue = true :=
  full_iff.mpr ⟨positive, length.ge⟩

/-- The feeder fills the queue and goes to sleep. -/
theorem feedQueue_full (positive : 0 < args.concurrency) {items : List Nat} {queue : List (Option Nat)} {space : Nat}
    (length : queue.length + space = args.concurrency * 4) (more : space < items.length) :
    feedQueue args false items queue = (queue ++ (items.take space).map some, some (items.drop space)) := by
  induction space generalizing items queue with
  | zero =>
    cases items with
    | nil => contradiction
    | cons i items =>
      rw [feedQueue, if_neg Bool.false_ne_true, if_pos (full_eq_true positive length)]
      simp
  | succ space ih =>
    cases items with
    | nil => contradiction
    | cons i items =>
      have open_ : args.full queue = false := full_eq_false (by omega)
      have length' : (queue ++ [some i]).length + space = args.concurrency * 4 := by
        rw [List.length_append, List.length_singleton]
        omega
      rw [feedQueue, if_neg Bool.false_ne_true, open_, if_neg Bool.false_ne_true,
        ih length' (Nat.lt_of_succ_lt_succ more), List.append_assoc]
      rfl

/-- With one place free a sentinel goes in and the next one waits. -/
theorem sendSentinels_one (positive : 0 < args.concurrency) {queue : List (Option Nat)}
    (length : queue.length + 1 = args.concurrency * 4) (left : Nat) :
    sendSentinels args (left + 1) queue = (queue ++ [none], left) := by
  have full : args.full (queue ++ [none]) = true := by
    apply full_eq_true positive
    rw [List.length_append, List.length_singleton, length]
  rw [sendSentinels, full_eq_false (by omega), if_neg Bool.false_ne_true]
  cases left with
  | zero => rfl
  | succ left => rw [sendSentinels, if_pos full]

theorem sendSentinels_full (positive : 0 < args.concurrency) {queue : List (Option Nat)}
    (length : queue.length = args.concurrency * 4) (left : Nat) : sendSentinels args left queue = (queue, left) := by
  cases left with
  | zero => rfl
  | succ left => rw [sendSentinels, if_pos (full_eq_true positive length)]

theorem resumeSending_full (positive : 0 < args.concurrency) (length : s.queue.length = args.concurrency * 4)
    {left : Nat} (some : left ≠ 0) : resumeSending args s left = { s with main := .sending left } := by
  rw [resumeSending, sendSentinels_full positive length]
  dsimp only
  rw [if_neg some]

/-- The feeder puts one more sample; behind its last one the first sentinel waits. -/
theorem resumeFeeding_one (positive : 0 < args.concurrency) (size : s.workers.length = args.concurrency * 2)
    (unset : s.cancelEvent = false) (length : s.queue.length + 1 = args.concurrency * 4) {put : Nat}
    (feeding : put < toProcess.length) :
    resumeFeeding args s (toProcess.drop put) =
      { s with queue := s.queue ++ [some toProcess[put]], main := mainAt args toProcess (put + 1) } := by
  by_cases more : put + 1 < toProcess.length
  · have fed : feedQueue args s.cancelEvent (toProcess.drop put) s.queue =
        (s.queue ++ [some toProcess[put]], some (toProcess.drop (put + 1))) := by
      rw [unset, feedQueue_full positive length (by rw [List.length_drop]; omega), List.drop_eq_getElem_cons feeding]
      rfl
    rw [resumeFeeding, fed, mainAt, if_pos more]
  · have last : toProcess.drop (put + 1) = [] := List.drop_eq_nil_of_le (by omega)
    have full : (s.queue ++ [some toProcess[put]]).length = args.concurrency * 4 := by
      rw [List.length_append, List.length_singleton, length]
    have fed : feedQueue args s.cancelEvent (toProcess.drop put) s.queue =
        (s.queue ++ [some toProcess[put]], none) := by
      rw [unset, List.drop_eq_getElem_cons feeding, last, feedQueue, if_neg Bool.false_ne_true,
        full_eq_false (by omega), if_neg Bool.false_ne_true, feedQueue]
    have waiting : toProcess.length + args.concurrency * 2 - (put + 1) = args.concurrency * 2 := by omega
    rw [resumeFeeding, fed, mainAt, if_neg more, waiting, ← size]
    have shutdown := shutdownWorkers_unset args (s := { s with queue := s.queue ++ [some toProcess[put]] }) unset
    exact shutdown.trans (resumeSending_full positive full (by dsimp only; omega))

/-- Behind one that is taken the main task puts the next of the stream. -/
theorem mainStep_refill {taken : Nat} (positive : 0 < args.concurrency)
    (size : s.workers.length = args.concurrency * 2) (unset : s.cancelEvent = false)
    (queue : s.queue = ((stream args toProcess).take (taken + args.concurrency * 4)).drop (taken + 1))
    (main : s.main = mainAt args toProcess (taken + args.concurrency * 4))
    (bound : taken + args.concurrency * 4 + 1 < toProcess.length + args.concurrency * 2) :
    mainStep args s = some
      { s with
        queue := window args toProcess (taken + 1)
        main := mainAt args toProcess (taken + 1 + args.concurrency * 4) } := by
  have length : s.queue.length + 1 = args.concurrency * 4 := by
    rw [queue, List.length_drop, List.length_take, length_stream]
    omega
  have free : args.full s.queue = false := full_eq_false (by omega)
  have ahead : taken + 1 + args.concurrency * 4 = taken + args.concurrency * 4 + 1 := by omega
  rw [ahead]
  by_cases feeding : taken + args.concurrency * 4 < toProcess.length
  · have here : s.main = .feeding (toProcess.drop (taken + args.concurrency * 4)) := main.trans (if_pos feeding)
    have resumed := resumeFeeding_one positive size unset length feeding
    rw [queue, window_succ positive (stream_sample args feeding)] at resumed
    simp only [mainStep, here, free, Bool.and_false, Bool.false_eq_true, if_false, resumed]
  · obtain ⟨left, waiting⟩ : ∃ left, toProcess.length + args.concurrency * 2 - (taken + args.concurrency * 4) = left + 1 :=
      Nat.exists_eq_succ_of_ne_zero (by omega)
    have here : s.main = .sending (left + 1) := by
      rw [main, mainAt, if_neg feeding, waiting]
    have sentinel : (stream args toProcess)[taken + args.concurrency * 4]? = some none := by
      rw [stream, List.getElem?_append_right (by simpa using feeding), List.getElem?_replicate]
      apply if_pos
      rw [List.length_map]
      omega
    have resumed : resumeSending args s (left + 1) =
        { s with
          queue := window args toProcess (taken + 1)
          main := mainAt args toProcess (taken + args.concurrency * 4 + 1) } := by
      rw [resumeSending, sendSentinels_one positive length, queue, window_succ positive sentinel, mainAt,
        if_neg (by omega), show toProcess.length + args.concurrency * 2 - (taken + args.concurrency * 4 + 1) = left by omega]
      dsimp only
      rw [if_neg (by omega)]
    simp only [mainStep, here, free, Bool.false_eq_true, if_false, resumed]

end Main

section Stages

variable {args : Args} {toProcess : List Nat} {s : State}

/-- The queue is full and the main task waits with the next of the stream. -/
structure Fed (args : Args) (toProcess : List Nat) (taken : Nat) (s : State) : Prop where
  queue : s.queue = window args toProcess taken
  main : s.main = mainAt args toProcess (taken + args.concurrency * 4)
  size : s.workers.length = args.concurrency * 2
  unset : s.cancelEvent = false
  threshold : s.tracker.threshold = args.threshold

/-- All workers are back, with a streak of failures behind them. -/
structure Serving (args : Args) (toProcess : List Nat) (taken streak : Nat) (s : State) : Prop
    extends Fed args toProcess taken s where
  workers : s.workers = List.replicate (args.concurrency * 2) .getting
  streak : s.tracker.consecutive = streak

theorem serving_start (positive : 0 < args.concurrency) (more : args.concurrency * 4 < toProcess.length) :
    Serving args toProcess 0 0 (start args toProcess) := by
  have fed : feedQueue args false toProcess [] = _ := feedQueue_full positive (Nat.zero_add _) more
  have nonempty : toProcess ≠ [] := List.ne_nil_of_length_pos (by omega)
  have begun : start args toProcess =
      { fresh args toProcess with
        queue := (toProcess.take (args.concurrency * 4)).map some
        main := .feeding (toProcess.drop (args.concurrency * 4)) } := by
    rw [start, if_neg nonempty, resumeFeeding]
    dsimp only [fresh]
    rw [fed]
    rfl
  rw [begun]
  refine ⟨⟨?_, ?_, List.length_replicate, rfl, rfl⟩, rfl, rfl⟩
  · rw [window, Nat.zero_add, List.drop_zero, stream, List.take_append_of_le_length, List.map_take]
    rw [List.length_map]
    exact more.le
  · rw [mainAt, Nat.zero_add, if_pos more]

/-- The main task refills what a worker has taken. -/
theorem Fed.refilled {taken : Nat} (positive : 0 < args.concurrency)
    (size : s.workers.length = args.concurrency * 2) (unset : s.cancelEvent = false)
    (threshold : s.tracker.threshold = args.threshold)
    (queue : s.queue = ((stream args toProcess).take (taken + args.concurrency * 4)).drop (taken + 1))
    (main : s.main = mainAt args toProcess (taken + args.concurrency * 4))
    (bound : taken + args.concurrency * 4 + 1 < toProcess.length + args.concurrency * 2) :
    ∃ t, step args s .main = some t ∧ Fed args toProcess (taken + 1) t ∧ t.workers = s.workers ∧
      t.tracker = s.tracker :=
  ⟨_, mainStep_refill positive size unset queue main bound, ⟨rfl, rfl, size, unset, threshold⟩, rfl, rfl⟩

theorem setWorker_setWorker (s : State) (i : Nat) (first second : Worker) :
    (s.setWorker i first).setWorker i second = s.setWorker i second := by
  rw [State.setWorker, State.setWorker, State.setWorker, List.set_set]

theorem getElem?_setWorker {i : Nat} {old : Worker} (found : s.workers[i]? = some old) (w : Worker) :
    (s.setWorker i w).workers[i]? = some w :=
  List.getElem?_set_self (List.getElem?_eq_some_iff.mp found).1

/-- A worker takes the sample at the head. -/
theorem step_get (args : Args) {i idx : Nat} {queue : List (Option Nat)} (unset : s.cancelEvent = false)
    (found : s.workers[i]? = some .getting) (head : s.queue = some idx :: queue) :
    step args s (.get i) = some ({ s with queue }.setWorker i (.busy idx .acquiring)) := by
  have unset' : ¬ s.cancelEvent = true := by
    rw [unset]
    exact Bool.false_ne_true
  have taken := took_sample s i idx queue
  rw [if_neg unset'] at taken
  rw [← taken]
  exact step_eq_some.mpr (.get found head)

theorem step_move (args : Args) {i idx : Nat} {phase : Phase} (found : s.workers[i]? = some (.busy idx phase)) (next : Phase)
    (may : mayMove args s phase next = true) :
    step args s (.move i next) = some (s.setWorker i (.busy idx next)) :=
  step_eq_some.mpr (.move found may)

/-- Nobody among idle workers and one of another phase has a permit. -/
theorem permits_of_one {i : Nat} {w : Worker} {phase : Phase} (positive : 0 < args.concurrency)
    (found : s.workers[i]? = some .getting) (nobody : s.count (Worker.isIn phase) = 0)
    (other : w.isIn phase = false) (t : State) (workers : t.workers = s.workers.set i w) :
    permits args t phase = true := by
  have counted := s.count_setWorker found w (Worker.isIn phase)
  rw [nobody, other] at counted
  have none : t.workers.countP (Worker.isIn phase) = 0 := by
    rw [workers]
    exact counted
  rw [permits, none]
  exact decide_eq_true positive

/-- A worker has sent a request; apart from that only the queue is shorter. -/
structure Requested (s t : State) (i idx : Nat) (queue : List (Option Nat)) : Prop where
  workers : t.workers = s.workers.set i (.busy idx .requesting)
  found : t.workers[i]? = some (.busy idx .requesting)
  queue : t.queue = queue
  main : t.main = s.main
  tracker : t.tracker = s.tracker
  cancelEvent : t.cancelEvent = s.cancelEvent

/-- From an idle worker to its request, with nobody else requesting. -/
theorem reaches_requested {i idx : Nat} {queue : List (Option Nat)} (positive : 0 < args.concurrency)
    (unset : s.cancelEvent = false) (found : s.workers[i]? = some .getting) (head : s.queue = some idx :: queue)
    (free : s.count (Worker.isIn .requesting) = 0) :
    ∃ t, Reaches (step args) s t ∧ Requested s t i idx queue := by
  have taken := step_get args unset found head
  have found' := getElem?_setWorker (s := { s with queue }) found (.busy idx .acquiring)
  have requested := step_move args found' .requesting (permits_of_one positive found free rfl _ rfl)
  rw [setWorker_setWorker] at requested
  exact ⟨_, Reaches.next (Reaches.next .refl taken) requested, rfl, getElem?_setWorker found _, rfl, rfl, rfl, rfl⟩

theorem getElem?_idle {i : Nat} (workers : s.workers = List.replicate (args.concurrency * 2) .getting)
    (inside : i < args.concurrency * 2) : s.workers[i]? = some .getting := by
  rw [workers, List.getElem?_replicate, if_pos inside]

theorem count_idle {n : Nat} (workers : s.workers = List.replicate n .getting) {p : Worker → Bool}
    (other : p .getting = false) : s.count p = 0 := by
  rw [State.count, workers, List.countP_eq_zero]
  intro w member
  rw [List.eq_of_mem_replicate member, other]
  exact Bool.false_ne_true

/-- Once a worker is back, the main task puts the next of the stream. -/
theorem Serving.of_back {taken : Nat} (positive : 0 < args.concurrency)
    (workers : s.workers = List.replicate (args.concurrency * 2) .getting) (unset : s.cancelEvent = false)
    (threshold : s.tracker.threshold = args.threshold)
    (queue : s.queue = ((stream args toProcess).take (taken + args.concurrency * 4)).drop (taken + 1))
    (main : s.main = mainAt args toProcess (taken + args.concurrency * 4))
    (bound : taken + args.concurrency * 4 + 1 < toProcess.length + args.concurrency * 2) :
    ∃ t, Reaches (step args) s t ∧ Serving args toProcess (taken + 1) s.tracker.consecutive t := by
  have size : s.workers.length = args.concurrency * 2 := by
    rw [workers, List.length_replicate]
  obtain ⟨t, stepped, fed, same, tracker⟩ := Fed.refilled positive size unset threshold queue main bound
  refine ⟨t, Reaches.next .refl stepped, fed, same.trans workers, ?_⟩
  rw [tracker]

theorem Serving.requested {taken streak : Nat} (serving : Serving args toProcess taken streak s)
    (positive : 0 < args.concurrency) (inside : taken < toProcess.length) :
    ∃ t, Reaches (step args) s t ∧ Requested s t 0 toProcess[taken]
      (((stream args toProcess).take (taken + args.concurrency * 4)).drop (taken + 1)) :=
  reaches_requested positive serving.unset (getElem?_idle serving.workers (by omega))
    (serving.queue.trans (window_eq_cons positive inside)) (count_idle serving.workers rfl)

/-- A failure below the threshold sends its worker back. -/
theorem Serving.fail {taken streak : Nat} (serving : Serving args toProcess taken streak s)
    (positive : 0 < args.concurrency) (quiet : streak + 1 < args.signalAfter)
    (inside : taken < toProcess.length)
    (bound : taken + args.concurrency * 4 + 1 < toProcess.length + args.concurrency * 2) :
    ∃ t, Reaches (step args) s t ∧ Serving args toProcess (taken + 1) (streak + 1) t := by
  obtain ⟨t, reached, requested⟩ := serving.requested positive inside
  have failing := reached.next (step_eq_some.mpr (.fail requested.found rfl))
  have signal : t.tracker.recordFailure.2 = false := by
    apply decide_eq_false
    rw [requested.tracker, serving.threshold, serving.streak]
    unfold Args.signalAfter at quiet
    omega
  have workers : (failed t 0 toProcess[taken]).workers = List.replicate (args.concurrency * 2) .getting := by
    show t.workers.set 0 (if t.tracker.recordFailure.2 then .raised else .getting) = _
    rw [signal, requested.workers, List.set_set, serving.workers]
    exact List.set_replicate_self
  have unset : (failed t 0 toProcess[taken]).cancelEvent = false := by
    show (t.cancelEvent || t.tracker.recordFailure.2) = false
    rw [requested.cancelEvent, serving.unset, signal, Bool.or_false]
  have threshold : (failed t 0 toProcess[taken]).tracker.threshold = args.threshold := by
    show t.tracker.threshold = args.threshold
    rw [requested.tracker, serving.threshold]
  have streak' : (failed t 0 toProcess[taken]).tracker.consecutive = streak + 1 := by
    show t.tracker.consecutive + 1 = streak + 1
    rw [requested.tracker, serving.streak]
  obtain ⟨u, onward, served⟩ := Serving.of_back positive workers unset threshold requested.queue
    (requested.main.trans serving.main) bound
  rw [streak'] at served
  exact ⟨u, failing.trans onward, served⟩

/-- A sample that is saved resets the streak. -/
theorem Serving.save {taken streak : Nat} (serving : Serving args toProcess taken streak s)
    (positive : 0 < args.concurrency) (inside : taken < toProcess.length)
    (bound : taken + args.concurrency * 4 + 1 < toProcess.length + args.concurrency * 2) :
    ∃ t, Reaches (step args) s t ∧ Serving args toProcess (taken + 1) 0 t := by
  obtain ⟨t, reached, requested⟩ := serving.requested positive inside
  have idle := getElem?_idle serving.workers (i := 0) (by omega)
  have responded := step_move args requested.found .acquiringWrite rfl
  have waiting := getElem?_setWorker requested.found (.busy toProcess[taken] .acquiringWrite)
  have workers : (t.setWorker 0 (.busy toProcess[taken] .acquiringWrite)).workers =
      s.workers.set 0 (.busy toProcess[taken] .acquiringWrite) := by
    rw [State.setWorker, requested.workers, List.set_set]
  have permitted := step_move args waiting .writing
    (permits_of_one positive idle (count_idle serving.workers rfl) rfl _ workers)
  rw [setWorker_setWorker] at permitted
  have writing := getElem?_setWorker requested.found (.busy toProcess[taken] .writing)
  have saving : step args _ (.save 0) = some _ := step_eq_some.mpr (.save writing)
  have back : (saved (t.setWorker 0 (.busy toProcess[taken] .writing)) 0).workers =
      List.replicate (args.concurrency * 2) .getting := by
    show (t.workers.set 0 (.busy toProcess[taken] .writing)).set 0 .getting = _
    rw [requested.workers, List.set_set, List.set_set, serving.workers]
    exact List.set_replicate_self
  have unset : t.cancelEvent = false := requested.cancelEvent.trans serving.unset
  have threshold : t.tracker.threshold = args.threshold := by
    rw [requested.tracker, serving.threshold]
  obtain ⟨u, onward, served⟩ := Serving.of_back positive back unset threshold requested.queue
    (requested.main.trans serving.main) bound
  exact ⟨u, (((reached.next responded).next permitted).next saving).trans onward, served⟩

/-- Samples are saved and then fail, up to one short of the threshold. -/
theorem reaches_streak (positive : 0 < args.concurrency)
    (enough : args.concurrency * 4 + args.signalAfter ≤ toProcess.length) :
    ∃ s, Reaches (step args) (start args toProcess) s ∧
      Serving args toProcess (toProcess.length - args.concurrency * 4 - 1) (args.signalAfter - 1) s := by
  have signal : 1 ≤ args.signalAfter := by
    unfold Args.signalAfter
    omega
  have begun := serving_start positive (show args.concurrency * 4 < toProcess.length by omega)
  obtain ⟨mid, saved, serving⟩ := reaches_stages (fun k => Serving args toProcess k 0)
    (toProcess.length - args.concurrency * 4 - args.signalAfter)
    (fun k _ s serving => serving.save positive (by omega) (by omega)) begun
  obtain ⟨last, failed, serving⟩ := reaches_stages
    (fun k => Serving args toProcess (toProcess.length - args.concurrency * 4 - args.signalAfter + k) k)
    (args.signalAfter - 1) (fun k _ s serving => serving.fail positive (by omega) (by omega) (by omega)) serving
  refine ⟨last, saved.trans failed, ?_⟩
  have taken : toProcess.length - args.concurrency * 4 - args.signalAfter + (args.signalAfter - 1) =
      toProcess.length - args.concurrency * 4 - 1 := by omega
  rw [← taken]
  exact serving

/-- The first workers have a sample each, the others are still idle. -/
structure Loading (args : Args) (toProcess : List Nat) (taken streak loaded : Nat) (s : State) : Prop
    extends Fed args toProcess (taken + loaded) s where
  busy : ∀ i < loaded, ∃ idx, s.workers[i]? = some (.busy idx .acquiring)
  idle : ∀ i, loaded ≤ i → i < args.concurrency * 2 → s.workers[i]? = some .getting
  streak : s.tracker.consecutive = streak

theorem Loading.next {taken streak loaded : Nat} (loading : Loading args toProcess taken streak loaded s)
    (positive : 0 < args.concurrency) (more : loaded < args.concurrency * 2)
    (inside : taken + loaded < toProcess.length)
    (bound : taken + loaded + args.concurrency * 4 + 1 < toProcess.length + args.concurrency * 2) :
    ∃ t, Reaches (step args) s t ∧ Loading args toProcess taken streak (loaded + 1) t := by
  have found := loading.idle loaded (le_refl _) more
  have head := loading.queue.trans (window_eq_cons positive inside)
  have taking := step_get args loading.unset found head
  generalize rest : ((stream args toProcess).take (taken + loaded + args.concurrency * 4)).drop (taken + loaded + 1) =
    queue at taking
  have size := (s.length_setWorker loaded (.busy toProcess[taken + loaded] .acquiring)).trans loading.size
  obtain ⟨t, refilled, fed, workers, tracker⟩ := Fed.refilled
    (s := { s with queue }.setWorker loaded (.busy toProcess[taken + loaded] .acquiring))
    positive size loading.unset loading.threshold rest.symm loading.main bound
  refine ⟨t, Reaches.next (Reaches.next .refl taking) refilled, fed, ?_, ?_, ?_⟩
  · intro i lower
    rw [workers]
    show ∃ idx, (s.workers.set loaded _)[i]? = _
    by_cases here : i = loaded
    · rw [here, List.getElem?_set_self (List.getElem?_eq_some_iff.mp found).1]
      exact ⟨_, rfl⟩
    · rw [List.getElem?_set_ne (Ne.symm here)]
      exact loading.busy i (by omega)
  · intro i above inside
    rw [workers]
    show (s.workers.set loaded _)[i]? = _
    rw [List.getElem?_set_ne (by omega)]
    exact loading.idle i (by omega) inside
  · rw [tracker]
    exact loading.streak

/-- One more failure signals; the first workers have raised, the others wait for a permit. -/
structure Failing (args : Args) (dead : Nat) (s : State) : Prop where
  main : s.main = .sending 1
  full : s.queue.length = args.concurrency * 4
  size : s.workers.length = args.concurrency * 2
  raised : ∀ i < dead, s.workers[i]? = some .raised
  waiting : ∀ i, dead ≤ i → i < args.concurrency * 2 → ∃ idx, s.workers[i]? = some (.busy idx .acquiring)
  threshold : s.tracker.threshold = args.threshold
  streak : args.signalAfter ≤ s.tracker.consecutive + 1

theorem recordFailure_signals {tracker : FailureTracker} (threshold : tracker.threshold = args.threshold)
    (streak : args.signalAfter ≤ tracker.consecutive + 1) : tracker.recordFailure.2 = true := by
  apply decide_eq_true
  rw [threshold]
  unfold Args.signalAfter at streak
  omega

/-- Nobody is requesting, so the next worker gets its permit and fails. -/
theorem Failing.next {dead : Nat} (failing : Failing args dead s) (positive : 0 < args.concurrency)
    (more : dead < args.concurrency * 2) : ∃ t, Reaches (step args) s t ∧ Failing args (dead + 1) t := by
  obtain ⟨idx, found⟩ := failing.waiting dead (le_refl _) more
  have nobody : s.workers.countP (Worker.isIn .requesting) = 0 := by
    rw [List.countP_eq_zero]
    intro w member
    obtain ⟨i, bound, rfl⟩ := List.getElem_of_mem member
    have here := List.getElem?_eq_getElem bound
    by_cases before : i < dead
    · rw [failing.raised i before] at here
      rw [← Option.some.inj here]
      exact Bool.false_ne_true
    · obtain ⟨other, waiting⟩ := failing.waiting i (by omega) (by rw [← failing.size]; exact bound)
      rw [waiting] at here
      rw [← Option.some.inj here]
      exact Bool.false_ne_true
  have free : permits args s .requesting = true := by
    rw [permits, nobody]
    exact decide_eq_true positive
  have requesting := step_move args found .requesting free
  have busy := getElem?_setWorker found (.busy idx .requesting)
  have fails : step args _ (.fail dead) = some _ := step_eq_some.mpr (.fail busy rfl)
  have signal : s.tracker.recordFailure.2 = true := recordFailure_signals failing.threshold failing.streak
  have workers : (failed (s.setWorker dead (.busy idx .requesting)) dead idx).workers =
      s.workers.set dead .raised := by
    show (s.workers.set dead _).set dead (if s.tracker.recordFailure.2 then .raised else .getting) = _
    rw [signal, List.set_set]
    rfl
  have inside := (List.getElem?_eq_some_iff.mp found).1
  refine ⟨_, Reaches.next (Reaches.next .refl requesting) fails,
    failing.main, failing.full, ?_, ?_, ?_, failing.threshold, failing.streak.trans (Nat.le_succ _)⟩
  · rw [workers, List.length_set]
    exact failing.size
  · intro i lower
    rw [workers]
    by_cases here : i = dead
    · rw [here, List.getElem?_set_self inside]
    · rw [List.getElem?_set_ne (Ne.symm here)]
      exact failing.raised i (by omega)
  · intro i above within
    rw [workers, List.getElem?_set_ne (by omega)]
    exact failing.waiting i (by omega) within

theorem Failing.stranded (failing : Failing args (args.concurrency * 2) s) (positive : 0 < args.concurrency) :
    Stranded args s := by
  refine ⟨1, failing.main, full_eq_true positive failing.full, ?_⟩
  intro w member
  obtain ⟨i, bound, rfl⟩ := List.getElem_of_mem member
  have raised := failing.raised i (by rw [← failing.size]; exact bound)
  rw [List.getElem?_eq_getElem bound] at raised
  exact Option.some.inj raised

theorem reaches_stranded (args : Args) (toProcess : List Nat) (positive : 0 < args.concurrency)
    (enough : args.concurrency * 4 + args.signalAfter ≤ toProcess.length) :
    ∃ s, Reaches (step args) (start args toProcess) s ∧ Stranded args s := by
  have signal : 1 ≤ args.signalAfter := by
    unfold Args.signalAfter
    omega
  obtain ⟨first, served, serving⟩ := reaches_streak positive enough
  have idle : Loading args toProcess (toProcess.length - args.concurrency * 4 - 1) (args.signalAfter - 1) 0 first := by
    refine ⟨serving.toFed, ?_, ?_, serving.streak⟩
    · intro i none
      exact absurd none (Nat.not_lt_zero i)
    · intro i _ inside
      exact getElem?_idle serving.workers inside
  obtain ⟨second, loaded, loading⟩ := reaches_stages
    (Loading args toProcess (toProcess.length - args.concurrency * 4 - 1) (args.signalAfter - 1))
    (args.concurrency * 2) (fun k _ s loading => loading.next positive (by omega) (by omega) (by omega)) idle
  have failing : Failing args 0 second := by
    refine ⟨?_, ?_, loading.size, ?_, ?_, loading.threshold, ?_⟩
    · rw [loading.main, mainAt, if_neg (by omega)]
      congr 1
      omega
    · rw [loading.queue]
      exact length_window (by omega)
    · intro i none
      exact absurd none (Nat.not_lt_zero i)
    · intro i _ inside
      exact loading.busy i inside
    · rw [loading.streak]
      omega
  obtain ⟨last, raised, failing⟩ := reaches_stages (Failing args) (args.concurrency * 2)
    (fun k _ s failing => failing.next positive (by omega)) failing
  exact ⟨last, (served.trans loaded).trans raised, failing.stranded positive⟩

end Stages

/-- Offline generation cannot deadlock exactly with fewer samples than a full queue and the streak
that signals. -/
theorem neverDeadlocks_iff (args : Args) (toProcess : List Nat) : NeverDeadlocks args toProcess ↔
    args.concurrency = 0 ∨ toProcess.length < 4 * args.concurrency + args.signalAfter := by
  constructor
  · intro never
    by_contra many
    obtain ⟨some, enough⟩ := not_or.mp many
    obtain ⟨s, reached, stranded⟩ := reaches_stranded args toProcess (Nat.pos_of_ne_zero some) (by omega)
    obtain ⟨events, ran⟩ := reaches_iff_run.mp reached
    exact (progress_iff (invariant_run ran)).mp (never.progress events s ran) stranded
  · exact neverDeadlocks_of_lt

/-- Two workers and five samples: both requests fail while the second sentinel waits. -/
def outage : List Event := [.get 0, .get 1, .main, .move 0 .requesting, .fail 0, .move 1 .requesting, .fail 1]

theorem not_neverDeadlocks_outage : ¬ NeverDeadlocks ⟨1, none⟩ [0, 1, 2, 3, 4] := by
  intro never
  have ran : Machine.run (step ⟨1, none⟩) outage (start ⟨1, none⟩ [0, 1, 2, 3, 4]) = some
      { queue := [some 2, some 3, some 4, none]
        workers := [.raised, .raised]
        main := .sending 1
        tracker := ⟨1, 2⟩
        cancelEvent := true
        skippedIndices := [0, 1]
        pbar := 2 } := rfl
  obtain ⟨w, member, live⟩ := (never.progress outage _ ran).consumer ⟨rfl, .inr ⟨1, rfl⟩⟩
  rcases List.mem_pair.mp member with rfl | rfl
  · exact Bool.false_ne_true live
  · exact Bool.false_ne_true live

end DreamAifd.OfflineGeneration
