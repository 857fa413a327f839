import DreamAifd.OfflineGeneration

/-! What holds in every state of a generation run: where the samples are, how many workers have
raised, and what the queue still carries when sentinels are sent. -/
namespace DreamAifd.OfflineGeneration

namespace Worker

def isReturned : Worker → Bool
  | .returned => true
  | _ => false

def isRaised : Worker → Bool
  | .raised => true
  | _ => false

def isCancelled : Worker → Bool
  | .cancelled => true
  | _ => false

def live (w : Worker) : Bool := !w.done

end Worker

namespace State

def count (s : State) (p : Worker → Bool) : Nat := s.workers.countP p

def samples (s : State) : Nat := s.queue.countP Option.isSome

def sentinels (s : State) : Nat := s.queue.countP Option.isNone

theorem count_setWorker {s : State} {i : Nat} {old : Worker} (found : s.workers[i]? = some old) (w : Worker)
    (p : Worker → Bool) : (s.setWorker i w).count p + (p old).toNat = s.count p + (p w).toNat := by
  obtain ⟨bound, rfl⟩ := List.getElem?_eq_some_iff.mp found
  have present : p s.workers[i] = true → 0 < s.workers.countP p :=
    fun holds => List.countP_pos_iff.mpr ⟨_, List.getElem_mem bound, holds⟩
  unfold count setWorker
  rw [List.countP_set bound]
  cases here : p s.workers[i] with
  | false => cases p w <;> simp
  | true =>
    have positive := present here
    cases p w <;> simp <;> omega

theorem length_setWorker (s : State) (i : Nat) (w : Worker) : (s.setWorker i w).workers.length = s.workers.length :=
  List.length_set

theorem count_pos {s : State} {i : Nat} {w : Worker} (found : s.workers[i]? = some w) {p : Worker → Bool}
    (holds : p w = true) : 0 < s.count p :=
  List.countP_pos_iff.mpr ⟨w, List.mem_of_getElem? found, holds⟩

end State

/-- How many failures in a row make the tracker signal. -/
def Args.signalAfter (args : Args) : Nat := (max 1 args.threshold).toNat

def Main.left : Main → Nat
  | .feeding rest => rest.length
  | _ => 0

def Ordered (queue : List (Option Nat)) : Prop :=
  queue.Pairwise fun first later => first = none → later = none

/-- What holds of the pool and the queue, by where the main task waits. -/
def Stage (args : Args) (s : State) : Prop :=
  match s.main with
  | .feeding rest => rest ≠ [] ∧ s.workers.length = args.concurrency * 2 ∧ s.sentinels = 0 ∧
      s.count Worker.isReturned = 0 ∧ s.count Worker.isCancelled = 0
  | .sending left => 0 < left ∧ s.workers.length = args.concurrency * 2 ∧
      s.sentinels + s.count Worker.isReturned + left = args.concurrency * 2 ∧ s.count Worker.isCancelled = 0 ∧
      Ordered s.queue ∧ (0 < s.count Worker.isReturned → s.samples = 0)
  | .gathering => s.workers.length = args.concurrency * 2 ∧
      (s.count Worker.live = 0 ∨ s.sentinels + s.count Worker.isReturned = args.concurrency * 2)
  | .finished outcome => s.count Worker.live = 0 ∧ outcome = gathered s

structure Invariant (args : Args) (samples : Nat) (s : State) : Prop where
  threshold : s.tracker.threshold = args.threshold
  signalled : s.cancelEvent = true ↔ 0 < s.count Worker.isRaised
  failures : s.cancelEvent = false → s.tracker.consecutive ≤ s.pbar
  aborted : s.cancelEvent = true → args.signalAfter + s.count Worker.isRaised ≤ s.pbar + 1
  balance : s.pbar + s.count Worker.isBusy + s.samples + s.main.left ≤ samples
  stage : Stage args s

section Workers

variable {args : Args} {samples : Nat} {s t : State}

/-- A worker that goes on leaves the main task where it is. -/
theorem Stage.of_worker (stage : Stage args s) (alive : 0 < s.count Worker.live) (main : t.main = s.main)
    (size : t.workers.length = s.workers.length)
    (sentinels : t.sentinels + t.count Worker.isReturned = s.sentinels + s.count Worker.isReturned)
    (cancelled : t.count Worker.isCancelled = s.count Worker.isCancelled)
    (ordered : Ordered s.queue → Ordered t.queue)
    (returned : Ordered s.queue → (0 < s.count Worker.isReturned → s.samples = 0) →
      0 < t.count Worker.isReturned → t.samples = 0) : Stage args t := by
  unfold Stage at stage ⊢
  rw [main]
  cases here : s.main with
  | feeding rest =>
    rw [here] at stage
    obtain ⟨nonempty, length, none, unreturned, uncancelled⟩ := stage
    exact ⟨nonempty, by omega, by omega, by omega, by omega⟩
  | sending left =>
    rw [here] at stage
    obtain ⟨positive, length, total, uncancelled, sorted, drained⟩ := stage
    exact ⟨positive, by omega, by omega, by omega, ordered sorted, returned sorted drained⟩
  | gathering =>
    rw [here] at stage
    obtain ⟨length, dead | total⟩ := stage
    · omega
    · exact ⟨by omega, .inr (by omega)⟩
  | finished outcome =>
    rw [here] at stage
    have dead := stage.1
    omega

theorem invariant_move {i idx : Nat} {phase : Phase} (invariant : Invariant args samples s)
    (found : s.workers[i]? = some (.busy idx phase)) (next : Phase) :
    Invariant args samples (s.setWorker i (.busy idx next)) := by
  have same : ∀ p : Worker → Bool, p (.busy idx next) = p (.busy idx phase) →
      (s.setWorker i (.busy idx next)).count p = s.count p := by
    intro p equal
    have counted := s.count_setWorker found (.busy idx next) p
    rw [equal] at counted
    omega
  have raised := same Worker.isRaised rfl
  have returned := same Worker.isReturned rfl
  have busy := same Worker.isBusy rfl
  constructor
  · exact invariant.threshold
  · rw [raised]
    exact invariant.signalled
  · exact invariant.failures
  · rw [raised]
    exact invariant.aborted
  · rw [busy]
    exact invariant.balance
  · apply invariant.stage.of_worker (t := s.setWorker i _) (s.count_pos found rfl) rfl (s.length_setWorker i _)
    · rw [returned]
      rfl
    · exact same Worker.isCancelled rfl
    · exact id
    · rw [returned]
      exact fun _ drained => drained

theorem invariant_saved {i idx : Nat} {phase : Phase} (invariant : Invariant args samples s)
    (found : s.workers[i]? = some (.busy idx phase)) : Invariant args samples (saved s i) := by
  have counted := s.count_setWorker found .getting
  have raised : (saved s i).count Worker.isRaised = s.count Worker.isRaised := counted Worker.isRaised
  have returned : (saved s i).count Worker.isReturned = s.count Worker.isReturned := counted Worker.isReturned
  have cancelled : (saved s i).count Worker.isCancelled = s.count Worker.isCancelled := counted Worker.isCancelled
  have busy : (saved s i).count Worker.isBusy + 1 = s.count Worker.isBusy := counted Worker.isBusy
  constructor
  · exact invariant.threshold
  · rw [raised]
    exact invariant.signalled
  · intro _
    exact Nat.zero_le _
  · intro signal
    have aborted := invariant.aborted signal
    rw [raised]
    exact aborted.trans (Nat.le_succ _)
  · have balance := invariant.balance
    show s.pbar + 1 + (saved s i).count Worker.isBusy + s.samples + s.main.left ≤ samples
    omega
  · apply invariant.stage.of_worker (t := saved s i) (s.count_pos found rfl) rfl (s.length_setWorker i _)
    · rw [returned]
      rfl
    · exact cancelled
    · exact id
    · rw [returned]
      exact fun _ drained => drained

theorem signalAfter_le {tracker : FailureTracker} (same : tracker.threshold = args.threshold)
    (reached : tracker.recordFailure.2 = true) : args.signalAfter ≤ tracker.consecutive + 1 := by
  have bound : tracker.threshold ≤ ((tracker.consecutive + 1 : Nat) : Int) := of_decide_eq_true reached
  unfold Args.signalAfter
  omega

theorem count_failed {i idx : Nat} {phase : Phase} (found : s.workers[i]? = some (.busy idx phase))
    (p : Worker → Bool) : (failed s i idx).count p + (p (.busy idx phase)).toNat =
      s.count p + (p (if s.tracker.recordFailure.2 then .raised else .getting)).toNat :=
  s.count_setWorker found _ p

theorem stage_failed {i idx : Nat} {phase : Phase} (stage : Stage args s)
    (found : s.workers[i]? = some (.busy idx phase)) : Stage args (failed s i idx) := by
  have returned : (failed s i idx).count Worker.isReturned = s.count Worker.isReturned := by
    have counted := count_failed found Worker.isReturned
    cases reached : s.tracker.recordFailure.2 <;> rw [reached] at counted <;> exact counted
  have cancelled : (failed s i idx).count Worker.isCancelled = s.count Worker.isCancelled := by
    have counted := count_failed found Worker.isCancelled
    cases reached : s.tracker.recordFailure.2 <;> rw [reached] at counted <;> exact counted
  apply stage.of_worker (t := failed s i idx) (s.count_pos found rfl) rfl (s.length_setWorker i _)
  · rw [returned]
    rfl
  · exact cancelled
  · exact id
  · rw [returned]
    exact fun _ drained => drained

theorem balance_failed {i idx : Nat} {phase : Phase} (invariant : Invariant args samples s)
    (found : s.workers[i]? = some (.busy idx phase)) :
    s.pbar + 1 + (failed s i idx).count Worker.isBusy + s.samples + s.main.left ≤ samples := by
  have balance := invariant.balance
  have busy : (failed s i idx).count Worker.isBusy + 1 = s.count Worker.isBusy := by
    have counted := count_failed found Worker.isBusy
    cases reached : s.tracker.recordFailure.2 <;> rw [reached] at counted <;> exact counted
  omega

/-- Below the threshold the failure is one of the streak. -/
theorem invariant_failed_quiet {i idx : Nat} {phase : Phase} (invariant : Invariant args samples s)
    (found : s.workers[i]? = some (.busy idx phase)) (quiet : s.tracker.recordFailure.2 = false) :
    Invariant args samples (failed s i idx) := by
  have signal : (failed s i idx).cancelEvent = s.cancelEvent := by
    show (s.cancelEvent || s.tracker.recordFailure.2) = s.cancelEvent
    rw [quiet, Bool.or_false]
  have raised : (failed s i idx).count Worker.isRaised = s.count Worker.isRaised := by
    have counted := count_failed found Worker.isRaised
    rw [quiet] at counted
    exact counted
  constructor
  · exact invariant.threshold
  · rw [signal, raised]
    exact invariant.signalled
  · intro unset
    rw [signal] at unset
    exact Nat.succ_le_succ (invariant.failures unset)
  · intro set
    rw [signal] at set
    have aborted := invariant.aborted set
    rw [raised]
    exact aborted.trans (Nat.le_succ _)
  · exact balance_failed invariant found
  · exact stage_failed invariant.stage found

/-- At the threshold the worker raises; the first to do so has the whole streak behind it. -/
theorem invariant_failed_signal {i idx : Nat} {phase : Phase} (invariant : Invariant args samples s)
    (found : s.workers[i]? = some (.busy idx phase)) (reached : s.tracker.recordFailure.2 = true) :
    Invariant args samples (failed s i idx) := by
  have signal : (failed s i idx).cancelEvent = true := by
    show (s.cancelEvent || s.tracker.recordFailure.2) = true
    rw [reached, Bool.or_true]
  have raised : (failed s i idx).count Worker.isRaised = s.count Worker.isRaised + 1 := by
    have counted := count_failed found Worker.isRaised
    rw [reached] at counted
    exact counted
  constructor
  · exact invariant.threshold
  · rw [signal, raised]
    simp
  · intro unset
    rw [signal] at unset
    contradiction
  · intro _
    show args.signalAfter + (failed s i idx).count Worker.isRaised ≤ s.pbar + 1 + 1
    rw [raised]
    cases before : s.cancelEvent with
    | true => exact Nat.succ_le_succ (invariant.aborted before)
    | false =>
      have none : ¬ 0 < s.count Worker.isRaised := by
        rw [← invariant.signalled, before]
        exact Bool.false_ne_true
      have streak := signalAfter_le invariant.threshold reached
      have counted := invariant.failures before
      omega
  · exact balance_failed invariant found
  · exact stage_failed invariant.stage found

theorem invariant_failed {i idx : Nat} {phase : Phase} (invariant : Invariant args samples s)
    (found : s.workers[i]? = some (.busy idx phase)) : Invariant args samples (failed s i idx) := by
  cases reached : s.tracker.recordFailure.2 with
  | false => exact invariant_failed_quiet invariant found reached
  | true => exact invariant_failed_signal invariant found reached

theorem Ordered.tail {item : Option Nat} {queue : List (Option Nat)} (ordered : Ordered (item :: queue)) :
    Ordered queue := (List.pairwise_cons.mp ordered).2

/-- Once a sentinel is at the head no samples are left. -/
theorem Ordered.samples_eq_zero {queue : List (Option Nat)} (ordered : Ordered (none :: queue)) :
    queue.countP Option.isSome = 0 := by
  rw [List.countP_eq_zero]
  intro item member
  rw [(List.pairwise_cons.mp ordered).1 item member rfl]
  exact Bool.false_ne_true

theorem invariant_took_sentinel {i : Nat} {queue : List (Option Nat)} (invariant : Invariant args samples s)
    (found : s.workers[i]? = some .getting) (head : s.queue = none :: queue) :
    Invariant args samples (took s i none queue) := by
  have counted := s.count_setWorker found .returned
  have raised : (took s i none queue).count Worker.isRaised = s.count Worker.isRaised := counted Worker.isRaised
  have returned : (took s i none queue).count Worker.isReturned = s.count Worker.isReturned + 1 :=
    counted Worker.isReturned
  have busy : (took s i none queue).count Worker.isBusy = s.count Worker.isBusy := counted Worker.isBusy
  have fewer : s.sentinels = (took s i none queue).sentinels + 1 := by
    rw [State.sentinels, head]
    exact List.countP_cons_of_pos rfl
  have kept : s.samples = (took s i none queue).samples := by
    rw [State.samples, head]
    exact List.countP_cons_of_neg Bool.false_ne_true
  constructor
  · exact invariant.threshold
  · rw [raised]
    exact invariant.signalled
  · exact invariant.failures
  · rw [raised]
    exact invariant.aborted
  · rw [busy, ← kept]
    exact invariant.balance
  · apply invariant.stage.of_worker (t := took s i none queue) (s.count_pos found rfl) rfl (s.length_setWorker i _)
    · omega
    · exact counted Worker.isCancelled
    · rw [head]
      exact Ordered.tail
    · rw [head]
      exact fun ordered _ _ => ordered.samples_eq_zero

theorem took_sample (s : State) (i idx : Nat) (queue : List (Option Nat)) :
    took s i (some idx) queue =
      if s.cancelEvent then { s with queue } else { s with queue }.setWorker i (.busy idx .acquiring) := rfl

section Sample

variable {i idx : Nat} {queue : List (Option Nat)}

theorem sentinels_of_sample (head : s.queue = some idx :: queue) : s.sentinels = queue.countP Option.isNone := by
  rw [State.sentinels, head]
  exact List.countP_cons_of_neg Bool.false_ne_true

theorem samples_of_sample (head : s.queue = some idx :: queue) :
    s.samples = queue.countP Option.isSome + 1 := by
  rw [State.samples, head]
  exact List.countP_cons_of_pos rfl

/-- Samples are only taken where some are left, so nobody has returned. -/
theorem stage_of_sample (stage : Stage args s) (found : s.workers[i]? = some .getting)
    (head : s.queue = some idx :: queue) (main : t.main = s.main) (size : t.workers.length = s.workers.length)
    (rest : t.queue = queue) (returned : t.count Worker.isReturned = s.count Worker.isReturned)
    (cancelled : t.count Worker.isCancelled = s.count Worker.isCancelled) : Stage args t := by
  apply stage.of_worker (s.count_pos found rfl) main size
  · rw [State.sentinels, rest, sentinels_of_sample head, returned]
  · exact cancelled
  · rw [head, rest]
    exact Ordered.tail
  · intro _ drained some
    rw [returned] at some
    have empty := drained some
    have left := samples_of_sample head
    omega

/-- After the cancellation a sample is dropped. -/
theorem invariant_drained (invariant : Invariant args samples s) (found : s.workers[i]? = some .getting)
    (head : s.queue = some idx :: queue) : Invariant args samples { s with queue } := by
  have balance := invariant.balance
  have fewer := samples_of_sample head
  constructor
  · exact invariant.threshold
  · exact invariant.signalled
  · exact invariant.failures
  · exact invariant.aborted
  · show s.pbar + s.count Worker.isBusy + queue.countP Option.isSome + s.main.left ≤ samples
    omega
  · exact stage_of_sample (t := { s with queue }) invariant.stage found head rfl rfl rfl rfl rfl

theorem invariant_taken (invariant : Invariant args samples s) (found : s.workers[i]? = some .getting)
    (head : s.queue = some idx :: queue) (unset : ¬ s.cancelEvent = true) :
    Invariant args samples ({ s with queue }.setWorker i (.busy idx .acquiring)) := by
  have balance := invariant.balance
  have fewer := samples_of_sample head
  have counted := s.count_setWorker found (.busy idx .acquiring)
  have raised : (s.setWorker i (.busy idx .acquiring)).count Worker.isRaised = s.count Worker.isRaised :=
    counted Worker.isRaised
  have busy : (s.setWorker i (.busy idx .acquiring)).count Worker.isBusy = s.count Worker.isBusy + 1 :=
    counted Worker.isBusy
  constructor
  · exact invariant.threshold
  · show s.cancelEvent = true ↔ 0 < (s.setWorker i (.busy idx .acquiring)).count Worker.isRaised
    rw [raised]
    exact invariant.signalled
  · exact invariant.failures
  · intro set
    exact absurd set unset
  · show s.pbar + (s.setWorker i (.busy idx .acquiring)).count Worker.isBusy +
      queue.countP Option.isSome + s.main.left ≤ samples
    omega
  · apply stage_of_sample (t := ({ s with queue } : State).setWorker i (.busy idx .acquiring))
      invariant.stage found head rfl (s.length_setWorker i _) rfl
    · exact counted Worker.isReturned
    · exact counted Worker.isCancelled

theorem invariant_took_sample (invariant : Invariant args samples s) (found : s.workers[i]? = some .getting)
    (head : s.queue = some idx :: queue) : Invariant args samples (took s i (some idx) queue) := by
  rw [took_sample]
  split
  next set => exact invariant_drained invariant found head
  next unset => exact invariant_taken invariant found head unset

end Sample

end Workers

section Main

variable {args : Args} {samples : Nat} {s t : State}

theorem feedQueue_set (items : List Nat) (queue : List (Option Nat)) :
    feedQueue args true items queue = (queue, none) := by
  cases items <;> rfl

/-- The samples that were put, and the ones the feeder sleeps with. -/
theorem feedQueue_unset (args : Args) (items : List Nat) (queue : List (Option Nat)) :
    ∃ fed, (feedQueue args false items queue).1 = queue ++ fed.map some ∧
      items = fed ++ (feedQueue args false items queue).2.getD [] ∧
      (feedQueue args false items queue).2 ≠ some [] := by
  induction items generalizing queue with
  | nil => exact ⟨[], by simp [feedQueue]⟩
  | cons i items ih =>
    rw [feedQueue, if_neg Bool.false_ne_true]
    split
    · exact ⟨[], by simp⟩
    · obtain ⟨fed, queued, split, awake⟩ := ih (queue ++ [some i])
      refine ⟨i :: fed, ?_, ?_, awake⟩
      · rw [queued, List.append_assoc]
        rfl
      · rw [List.cons_append, ← split]

theorem sendSentinels_eq (args : Args) (left : Nat) (queue : List (Option Nat)) :
    ∃ sent, (sendSentinels args left queue).1 = queue ++ List.replicate sent none ∧
      left = sent + (sendSentinels args left queue).2 := by
  induction left generalizing queue with
  | zero => exact ⟨0, by simp [sendSentinels]⟩
  | succ left ih =>
    rw [sendSentinels]
    split
    · exact ⟨0, by simp⟩
    · obtain ⟨sent, queued, total⟩ := ih (queue ++ [none])
      refine ⟨sent + 1, ?_, by omega⟩
      rw [queued, List.append_assoc, List.replicate_succ]
      rfl

/-- The main task puts into the queue and changes nothing else. -/
theorem Invariant.of_put (invariant : Invariant args samples s) (tracker : t.tracker = s.tracker)
    (cancelEvent : t.cancelEvent = s.cancelEvent) (workers : t.workers = s.workers) (pbar : t.pbar = s.pbar)
    (balance : t.samples + t.main.left ≤ s.samples + s.main.left) (stage : Stage args t) :
    Invariant args samples t := by
  have same : ∀ p, t.count p = s.count p := fun p => by rw [State.count, State.count, workers]
  constructor
  · rw [tracker]
    exact invariant.threshold
  · rw [cancelEvent, same]
    exact invariant.signalled
  · rw [cancelEvent, tracker, pbar]
    exact invariant.failures
  · rw [cancelEvent, same, pbar]
    exact invariant.aborted
  · have total := invariant.balance
    rw [same, pbar]
    omega
  · exact stage

theorem Ordered.append_sentinels {queue : List (Option Nat)} (ordered : Ordered queue) (sent : Nat) :
    Ordered (queue ++ List.replicate sent none) := by
  apply List.pairwise_append.mpr
  refine ⟨ordered, ?_, ?_⟩
  · exact List.pairwise_replicate.mpr (.inr id)
  · intro item _ last member _
    exact List.eq_of_mem_replicate member

theorem samples_append_sentinels (queue : List (Option Nat)) (sent : Nat) :
    (queue ++ List.replicate sent none).countP Option.isSome = queue.countP Option.isSome := by
  rw [List.countP_append, List.countP_replicate]
  simp

theorem sentinels_append_sentinels (queue : List (Option Nat)) (sent : Nat) :
    (queue ++ List.replicate sent none).countP Option.isNone = queue.countP Option.isNone + sent := by
  rw [List.countP_append, List.countP_replicate]
  simp

theorem resumeSending_eq (args : Args) (s : State) (left : Nat) :
    ∃ sent after, resumeSending args s left =
        { s with
          queue := s.queue ++ List.replicate sent none
          main := if after = 0 then .gathering else .sending after } ∧ left = sent + after := by
  obtain ⟨sent, queued, total⟩ := sendSentinels_eq args left s.queue
  refine ⟨sent, _, ?_, total⟩
  rw [resumeSending, ← queued]

/-- The samples that are left to the workers when the sentinels follow them. -/
theorem stage_resumeSending {left : Nat} (size : s.workers.length = args.concurrency * 2)
    (total : s.sentinels + s.count Worker.isReturned + left = args.concurrency * 2)
    (cancelled : s.count Worker.isCancelled = 0) (ordered : Ordered s.queue)
    (drained : 0 < s.count Worker.isReturned → s.samples = 0) :
    Stage args (resumeSending args s left) ∧ (resumeSending args s left).samples = s.samples ∧
      (resumeSending args s left).main.left = 0 := by
  obtain ⟨sent, after, put, split⟩ := resumeSending_eq args s left
  rw [put]
  have samples := samples_append_sentinels s.queue sent
  have sentinels := sentinels_append_sentinels s.queue sent
  refine ⟨?_, samples, ?_⟩
  · by_cases last : after = 0
    · rw [if_pos last]
      refine ⟨size, .inr ?_⟩
      show (s.queue ++ List.replicate sent none).countP Option.isNone + s.count Worker.isReturned = _
      rw [sentinels]
      unfold State.sentinels at total
      omega
    · rw [if_neg last]
      refine ⟨Nat.pos_of_ne_zero last, size, ?_, cancelled, ordered.append_sentinels sent, ?_⟩
      · show (s.queue ++ List.replicate sent none).countP Option.isNone + s.count Worker.isReturned + after = _
        rw [sentinels]
        unfold State.sentinels at total
        omega
      · intro some
        exact samples.trans (drained some)
  · split <;> rfl

theorem invariant_resumeSending {left : Nat} (invariant : Invariant args samples s)
    (here : s.main = .sending left) : Invariant args samples (resumeSending args s left) := by
  have stage := invariant.stage
  unfold Stage at stage
  rw [here] at stage
  obtain ⟨_, size, total, cancelled, ordered, drained⟩ := stage
  obtain ⟨next, kept, none⟩ := stage_resumeSending size total cancelled ordered drained
  obtain ⟨sent, after, put, -⟩ := resumeSending_eq args s left
  apply invariant.of_put _ _ _ _ _ next
  · rw [put]
  · rw [put]
  · rw [put]
  · rw [put]
  · rw [kept, none]
    exact Nat.le_add_right _ _

theorem count_cancel (p : Worker → Bool) : (s.workers.map Worker.cancel).countP p =
    s.workers.countP fun w => p w.cancel := List.countP_map ..

/-- A worker is cancelled or has ended by itself. -/
theorem invariant_cancelled (invariant : Invariant args samples s) (set : s.cancelEvent = true)
    (size : s.workers.length = args.concurrency * 2) : Invariant args samples (shutdownWorkers args s) := by
  rw [shutdownWorkers, if_pos set]
  have raised : (s.workers.map Worker.cancel).countP Worker.isRaised = s.count Worker.isRaised := by
    rw [count_cancel]
    congr 1
    funext w
    cases w <;> rfl
  have busy : (s.workers.map Worker.cancel).countP Worker.isBusy = 0 := by
    rw [count_cancel, List.countP_eq_zero]
    intro w _
    cases w <;> simp [Worker.cancel, Worker.done, Worker.isBusy]
  have live : (s.workers.map Worker.cancel).countP Worker.live = 0 := by
    rw [count_cancel, List.countP_eq_zero]
    intro w _
    cases w <;> simp [Worker.cancel, Worker.done, Worker.live]
  have signalled := invariant.signalled
  have aborted := invariant.aborted set
  have balance := invariant.balance
  constructor
  · exact invariant.threshold
  · show s.cancelEvent = true ↔ 0 < (s.workers.map Worker.cancel).countP Worker.isRaised
    rw [raised]
    exact signalled
  · intro unset
    rw [show s.cancelEvent = false from unset] at set
    contradiction
  · intro _
    show args.signalAfter + (s.workers.map Worker.cancel).countP Worker.isRaised ≤
      s.pbar + s.workers.countP Worker.isBusy + 1
    rw [raised]
    omega
  · show s.pbar + s.workers.countP Worker.isBusy + (s.workers.map Worker.cancel).countP Worker.isBusy +
      s.samples + 0 ≤ samples
    rw [busy]
    unfold State.count at balance
    omega
  · exact ⟨(List.length_map _).trans size, .inl live⟩

theorem resumeFeeding_set (set : s.cancelEvent = true) (rest : List Nat) :
    resumeFeeding args s rest = shutdownWorkers args s := by
  have awake : feedQueue args s.cancelEvent rest s.queue = (s.queue, none) := by rw [set, feedQueue_set]
  rw [resumeFeeding, awake]

theorem shutdownWorkers_unset (args : Args) (unset : s.cancelEvent = false) :
    shutdownWorkers args s = resumeSending args s s.workers.length := by
  apply if_neg
  rw [unset]
  exact Bool.false_ne_true

theorem resumeFeeding_unset (args : Args) (unset : s.cancelEvent = false) (rest : List Nat) :
    ∃ fed after, rest = fed ++ after ∧ resumeFeeding args s rest =
      if after = [] then resumeSending args { s with queue := s.queue ++ fed.map some } s.workers.length
      else { s with queue := s.queue ++ fed.map some, main := .feeding after } := by
  obtain ⟨fed, queued, split, awake⟩ := feedQueue_unset args rest s.queue
  refine ⟨fed, _, split, ?_⟩
  have same : feedQueue args s.cancelEvent rest s.queue = feedQueue args false rest s.queue := by rw [unset]
  rw [resumeFeeding, same]
  cases outcome : feedQueue args false rest s.queue with
  | mk queue asleep =>
    rw [outcome] at queued awake
    rw [← queued]
    cases asleep with
    | none => exact shutdownWorkers_unset args unset
    | some after => exact (if_neg fun empty => awake (congrArg some empty)).symm

theorem samples_append_fed (queue : List (Option Nat)) (fed : List Nat) :
    (queue ++ fed.map some).countP Option.isSome = queue.countP Option.isSome + fed.length := by
  rw [List.countP_append, List.countP_map]
  congr 1
  exact List.countP_eq_length.mpr fun _ _ => rfl

theorem sentinels_append_fed (queue : List (Option Nat)) (fed : List Nat) :
    (queue ++ fed.map some).countP Option.isNone = queue.countP Option.isNone := by
  rw [List.countP_append, List.countP_map]
  apply Nat.add_eq_left.mpr
  exact List.countP_eq_zero.mpr fun _ _ => Bool.false_ne_true

/-- Without sentinels any queue is ordered. -/
theorem Ordered.of_unsent {queue : List (Option Nat)} (unsent : queue.countP Option.isNone = 0) : Ordered queue := by
  rw [List.countP_eq_zero] at unsent
  apply List.pairwise_of_forall_mem_list
  intro first member _ _ absent
  rw [absent] at member
  exact absurd rfl (unsent none member)

theorem invariant_resumeFeeding {rest : List Nat} (invariant : Invariant args samples s)
    (here : s.main = .feeding rest) : Invariant args samples (resumeFeeding args s rest) := by
  have stage := invariant.stage
  unfold Stage at stage
  rw [here] at stage
  obtain ⟨_, size, unsent, unreturned, uncancelled⟩ := stage
  cases set : s.cancelEvent with
  | true =>
    rw [resumeFeeding_set set]
    exact invariant_cancelled invariant set size
  | false =>
    obtain ⟨fed, after, split, resumed⟩ := resumeFeeding_unset args set rest
    have samples := samples_append_fed s.queue fed
    have sentinels := sentinels_append_fed s.queue fed
    have length : s.main.left = fed.length + after.length := by
      rw [here, Main.left, split, List.length_append]
    rw [resumed]
    by_cases last : after = []
    · rw [if_pos last]
      have total : (s.queue ++ fed.map some).countP Option.isNone + s.count Worker.isReturned + s.workers.length =
          args.concurrency * 2 := by
        rw [sentinels, ← State.sentinels, unsent, unreturned, size, Nat.zero_add]
      have ordered : Ordered (s.queue ++ fed.map some) := Ordered.of_unsent (sentinels.trans unsent)
      obtain ⟨next, kept, none⟩ := stage_resumeSending (s := { s with queue := s.queue ++ fed.map some })
        size total uncancelled ordered fun some => absurd unreturned (Nat.pos_iff_ne_zero.mp some)
      obtain ⟨sent, left, put, -⟩ :=
        resumeSending_eq args { s with queue := s.queue ++ fed.map some } s.workers.length
      apply invariant.of_put _ _ _ _ _ next
      · rw [put]
      · rw [put]
      · rw [put]
      · rw [put]
      · rw [kept, none, length]
        show (s.queue ++ fed.map some).countP Option.isSome + 0 ≤ _
        rw [samples]
        unfold State.samples
        omega
    · rw [if_neg last]
      apply invariant.of_put (t := { s with queue := s.queue ++ fed.map some, main := .feeding after }) rfl rfl rfl rfl
      · show (s.queue ++ fed.map some).countP Option.isSome + after.length ≤ s.samples + s.main.left
        rw [samples, length]
        unfold State.samples
        omega
      · exact ⟨last, size, sentinels.trans unsent, unreturned, uncancelled⟩

theorem live_eq_zero (s : State) : s.count Worker.live = 0 ↔ s.workers.all Worker.done = true := by
  rw [State.count, List.countP_eq_zero, List.all_eq_true]
  apply forall₂_congr
  intro w _
  unfold Worker.live
  cases w.done <;> simp

theorem invariant_mainStep (invariant : Invariant args samples s) (stepped : mainStep args s = some t) :
    Invariant args samples t := by
  unfold mainStep at stepped
  cases here : s.main with
  | feeding rest =>
    rw [here] at stepped
    obtain ⟨_, resumed⟩ := Option.ite_none_left_eq_some.mp stepped
    cases resumed
    exact invariant_resumeFeeding invariant here
  | sending left =>
    rw [here] at stepped
    obtain ⟨_, resumed⟩ := Option.ite_none_left_eq_some.mp stepped
    cases resumed
    exact invariant_resumeSending invariant here
  | gathering =>
    rw [here] at stepped
    obtain ⟨ended, resumed⟩ := Option.ite_none_right_eq_some.mp stepped
    cases resumed
    apply invariant.of_put (t := { s with main := .finished (gathered s) }) rfl rfl rfl rfl
    · exact Nat.le_add_right _ _
    · exact ⟨(live_eq_zero s).mpr ended, rfl⟩
  | finished outcome =>
    rw [here] at stepped
    contradiction

theorem invariant_step {event : Event} (invariant : Invariant args samples s)
    (stepped : step args s event = some t) : Invariant args samples t := by
  cases step_eq_some.mp stepped with
  | main moved => exact invariant_mainStep invariant moved
  | @get i item queue found head =>
    cases item with
    | none => exact invariant_took_sentinel invariant found head
    | some idx => exact invariant_took_sample invariant found head
  | @move i idx phase next found may => exact invariant_move invariant found next
  | save found => exact invariant_saved invariant found
  | fail found may => exact invariant_failed invariant found

/-- The pool as it is created. -/
theorem invariant_fresh (args : Args) {toProcess : List Nat} (nonempty : toProcess ≠ []) :
    Invariant args toProcess.length (fresh args toProcess) := by
  have absent : ∀ p : Worker → Bool, p .getting = false → (fresh args toProcess).count p = 0 := by
    intro p not
    apply List.countP_eq_zero.mpr
    intro w member
    rw [List.eq_of_mem_replicate member, not]
    exact Bool.false_ne_true
  constructor
  · rfl
  · rw [absent _ rfl]
    simp [fresh]
  · intro _
    exact Nat.zero_le _
  · intro set
    exact absurd set Bool.false_ne_true
  · rw [absent _ rfl]
    exact (Nat.zero_add _).le
  · exact ⟨nonempty, List.length_replicate, rfl, absent _ rfl, absent _ rfl⟩

theorem invariant_start (args : Args) (toProcess : List Nat) :
    Invariant args toProcess.length (start args toProcess) := by
  unfold start
  split
  next empty =>
    rw [empty]
    constructor
    · rfl
    · simp [fresh, State.count]
    · intro _
      exact Nat.zero_le _
    · intro set
      exact absurd set Bool.false_ne_true
    · exact le_refl _
    · exact ⟨rfl, rfl⟩
  next nonempty => exact invariant_resumeFeeding (invariant_fresh args nonempty) rfl

theorem invariant_run {toProcess : List Nat} {events : List Event}
    (ran : Machine.run (step args) events (start args toProcess) = some s) :
    Invariant args toProcess.length s :=
  Machine.run_invariant invariant_step (invariant_start args toProcess) ran

end Main

end DreamAifd.OfflineGeneration
