import DreamAifd.LineFile
import DreamAifd.Machine

/-! Regenerating the responses of conversations. Workers on one thread append the rows of a finished
conversation to the output file, of which any part may have reached the disk when the process is
killed; a later run with `--resume` skips the conversations it finds rows of. -/
namespace DreamAifd.Regeneration

open LineFile Machine

structure Row (β : Type) where
  id : String
  primaryId : Option String
  content : β
  deriving DecidableEq

/-- A conversation that has turns to regenerate; `extract_tools` raises on broken tools. -/
structure Conversation where
  primaryId : String
  brokenTools : Bool
  present : primaryId ≠ ""
  deriving DecidableEq

structure Dataset where
  rows : List Conversation
  distinct : (rows.map (·.primaryId)).Nodup
  deriving DecidableEq

structure Args where
  concurrency : Nat
  limit : Option Nat
  deriving DecidableEq

variable {β : Type}

def isPresent (value : Option String) : Bool := value ≠ none ∧ value ≠ some ""

def sampleRow (convId : String) (sampleIndex : Nat) (content : β) : Row β :=
  ⟨convId ++ "_gen" ++ toString sampleIndex, some convId, content⟩

def resumeKey (row : Row β) : Option String :=
  let key := if isPresent row.primaryId then row.primaryId else some row.id
  if isPresent key then key else none

/-- `load_seen` over the lines of the file: unreadable JSON is skipped, bytes that do not decode raise. -/
def loadSeen (codec : Codec (Row β)) : List (List UInt8) → Option (List String)
  | [] => some []
  | line :: rest =>
    match codec.loads line with
    | .error .undecodable => none
    | .error .notJson => loadSeen codec rest
    | .ok row => (loadSeen codec rest).map ((resumeKey row).toList ++ ·)

/-- A worker in its write loop; `onDisk` counts the bytes of the conversation that have reached the disk. -/
structure Emission (β : Type) where
  conversation : Conversation
  written : List (Row β)
  rest : List (Row β)
  onDisk : Nat
  deriving DecidableEq

/-- One process. `pending` is what has been written and not yet pushed to the disk. -/
structure Process (β : Type) where
  args : Args
  seenIds : List String
  dataset : List Conversation
  processedCount : Nat
  queue : List Conversation
  active : List Conversation
  emitting : Option (Emission β)
  pending : List UInt8
  deriving DecidableEq

/-- The output file, the process if one runs, and what has happened: the regenerations that finished, those
whose rows were written and flushed, and the failures. -/
structure State (β : Type) where
  disk : List UInt8
  process : Option (Process β)
  regenerated : List (String × List (Row β))
  succeeded : List (String × List (Row β))
  errors : List String
  deriving DecidableEq

def initial : State β := ⟨[], none, [], [], []⟩

inductive Event (β : Type)
  | start (args : Args) (resume : Bool) (dataset : Dataset)
  | feed
  | take
  | requestFails (conversation : Conversation)
  | regenerated (conversation : Conversation) (first : β) (rest : List β)
  | write
  | push (count : Nat)
  | flush
  | exit
  | kill

/-- The main loop's next row of the dataset; none while the queue is full. -/
def feed (s : State β) (p : Process β) : Option (State β) :=
  match p.dataset with
  | [] => none
  | conversation :: dataset =>
    if p.args.limit.any (· ≤ p.processedCount) then some { s with process := some { p with dataset := [] } }
    else if conversation.primaryId ∈ p.seenIds then some { s with process := some { p with dataset } }
    else if conversation.brokenTools then
      some { s with process := some { p with dataset }, errors := s.errors ++ [conversation.primaryId] }
    else if p.queue.length < p.args.concurrency * 4 then
      some { s with process := some { p with
        dataset, queue := p.queue ++ [conversation], processedCount := p.processedCount + 1 } }
    else none

/-- The next row of the write loop, which raises on a row that cannot be encoded. -/
def write (codec : Codec (Row β)) (s : State β) (p : Process β) (e : Emission β) : Option (State β) :=
  match e.rest with
  | [] => none
  | row :: rest =>
    match codec.dumps row with
    | none => some { s with
        process := some { p with emitting := none }, errors := s.errors ++ [e.conversation.primaryId] }
    | some line => some { s with process := some { p with
        emitting := some { e with written := e.written ++ [row], rest }
        pending := p.pending ++ (line ++ [newline]) } }

/-- The steps of a process. Between the first row of a conversation and its flush no other task runs. -/
def processStep (codec : Codec (Row β)) (s : State β) (p : Process β) : Event β → Option (State β)
  | .start _ _ _ => none
  | .feed => if p.emitting.isSome then none else feed s p
  | .take =>
    match p.emitting, p.queue with
    | none, conversation :: queue =>
      if p.active.length < p.args.concurrency then
        some { s with process := some { p with queue, active := p.active ++ [conversation] } }
      else none
    | _, _ => none
  | .requestFails conversation =>
    if p.emitting.isNone ∧ conversation ∈ p.active then
      some { s with
        process := some { p with active := p.active.erase conversation }
        errors := s.errors ++ [conversation.primaryId] }
    else none
  | .regenerated conversation first rest =>
    if p.emitting.isNone ∧ conversation ∈ p.active then
      let samples := (first :: rest).mapIdx (sampleRow conversation.primaryId)
      some { s with
        process := some { p with
          active := p.active.erase conversation, emitting := some ⟨conversation, [], samples, 0⟩ }
        regenerated := s.regenerated ++ [(conversation.primaryId, samples)] }
    else none
  | .write => p.emitting.bind (write codec s p)
  | .push count =>
    some { s with
      disk := s.disk ++ p.pending.take count
      process := some { p with
        pending := p.pending.drop count
        emitting := p.emitting.map fun e => { e with onDisk := e.onDisk + (p.pending.take count).length } } }
  | .flush =>
    match p.emitting with
    | some ⟨conversation, written, [], _⟩ =>
      some { s with
        disk := s.disk ++ p.pending
        process := some { p with emitting := none, pending := [] }
        succeeded := s.succeeded ++ [(conversation.primaryId, written)] }
    | _ => none
  | .exit =>
    if p.dataset = [] ∧ p.queue = [] ∧ p.active = [] ∧ p.emitting.isNone then
      some { s with disk := s.disk ++ p.pending, process := none }
    else none
  | .kill => some { s with process := none }

/-- A run that starts reads the file first; it ends at once where that raises. -/
def step (codec : Codec (Row β)) (s : State β) (event : Event β) : Option (State β) :=
  match s.process, event with
  | some p, event => processStep codec s p event
  | none, .start args resume dataset =>
    match if resume then loadSeen codec (lines s.disk) else some [] with
    | none => some s
    | some seenIds => some { s with process := some ⟨args, seenIds, dataset.rows, 0, [], [], none, []⟩ }
  | none, _ => none

def rowsOf (codec : Codec (Row β)) (file : List UInt8) (convId : String) : List (Row β) :=
  (codec.records file).filter (·.primaryId = some convId)

/-- Every row parses; what a conversation has in the file is nothing or all the rows of one of its
regenerations, and not nothing once its rows were written and flushed. -/
structure AllOrNothing (codec : Codec (Row β)) (s : State β) : Prop where
  parses : ∀ line ∈ lines s.disk, ∃ row, codec.loads line = .ok row
  whole : ∀ convId, rowsOf codec s.disk convId = [] ∨ (convId, rowsOf codec s.disk convId) ∈ s.regenerated
  kept : ∀ done ∈ s.succeeded, (done.1, rowsOf codec s.disk done.1) ∈ s.regenerated

/-- Later runs resume. -/
def resumes (s : State β) : Event β → Bool
  | .start _ resume _ => resume || s.disk.isEmpty
  | _ => true

/-- No kill finds a part of a conversation's rows on the disk, and no row fails to be encoded after
another one of its conversation has been written. -/
def cleanEmission (codec : Codec (Row β)) (p : Process β) (e : Emission β) : Event β → Bool
  | .kill => e.onDisk = 0 || e.rest.isEmpty && p.pending.isEmpty
  | .write => e.rest.head?.all fun row => (codec.dumps row).isSome || e.written.isEmpty
  | _ => true

def clean (codec : Codec (Row β)) (s : State β) (event : Event β) : Bool :=
  s.process.all fun p => p.emitting.all fun e => cleanEmission codec p e event

structure Kept (codec : Codec (Row β)) (s : State β) (kept : List (String × List (Row β))) (base : List UInt8) :
    Prop where
  text : codec.text (kept.flatMap (·.2)) = some base
  rows : ∀ k ∈ kept, k.2 ≠ [] ∧ ∀ row ∈ k.2, row.primaryId = some k.1
  present : ∀ k ∈ kept, k.1 ≠ ""
  distinct : (kept.map (·.1)).Nodup
  regenerated : ∀ k ∈ kept, k ∈ s.regenerated
  succeeded : ∀ done ∈ s.succeeded, done.1 ∈ kept.map (·.1)

/-- The conversation in the write loop: a first part of its rows' text, of which a first part is on the disk. -/
structure Emitting (codec : Codec (Row β)) (s : State β) (p : Process β) (base : List UInt8) (e : Emission β) :
    Prop where
  text : ∃ text, codec.text e.written = some text ∧ e.onDisk ≤ text.length ∧ s.disk = base ++ text.take e.onDisk ∧
    p.pending = text.drop e.onDisk
  some_row : e.written ++ e.rest ≠ []
  rows : ∀ row ∈ e.written ++ e.rest, row.primaryId = some e.conversation.primaryId
  regenerated : (e.conversation.primaryId, e.written ++ e.rest) ∈ s.regenerated

/-- The conversations a process has taken from the dataset and not finished. -/
def held (p : Process β) : List Conversation := p.queue ++ p.active ++ (p.emitting.map (·.conversation)).toList

theorem mem_held {p : Process β} {c : Conversation} :
    c ∈ held p ↔ (c ∈ p.queue ∨ c ∈ p.active) ∨ ∃ e, p.emitting = some e ∧ e.conversation = c := by
  simp [held, or_assoc]

structure Running (codec : Codec (Row β)) (s : State β) (p : Process β) (kept : List (String × List (Row β)))
    (base : List UInt8) : Prop where
  idle : p.emitting = none → s.disk = base ∧ p.pending = []
  emitting : ∀ e, p.emitting = some e → Emitting codec s p base e
  distinct : ((p.dataset ++ held p).map (·.primaryId)).Nodup
  fresh : ∀ c ∈ held p, c.primaryId ∉ kept.map (·.1)
  seen : ∀ c ∈ p.dataset, c.primaryId ∈ kept.map (·.1) → c.primaryId ∈ p.seenIds

def Inv (codec : Codec (Row β)) (s : State β) : Prop :=
  ∃ kept base, Kept codec s kept base ∧ (s.process = none → s.disk = base) ∧
    ∀ p, s.process = some p → Running codec s p kept base

section Invariant

variable {codec : Codec (Row β)} {s t : State β}

theorem inv_initial : Inv codec (initial : State β) :=
  ⟨[], [], ⟨rfl, by simp, by simp, by simp, by simp, by simp [initial]⟩, fun _ => rfl, by simp [initial]⟩

/-- The rows of a conversation among whole ones. -/
theorem filter_kept {kept : List (String × List (Row β))} (rows : ∀ k ∈ kept, ∀ row ∈ k.2, row.primaryId = some k.1)
    (distinct : (kept.map (·.1)).Nodup) (convId : String) :
    (convId ∉ kept.map (·.1) → (kept.flatMap (·.2)).filter (·.primaryId = some convId) = []) ∧
      (convId ∈ kept.map (·.1) → (convId, (kept.flatMap (·.2)).filter (·.primaryId = some convId)) ∈ kept) := by
  induction kept with
  | nil => simp
  | cons k kept ih =>
    obtain ⟨fresh, later⟩ := List.nodup_cons.mp distinct
    obtain ⟨absent, found⟩ := ih (fun k member => rows k (List.mem_cons_of_mem _ member)) later
    rw [List.flatMap_cons, List.filter_append]
    by_cases same : k.1 = convId
    · subst same
      have own : k.2.filter (·.primaryId = some k.1) = k.2 :=
        List.filter_eq_self.mpr fun row member => by simpa using rows k (by simp) row member
      rw [own, absent fresh, List.append_nil]
      exact ⟨fun other => absurd (by simp) other, fun _ => by simp⟩
    · have none : k.2.filter (·.primaryId = some convId) = [] :=
        List.filter_eq_nil_iff.mpr fun row member => by simpa [rows k (by simp) row member] using same
      rw [none, List.nil_append]
      simp only [List.map_cons, List.mem_cons, Ne.symm same, false_or]
      exact ⟨absent, fun member => .inr (found member)⟩

theorem loadSeen_of_loads {texts : List (List UInt8)} {rows : List (Row β)}
    (read : texts.map codec.loads = rows.map .ok) :
    loadSeen codec texts = some (rows.flatMap fun row => (resumeKey row).toList) := by
  induction texts generalizing rows with
  | nil =>
    rw [List.map_nil, eq_comm, List.map_eq_nil_iff] at read
    rw [read]
    rfl
  | cons text texts ih =>
    cases rows with
    | nil => cases read
    | cons row rows =>
      obtain ⟨first, rest⟩ := List.cons.inj read
      rw [loadSeen, first, ih rest]
      rfl

theorem Kept.seen {kept : List (String × List (Row β))} {base : List UInt8} (invariant : Kept codec s kept base) :
    ∃ seen, loadSeen codec (lines base) = some seen ∧ ∀ c ∈ kept.map (·.1), c ∈ seen := by
  refine ⟨_, loadSeen_of_loads (codec.lines_text invariant.text), fun c member => ?_⟩
  obtain ⟨k, inside, rfl⟩ := List.mem_map.mp member
  obtain ⟨some_row, ids⟩ := invariant.rows k inside
  obtain ⟨row, rest, shape⟩ := List.exists_cons_of_ne_nil some_row
  have first : row ∈ k.2 := by simp [shape]
  refine List.mem_flatMap.mpr ⟨row, List.mem_flatMap.mpr ⟨k, inside, first⟩, ?_⟩
  have present := invariant.present k inside
  simp [resumeKey, isPresent, ids row first, present]

/-- A file of whole conversations. -/
theorem Inv.allOrNothing (invariant : Inv codec s) (stopped : s.process = none) : AllOrNothing codec s := by
  obtain ⟨kept, base, whole, file, -⟩ := invariant
  have disk := file stopped
  have read := codec.lines_text whole.text
  have own := filter_kept (fun k member => (whole.rows k member).2) whole.distinct
  have rows (convId : String) : rowsOf codec s.disk convId =
      (kept.flatMap (·.2)).filter (·.primaryId = some convId) := by
    rw [rowsOf, disk, codec.records_text whole.text]
  refine ⟨fun line member => ?_, fun convId => ?_, fun done member => ?_⟩
  · rw [disk] at member
    have loaded : codec.loads line ∈ (lines base).map codec.loads := List.mem_map_of_mem member
    rw [read] at loaded
    obtain ⟨row, -, same⟩ := List.mem_map.mp loaded
    exact ⟨row, same.symm⟩
  · rw [rows]
    by_cases known : convId ∈ kept.map (·.1)
    · exact .inr (whole.regenerated _ ((own convId).2 known))
    · exact .inl ((own convId).1 known)
  · rw [rows]
    exact whole.regenerated _ ((own done.1).2 (whole.succeeded done member))

/-- What the steps of the tasks do to a run's conversations: none appears, and the taken ones were unseen. -/
theorem Running.next {p q : Process β} {kept : List (String × List (Row β))} {base : List UInt8}
    (running : Running codec s p kept base)
    (tasks : ((q.dataset ++ held q).map (·.primaryId)).Nodup)
    (taken : ∀ c ∈ held q, c ∈ held p ∨ c ∈ p.dataset ∧ c.primaryId ∉ p.seenIds)
    (later : ∀ c ∈ q.dataset, c ∈ p.dataset) (seenIds : q.seenIds = p.seenIds)
    (idle : q.emitting = none → t.disk = base ∧ q.pending = [])
    (emitting : ∀ e, q.emitting = some e → Emitting codec t q base e) : Running codec t q kept base where
  idle := idle
  emitting := emitting
  distinct := tasks
  fresh c member known := by
    rcases taken c member with before | ⟨unread, unseen⟩
    · exact running.fresh c before known
    · exact unseen (running.seen c unread known)
  seen c member known := seenIds ▸ running.seen c (later c member) known

theorem Kept.of_same {kept : List (String × List (Row β))} {base : List UInt8} (whole : Kept codec s kept base)
    (regenerated : ∀ k ∈ s.regenerated, k ∈ t.regenerated) (succeeded : t.succeeded = s.succeeded) :
    Kept codec t kept base :=
  { whole with
    regenerated := fun k member => regenerated k (whole.regenerated k member)
    succeeded := succeeded ▸ whole.succeeded }

/-- A step that leaves the process running, its emission aside. -/
theorem inv_running {q : Process β} {kept : List (String × List (Row β))} {base : List UInt8}
    (whole : Kept codec t kept base) (next : t.process = some q) (running : Running codec t q kept base) :
    Inv codec t := by
  refine ⟨kept, base, whole, fun stopped => ?_, fun r same => ?_⟩
  · rw [next] at stopped
    contradiction
  · rw [next] at same
    cases same
    exact running

section Steps

variable {p : Process β} {kept : List (String × List (Row β))} {base : List UInt8}

theorem inv_feed (whole : Kept codec s kept base) (running : Running codec s p kept base)
    (idle : p.emitting = none) (stepped : feed s p = some t) : Inv codec t := by
  obtain ⟨disk, pending⟩ := running.idle idle
  have tasks := running.distinct
  have silent {q : Process β} (same : q.emitting = p.emitting) (e : Emission β) (found : q.emitting = some e) :
      Emitting codec t q base e := by
    rw [same, idle] at found
    contradiction
  unfold feed at stepped
  split at stepped
  · contradiction
  next conversation dataset shape =>
    rw [shape] at tasks
    have rest : ((dataset ++ held p).map (·.primaryId)).Nodup := (List.nodup_cons.mp tasks).2
    have inside : ∀ c ∈ dataset, c ∈ p.dataset := fun c member => by simp [shape, member]
    split at stepped
    · cases stepped
      have fewer : (([] ++ held p).map Conversation.primaryId).Nodup :=
        tasks.sublist ((List.sublist_append_right _ _).map _)
      exact inv_running (whole.of_same (fun _ => id) rfl) rfl
        (running.next fewer (fun c member => .inl member) (by simp) rfl (fun _ => ⟨disk, pending⟩) (silent rfl))
    split at stepped
    · cases stepped
      exact inv_running (whole.of_same (fun _ => id) rfl) rfl
        (running.next rest (fun c member => .inl member) inside rfl (fun _ => ⟨disk, pending⟩) (silent rfl))
    next unseen =>
      split at stepped
      · cases stepped
        exact inv_running (whole.of_same (fun _ => id) rfl) rfl
          (running.next rest (fun c member => .inl member) inside rfl (fun _ => ⟨disk, pending⟩) (silent rfl))
      split at stepped
      · cases stepped
        refine inv_running (whole.of_same (fun _ => id) rfl) rfl
          (running.next ?_ (fun c member => ?_) inside rfl (fun _ => ⟨disk, pending⟩) (silent rfl))
        · have moved : (dataset ++ held { p with
              dataset, queue := p.queue ++ [conversation], processedCount := p.processedCount + 1 }).Perm
              (conversation :: dataset ++ held p) := by
            have middle : (dataset ++ p.queue ++
                conversation :: (p.active ++ (p.emitting.map (·.conversation)).toList)).Perm
                (conversation :: (dataset ++ p.queue ++ (p.active ++ (p.emitting.map (·.conversation)).toList))) :=
              List.perm_middle
            simpa [held] using middle
          exact (moved.map _).symm.nodup tasks
        · rcases mem_held.mp member with (queued | active) | emitting
          · rcases List.mem_append.mp queued with before | last
            · exact .inl (mem_held.mpr (.inl (.inl before)))
            · obtain rfl := List.mem_singleton.mp last
              exact .inr ⟨by simp [shape], unseen⟩
          · exact .inl (mem_held.mpr (.inl (.inr active)))
          · exact .inl (mem_held.mpr (.inr emitting))
      · contradiction

theorem inv_take (whole : Kept codec s kept base) (running : Running codec s p kept base)
    (stepped : processStep codec s p .take = some t) : Inv codec t := by
  rw [processStep] at stepped
  split at stepped
  next conversation queue idle shape =>
    obtain ⟨disk, pending⟩ := running.idle idle
    split at stepped
    · cases stepped
      have same : (held { p with queue, active := p.active ++ [conversation] }).Perm (held p) := by
        simp only [held, idle, shape, Option.map_none, Option.toList_none, List.append_nil, List.cons_append]
        rw [← List.append_assoc]
        exact List.perm_append_singleton _ _
      refine inv_running (whole.of_same (fun _ => id) rfl) rfl
        (running.next ?_ (fun c member => .inl (same.mem_iff.mp member)) (fun _ => id) rfl
          (fun _ => ⟨disk, pending⟩) fun e found => absurd found (by simp [idle]))
      exact ((same.append_left _).map _).symm.nodup running.distinct
    · contradiction
  · contradiction

theorem inv_requestFails {conversation : Conversation} (whole : Kept codec s kept base)
    (running : Running codec s p kept base) (stepped : processStep codec s p (.requestFails conversation) = some t) :
    Inv codec t := by
  rw [processStep] at stepped
  split at stepped
  next ready =>
    obtain ⟨quiet, member⟩ := ready
    have idle := Option.isNone_iff_eq_none.mp quiet
    obtain ⟨disk, pending⟩ := running.idle idle
    cases stepped
    have fewer : (held { p with active := p.active.erase conversation }).Sublist (held p) :=
      ((List.Sublist.refl _).append List.erase_sublist).append (.refl _)
    exact inv_running (whole.of_same (fun _ => id) rfl) rfl
      (running.next (running.distinct.sublist (((List.Sublist.refl _).append fewer).map _))
        (fun c member => .inl (fewer.subset member)) (fun _ => id) rfl (fun _ => ⟨disk, pending⟩)
        fun e found => absurd found (by simp [idle]))
  · contradiction

theorem inv_regenerated {conversation : Conversation} {first : β} {rest : List β} (whole : Kept codec s kept base)
    (running : Running codec s p kept base)
    (stepped : processStep codec s p (.regenerated conversation first rest) = some t) : Inv codec t := by
  rw [processStep] at stepped
  split at stepped
  next ready =>
    obtain ⟨quiet, member⟩ := ready
    have idle := Option.isNone_iff_eq_none.mp quiet
    obtain ⟨disk, pending⟩ := running.idle idle
    cases stepped
    have same : (held { p with active := p.active.erase conversation, emitting := some ⟨conversation, [],
        (first :: rest).mapIdx (sampleRow conversation.primaryId), 0⟩ }).Perm (held p) := by
      simp only [held, idle, Option.map_none, Option.map_some, Option.toList_none, Option.toList_some,
        List.append_nil, List.append_assoc]
      refine List.Perm.append_left _ ((List.perm_append_singleton _ _).trans ?_)
      exact (List.perm_cons_erase member).symm
    refine inv_running (whole.of_same (fun k known => List.mem_append_left _ known) rfl) rfl
      (running.next (((same.append_left _).map _).symm.nodup running.distinct)
        (fun c member => .inl (same.mem_iff.mp member)) (fun _ => id) rfl (fun found => by contradiction) ?_)
    rintro e ⟨⟩
    refine ⟨⟨[], rfl, Nat.zero_le _, by simp [disk], by simp [pending]⟩, by simp, ?_, by simp⟩
    intro row found
    rw [List.nil_append, List.mem_mapIdx] at found
    obtain ⟨i, _, rfl⟩ := found
    rfl
  · contradiction

theorem inv_write (whole : Kept codec s kept base) (running : Running codec s p kept base) {e : Emission β}
    (busy : p.emitting = some e)
    (clean : ∀ row rest, e.rest = row :: rest → codec.dumps row = none → e.written = [])
    (stepped : write codec s p e = some t) : Inv codec t := by
  obtain ⟨⟨text, written, bound, disk, pending⟩, some_row, rows, done⟩ := running.emitting e busy
  unfold write at stepped
  split at stepped
  · contradiction
  next row rest shape =>
    split at stepped
    next raises =>
      cases stepped
      have nothing := clean row rest shape raises
      rw [nothing] at written
      cases written
      have fewer : (held { p with emitting := (none : Option (Emission β)) }).Sublist (held p) := by
        simp only [held, Option.map_none, Option.toList_none, List.append_nil]
        exact List.sublist_append_left _ _
      exact inv_running (whole.of_same (fun _ => id) rfl) rfl
        (running.next (running.distinct.sublist (((List.Sublist.refl _).append fewer).map _))
          (fun c member => .inl (fewer.subset member)) (fun _ => id) rfl
          (fun _ => ⟨by simpa using disk, by simpa using pending⟩) (by simp))
    next line dumped =>
      cases stepped
      have same : held { p with
          emitting := some { e with written := e.written ++ [row], rest }
          pending := p.pending ++ (line ++ [newline]) } = held p := by
        simp [held, busy]
      refine inv_running (whole.of_same (fun _ => id) rfl) rfl
        (running.next (same ▸ running.distinct) (fun c member => .inl (same ▸ member)) (fun _ => id) rfl
          (by simp) ?_)
      rintro other ⟨⟩
      have longer : codec.text (e.written ++ [row]) = some (text ++ (line ++ [newline])) :=
        codec.text_append written (by simp [Codec.text, dumped])
      refine ⟨⟨_, longer, by simp; omega, ?_, ?_⟩, ?_, ?_, ?_⟩
      · rw [disk, List.take_append_of_le_length bound]
      · rw [pending, List.drop_append_of_le_length bound]
      · simp
      · simpa [shape] using rows
      · simpa [shape] using done

theorem inv_push {count : Nat} (whole : Kept codec s kept base) (running : Running codec s p kept base)
    (stepped : processStep codec s p (.push count) = some t) : Inv codec t := by
  rw [processStep] at stepped
  cases stepped
  have same : held { p with
      pending := p.pending.drop count
      emitting := p.emitting.map fun e => { e with onDisk := e.onDisk + (p.pending.take count).length } } = held p := by
    cases busy : p.emitting <;> simp [held, busy]
  refine inv_running (whole.of_same (fun _ => id) rfl) rfl
    (running.next (same ▸ running.distinct) (fun c member => .inl (same ▸ member)) (fun _ => id) rfl ?_ ?_)
  · intro idle
    obtain ⟨disk, pending⟩ := running.idle (Option.map_eq_none_iff.mp idle)
    simp [disk, pending]
  · intro other found
    obtain ⟨e, busy, rfl⟩ := Option.map_eq_some_iff.mp found
    obtain ⟨⟨text, written, bound, disk, pending⟩, some_row, rows, done⟩ := running.emitting e busy
    refine ⟨⟨text, written, ?_, ?_, ?_⟩, some_row, rows, done⟩
    · simp [pending]
      omega
    · rw [List.take_add, disk, pending, List.append_assoc]
      simp [List.take_eq_take_iff]
    · rw [← List.drop_drop, pending]
      simp [List.drop_eq_drop_iff]
      omega

/-- All the rows of a conversation on the disk. -/
theorem Kept.add (whole : Kept codec s kept base) {c : Conversation} {rows : List (Row β)} {text : List UInt8}
    (fresh : c.primaryId ∉ kept.map (·.1)) (written : codec.text rows = some text) (some_row : rows ≠ [])
    (ids : ∀ row ∈ rows, row.primaryId = some c.primaryId) (done : (c.primaryId, rows) ∈ s.regenerated)
    (same : t.regenerated = s.regenerated)
    (succeeded : ∀ d ∈ t.succeeded, d ∈ s.succeeded ∨ d.1 = c.primaryId) :
    Kept codec t (kept ++ [(c.primaryId, rows)]) (base ++ text) where
  text := by
    rw [List.flatMap_append, List.flatMap_singleton]
    exact codec.text_append whole.text written
  rows k member := by
    rcases List.mem_append.mp member with before | last
    · exact whole.rows k before
    · obtain rfl := List.mem_singleton.mp last
      exact ⟨some_row, ids⟩
  present k member := by
    rcases List.mem_append.mp member with before | last
    · exact whole.present k before
    · obtain rfl := List.mem_singleton.mp last
      exact c.present
  distinct := by
    rw [List.map_append]
    refine List.nodup_append.mpr ⟨whole.distinct, by simp, ?_⟩
    rintro _ before _ last rfl
    obtain rfl := List.mem_singleton.mp last
    exact fresh before
  regenerated k member := by
    rw [same]
    rcases List.mem_append.mp member with before | last
    · exact whole.regenerated k before
    · obtain rfl := List.mem_singleton.mp last
      exact done
  succeeded d member := by
    rw [List.map_append, List.mem_append]
    rcases succeeded d member with before | now
    · exact .inl (whole.succeeded d before)
    · exact .inr (by simp [now])

theorem inv_flush (whole : Kept codec s kept base) (running : Running codec s p kept base)
    (stepped : processStep codec s p .flush = some t) : Inv codec t := by
  rw [processStep] at stepped
  split at stepped
  next conversation rows onDisk busy =>
    obtain ⟨⟨text, written, bound, disk, pending⟩, some_row, ids, done⟩ := running.emitting _ busy
    simp only [List.append_nil] at some_row ids done
    have taking : conversation ∈ held p := mem_held.mpr (.inr ⟨_, busy, rfl⟩)
    have tasks := running.distinct
    cases stepped
    have all : s.disk ++ p.pending = base ++ text := by
      rw [disk, pending, List.append_assoc, List.take_append_drop]
    have others : (p.dataset ++ held p).Perm
        (conversation :: (p.dataset ++ held { p with emitting := (none : Option (Emission β)), pending := [] })) := by
      simp only [held, busy, Option.map_some, Option.toList_some, Option.map_none, Option.toList_none,
        List.append_nil]
      rw [← List.append_assoc]
      exact List.perm_append_singleton _ _
    have apart := (others.map (·.primaryId)).nodup tasks
    rw [List.map_cons, List.nodup_cons] at apart
    have differs {c : Conversation}
        (member : c ∈ p.dataset ++ held { p with emitting := (none : Option (Emission β)), pending := [] }) :
        c.primaryId ≠ conversation.primaryId := fun same => apart.1 (same ▸ List.mem_map_of_mem member)
    refine @inv_running _ codec _ _ (kept ++ [(conversation.primaryId, rows)]) (base ++ text)
      (whole.add (running.fresh _ taking) written some_row ids done rfl fun d member => ?_) rfl
      ⟨fun _ => ⟨all, rfl⟩, by simp, apart.2, fun c member known => ?_, fun c member known => ?_⟩
    · simpa [Prod.ext_iff] using (List.mem_append.mp member).imp_right fun last => by
        rw [List.mem_singleton.mp last]
    · rw [List.map_append, List.mem_append] at known
      rcases known with before | last
      · have kept : c ∈ held p := by
          have member : c ∈ p.queue ∨ c ∈ p.active := by simpa [held] using member
          exact mem_held.mpr (.inl member)
        exact running.fresh c kept before
      · exact differs (List.mem_append_right _ member) (by simpa using last)
    · rw [List.map_append, List.mem_append] at known
      rcases known with before | last
      · exact running.seen c member before
      · exact absurd (by simpa using last) (differs (List.mem_append_left _ member))
  · contradiction

theorem inv_exit (whole : Kept codec s kept base) (running : Running codec s p kept base)
    (stepped : processStep codec s p .exit = some t) : Inv codec t := by
  rw [processStep] at stepped
  split at stepped
  next finished =>
    obtain ⟨disk, pending⟩ := running.idle (Option.isNone_iff_eq_none.mp finished.2.2.2)
    cases stepped
    exact ⟨kept, base, whole.of_same (fun _ => id) rfl, fun _ => by simp [disk, pending], by simp⟩
  · contradiction

theorem inv_kill (whole : Kept codec s kept base) (running : Running codec s p kept base)
    (clean : ∀ e, p.emitting = some e → e.onDisk = 0 ∨ e.rest = [] ∧ p.pending = []) :
    Inv codec ({ s with process := none } : State β) := by
  cases busy : p.emitting with
  | none =>
    obtain ⟨disk, -⟩ := running.idle busy
    exact ⟨kept, base, whole.of_same (fun _ => id) rfl, fun _ => disk, by simp⟩
  | some e =>
    obtain ⟨⟨text, written, bound, disk, pending⟩, some_row, ids, done⟩ := running.emitting e busy
    rcases clean e busy with nothing | ⟨complete, pushed⟩
    · rw [nothing, List.take_zero, List.append_nil] at disk
      exact ⟨kept, base, whole.of_same (fun _ => id) rfl, fun _ => disk, by simp⟩
    · rw [complete, List.append_nil] at some_row ids done
      rw [pushed, eq_comm, List.drop_eq_nil_iff] at pending
      rw [List.take_of_length_le pending] at disk
      have taking : e.conversation ∈ held p := mem_held.mpr (.inr ⟨e, busy, rfl⟩)
      exact ⟨_, _, whole.add (running.fresh _ taking) written some_row ids done rfl fun _ => .inl,
        fun _ => disk, by simp⟩

end Steps

theorem inv_start {args : Args} {resume : Bool} {dataset : Dataset} (invariant : Inv codec s)
    (stopped : s.process = none) (resumes : resume = true ∨ s.disk = [])
    (stepped : step codec s (.start args resume dataset) = some t) : Inv codec t := by
  obtain ⟨kept, base, whole, file, -⟩ := invariant
  have disk := file stopped
  obtain ⟨seen, loaded, known⟩ := whole.seen
  have opened {seenIds : List String} (unread : ∀ c ∈ kept.map (·.1), c ∈ seenIds) :
      Inv codec { s with process := some ⟨args, seenIds, dataset.rows, 0, [], [], none, []⟩ } :=
    inv_running (whole.of_same (fun _ => id) rfl) rfl
      ⟨fun _ => ⟨disk, rfl⟩, by simp, by simpa [held] using dataset.distinct, by simp [held],
        fun c _ member => unread _ member⟩
  cases resume with
  | true =>
    rw [← disk] at loaded
    simp only [step, stopped, if_true, loaded] at stepped
    cases stepped
    exact opened known
  | false =>
    rw [resumes.resolve_left (by simp)] at disk
    have empty : kept = [] := by
      rw [← disk] at whole
      have none := codec.eq_nil_of_text whole.text
      rw [List.flatMap_eq_nil_iff] at none
      exact List.eq_nil_iff_forall_not_mem.mpr fun k member => (whole.rows k member).1 (none k member)
    simp only [step, stopped, Bool.false_eq_true, if_false] at stepped
    cases stepped
    exact opened (by simp [empty])

/-- One step of a run that resumes, with a clean kill. -/
theorem inv_step {event : Event β} (invariant : Inv codec s) (resumed : resumes s event)
    (cleanly : clean codec s event) (stepped : step codec s event = some t) : Inv codec t := by
  cases process : s.process with
  | none =>
    cases event with
    | start args resume dataset => exact inv_start invariant process (by simpa [resumes] using resumed) stepped
    | _ => simp [step, process] at stepped
  | some p =>
    obtain ⟨kept, base, whole, -, tasks⟩ := invariant
    have running := tasks p process
    simp only [step, process] at stepped
    cases event with
    | start args resume dataset => contradiction
    | feed =>
      rw [processStep] at stepped
      split at stepped
      · contradiction
      next idle => exact inv_feed whole running (by simpa using idle) stepped
    | take => exact inv_take whole running stepped
    | requestFails conversation => exact inv_requestFails whole running stepped
    | regenerated conversation first rest => exact inv_regenerated whole running stepped
    | write =>
      obtain ⟨e, busy, stepped⟩ := Option.bind_eq_some_iff.mp stepped
      refine inv_write whole running busy (fun row rest shape raises => ?_) stepped
      simpa [clean, process, busy, cleanEmission, shape, raises] using cleanly
    | push count => exact inv_push whole running stepped
    | flush => exact inv_flush whole running stepped
    | exit => exact inv_exit whole running stepped
    | kill =>
      cases stepped
      exact inv_kill whole running fun e busy => by
        simpa [clean, process, busy, cleanEmission] using cleanly

end Invariant

/-- Runs of resumed processes, killed in a clean way, leave whole conversations. -/
theorem allOrNothing_of_clean (codec : Codec (Row β)) {events : List (Event β)} {s : State β}
    (ran : run (step codec) events initial = some s)
    (allowed : along (step codec) (fun s event => resumes s event && clean codec s event) events initial)
    (stopped : s.process = none) : AllOrNothing codec s := by
  have step_inv {s t : State β} {event : Event β} (invariant : Inv codec s)
      (allowed : (resumes s event && clean codec s event) = true) (stepped : step codec s event = some t) :
      Inv codec t := by
    obtain ⟨resumed, cleanly⟩ := Bool.and_eq_true_iff.mp allowed
    exact inv_step invariant resumed cleanly stepped
  exact (run_invariant_along step_inv inv_initial allowed ran).allOrNothing stopped

/-- The two rows of a conversation "a", without their other fields. -/
def jsonText (sampleIndex : Nat) : List UInt8 :=
  if sampleIndex = 0 then "\x7b\"id\": \"a_gen0\", \"primary_id\": \"a\"\x7d".toUTF8.toList
  else "\x7b\"id\": \"a_gen1\", \"primary_id\": \"a\"\x7d".toUTF8.toList

def jsonRows : Codec (Row Unit) where
  dumps row := if row = sampleRow "a" 0 () then some (jsonText 0)
    else if row = sampleRow "a" 1 () then some (jsonText 1) else none
  loads text := if text = jsonText 0 then .ok (sampleRow "a" 0 ())
    else if text = jsonText 1 then .ok (sampleRow "a" 1 ()) else .error .notJson
  oneLine row text := by
    have first : newline ∉ jsonText 0 := by decide +kernel
    have second : newline ∉ jsonText 1 := by decide +kernel
    split
    · rintro ⟨⟩
      exact first
    split
    · rintro ⟨⟩
      exact second
    · intro written
      contradiction
  roundTrip row text := by
    have differ : jsonText 1 ≠ jsonText 0 := by decide +kernel
    split
    next same =>
      rintro ⟨⟩
      rw [if_pos rfl, same]
    split
    next same =>
      rintro ⟨⟩
      rw [if_neg differ, if_pos rfl, same]
    · intro written
      contradiction

def conversationA : Conversation := ⟨"a", false, by decide⟩

def datasetA : Dataset := ⟨[conversationA], by simp⟩

/-- The first of two rows is on the disk when the process is killed; the next run resumes. -/
def killedBetweenRows : List (Event Unit) :=
  [.start ⟨1, none⟩ false datasetA, .feed, .take, .regenerated conversationA () [()], .write, .push 40, .kill,
    .start ⟨1, none⟩ true datasetA, .feed, .exit]

/-- The resumed run takes the conversation's one row for its completion. -/
theorem not_allOrNothing_killed : ∃ s, run (step jsonRows) killedBetweenRows initial = some s ∧
    along (step jsonRows) resumes killedBetweenRows initial ∧ s.process = none ∧ ¬ AllOrNothing jsonRows s := by
  refine ⟨⟨jsonText 0 ++ [newline], none, [("a", [sampleRow "a" 0 (), sampleRow "a" 1 ()])], [], []⟩,
    by decide +kernel, by decide +kernel, rfl, fun result => ?_⟩
  have one : rowsOf jsonRows (jsonText 0 ++ [newline]) "a" = [sampleRow "a" 0 ()] := by decide +kernel
  have whole := result.whole "a"
  rw [one] at whole
  simp at whole

/-- The process is killed before a row has reached the disk, and the next run writes both. -/
def killedBeforeRows : List (Event Unit) :=
  [.start ⟨1, none⟩ false datasetA, .feed, .take, .regenerated conversationA () [()], .write, .kill,
    .start ⟨1, none⟩ true datasetA, .feed, .take, .regenerated conversationA () [()], .write, .push 40, .write,
    .flush, .exit]

theorem allOrNothing_killedBeforeRows : AllOrNothing jsonRows
    ⟨jsonText 0 ++ newline :: (jsonText 1 ++ [newline]), none,
      [("a", [sampleRow "a" 0 (), sampleRow "a" 1 ()]), ("a", [sampleRow "a" 0 (), sampleRow "a" 1 ()])],
      [("a", [sampleRow "a" 0 (), sampleRow "a" 1 ()])], []⟩ :=
  allOrNothing_of_clean jsonRows (show run (step jsonRows) killedBeforeRows initial = some _ by decide +kernel)
    (by decide +kernel) rfl

end DreamAifd.Regeneration
