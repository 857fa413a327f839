import DreamAifd.BatchIndependence
import DreamAifd.HiddenStateCache

/-! Prompts whose rows reach the cache in several steps, or from an earlier request with the
same prefix. Every step selects a layer from its own tokens alone, so that one prompt is in
general saved with rows of several layers. -/
namespace DreamAifd

open Segments Softmax

variable {α ρ : Type*} {layers : Nat → AttnModule α}

/-- A request in a step, with its blocks and the tokens computed for it before. -/
structure Scheduled (layers : Nat → AttnModule α) (ρ : Type*) where
  request : Request layers ρ
  blockIds : List Nat
  numComputedTokens : Nat

def Scheduled.slots (blockSize : Nat) (s : Scheduled layers ρ) : List Nat :=
  (List.range s.request.length).map fun t => slotOf blockSize s.blockIds (s.numComputedTokens + t)

def stepSlots (blockSize : Nat) (step : List (Scheduled layers ρ)) : List Nat :=
  step.flatMap (Scheduled.slots blockSize)

/-- The step in which rows of a prompt were computed: `computed` tokens of some request that
starts where the prompt goes on, `width` of which are the prompt's. -/
structure Piece (layers : Nat → AttnModule α) (ρ : Type*) where
  before : List (Scheduled layers ρ)
  after : List (Scheduled layers ρ)
  blockIds : List Nat
  width : Nat
  computed : Nat
  positive : 0 < width
  fits : width ≤ computed

namespace Piece

def scheduled (piece : Piece layers ρ) (first : Nat) (prompt : Prompt layers ρ) : Scheduled layers ρ :=
  ⟨prompt.window first piece.computed (piece.positive.trans_le piece.fits), piece.blockIds, first⟩

def step (piece : Piece layers ρ) (first : Nat) (prompt : Prompt layers ρ) : List (Scheduled layers ρ) :=
  piece.before ++ piece.scheduled first prompt :: piece.after

def slots (piece : Piece layers ρ) (blockSize first : Nat) : List Nat :=
  stepSlots blockSize piece.before ++
    (List.range piece.computed).map (fun t => slotOf blockSize piece.blockIds (first + t)) ++
      stepSlots blockSize piece.after

theorem stepSlots_step (piece : Piece layers ρ) (blockSize first : Nat) (prompt : Prompt layers ρ) :
    stepSlots blockSize (piece.step first prompt) = piece.slots blockSize first := by
  simp only [stepSlots, step, slots, List.flatMap_append, List.flatMap_cons, List.append_assoc]
  rfl

def lengths (piece : Piece layers ρ) : List Nat :=
  piece.before.map (·.request.length) ++ piece.computed :: piece.after.map (·.request.length)

def Pure (piece : Piece layers ρ) (threshold : Nat) : Prop :=
  (splitDecodesAndPrefills piece.lengths threshold).numDecodeTokens = 0

instance (piece : Piece layers ρ) (threshold : Nat) : Decidable (piece.Pure threshold) :=
  inferInstanceAs (Decidable (_ = _))

theorem lengths_step (piece : Piece layers ρ) (first : Nat) (prompt : Prompt layers ρ) :
    DreamAifd.lengths ((piece.step first prompt).map (·.request)) = piece.lengths := by
  simp [DreamAifd.lengths, step, lengths, scheduled, Prompt.window, Function.comp_def]

theorem purePrefill_step (piece : Piece layers ρ) (threshold first : Nat) (prompt : Prompt layers ρ) :
    PurePrefill threshold ((piece.step first prompt).map (·.request)) ↔ piece.Pure threshold := by
  rw [PurePrefill, lengths_step, Pure]

theorem getElem_slots (piece : Piece layers ρ) (blockSize first : Nat) {i : Nat} (inside : i < piece.computed) :
    (piece.slots blockSize first)[(stepSlots blockSize piece.before).length + i]? =
      some (slotOf blockSize piece.blockIds (first + i)) := by
  rw [slots, List.append_assoc, List.getElem?_append_right (Nat.le_add_right _ _),
    Nat.add_sub_cancel_left, List.getElem?_append_left (by simpa using inside)]
  simp [inside]

end Piece

/-- The pieces do not overwrite what the prompt already has in the cache, and the prompt's
blocks hold the slots they wrote for it. -/
def Cached (blockSize : Nat) (blockIds : List Nat) : Nat → List (Piece layers ρ) → Prop
  | _, [] => True
  | first, piece :: pieces =>
    (piece.slots blockSize first).Nodup ∧
      (∀ t < first, slotOf blockSize blockIds t ∉ piece.slots blockSize first) ∧
      (∀ t, first ≤ t → t < first + piece.width →
        slotOf blockSize piece.blockIds t = slotOf blockSize blockIds t) ∧
      Cached blockSize blockIds (first + piece.width) pieces

/-- One way for the rows of a prompt to reach the cache; the last piece is the request's own. -/
structure Way (layers : Nat → AttnModule α) (ρ : Type*) (blockSize : Nat) (blockIds : List Nat)
    (total : Nat) where
  pieces : List (Piece layers ρ)
  cached : Cached blockSize blockIds 0 pieces
  covers : (pieces.map (·.width)).sum = total
  own : ∀ piece, pieces.getLast? = some piece → piece.computed = piece.width
  enough : total ≤ blockIds.length * blockSize
  positive : 0 < total

/-- The steps of consecutive pieces, with the prompt of the request computed at each start. -/
def steps (contents : Nat → Prompt layers ρ) :
    Nat → List (Piece layers ρ) → List (List (Scheduled layers ρ))
  | _, [] => []
  | first, piece :: pieces =>
    piece.step first (contents first) :: steps contents (first + piece.width) pieces

/-- The requests computed share the prompt up to the end of the piece taken from them. -/
def Agrees (contents : Nat → Prompt layers ρ) (prompt : Prompt layers ρ) :
    Nat → List (Piece layers ρ) → Prop
  | _, [] => True
  | first, piece :: pieces =>
    (∀ t < first + piece.width, contents first t = prompt t) ∧
      Agrees contents prompt (first + piece.width) pieces

theorem agrees_of_eq {contents : Nat → Prompt layers ρ} {prompt : Prompt layers ρ} {first : Nat}
    (pieces : List (Piece layers ρ)) (same : ∀ start, first ≤ start → contents start = prompt) :
    Agrees contents prompt first pieces := by
  induction pieces generalizing first with
  | nil => trivial
  | cons piece pieces ih =>
    exact ⟨fun t _ => by rw [same first le_rfl], ih fun start low => same start (by omega)⟩

def Prompt.rows [Add ρ] (prompt : Prompt layers ρ) (total : Nat) (c : Int) : List ρ :=
  (List.range total).map fun t => (prompt t).value c.toNat

theorem map_range_eq_rows [Add ρ] {prompt : Prompt layers ρ} {total : Nat} {c : Int} {row : Nat → ρ} :
    (List.range total).map row = prompt.rows total c ↔ ∀ t < total, row t = (prompt t).value c.toNat := by
  simp only [Prompt.rows, List.map_inj_left, List.mem_range]

def assigned (layer : Nat → Piece layers ρ → Int) : Nat → List (Piece layers ρ) → Nat → Int
  | _, [], _ => 0
  | first, piece :: pieces, t =>
    if t < first + piece.width then layer first piece else assigned layer (first + piece.width) pieces t

theorem assigned_eq {layer : Nat → Piece layers ρ → Int} {c : Int} {pieces : List (Piece layers ρ)}
    (same : ∀ first, ∀ piece ∈ pieces, layer first piece = c) {first t : Nat}
    (inside : t < first + (pieces.map (·.width)).sum) (low : first ≤ t) :
    assigned layer first pieces t = c := by
  induction pieces generalizing first with
  | nil =>
    simp only [List.map_nil, List.sum_nil] at inside
    omega
  | cons piece pieces ih =>
    rw [assigned]
    split
    · exact same first piece List.mem_cons_self
    next beyond =>
      simp only [List.map_cons, List.sum_cons] at inside
      exact ih (fun first piece member => same first piece (List.mem_cons_of_mem _ member)) (by omega)
        (Nat.not_lt.mp beyond)

/-- Every piece covers some position. -/
theorem exists_assigned (layer : Nat → Piece layers ρ → Int) {pieces : List (Piece layers ρ)}
    {piece : Piece layers ρ} (member : piece ∈ pieces) (first : Nat) :
    ∃ start t, first ≤ t ∧ t < first + (pieces.map (·.width)).sum ∧
      assigned layer first pieces t = layer start piece := by
  induction pieces generalizing first with
  | nil => simp at member
  | cons head pieces ih =>
    have positive := head.positive
    simp only [List.map_cons, List.sum_cons]
    rcases List.mem_cons.mp member with rfl | later
    · exact ⟨first, first, le_rfl, by omega, by rw [assigned, if_pos (by omega)]⟩
    · obtain ⟨start, t, low, high, here⟩ := ih later (first + head.width)
      refine ⟨start, t, by omega, by omega, ?_⟩
      rw [assigned, if_neg (by omega), here]

section Run

variable [Field α] [LinearOrder α] [Add ρ]

/-- One step of the engine: the rows of the last tensor go to the slots of the step's tokens. -/
def runStep (operator : Operator α) (threshold numLayers blockSize : Nat)
    (p : Engine α ρ × KvCache ρ) (step : List (Scheduled layers ρ)) :
    Except AifdError (Engine α ρ × KvCache ρ) :=
  match runForward p.1 numLayers (batchForward operator threshold (step.map (·.request))) with
  | .raised err _ => .error err
  | .done pass => .ok ({ p.1 with state := pass.state },
      basicCache blockSize p.2 (stepSlots blockSize step) (pass.auxList.getLastD []))

/-- Rows saved for a finished prompt after the given steps. -/
def savedRows (operator : Operator α) (threshold numLayers blockSize : Nat) (blockIds : List Nat)
    (total : Nat) (p : Engine α ρ × KvCache ρ) (steps : List (List (Scheduled layers ρ))) :
    Except AifdError (List ρ) :=
  (steps.foldlM (runStep operator threshold numLayers blockSize) p).map fun p =>
    extractFromKvCache blockSize p.2 (blockSlots blockSize blockIds) total

def Piece.layer (piece : Piece layers ρ) (threshold : Nat) (candidates : List Int)
    (outputs : ∀ idx, LayerOutputs (layers idx)) (first : Nat) (prompt : Prompt layers ρ) : Int :=
  let r := prompt.window first piece.computed (piece.positive.trans_le piece.fits)
  r.sampleLayer candidates (fun idx => r.entropyOf idx (outputs idx))
    (piece.Pure threshold ∧ candidates.Nodup)

/-- Candidate that a step with the whole prompt selects. -/
def wholeLayer (threshold : Nat) (candidates : List Int)
    (outputs : ∀ idx, LayerOutputs (layers idx)) (prompt : Prompt layers ρ) {total : Nat}
    (positive : 0 < total) : Int :=
  let r := prompt.window 0 total positive
  r.sampleLayer candidates (fun idx => r.entropyOf idx (outputs idx))
    (threshold < total ∧ candidates.Nodup)

omit [Add ρ] in
theorem wholeLayer_mem {threshold : Nat} {candidates : List Int} (nonempty : candidates ≠ [])
    {outputs : ∀ idx, LayerOutputs (layers idx)} {prompt : Prompt layers ρ} {total : Nat}
    {positive : 0 < total} :
    wholeLayer threshold candidates outputs prompt positive ∈ candidates := by
  unfold wholeLayer
  exact (prompt.window 0 total positive).sampleLayer_mem nonempty _ _

/-- All saved rows are rows of one candidate, the one a step with the whole prompt selects. -/
def OneLayer (operator : Operator α) (threshold numLayers : Nat) (e : Engine α ρ)
    (kvCache : KvCache ρ) {blockSize : Nat} {blockIds : List Nat} {total : Nat}
    (way : Way layers ρ blockSize blockIds total) (contents : Nat → Prompt layers ρ)
    (prompt : Prompt layers ρ) : Prop :=
  ∃ c ∈ e.state.candidates,
    savedRows operator threshold numLayers blockSize blockIds total (e, kvCache)
        (steps contents 0 way.pieces) = .ok (prompt.rows total c) ∧
      aifdRows e numLayers (batchForward operator threshold [prompt.window 0 total way.positive]) 0 total =
        .ok (some (prompt.rows total c))

end Run

section Engine

variable [Field α] [LinearOrder α] [Add ρ] [Zero ρ] {operator : Operator α} {threshold : Nat}

variable {outputs : ∀ idx, LayerOutputs (layers idx)} {N blockSize : Nat}

theorem runStep_batch (blockSize : Nat) {e : Engine α ρ} (live : Live e N) (ready : Ready e.state)
    (last : (N : Int) ∉ e.state.candidates)
    (computes : ∀ idx, Computes (operator _ _ _) (outputs idx)) (multiple : 1 ≤ threshold)
    {step : List (Scheduled layers ρ)} (some_request : step ≠ []) (kvCache : KvCache ρ) :
    runStep operator threshold N blockSize (e, kvCache) step =
      .ok (e.fresh, basicCache blockSize kvCache (stepSlots blockSize step)
        ((batchForward operator threshold (step.map (·.request))).channel e.state.candidates
          e.state.granularity N)) := by
  have emitted := runForward_batch live ready last computes multiple
    (show step.map (·.request) ≠ [] by simpa using some_request)
  simp only [runStep, emitted, List.getLastD_concat]
  rfl

/-- What one step leaves in the slots of a piece. -/
theorem basicCache_step (computes : ∀ idx, Computes (operator _ _ _) (outputs idx))
    (multiple : 1 ≤ threshold) {candidates : List Int} (nonempty : candidates ≠ [])
    (inRange : ∀ c ∈ candidates, InRange N c) (piece : Piece layers ρ) {first : Nat}
    (prompt : Prompt layers ρ) (kvCache : KvCache ρ)
    (distinct : (piece.slots blockSize first).Nodup) {i : Nat} (inside : i < piece.computed) :
    basicCache blockSize kvCache (stepSlots blockSize (piece.step first prompt))
        ((batchForward operator threshold ((piece.step first prompt).map (·.request))).channel
          candidates .sample N) (slotEntry blockSize (slotOf blockSize piece.blockIds (first + i))) =
      (prompt (first + i)).value (piece.layer threshold candidates outputs first prompt).toNat := by
  set reqs := (piece.step first prompt).map (·.request) with hreqs
  set channel := (batchForward operator threshold reqs).channel candidates .sample N
  have hk : piece.before.length < reqs.length := by simp [reqs, Piece.step]
  have own : reqs[piece.before.length] =
      prompt.window first piece.computed (piece.positive.trans_le piece.fits) := by
    simp [reqs, Piece.step, Piece.scheduled]
  have position : start (lengths reqs) piece.before.length =
      (stepSlots blockSize piece.before).length := by
    simp [reqs, lengths, start, Piece.step, stepSlots, List.length_flatMap, Scheduled.slots,
      Function.comp_def]
  have row : channel.getD ((stepSlots blockSize piece.before).length + i) 0 =
      (prompt (first + i)).value (piece.layer threshold candidates outputs first prompt).toNat := by
    have rows := slice_channel computes multiple nonempty inRange .sample hk
    rw [position, own] at rows
    rw [← getD_slice (show i < (prompt.window first piece.computed
        (piece.positive.trans_le piece.fits)).length from inside), rows, Request.aifdRows_sample]
    simp only [hreqs, piece.purePrefill_step]
    rw [List.getD_eq_getElem _ _ (by simpa [Prompt.window] using inside), List.getElem_map,
      List.getElem_range]
    rfl
  have slot := piece.getElem_slots blockSize first inside
  obtain ⟨here, entry⟩ := List.getElem?_eq_some_iff.mp slot
  have held : (stepSlots blockSize piece.before).length + i < channel.length := by
    have listed : piece.before.length < (lengths reqs).length := by simpa [lengths] using hk
    have bound := start_add_length_le listed
    have size : (lengths reqs)[piece.before.length] = piece.computed := by
      simp [lengths, own, Prompt.window]
    rw [position] at bound
    rw [size] at bound
    rw [Forward.length_channel]
    exact Nat.lt_of_lt_of_le (Nat.add_lt_add_left inside _) bound
  rw [piece.stepSlots_step, ← entry, basicCache_getElem distinct kvCache here held, ← row,
    List.getD_eq_getElem _ _ held]

/-- The run over the pieces leaves in the prompt's slots the rows of each piece's layer and
does not touch what was there before. -/
theorem runSteps_pieces (computes : ∀ idx, Computes (operator _ _ _) (outputs idx))
    (multiple : 1 ≤ threshold) {candidates : List Int} (last : (N : Int) ∉ candidates)
    {contents : Nat → Prompt layers ρ} {prompt : Prompt layers ρ} {blockIds : List Nat}
    (pieces : List (Piece layers ρ)) {first : Nat} (cached : Cached blockSize blockIds first pieces)
    (agrees : Agrees contents prompt first pieces) {e : Engine α ρ} (live : Live e N)
    (ready : Ready e.state) (listed : e.state.candidates = candidates)
    (sample : e.state.granularity = .sample) (kvCache : KvCache ρ) :
    ∃ p, (steps contents first pieces).foldlM (runStep operator threshold N blockSize) (e, kvCache) =
        .ok p ∧
      (∀ t < first, p.2 (slotEntry blockSize (slotOf blockSize blockIds t)) =
        kvCache (slotEntry blockSize (slotOf blockSize blockIds t))) ∧
      ∀ t, first ≤ t → t < first + (pieces.map (·.width)).sum →
        p.2 (slotEntry blockSize (slotOf blockSize blockIds t)) =
          (prompt t).value (assigned (fun first piece =>
            piece.layer threshold candidates outputs first (contents first)) first pieces t).toNat := by
  induction pieces generalizing first e kvCache with
  | nil => exact ⟨(e, kvCache), rfl, fun t _ => rfl, fun t low high => by simp at high; omega⟩
  | cons piece pieces ih =>
    obtain ⟨distinct, kept, shared, cached⟩ := cached
    obtain ⟨same, agrees⟩ := agrees
    have stepped := runStep_batch blockSize live ready (listed ▸ last) computes multiple
      (show piece.step first (contents first) ≠ [] by simp [Piece.step]) kvCache
    rw [listed, sample] at stepped
    obtain ⟨p, ran, before, after⟩ := ih cached agrees (live.withState (sameSetup_reset e.state))
      (ready_reset e.state) listed sample _
    refine ⟨p, ?_, fun t earlier => ?_, fun t low high => ?_⟩
    · rw [steps, List.foldlM_cons, stepped]
      exact ran
    · rw [before t (Nat.lt_add_right _ earlier), basicCache_of_not_mem]
      rw [piece.stepSlots_step]
      exact kept t earlier
    · rw [assigned]
      split
      next inside =>
        obtain ⟨i, rfl⟩ := Nat.exists_eq_add_of_le low
        have computed : i < piece.computed := by
          have := piece.fits
          omega
        rw [before _ inside, ← shared _ low inside, ← same _ inside]
        exact basicCache_step computes multiple (listed ▸ live.nonempty) (listed ▸ live.inRange) piece
          (contents first) kvCache distinct computed
      next beyond =>
        simp only [List.map_cons, List.sum_cons] at high
        exact after t (Nat.not_lt.mp beyond) (by omega)

variable {blockIds : List Nat} {total : Nat} {way : Way layers ρ blockSize blockIds total}

variable {contents : Nat → Prompt layers ρ} {prompt : Prompt layers ρ} {e : Engine α ρ}

theorem savedRows_way (computes : ∀ idx, Computes (operator _ _ _) (outputs idx))
    (multiple : 1 ≤ threshold) (last : (N : Int) ∉ e.state.candidates) (live : Live e N)
    (ready : Ready e.state) (sample : e.state.granularity = .sample) (kvCache : KvCache ρ)
    (agrees : Agrees contents prompt 0 way.pieces) :
    savedRows operator threshold N blockSize blockIds total (e, kvCache) (steps contents 0 way.pieces) =
      .ok ((List.range total).map fun t => (prompt t).value (assigned (fun first piece =>
        piece.layer threshold e.state.candidates outputs first (contents first)) 0 way.pieces t).toNat) := by
  obtain ⟨p, ran, _, after⟩ := runSteps_pieces computes multiple last way.pieces way.cached agrees live
    ready rfl sample kvCache
  rw [savedRows, ran]
  simp only [Except.map, extractFromKvCache_blockSlots way.enough, Except.ok.injEq]
  refine List.map_congr_left fun t member => after t (Nat.zero_le t) ?_
  rw [way.covers, Nat.zero_add]
  exact List.mem_range.mp member

theorem aifdRows_whole (prompt : Prompt layers ρ) (computes : ∀ idx, Computes (operator _ _ _) (outputs idx))
    (multiple : 1 ≤ threshold) (last : (N : Int) ∉ e.state.candidates) (live : Live e N)
    (ready : Ready e.state) (sample : e.state.granularity = .sample) (positive : 0 < total) :
    aifdRows e N (batchForward operator threshold [prompt.window 0 total positive]) 0 total =
      .ok (some (prompt.rows total (wholeLayer threshold e.state.candidates outputs prompt positive))) := by
  have alone : PurePrefill threshold [prompt.window 0 total positive] ↔ threshold < total :=
    numDecodeTokens_single positive threshold
  have rows := aifdRows_batch live ready computes multiple
    (show 0 < [prompt.window 0 total positive].length from Nat.one_pos)
  rw [if_neg last, sample, Request.aifdRows_sample] at rows
  simp only [alone] at rows
  refine rows.trans (congrArg (fun rows => Except.ok (some rows)) ?_)
  apply map_range_eq_rows.mpr
  intro t _
  rw [List.getElem_cons_zero, prompt.value_window, Nat.zero_add, wholeLayer]

/-- One layer is saved exactly when every position gets a row as in the one step. -/
theorem oneLayer_iff_assigned (computes : ∀ idx, Computes (operator _ _ _) (outputs idx))
    (multiple : 1 ≤ threshold) (last : (N : Int) ∉ e.state.candidates) (live : Live e N)
    (ready : Ready e.state) (sample : e.state.granularity = .sample) (kvCache : KvCache ρ)
    (agrees : Agrees contents prompt 0 way.pieces) :
    OneLayer operator threshold N e kvCache way contents prompt ↔
      ∀ t < total, (prompt t).value (assigned (fun first piece =>
          piece.layer threshold e.state.candidates outputs first (contents first)) 0 way.pieces t).toNat =
        (prompt t).value
          (wholeLayer threshold e.state.candidates outputs prompt way.positive).toNat := by
  have saved := savedRows_way computes multiple last live ready sample kvCache agrees
  have whole := aifdRows_whole prompt computes multiple last live ready sample way.positive
  constructor
  · rintro ⟨c, _, kept, chosen⟩ t inside
    rw [saved, Except.ok.injEq, map_range_eq_rows] at kept
    rw [whole, Except.ok.injEq, Option.some.injEq, Prompt.rows, map_range_eq_rows] at chosen
    exact (kept t inside).trans (chosen t inside).symm
  · intro same
    refine ⟨wholeLayer threshold e.state.candidates outputs prompt way.positive,
      wholeLayer_mem live.nonempty, ?_, whole⟩
    rw [saved]
    exact congrArg _ (map_range_eq_rows.mpr same)

/-- Where no step has a choice, the highest candidate serves everywhere. -/
theorem oneLayer_of_forced (computes : ∀ idx, Computes (operator _ _ _) (outputs idx))
    (multiple : 1 ≤ threshold) (last : (N : Int) ∉ e.state.candidates) (live : Live e N)
    (ready : Ready e.state) (sample : e.state.granularity = .sample) (kvCache : KvCache ρ)
    (agrees : Agrees contents prompt 0 way.pieces)
    (forced : ∀ piece ∈ way.pieces, piece.Pure threshold ∧ e.state.candidates.Nodup →
      e.state.candidates.length ≤ 2)
    (forced' : threshold < total ∧ e.state.candidates.Nodup → e.state.candidates.length ≤ 2) :
    OneLayer operator threshold N e kvCache way contents prompt := by
  rw [oneLayer_iff_assigned computes multiple last live ready sample kvCache agrees]
  intro t inside
  have whole : wholeLayer threshold e.state.candidates outputs prompt way.positive =
      e.state.candidates.getLastD 0 := by
    unfold wholeLayer
    exact (prompt.window 0 total way.positive).sampleLayer_last live.nonempty _ forced'
  rw [whole, assigned_eq (c := e.state.candidates.getLastD 0) (fun first piece member => ?_)
    (by rwa [way.covers, Nat.zero_add]) (Nat.zero_le t)]
  unfold Piece.layer
  exact Request.sampleLayer_last _ live.nonempty _ (forced piece member)

/-- A prompt computed in one step that counts decode tokens exactly if it does so alone. -/
theorem oneLayer_of_single (computes : ∀ idx, Computes (operator _ _ _) (outputs idx))
    (multiple : 1 ≤ threshold) (last : (N : Int) ∉ e.state.candidates) (live : Live e N)
    (ready : Ready e.state) (sample : e.state.granularity = .sample) (kvCache : KvCache ρ)
    (agrees : Agrees contents prompt 0 way.pieces) {piece : Piece layers ρ}
    (single : way.pieces = [piece]) (alike : piece.Pure threshold ↔ threshold < total) :
    OneLayer operator threshold N e kvCache way contents prompt := by
  rw [oneLayer_iff_assigned computes multiple last live ready sample kvCache agrees]
  intro t inside
  have width : piece.width = total := by simpa [single] using way.covers
  have computed : piece.computed = total := (way.own piece (by rw [single]; rfl)).trans width
  obtain ⟨same, _⟩ : (∀ t < 0 + piece.width, contents 0 t = prompt t) ∧ True := by
    simpa [single, Agrees] using agrees
  rw [single, assigned, if_pos (by omega)]
  unfold Piece.layer wholeLayer
  simp only [computed, alike]
  rw [sampleLayer_window way.positive (fun t bound => same _ (by omega))]

end Engine

/-! Prompts whose rows show which layer they come from: without attention data, or with a
last token that attends more strongly to itself in one layer. -/

section Exact

variable {layers : Nat → AttnModule ℝ} [AddZeroClass ρ]

/-- Rows that differ from zero in one layer only. -/
def markedRow (c : Int) (y : ρ) (layerIdx : Nat) : ρ := if layerIdx = c.toNat then y else 0

def tiltedPosition (layers : Nat → AttnModule ℝ) (tilted : Nat) (row : Nat → ρ) : Position layers ρ :=
  ⟨fun idx _ => if idx = tilted then 1 else 0, fun idx _ => if idx = tilted then 1 else 0, row, fun _ => 0⟩

noncomputable def tiltedPrompt (layers : Nat → AttnModule ℝ) (tilted total : Nat) (row : Nat → ρ) :
    Prompt layers ρ := fun t =>
  if t + 1 = total then tiltedPosition layers tilted row else evenPosition layers row

theorem value_evenPosition (row : Nat → ρ) (layerIdx : Nat) :
    (evenPosition layers row).value layerIdx = row layerIdx := by
  simp [Position.value, evenPosition]

theorem value_tiltedPrompt (tilted total : Nat) (row : Nat → ρ) (t layerIdx : Nat) :
    (tiltedPrompt layers tilted total row t).value layerIdx = row layerIdx := by
  rw [tiltedPrompt]
  split
  · simp [Position.value, tiltedPosition]
  · exact value_evenPosition row layerIdx

variable {total tilted : Nat} (positive : 0 < total) {row : Nat → ρ} {idx : Nat}

variable {kvHead : Fin (layers idx).numHeads → Fin (layers idx).numKvHeads}

theorem entropyOf_untilted (some_head : 0 < (layers idx).numHeads) (other : idx ≠ tilted) {t : Nat}
    (inside : t < total) :
    ((tiltedPrompt layers tilted total row).window 0 total positive).entropyOf idx
      (causalOutputs kvHead) t = Real.log (t + 1 : Nat) := by
  refine entropyOf_zero some_head inside ?_
  simp only [Prompt.window, tiltedPrompt]
  split
  · simp only [tiltedPosition, if_neg other]
    rfl
  · rfl

/-- The tilted layer misses entropy at the last token. -/
theorem entropyOf_tilted (some_head : 0 < (layers idx).numHeads) (some_dim : 0 < (layers idx).headSize)
    (scaled : (layers idx).scale ≠ 0) {t : Nat} (later : 0 < t) (size : t + 1 = total) :
    ((tiltedPrompt layers idx total row).window 0 total positive).entropyOf idx
      (causalOutputs kvHead) t < Real.log (t + 1 : Nat) := by
  have inside : t < ((tiltedPrompt layers idx total row).window 0 total positive).length :=
    show t < total by omega
  have first : 0 < ((tiltedPrompt layers idx total row).window 0 total positive).length := positive
  apply entropyOf_lt some_head inside le_rfl (Nat.zero_le t)
  intro h
  rw [logits, logits, Request.getD_tokens _ _ inside, Request.getD_tokens _ _ first]
  have before : ¬ (0 + 0 + 1 = total) := by omega
  simp [Prompt.window, tiltedPrompt, size, before, tiltedPosition, evenPosition, viewHeads, scaled,
    some_dim.ne']

variable {candidates : List Int} {threshold N : Nat}

theorem markedRow_candId (distinct : candidates.Nodup) (inRange : ∀ c ∈ candidates, InRange N c)
    (y : ρ) {i j : Nat} (hi : i < candidates.length) (hj : j < candidates.length) :
    markedRow (candId candidates j) y (candId candidates i).toNat = if i = j then y else 0 := by
  have low := (inRange _ (candId_mem hi)).1
  have low' := (inRange _ (candId_mem hj)).1
  have same : (candId candidates i).toNat = (candId candidates j).toNat ↔ i = j := by
    rw [← candId_inj distinct hi hj]
    omega
  simp only [markedRow, same]

variable {heads : ∀ idx, Fin (layers idx).numHeads → Fin (layers idx).numKvHeads}

/-- A request without attention data gets the second candidate, or the fallback. -/
theorem markedRow_even (distinct : candidates.Nodup) (inRange : ∀ c ∈ candidates, InRange N c)
    (many : 2 < candidates.length) (some_head : ∀ idx, 0 < (layers idx).numHeads) {y : ρ} {first n : Nat}
    (filled : 0 < n) (selecting : Prop) [Decidable selecting] :
    let r := Prompt.window (fun _ => evenPosition layers row) first n filled
    markedRow (candId candidates 1) y (r.sampleLayer candidates
        (fun idx => r.entropyOf idx (causalOutputs (heads idx))) (selecting ∧ candidates.Nodup)).toNat =
      if selecting then y else 0 := by
  intro r
  have nonempty : candidates ≠ [] := List.length_pos_iff.mp (by omega)
  by_cases selects : selecting
  · rw [sampleLayer_even r some_head (fun _ _ _ => rfl) (by omega) ⟨selects, distinct⟩,
      markedRow_candId distinct inRange y (by omega) (by omega), if_pos rfl, if_pos selects]
  · rw [r.sampleLayer_last nonempty _ fun both => absurd both.1 selects, ← candId_last nonempty,
      markedRow_candId distinct inRange y (by omega) (by omega), if_neg (by omega), if_neg selects]

/-- The whole tilted prompt gets the third candidate. -/
theorem sampleLayer_tilted (distinct : candidates.Nodup) (inRange : ∀ c ∈ candidates, InRange N c)
    (many : 2 < candidates.length) (some_head : ∀ idx, 0 < (layers idx).numHeads)
    (some_dim : ∀ idx, 0 < (layers idx).headSize) (scaled : ∀ idx, (layers idx).scale ≠ 0)
    (multiple : 1 < total) {selecting : Prop} [Decidable selecting] (selects : selecting) :
    let r := (tiltedPrompt layers ((candId candidates 0).toNat - 1) total row).window 0 total positive
    r.sampleLayer candidates (fun idx => r.entropyOf idx (causalOutputs (heads idx))) selecting =
      candId candidates 2 := by
  intro r
  rw [Request.sampleLayer, if_pos selects]
  refine congrArg (candId candidates) (sampleChoice_changed (c := fun t => Real.log (t + 1 : Nat)) many
    (fun l bound later t inside => ?_) (show total - 1 < r.length from Nat.sub_lt positive Nat.one_pos)
    (entropyOf_tilted positive (some_head _) (some_dim _) (scaled _) (by omega) (by omega)).ne)
  refine entropyOf_untilted positive (some_head _) (fun same => ?_) inside
  have low := (inRange _ (candId_mem bound)).1
  have low' := (inRange _ (candId_mem (show 0 < candidates.length by omega))).1
  have equal : candId candidates l = candId candidates 0 := by omega
  rw [candId_inj distinct bound (by omega)] at equal
  omega

variable {operator : Operator ℝ} {blockSize : Nat} {blockIds : List Nat}

variable {way : Way layers ρ blockSize blockIds total} {e : Engine ℝ ρ} {kvCache : KvCache ρ}

/-- Prompts without attention data tell the steps that select from those that do not. -/
theorem pure_of_oneLayer
    (computes : ∀ idx, Computes
      (operator (layers idx).numHeads (layers idx).numKvHeads (layers idx).headSize)
      (causalOutputs (heads idx)))
    (multiple : 1 ≤ threshold) (last : (N : Int) ∉ e.state.candidates) (live : Live e N)
    (ready : Ready e.state) (sample : e.state.granularity = .sample)
    (distinct : e.state.candidates.Nodup) (many : 2 < e.state.candidates.length)
    (some_head : ∀ idx, 0 < (layers idx).numHeads) {y : ρ} (visible : y ≠ 0)
    (claim : ∀ contents prompt, Agrees contents prompt 0 way.pieces →
      OneLayer operator threshold N e kvCache way contents prompt)
    {piece : Piece layers ρ} (member : piece ∈ way.pieces) :
    piece.Pure threshold ↔ threshold < total := by
  set row := markedRow (candId e.state.candidates 1) y
  have agrees : Agrees (fun _ _ => evenPosition layers row) (fun _ => evenPosition layers row) 0
    way.pieces := agrees_of_eq _ fun _ _ => rfl
  have same := (oneLayer_iff_assigned computes multiple last live ready sample kvCache agrees).mp
    (claim _ _ agrees)
  obtain ⟨first, t, _, inside, here⟩ := exists_assigned (fun first piece =>
    piece.layer threshold e.state.candidates (fun idx => causalOutputs (heads idx)) first
      fun _ => evenPosition layers row) member 0
  rw [way.covers, Nat.zero_add] at inside
  have equal := same t inside
  rw [here, value_evenPosition, value_evenPosition] at equal
  unfold Piece.layer wholeLayer at equal
  simp only [row] at equal
  rw [markedRow_even distinct live.inRange many some_head, markedRow_even distinct live.inRange many some_head]
    at equal
  constructor
  · intro pure
    by_contra short
    rw [if_pos pure, if_neg short] at equal
    exact visible equal
  · intro long
    by_contra impure
    rw [if_neg impure, if_pos long] at equal
    exact visible equal.symm

/-- A tilted last token moves the choice for the whole prompt, which an earlier step with
another continuation of the first piece cannot see. -/
theorem single_of_oneLayer
    (computes : ∀ idx, Computes
      (operator (layers idx).numHeads (layers idx).numKvHeads (layers idx).headSize)
      (causalOutputs (heads idx)))
    (multiple : 1 ≤ threshold) (last : (N : Int) ∉ e.state.candidates) (live : Live e N)
    (ready : Ready e.state) (sample : e.state.granularity = .sample)
    (distinct : e.state.candidates.Nodup) (many : 2 < e.state.candidates.length)
    (some_head : ∀ idx, 0 < (layers idx).numHeads) (some_dim : ∀ idx, 0 < (layers idx).headSize)
    (scaled : ∀ idx, (layers idx).scale ≠ 0) {y : ρ} (visible : y ≠ 0)
    (claim : ∀ contents prompt, Agrees contents prompt 0 way.pieces →
      OneLayer operator threshold N e kvCache way contents prompt)
    (long : threshold < total) : way.pieces.length = 1 := by
  have covers := way.covers
  cases split : way.pieces with
  | nil =>
    rw [split] at covers
    exact absurd covers way.positive.ne
  | cons piece rest =>
    cases rest with
    | nil => rfl
    | cons next rest =>
      exfalso
      have selects : piece.Pure threshold := (pure_of_oneLayer computes multiple last live ready sample
        distinct many some_head visible claim (by simp [split])).mpr long
      set row := markedRow (candId e.state.candidates 1) y with hrow
      set whole := tiltedPrompt layers ((candId e.state.candidates 0).toNat - 1) total row
      have shorter : piece.width < total := by
        have := next.positive
        simp only [split, List.map_cons, List.sum_cons] at covers
        omega
      have agrees : Agrees (fun start => if start = 0 then fun _ => evenPosition layers row else whole)
          whole 0 way.pieces := by
        rw [split]
        refine ⟨fun t before => ?_, agrees_of_eq _ fun start low => ?_⟩
        · have inner : t + 1 ≠ total := by omega
          simp [whole, tiltedPrompt, inner]
        · have := piece.positive
          rw [if_neg (by omega)]
      have equal := (oneLayer_iff_assigned computes multiple last live ready sample kvCache agrees).mp
        (claim _ _ agrees) 0 way.positive
      rw [split, assigned, if_pos (Nat.lt_add_left 0 piece.positive), value_tiltedPrompt,
        value_tiltedPrompt] at equal
      unfold Piece.layer wholeLayer at equal
      simp only [if_true, hrow] at equal
      rw [markedRow_even distinct live.inRange many some_head, if_pos selects,
        sampleLayer_tilted way.positive distinct live.inRange many some_head some_dim scaled (by omega)
          ⟨long, distinct⟩,
        markedRow_candId distinct live.inRange y many (by omega), if_neg (by omega)] at equal
      exact visible equal

end Exact

noncomputable def wholeWay : Way evenLayers Nat 4 [1] 3 where
  pieces := [⟨[], [], [1], 3, 3, by decide, le_rfl⟩]
  cached := ⟨by decide, fun t before => absurd before (Nat.not_lt_zero t), fun _ _ _ => rfl, trivial⟩
  covers := rfl
  own piece tail := by
    cases tail
    rfl
  enough := by decide
  positive := by decide

/-- Two tokens from blocks of an earlier request of three, the third computed alone. -/
noncomputable def reusedWay : Way evenLayers Nat 2 [1, 2] 3 where
  pieces := [⟨[], [], [1, 3], 2, 3, by decide, by decide⟩, ⟨[], [], [1, 2], 1, 1, by decide, le_rfl⟩]
  cached := by
    refine ⟨by decide, fun t before => absurd before (Nat.not_lt_zero t), fun t _ inside => ?_, by decide,
      fun t before => ?_, fun _ _ _ => rfl, trivial⟩
    · simp only [Nat.zero_add] at inside
      interval_cases t <;> rfl
    · simp only [Nat.zero_add] at before
      interval_cases t <;> decide
  covers := rfl
  own piece tail := by
    cases tail
    rfl
  enough := by decide
  positive := by decide

end DreamAifd
