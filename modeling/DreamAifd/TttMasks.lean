import Mathlib

/-! Attention masks of test-time training in three encodings: block index lists beside a
mask function, booleans, and additive values. The block masks and the dense ones are
extended by two functions of their own. -/
namespace DreamAifd.TttMasks

abbrev MaskMod := Nat → Nat → Bool

section CombinedMaskMod

variable (documentIds : List Int) (totalSeqLen : Nat) (slidingWindow : Option Int)

def causalMaskMod : MaskMod := fun qIdx kvIdx =>
  decide (kvIdx ≤ qIdx) && slidingWindow.all fun window => decide ((qIdx : Int) - window < kvIdx)

/-- Padding tokens have document id -1. -/
def documentMaskMod : MaskMod := fun qIdx kvIdx =>
  documentIds[qIdx]? != some (-1) && documentIds[qIdx]? == documentIds[kvIdx % totalSeqLen]?

def diagonalDraftMaskMod : MaskMod := fun qIdx kvIdx => kvIdx % totalSeqLen == qIdx

def createCombinedMaskMod : MaskMod := fun qIdx kvIdx =>
  (causalMaskMod slidingWindow qIdx kvIdx && documentMaskMod documentIds totalSeqLen qIdx kvIdx) ||
    diagonalDraftMaskMod totalSeqLen qIdx kvIdx

end CombinedMaskMod

/-- For each row of query blocks how many key blocks are listed, and which. -/
structure BlockLists where
  numBlocks : Nat → Nat
  indices : Nat → Nat → Nat

def BlockLists.lists (b : BlockLists) (row block : Nat) : Bool :=
  (List.range (b.numBlocks row)).any fun slot => b.indices row slot == block

/-- One batch element and head. The pairs of a listed block are subject to `maskMod`, those
of a block listed as full are not. -/
structure BlockMask where
  qBlocks : Nat
  kvBlocks : Nat
  kv : BlockLists
  fullKv : Option BlockLists
  maskMod : MaskMod

/-- What `flex_attention` lets a query attend to. -/
def BlockMask.attends (blockSize : Nat) (m : BlockMask) (qIdx kvIdx : Nat) : Bool :=
  (m.kv.lists (qIdx / blockSize) (kvIdx / blockSize) && m.maskMod qIdx kvIdx) ||
    m.fullKv.any fun full => full.lists (qIdx / blockSize) (kvIdx / blockSize)

/-- The index lists get as many further slots as there are query blocks; the slot behind
the listed ones takes the row's block of the new keys. -/
def extendMaskForDraftTokens (m : BlockMask) : BlockMask where
  qBlocks := m.qBlocks
  kvBlocks := m.kvBlocks + m.qBlocks
  kv := ⟨fun row => m.kv.numBlocks row + 1, fun row slot =>
    if slot = m.kv.numBlocks row then m.kvBlocks + row
    else if slot < m.kvBlocks then m.kv.indices row slot else 0⟩
  fullKv := m.fullKv.map fun full => ⟨full.numBlocks, fun row slot =>
    if slot < m.kvBlocks then full.indices row slot else 0⟩
  maskMod := m.maskMod

structure DenseMask (α : Type) where
  kvLen : Nat
  entry : Nat → Nat → α

/-- The new columns hold the diagonal, cast to the mask's own type. -/
def extendDenseMaskForDraftTokens {α : Type} (cast : Bool → α) (mask : DenseMask α)
    (totalSeqLen : Nat) : DenseMask α where
  kvLen := mask.kvLen + totalSeqLen
  entry := fun qIdx kvIdx =>
    if kvIdx < mask.kvLen then mask.entry qIdx kvIdx else cast (qIdx == kvIdx - mask.kvLen)

/-- Additive values, `⊥` for `-inf`. -/
abbrev MaskValue := WithBot ℚ

def toFloat (b : Bool) : MaskValue := if b then 1 else 0

inductive AttnImplementation where
  | simpleFlexAttention | eager | sdpa
  deriving DecidableEq, Repr

inductive AttentionMask where
  | block (mask : BlockMask)
  | boolean (mask : DenseMask Bool)
  | additive (mask : DenseMask MaskValue)

/-- A query attends to a key unless the boolean is false or the value added is `-inf`. -/
def AttentionMask.attends (blockSize : Nat) : AttentionMask → Nat → Nat → Bool
  | .block mask => mask.attends blockSize
  | .boolean mask => mask.entry
  | .additive mask => fun qIdx kvIdx => decide (mask.entry qIdx kvIdx ≠ ⊥)

def AttentionMask.extend (totalSeqLen : Nat) : AttentionMask → AttentionMask
  | .block mask => .block (extendMaskForDraftTokens mask)
  | .boolean mask => .boolean (extendDenseMaskForDraftTokens id mask totalSeqLen)
  | .additive mask => .additive (extendDenseMaskForDraftTokens toFloat mask totalSeqLen)

section Library

variable (createBlockMask : MaskMod → Nat → Nat → BlockMask) (createMask : MaskMod → Nat → Nat → DenseMask Bool)

def createFloatMask (maskMod : MaskMod) (qLen kvLen : Nat) : DenseMask MaskValue where
  kvLen := (createMask maskMod qLen kvLen).kvLen
  entry := fun qIdx kvIdx => if (createMask maskMod qLen kvLen).entry qIdx kvIdx then 0 else ⊥

def buildAttnMask (impl : AttnImplementation) (documentIds : List Int) (totalSeqLen : Nat)
    (slidingWindow : Option Int) : AttentionMask :=
  let maskMod := createCombinedMaskMod documentIds totalSeqLen slidingWindow
  match impl with
  | .simpleFlexAttention => .block (createBlockMask maskMod totalSeqLen totalSeqLen)
  | .eager => .additive (createFloatMask createMask maskMod totalSeqLen totalSeqLen)
  | .sdpa => .boolean (createMask maskMod totalSeqLen totalSeqLen)

end Library

/-- A block mask that covers a mask function: blocks of attended pairs only are listed as
full, and every attended pair lies in a listed block. -/
structure Covers (blockSize totalSeqLen : Nat) (maskMod : MaskMod) (m : BlockMask) : Prop where
  maskMod_eq : m.maskMod = maskMod
  qBlocks_eq : m.qBlocks = totalSeqLen / blockSize
  kvBlocks_eq : m.kvBlocks = totalSeqLen / blockSize
  num_le : ∀ row < m.qBlocks, m.kv.numBlocks row ≤ m.kvBlocks
  full_num_le : ∀ full ∈ m.fullKv, ∀ row < m.qBlocks, full.numBlocks row ≤ m.kvBlocks
  listed : ∀ row < m.qBlocks, ∀ block, m.kv.lists row block → block < m.kvBlocks
  full_listed : ∀ full ∈ m.fullKv, ∀ row < m.qBlocks, ∀ block, full.lists row block → block < m.kvBlocks
  full_attended : ∀ full ∈ m.fullKv, ∀ qIdx < totalSeqLen, ∀ kvIdx < totalSeqLen,
    full.lists (qIdx / blockSize) (kvIdx / blockSize) → maskMod qIdx kvIdx
  attended_listed : ∀ qIdx < totalSeqLen, ∀ kvIdx < totalSeqLen, maskMod qIdx kvIdx →
    m.kv.lists (qIdx / blockSize) (kvIdx / blockSize) ∨
      m.fullKv.any fun full => full.lists (qIdx / blockSize) (kvIdx / blockSize)

/-- A dense mask that evaluates a mask function at every pair. -/
structure Evaluates (totalSeqLen : Nat) (maskMod : MaskMod) (m : DenseMask Bool) : Prop where
  kvLen_eq : m.kvLen = totalSeqLen
  entry_eq : ∀ qIdx < totalSeqLen, ∀ kvIdx < totalSeqLen, m.entry qIdx kvIdx = maskMod qIdx kvIdx

/-- The base mask on the first keys and the diagonal of every extension. -/
def Expected (maskMod : MaskMod) (totalSeqLen steps qIdx kvIdx : Nat) : Prop :=
  (kvIdx < totalSeqLen ∧ maskMod qIdx kvIdx) ∨
    ∃ step, 1 ≤ step ∧ step ≤ steps ∧ kvIdx = step * totalSeqLen + qIdx

/-- A mask after some extensions admits the expected pairs. -/
def Matches (blockSize totalSeqLen steps : Nat) (maskMod : MaskMod) (mask : AttentionMask) : Prop :=
  ∀ qIdx < totalSeqLen, ∀ kvIdx < (steps + 1) * totalSeqLen,
    ((AttentionMask.extend totalSeqLen)^[steps] mask).attends blockSize qIdx kvIdx ↔
      Expected maskMod totalSeqLen steps qIdx kvIdx

theorem lists_iff {b : BlockLists} {row block : Nat} :
    b.lists row block ↔ ∃ slot < b.numBlocks row, b.indices row slot = block := by
  simp [BlockLists.lists]

/-- The row's diagonal block is listed beside the blocks listed before. -/
theorem extend_lists {m : BlockMask} {row : Nat} (room : m.kv.numBlocks row ≤ m.kvBlocks) (block : Nat) :
    (extendMaskForDraftTokens m).kv.lists row block ↔
      m.kv.lists row block ∨ block = m.kvBlocks + row := by
  rw [lists_iff, lists_iff]
  constructor
  · rintro ⟨slot, within, here⟩
    simp only [extendMaskForDraftTokens] at within here
    by_cases last : slot = m.kv.numBlocks row
    · rw [if_pos last] at here
      exact .inr here.symm
    · have earlier : slot < m.kv.numBlocks row := by omega
      rw [if_neg last, if_pos (earlier.trans_le room)] at here
      exact .inl ⟨slot, earlier, here⟩
  · rintro (⟨slot, within, here⟩ | rfl)
    · refine ⟨slot, Nat.lt_succ_of_lt within, ?_⟩
      simp only [extendMaskForDraftTokens]
      rw [if_neg within.ne, if_pos (within.trans_le room), here]
    · exact ⟨m.kv.numBlocks row, Nat.lt_succ_self _, if_pos rfl⟩

theorem extend_full_lists {m : BlockMask} {row : Nat}
    (room : ∀ full ∈ m.fullKv, full.numBlocks row ≤ m.kvBlocks) (block : Nat) :
    ((extendMaskForDraftTokens m).fullKv.any fun full => full.lists row block) =
      m.fullKv.any fun full => full.lists row block := by
  cases given : m.fullKv with
  | none => simp [extendMaskForDraftTokens, given]
  | some full =>
    have within := room full given
    rw [Bool.eq_iff_iff]
    simp only [extendMaskForDraftTokens, given, Option.map_some, Option.any_some, lists_iff]
    constructor
    · rintro ⟨slot, listed, here⟩
      rw [if_pos (listed.trans_le within)] at here
      exact ⟨slot, listed, here⟩
    · rintro ⟨slot, listed, here⟩
      exact ⟨slot, listed, by rw [if_pos (listed.trans_le within), here]⟩

/-- A block mask after some extensions, `blocks` being the number of query blocks. -/
structure Extended (blocks steps : Nat) (base m : BlockMask) : Prop where
  maskMod_eq : m.maskMod = base.maskMod
  qBlocks_eq : m.qBlocks = blocks
  kvBlocks_eq : m.kvBlocks = (steps + 1) * blocks
  room : ∀ row < blocks, m.kv.numBlocks row ≤ m.kvBlocks
  full_room : ∀ row < blocks, ∀ full ∈ m.fullKv, full.numBlocks row ≤ m.kvBlocks
  lists_iff : ∀ row < blocks, ∀ block, m.kv.lists row block ↔
    base.kv.lists row block ∨ ∃ step, 1 ≤ step ∧ step ≤ steps ∧ block = step * blocks + row
  full_lists : ∀ row < blocks, ∀ block, (m.fullKv.any fun full => full.lists row block) =
    base.fullKv.any fun full => full.lists row block

theorem Extended.step {blocks steps : Nat} {base m : BlockMask} (extended : Extended blocks steps base m) :
    Extended blocks (steps + 1) base (extendMaskForDraftTokens m) := by
  have size := extended.kvBlocks_eq
  have width : (extendMaskForDraftTokens m).kvBlocks = m.kvBlocks + blocks :=
    congrArg (m.kvBlocks + ·) extended.qBlocks_eq
  constructor
  case maskMod_eq => exact extended.maskMod_eq
  case qBlocks_eq => exact extended.qBlocks_eq
  case kvBlocks_eq => rw [width, size, Nat.succ_mul (steps + 1)]
  case room =>
    intro row bound
    have room := extended.room row bound
    rw [width]
    simp only [extendMaskForDraftTokens]
    omega
  case full_room =>
    intro row bound full member
    obtain ⟨earlier, given, rfl⟩ := Option.map_eq_some_iff.mp member
    rw [width]
    exact (extended.full_room row bound earlier given).trans (Nat.le_add_right _ _)
  case lists_iff =>
    intro row bound block
    rw [extend_lists (extended.room row bound), extended.lists_iff row bound, size, or_assoc]
    apply or_congr_right
    constructor
    · rintro (⟨step, first, last, here⟩ | here)
      · exact ⟨step, first, last.trans (Nat.le_succ _), here⟩
      · exact ⟨steps + 1, by omega, le_rfl, here⟩
    · rintro ⟨step, first, last, here⟩
      rcases Nat.lt_or_ge steps step with new | old
      · have same : step = steps + 1 := by omega
        exact .inr (same ▸ here)
      · exact .inl ⟨step, first, old, here⟩
  case full_lists =>
    intro row bound block
    rw [extend_full_lists (extended.full_room row bound), extended.full_lists row bound]

theorem Extended.iterate {blocks : Nat} {base : BlockMask} (whole : Extended blocks 0 base base)
    (steps : Nat) : Extended blocks steps base (extendMaskForDraftTokens^[steps] base) := by
  induction steps with
  | zero => exact whole
  | succ steps ih =>
    rw [Function.iterate_succ_apply']
    exact ih.step

theorem Covers.extended {blockSize totalSeqLen : Nat} {maskMod : MaskMod} {m : BlockMask}
    (covers : Covers blockSize totalSeqLen maskMod m) : Extended (totalSeqLen / blockSize) 0 m m := by
  have rows := covers.qBlocks_eq
  constructor
  case maskMod_eq => rfl
  case qBlocks_eq => exact rows
  case kvBlocks_eq => rw [covers.kvBlocks_eq, Nat.zero_add, Nat.one_mul]
  case room => exact fun row bound => covers.num_le row (rows ▸ bound)
  case full_room => exact fun row bound full member => covers.full_num_le full member row (rows ▸ bound)
  case lists_iff =>
    intro row _ block
    constructor
    · exact .inl
    · rintro (listed | ⟨step, first, last, -⟩)
      · exact listed
      · omega
  case full_lists => exact fun _ _ _ => rfl

/-- Over the new keys the combined mask function is the diagonal. -/
theorem combined_draft {documentIds : List Int} {totalSeqLen : Nat} {slidingWindow : Option Int}
    {qIdx kvIdx : Nat} (query : qIdx < totalSeqLen) (draft : totalSeqLen ≤ kvIdx) :
    createCombinedMaskMod documentIds totalSeqLen slidingWindow qIdx kvIdx ↔ kvIdx % totalSeqLen = qIdx := by
  have future : ¬ kvIdx ≤ qIdx := by omega
  simp [createCombinedMaskMod, causalMaskMod, diagonalDraftMaskMod, future]

/-- A key of the diagonal lies in the copy of the sequence that its index tells. -/
theorem draft_key_iff {totalSeqLen steps qIdx kvIdx : Nat} (query : qIdx < totalSeqLen)
    (draft : totalSeqLen ≤ kvIdx) (within : kvIdx < (steps + 1) * totalSeqLen) :
    (∃ step, 1 ≤ step ∧ step ≤ steps ∧ kvIdx = step * totalSeqLen + qIdx) ↔ kvIdx % totalSeqLen = qIdx := by
  have positive : 0 < totalSeqLen := by omega
  constructor
  · rintro ⟨step, -, -, rfl⟩
    rw [Nat.mul_add_mod', Nat.mod_eq_of_lt query]
  · intro diagonal
    have key := Nat.div_add_mod' kvIdx totalSeqLen
    have first : 1 ≤ kvIdx / totalSeqLen := (Nat.one_le_div_iff positive).mpr draft
    have last : kvIdx / totalSeqLen < steps + 1 := (Nat.div_lt_iff_lt_mul positive).mpr within
    exact ⟨kvIdx / totalSeqLen, first, Nat.lt_succ_iff.mp last, by rw [← diagonal, key]⟩

section Backends

variable {blockSize totalSeqLen steps : Nat} {documentIds : List Int} {slidingWindow : Option Int}

theorem iterate_block (base : BlockMask) : (AttentionMask.extend totalSeqLen)^[steps] (.block base) =
    .block (extendMaskForDraftTokens^[steps] base) := by
  induction steps with
  | zero => rfl
  | succ steps ih => rw [Function.iterate_succ_apply', ih, Function.iterate_succ_apply', AttentionMask.extend]

section Blocks

variable {blocks qIdx kvIdx : Nat} {base : BlockMask} {maskMod : MaskMod}

/-- After some extensions the lists of the base mask stand beside one block for each. -/
theorem attends_block (covers : Covers blockSize (blockSize * blocks) maskMod base) (steps : Nat)
    (query : qIdx < blockSize * blocks) (kvIdx : Nat) :
    ((AttentionMask.extend (blockSize * blocks))^[steps] (.block base)).attends blockSize qIdx kvIdx ↔
      ((base.kv.lists (qIdx / blockSize) (kvIdx / blockSize) ∨ ∃ step, 1 ≤ step ∧ step ≤ steps ∧
          kvIdx / blockSize = step * blocks + qIdx / blockSize) ∧ maskMod qIdx kvIdx) ∨
        base.fullKv.any fun full => full.lists (qIdx / blockSize) (kvIdx / blockSize) := by
  have positive : 0 < blockSize := Nat.pos_of_ne_zero (by rintro rfl; simp at query)
  have rows : qIdx / blockSize < blocks := (Nat.div_lt_iff_lt_mul positive).mpr (by rwa [Nat.mul_comm])
  have extended := covers.extended.iterate steps
  rw [Nat.mul_div_cancel_left _ positive] at extended
  rw [iterate_block, AttentionMask.attends, BlockMask.attends, extended.full_lists _ rows, extended.maskMod_eq,
    covers.maskMod_eq, Bool.or_eq_true, Bool.and_eq_true, extended.lists_iff _ rows]

/-- No extension lists a block of the first keys, so the base mask decides on them. -/
theorem block_old_iff (covers : Covers blockSize (blockSize * blocks) maskMod base)
    (query : qIdx < blockSize * blocks) (old : kvIdx < blockSize * blocks) :
    ((base.kv.lists (qIdx / blockSize) (kvIdx / blockSize) ∨ ∃ step, 1 ≤ step ∧ step ≤ steps ∧
          kvIdx / blockSize = step * blocks + qIdx / blockSize) ∧ maskMod qIdx kvIdx) ∨
        base.fullKv.any (fun full => full.lists (qIdx / blockSize) (kvIdx / blockSize)) ↔ maskMod qIdx kvIdx := by
  have positive : 0 < blockSize := Nat.pos_of_ne_zero (by rintro rfl; simp at query)
  have early : kvIdx / blockSize < blocks := (Nat.div_lt_iff_lt_mul positive).mpr (by rwa [Nat.mul_comm])
  have no_block : ¬ ∃ step, 1 ≤ step ∧ step ≤ steps ∧ kvIdx / blockSize = step * blocks + qIdx / blockSize := by
    rintro ⟨step, first, -, here⟩
    have behind := (Nat.le_mul_of_pos_left blocks first).trans (Nat.le_add_right _ (qIdx / blockSize))
    omega
  rw [or_iff_left no_block]
  constructor
  · rintro (⟨-, admitted⟩ | full)
    · exact admitted
    · obtain ⟨lists, member, listed⟩ := (Option.any_eq_true _ _).mp full
      exact covers.full_attended lists member qIdx query kvIdx old listed
  · intro admitted
    rcases covers.attended_listed qIdx query kvIdx old admitted with listed | full
    · exact .inl ⟨listed, admitted⟩
    · exact .inr full

/-- The base mask lists no new block, and of the extensions' blocks the diagonal is admitted. -/
theorem block_draft_iff
    (covers : Covers blockSize (blockSize * blocks)
      (createCombinedMaskMod documentIds (blockSize * blocks) slidingWindow) base)
    (query : qIdx < blockSize * blocks) (draft : blockSize * blocks ≤ kvIdx)
    (within : kvIdx < (steps + 1) * (blockSize * blocks)) :
    ((base.kv.lists (qIdx / blockSize) (kvIdx / blockSize) ∨ ∃ step, 1 ≤ step ∧ step ≤ steps ∧
          kvIdx / blockSize = step * blocks + qIdx / blockSize) ∧
        createCombinedMaskMod documentIds (blockSize * blocks) slidingWindow qIdx kvIdx) ∨
        base.fullKv.any (fun full => full.lists (qIdx / blockSize) (kvIdx / blockSize)) ↔
      ∃ step, 1 ≤ step ∧ step ≤ steps ∧ kvIdx = step * (blockSize * blocks) + qIdx := by
  have positive : 0 < blockSize := Nat.pos_of_ne_zero (by rintro rfl; simp at query)
  have inside : qIdx / blockSize < base.qBlocks := by
    rw [covers.qBlocks_eq, Nat.mul_div_cancel_left _ positive]
    exact (Nat.div_lt_iff_lt_mul positive).mpr (by rwa [Nat.mul_comm])
  have size : base.kvBlocks = blocks := by rw [covers.kvBlocks_eq, Nat.mul_div_cancel_left _ positive]
  have late : blocks ≤ kvIdx / blockSize := (Nat.le_div_iff_mul_le positive).mpr (by rwa [Nat.mul_comm])
  have unlisted : ¬ base.kv.lists (qIdx / blockSize) (kvIdx / blockSize) := by
    intro listed
    have bound := covers.listed _ inside _ listed
    omega
  have unfull : ¬ (base.fullKv.any fun full => full.lists (qIdx / blockSize) (kvIdx / blockSize)) := by
    intro full
    obtain ⟨lists, member, listed⟩ := (Option.any_eq_true _ _).mp full
    have bound := covers.full_listed lists member _ inside _ listed
    omega
  rw [or_iff_left unfull, or_iff_right unlisted, combined_draft query draft]
  constructor
  · rintro ⟨-, diagonal⟩
    exact (draft_key_iff query draft within).mpr diagonal
  · intro key
    have diagonal := (draft_key_iff query draft within).mp key
    obtain ⟨step, first, last, rfl⟩ := key
    refine ⟨⟨step, first, last, ?_⟩, diagonal⟩
    have shift : step * (blockSize * blocks) + qIdx = qIdx + blockSize * (step * blocks) := by ring
    rw [shift, Nat.add_mul_div_left _ _ positive, Nat.add_comm]

end Blocks

/-- The block path admits the expected pairs after any number of extensions. -/
theorem matches_block (divides : blockSize ∣ totalSeqLen) {base : BlockMask}
    (covers : Covers blockSize totalSeqLen
      (createCombinedMaskMod documentIds totalSeqLen slidingWindow) base) (steps : Nat) :
    Matches blockSize totalSeqLen steps (createCombinedMaskMod documentIds totalSeqLen slidingWindow)
      (.block base) := by
  intro qIdx query kvIdx within
  obtain ⟨blocks, rfl⟩ := divides
  rw [attends_block covers steps query, Expected]
  rcases Nat.lt_or_ge kvIdx (blockSize * blocks) with old | draft
  · have no_key : ¬ ∃ step, 1 ≤ step ∧ step ≤ steps ∧ kvIdx = step * (blockSize * blocks) + qIdx := by
      rintro ⟨step, first, -, here⟩
      have behind := Nat.le_mul_of_pos_left (blockSize * blocks) first
      omega
    rw [block_old_iff covers query old, or_iff_left no_key, and_iff_right old]
  · have new : ¬ (kvIdx < blockSize * blocks ∧
        createCombinedMaskMod documentIds (blockSize * blocks) slidingWindow qIdx kvIdx = true) :=
      fun both => Nat.not_lt.mpr draft both.1
    rw [block_draft_iff covers query draft within, or_iff_right new]

theorem extend_entry {α : Type} (cast : Bool → α) (mask : DenseMask α) (qIdx kvIdx : Nat) :
    (extendDenseMaskForDraftTokens cast mask totalSeqLen).entry qIdx kvIdx =
      if kvIdx < mask.kvLen then mask.entry qIdx kvIdx
      else cast (decide (qIdx = kvIdx - mask.kvLen)) := rfl

/-- A dense mask after some extensions. -/
theorem iterate_dense {α : Type} (cast : Bool → α) {base : DenseMask α} (size : base.kvLen = totalSeqLen)
    (steps : Nat) :
    ((fun mask => extendDenseMaskForDraftTokens cast mask totalSeqLen)^[steps] base).kvLen =
        (steps + 1) * totalSeqLen ∧
      ∀ qIdx < totalSeqLen, ∀ kvIdx < (steps + 1) * totalSeqLen,
        ((fun mask => extendDenseMaskForDraftTokens cast mask totalSeqLen)^[steps] base).entry qIdx kvIdx =
          if kvIdx < totalSeqLen then base.entry qIdx kvIdx
          else cast (decide (kvIdx % totalSeqLen = qIdx)) := by
  induction steps with
  | zero =>
    refine ⟨by simpa using size, ?_⟩
    intro qIdx _ kvIdx within
    rw [Nat.zero_add, Nat.one_mul] at within
    rw [if_pos within]
    rfl
  | succ steps ih =>
    obtain ⟨width, entries⟩ := ih
    rw [Function.iterate_succ_apply']
    constructor
    · rw [extendDenseMaskForDraftTokens, width, Nat.succ_mul (steps + 1)]
    · intro qIdx query kvIdx within
      rw [extend_entry, width]
      rcases Nat.lt_or_ge kvIdx ((steps + 1) * totalSeqLen) with old | new
      · rw [if_pos old, entries qIdx query kvIdx old]
      · have draft : ¬ kvIdx < totalSeqLen := by
          have whole : totalSeqLen ≤ (steps + 1) * totalSeqLen :=
            Nat.le_mul_of_pos_left totalSeqLen (Nat.succ_pos steps)
          omega
        have copy : kvIdx - (steps + 1) * totalSeqLen < totalSeqLen := by
          rw [Nat.succ_mul (steps + 1)] at within
          omega
        have key : kvIdx % totalSeqLen = kvIdx - (steps + 1) * totalSeqLen := by
          conv_lhs => rw [← Nat.sub_add_cancel new]
          rw [Nat.add_mul_mod_self_right, Nat.mod_eq_of_lt copy]
        rw [if_neg (Nat.not_lt.mpr new), if_neg draft, key]
        exact congrArg cast (decide_eq_decide.mpr eq_comm)

theorem iterate_boolean (base : DenseMask Bool) :
    (AttentionMask.extend totalSeqLen)^[steps] (.boolean base) =
      .boolean ((fun mask => extendDenseMaskForDraftTokens id mask totalSeqLen)^[steps] base) := by
  induction steps with
  | zero => rfl
  | succ steps ih => rw [Function.iterate_succ_apply', ih, Function.iterate_succ_apply', AttentionMask.extend]

theorem iterate_additive (base : DenseMask MaskValue) :
    (AttentionMask.extend totalSeqLen)^[steps] (.additive base) =
      .additive ((fun mask => extendDenseMaskForDraftTokens toFloat mask totalSeqLen)^[steps] base) := by
  induction steps with
  | zero => rfl
  | succ steps ih => rw [Function.iterate_succ_apply', ih, Function.iterate_succ_apply', AttentionMask.extend]

/-- The expected pairs, told apart by whether the key is one of the first. -/
theorem expected_iff {qIdx kvIdx : Nat} {maskMod : MaskMod} (query : qIdx < totalSeqLen)
    (within : kvIdx < (steps + 1) * totalSeqLen) : Expected maskMod totalSeqLen steps qIdx kvIdx ↔
      if kvIdx < totalSeqLen then (maskMod qIdx kvIdx : Prop) else kvIdx % totalSeqLen = qIdx := by
  unfold Expected
  split
  next old =>
    have no_key : ¬ ∃ step, 1 ≤ step ∧ step ≤ steps ∧ kvIdx = step * totalSeqLen + qIdx := by
      rintro ⟨step, first, -, here⟩
      have behind := Nat.le_mul_of_pos_left totalSeqLen first
      omega
    simp [old, no_key]
  next draft => rw [draft_key_iff query (Nat.not_lt.mp draft) within, or_iff_right (by simp [draft])]

theorem matches_boolean {maskMod : MaskMod} {base : DenseMask Bool}
    (evaluates : Evaluates totalSeqLen maskMod base) (steps : Nat) :
    Matches blockSize totalSeqLen steps maskMod (.boolean base) := by
  intro qIdx query kvIdx within
  rw [iterate_boolean, AttentionMask.attends, (iterate_dense id evaluates.kvLen_eq steps).2 qIdx query kvIdx within,
    expected_iff query within]
  split
  next old => rw [evaluates.entry_eq qIdx query kvIdx old]
  next => simp

/-- The additive path attends to every new key, on the diagonal and off it. -/
theorem attends_additive (blockSize : Nat) {createMask : MaskMod → Nat → Nat → DenseMask Bool} {maskMod : MaskMod}
    (evaluates : Evaluates totalSeqLen maskMod (createMask maskMod totalSeqLen totalSeqLen))
    {qIdx kvIdx : Nat} (query : qIdx < totalSeqLen) (within : kvIdx < (steps + 1) * totalSeqLen) :
    ((AttentionMask.extend totalSeqLen)^[steps]
        (.additive (createFloatMask createMask maskMod totalSeqLen totalSeqLen))).attends blockSize qIdx kvIdx ↔
      if kvIdx < totalSeqLen then (maskMod qIdx kvIdx : Prop) else True := by
  have width : (createFloatMask createMask maskMod totalSeqLen totalSeqLen).kvLen = totalSeqLen :=
    evaluates.kvLen_eq
  rw [iterate_additive, AttentionMask.attends, decide_eq_true_iff,
    (iterate_dense toFloat width steps).2 qIdx query kvIdx within]
  split
  next old =>
    simp only [createFloatMask, evaluates.entry_eq qIdx query kvIdx old]
    cases maskMod qIdx kvIdx <;> simp
  next =>
    unfold toFloat
    split <;> simp

theorem matches_additive_iff {createMask : MaskMod → Nat → Nat → DenseMask Bool} {maskMod : MaskMod}
    (evaluates : Evaluates totalSeqLen maskMod (createMask maskMod totalSeqLen totalSeqLen)) (steps : Nat) :
    Matches blockSize totalSeqLen steps maskMod
        (.additive (createFloatMask createMask maskMod totalSeqLen totalSeqLen)) ↔
      steps = 0 ∨ totalSeqLen ≤ 1 := by
  constructor
  · intro same
    by_contra extended
    obtain ⟨extended, long⟩ := not_or.mp extended
    -- The second key of the first extension belongs to query 1, and query 0 attends to it.
    have room : 2 * totalSeqLen ≤ (steps + 1) * totalSeqLen := Nat.mul_le_mul_right _ (by omega)
    have within : totalSeqLen + 1 < (steps + 1) * totalSeqLen := by omega
    have query : 0 < totalSeqLen := by omega
    have attends := (attends_additive blockSize evaluates query within).mpr (by simp)
    have diagonal := (expected_iff query within).mp ((same 0 query _ within).mp attends)
    rw [if_neg (by omega), Nat.add_mod_left, Nat.mod_eq_of_lt (by omega)] at diagonal
    exact absurd diagonal one_ne_zero
  · intro few qIdx query kvIdx within
    rw [attends_additive blockSize evaluates query within, expected_iff query within]
    split
    next => rfl
    next draft =>
      rcases few with none | short
      · subst none
        rw [Nat.zero_add, Nat.one_mul] at within
        exact absurd within draft
      · have single : totalSeqLen = 1 := by omega
        subst single
        rw [Nat.mod_one]
        exact iff_of_true trivial (by omega)

end Backends

/-- The three back-ends attend to the expected pairs after some extensions. -/
def BackendsAgree (createBlockMask : MaskMod → Nat → Nat → BlockMask)
    (createMask : MaskMod → Nat → Nat → DenseMask Bool) (blockSize : Nat) (documentIds : List Int)
    (totalSeqLen : Nat) (slidingWindow : Option Int) (steps : Nat) : Prop :=
  ∀ impl, Matches blockSize totalSeqLen steps (createCombinedMaskMod documentIds totalSeqLen slidingWindow)
    (buildAttnMask createBlockMask createMask impl documentIds totalSeqLen slidingWindow)

/-- They agree exactly as long as nothing is extended or the sequence has one token. -/
theorem backendsAgree_iff {createBlockMask : MaskMod → Nat → Nat → BlockMask}
    {createMask : MaskMod → Nat → Nat → DenseMask Bool} {blockSize totalSeqLen : Nat}
    (divides : blockSize ∣ totalSeqLen)
    (covers : ∀ maskMod, Covers blockSize totalSeqLen maskMod (createBlockMask maskMod totalSeqLen totalSeqLen))
    (evaluates : ∀ maskMod, Evaluates totalSeqLen maskMod (createMask maskMod totalSeqLen totalSeqLen))
    (documentIds : List Int) (slidingWindow : Option Int) (steps : Nat) :
    BackendsAgree createBlockMask createMask blockSize documentIds totalSeqLen slidingWindow steps ↔
      steps = 0 ∨ totalSeqLen ≤ 1 := by
  constructor
  · intro agree
    exact (matches_additive_iff (evaluates _) steps).mp (agree .eager)
  · intro few impl
    cases impl with
    | simpleFlexAttention => exact matches_block divides (covers _) steps
    | eager => exact (matches_additive_iff (evaluates _) steps).mpr few
    | sdpa => exact matches_boolean (evaluates _) steps

def someAttended (blockSize : Nat) (maskMod : MaskMod) (row block : Nat) : Bool :=
  (List.range blockSize).any fun i => (List.range blockSize).any fun j =>
    maskMod (row * blockSize + i) (block * blockSize + j)

def allAttended (blockSize : Nat) (maskMod : MaskMod) (row block : Nat) : Bool :=
  (List.range blockSize).all fun i => (List.range blockSize).all fun j =>
    maskMod (row * blockSize + i) (block * blockSize + j)

def keptBlocks (blocks : Nat) (keep : Nat → Nat → Bool) : BlockLists :=
  ⟨fun row => ((List.range blocks).filter (keep row)).length,
    fun row slot => ((List.range blocks).filter (keep row)).getD slot 0⟩

/-- The block mask of a mask function, full blocks kept apart. -/
def sortedBlockMask (blockSize : Nat) (maskMod : MaskMod) (qLen kvLen : Nat) : BlockMask :=
  ⟨qLen / blockSize, kvLen / blockSize,
    keptBlocks (kvLen / blockSize) fun row block =>
      someAttended blockSize maskMod row block && !allAttended blockSize maskMod row block,
    some (keptBlocks (kvLen / blockSize) (allAttended blockSize maskMod)), maskMod⟩

def evaluatedMask (maskMod : MaskMod) (_qLen kvLen : Nat) : DenseMask Bool := ⟨kvLen, maskMod⟩

theorem keptBlocks_lists {blocks : Nat} {keep : Nat → Nat → Bool} {row block : Nat} :
    (keptBlocks blocks keep).lists row block ↔ block < blocks ∧ keep row block := by
  rw [lists_iff]
  have kept : block ∈ (List.range blocks).filter (keep row) ↔ block < blocks ∧ keep row block := by simp
  rw [← kept, List.mem_iff_getElem]
  constructor
  · rintro ⟨slot, within, here⟩
    exact ⟨slot, within, by rw [← here]; exact (List.getD_eq_getElem _ _ within).symm⟩
  · rintro ⟨slot, within, here⟩
    exact ⟨slot, within, by rw [← here]; exact List.getD_eq_getElem _ _ within⟩

theorem keptBlocks_num_le (blocks : Nat) (keep : Nat → Nat → Bool) (row : Nat) :
    (keptBlocks blocks keep).numBlocks row ≤ blocks := by
  have size := List.length_filter_le (keep row) (List.range blocks)
  rwa [List.length_range] at size

theorem sortedBlockMask_covers {blockSize totalSeqLen : Nat} (positive : 0 < blockSize)
    (divides : blockSize ∣ totalSeqLen) (maskMod : MaskMod) :
    Covers blockSize totalSeqLen maskMod (sortedBlockMask blockSize maskMod totalSeqLen totalSeqLen) := by
  have column : ∀ kvIdx < totalSeqLen, kvIdx / blockSize < totalSeqLen / blockSize :=
    fun kvIdx bound => Nat.div_lt_div_of_lt_of_dvd divides bound
  constructor
  case maskMod_eq => rfl
  case qBlocks_eq => rfl
  case kvBlocks_eq => rfl
  case num_le => exact fun row _ => keptBlocks_num_le _ _ row
  case full_num_le =>
    intro full member row _
    cases member
    exact keptBlocks_num_le _ _ row
  case listed => exact fun row _ block listed => (keptBlocks_lists.mp listed).1
  case full_listed =>
    intro full member row _ block listed
    cases member
    exact (keptBlocks_lists.mp listed).1
  case full_attended =>
    intro full member qIdx _ kvIdx _ listed
    cases member
    have filled := (keptBlocks_lists.mp listed).2
    simp only [allAttended, List.all_eq_true, List.mem_range] at filled
    have pair := filled _ (Nat.mod_lt qIdx positive) _ (Nat.mod_lt kvIdx positive)
    rwa [Nat.div_add_mod', Nat.div_add_mod'] at pair
  case attended_listed =>
    intro qIdx _ kvIdx bound attended
    by_cases filled : allAttended blockSize maskMod (qIdx / blockSize) (kvIdx / blockSize)
    · exact .inr (keptBlocks_lists.mpr ⟨column kvIdx bound, filled⟩)
    · apply Or.inl
      apply keptBlocks_lists.mpr
      refine ⟨column kvIdx bound, ?_⟩
      rw [Bool.not_eq_true] at filled
      rw [filled, Bool.not_false, Bool.and_true, someAttended]
      simp only [List.any_eq_true, List.mem_range]
      refine ⟨_, Nat.mod_lt qIdx positive, _, Nat.mod_lt kvIdx positive, ?_⟩
      rwa [Nat.div_add_mod', Nat.div_add_mod']

theorem evaluatedMask_evaluates (totalSeqLen : Nat) (maskMod : MaskMod) :
    Evaluates totalSeqLen maskMod (evaluatedMask maskMod totalSeqLen totalSeqLen) :=
  ⟨rfl, fun _ _ _ _ => rfl⟩

theorem backendsAgree_unextended : BackendsAgree (sortedBlockMask 2) evaluatedMask 2 [0, 0, 1, -1] 4 none 0 :=
  (backendsAgree_iff (by decide) (sortedBlockMask_covers (by decide) (by decide)) (evaluatedMask_evaluates 4)
    _ _ _).mpr (.inl rfl)

/-- After one extension query 0 attends to key 5, the copy of token 1, on the additive path. -/
theorem backendsAgree_extendedOnce :
    ¬ BackendsAgree (sortedBlockMask 2) evaluatedMask 2 [0, 0, 1, -1] 4 none 1 := by
  intro agree
  have attends := (agree .eager 0 (by decide) 5 (by decide)).mp (by decide)
  have diagonal := (expected_iff (by decide) (by decide)).mp attends
  exact absurd diagonal (by decide)

end DreamAifd.TttMasks
