import DreamAifd.DoublyLinked

/-! The free list of the paged cache. Its links are fields of the block objects themselves, which
two sentinels close off at both ends. -/
namespace DreamAifd.KvCache

/-- A `KVCacheBlock` object. The sentinels both have the block id -1. -/
inductive BlockRef where
  | fakeHead
  | fakeTail
  | pooled (index : Nat)
  deriving DecidableEq, Repr

def BlockRef.blockId : BlockRef → Int
  | .pooled index => index
  | _ => -1

/-- The exceptions of the cache's code. -/
inductive KvError where
  | valueError | runtimeError | assertionError | indexError
  deriving DecidableEq, Repr

theorem bind_eq_ok {ε α β : Type} {x : Except ε α} {f : α → Except ε β} {b : β} :
    (x >>= f) = .ok b ↔ ∃ a, x = .ok a ∧ f a = .ok b := by
  cases x with
  | error e => exact ⟨fun h => (nomatch h), fun ⟨_, h, _⟩ => (nomatch h)⟩
  | ok a => exact ⟨fun h => ⟨a, rfl, h⟩, fun ⟨_, rfl, h⟩ => h⟩

def assertThat (condition : Prop) [Decidable condition] : Except KvError Unit :=
  if condition then .ok () else .error .assertionError

theorem assertThat_bind {α : Type} {condition : Prop} [Decidable condition] {f : Unit → Except KvError α} {a : α} :
    (assertThat condition >>= f) = .ok a ↔ condition ∧ f () = .ok a := by
  unfold assertThat
  split
  next holds => exact (and_iff_right holds).symm
  next fails => exact ⟨fun raised => (nomatch raised), fun h => absurd h.1 fails⟩

/-- `links` are the `prev_free_block` and `next_free_block` of all block objects. -/
structure FreeBlockQueue where
  links : Links BlockRef
  numFreeBlocks : Int

namespace FreeBlockQueue

open BlockRef

def new (blocks : List BlockRef) : FreeBlockQueue where
  numFreeBlocks := blocks.length
  links := match blocks with
    | [] => Links.empty.link fakeHead fakeTail
    | first :: rest =>
      let links := Links.empty.linkAll first rest
      (links.link fakeHead first).link (rest.getLastD first) fakeTail

def popleft (q : FreeBlockQueue) : Except KvError (BlockRef × FreeBlockQueue) :=
  match q.links.next fakeHead with
  | none | some fakeTail => .error (if q.numFreeBlocks = 0 then .valueError else .assertionError)
  | some firstBlock =>
    match q.links.next firstBlock with
    | none => .error .runtimeError
    | some second => .ok (firstBlock,
      { links := (q.links.link fakeHead second).detach firstBlock, numFreeBlocks := q.numFreeBlocks - 1 })

/-- The blocks popped, the block after them and the links that are left. -/
def popLoop : Nat → Links BlockRef → Option BlockRef →
    Except KvError (List BlockRef × Option BlockRef × Links BlockRef)
  | 0, links, currBlock => .ok ([], currBlock, links)
  | _ + 1, _, none => .error .assertionError
  | n + 1, links, some lastBlock => do
    let (ret, currBlock, links) ← popLoop n (links.detach lastBlock) (links.next lastBlock)
    return (lastBlock :: ret, currBlock, links)

def popleftN (q : FreeBlockQueue) (n : Nat) : Except KvError (List BlockRef × FreeBlockQueue) :=
  if n = 0 then .ok ([], q)
  else if q.numFreeBlocks < n then .error .assertionError
  else do
    let (ret, currBlock, links) ← popLoop n q.links (q.links.next fakeHead)
    let links := match currBlock with
      | some currBlock => links.link fakeHead currBlock
      | none => links
    return (ret, { links, numFreeBlocks := q.numFreeBlocks - n })

def remove (q : FreeBlockQueue) (block : BlockRef) : Except KvError FreeBlockQueue :=
  match q.links.prev block, q.links.next block with
  | some before, some behind =>
    .ok { links := (q.links.link before behind).detach block, numFreeBlocks := q.numFreeBlocks - 1 }
  | _, _ => .error .runtimeError

def append (q : FreeBlockQueue) (block : BlockRef) : Except KvError FreeBlockQueue :=
  match q.links.prev fakeTail with
  | none => .error .runtimeError
  | some lastBlock => .ok
    { links := (q.links.link lastBlock block).link block fakeTail, numFreeBlocks := q.numFreeBlocks + 1 }

def prependN (q : FreeBlockQueue) (blocks : List BlockRef) : Except KvError FreeBlockQueue :=
  if blocks = [] then .ok q
  else match q.links.next fakeHead with
    | none => .error .assertionError
    | some firstBlock => .ok
      { links := (q.links.linkAll fakeHead blocks).link (blocks.getLastD fakeHead) firstBlock
        numFreeBlocks := q.numFreeBlocks + blocks.length }

def appendN (q : FreeBlockQueue) (blocks : List BlockRef) : Except KvError FreeBlockQueue :=
  if blocks = [] then .ok q
  else match q.links.prev fakeTail with
    | none => .error .assertionError
    | some lastBlock => .ok
      { links := (q.links.linkAll lastBlock blocks).link (blocks.getLastD lastBlock) fakeTail
        numFreeBlocks := q.numFreeBlocks + blocks.length }

/-- The loop goes on while a block has a next one; `none` when the fuel does not last. -/
def collectFrom (links : Links BlockRef) : Nat → BlockRef → Option (List BlockRef)
  | 0, _ => none
  | fuel + 1, currBlock =>
    match links.next currBlock with
    | none => some []
    | some next => (collectFrom links fuel next).map (currBlock :: ·)

def getAllFreeBlocks (q : FreeBlockQueue) (fuel : Nat) : Except KvError (Option (List BlockRef)) :=
  match q.links.next fakeHead with
  | none => .error .runtimeError
  | some first => .ok (collectFrom q.links fuel first)

structure Represents (q : FreeBlockQueue) (blocks : List BlockRef) : Prop where
  threaded : Threaded q.links (fakeHead :: (blocks ++ [fakeTail]))
  numFreeBlocks_eq : q.numFreeBlocks = blocks.length

def Fresh (blocks : List BlockRef) (block : BlockRef) : Prop := block ∉ fakeHead :: (blocks ++ [fakeTail])

namespace Represents

variable {q : FreeBlockQueue} {blocks : List BlockRef}

theorem nodup (represents : Represents q blocks) : blocks.Nodup :=
  (List.nodup_append.mp (List.nodup_cons.mp represents.threaded.nodup).2).1

theorem fakeTail_not_mem (represents : Represents q blocks) : fakeTail ∉ blocks := fun member =>
  (List.nodup_append.mp (List.nodup_cons.mp represents.threaded.nodup).2).2.2 fakeTail member fakeTail
    (List.mem_singleton_self _) rfl

/-- The block after the head sentinel. -/
theorem next_fakeHead (represents : Represents q blocks) :
    q.links.next fakeHead = some (blocks.headD fakeTail) := by
  cases blocks with
  | nil => exact represents.threaded.next_at (s := [])
  | cons block blocks => exact represents.threaded.next_at (s := [])

theorem prev_fakeTail (represents : Represents q blocks) :
    q.links.prev fakeTail = some (blocks.getLastD fakeHead) := by
  obtain rfl | ⟨blocks, block, rfl⟩ := blocks.eq_nil_or_concat
  · exact represents.threaded.prev_at (s := [])
  · have threaded := represents.threaded
    rw [List.concat_eq_append, List.append_assoc, List.singleton_append] at threaded
    rw [threaded.prev_at (s := fakeHead :: blocks) (t := [])]
    simp

end Represents

theorem represents_new {blocks : List BlockRef} (distinct : (fakeHead :: (blocks ++ [fakeTail])).Nodup) :
    Represents (new blocks) blocks := by
  refine ⟨?_, rfl⟩
  have threaded := Threaded.linkAll_empty distinct
  cases blocks with
  | nil => exact threaded
  | cons first rest =>
    have apart : fakeHead ∉ first :: rest := fun member =>
      (List.nodup_cons.mp distinct).1 (List.mem_append_left _ member)
    have fresh : first ∉ rest := (List.nodup_cons.mp (List.nodup_append.mp (List.nodup_cons.mp distinct).2).1).1
    simp only [new]
    rw [Links.linkAll_link_comm apart fresh, Links.linkAll_append_link]
    exact threaded

theorem popleft_nil {q : FreeBlockQueue} (represents : Represents q []) : q.popleft = .error .valueError := by
  have first : q.links.next fakeHead = some fakeTail := represents.next_fakeHead
  have none_left : q.numFreeBlocks = 0 := represents.numFreeBlocks_eq
  simp [popleft, first, none_left]

theorem popleft_spec {q : FreeBlockQueue} {block : BlockRef} {blocks : List BlockRef}
    (represents : Represents q (block :: blocks)) :
    ∃ q', q.popleft = .ok (block, q') ∧ Represents q' blocks := by
  have threaded := represents.threaded
  have first : q.links.next fakeHead = some block := represents.next_fakeHead
  obtain ⟨second, rest, behind⟩ : ∃ second rest, blocks ++ [fakeTail] = second :: rest :=
    List.exists_cons_of_ne_nil (by simp)
  rw [List.cons_append, behind] at threaded
  have next : q.links.next block = some second := threaded.next_at (s := [fakeHead])
  obtain ⟨different, fresh⟩ := List.ne_and_not_mem_of_not_mem_cons
    (List.nodup_cons.mp (List.nodup_cons.mp threaded.nodup).2).1
  have inside : fakeHead ≠ block := (List.ne_and_not_mem_of_not_mem_cons
    (List.nodup_cons.mp threaded.nodup).1).1
  refine ⟨⟨(q.links.link fakeHead second).detach block, q.numFreeBlocks - 1⟩, ?_, ?_, ?_⟩
  · cases block with
    | fakeTail => exact absurd List.mem_cons_self represents.fakeTail_not_mem
    | fakeHead => exact absurd rfl inside
    | pooled index => simp only [popleft, first, next]
  · rw [behind, Links.link_detach_comm inside.symm different]
    exact threaded.unlink (s := []) (m := [block])
  · have size := represents.numFreeBlocks_eq
    rw [List.length_cons, Nat.cast_add] at size
    exact sub_eq_of_eq_add size

theorem popLoop_spec {links : Links BlockRef} {popped : List BlockRef} {stop : BlockRef}
    (distinct : popped.Nodup)
    (linked : ∀ x y, Adjacent (popped ++ [stop]) x y → links.next x = some y) :
    popLoop popped.length links ((popped ++ [stop]).head?) = .ok (popped, some stop, links.detachAll popped) := by
  induction popped generalizing links with
  | nil => rfl
  | cons block popped ih =>
    obtain ⟨fresh, distinct⟩ := List.nodup_cons.mp distinct
    have next : links.next block = (popped ++ [stop]).head? := by
      cases popped with
      | nil => exact linked block stop (.inl ⟨rfl, rfl⟩)
      | cons other popped => exact linked block other (.inl ⟨rfl, rfl⟩)
    have later : ∀ x y, Adjacent (popped ++ [stop]) x y → (links.detach block).next x = some y := by
      intro x y adjacent
      have apart : x ≠ block := fun same => fresh (same ▸ adjacent.mem_front)
      exact (Function.update_of_ne apart ..).trans (linked x y (adjacent_cons.mpr (.inr adjacent)))
    simp only [List.length_cons, List.cons_append, List.head?_cons, popLoop, next, ih distinct later]
    rfl

theorem popleftN_spec {q : FreeBlockQueue} (popped blocks : List BlockRef)
    (represents : Represents q (popped ++ blocks)) :
    ∃ q', q.popleftN popped.length = .ok (popped, q') ∧ Represents q' blocks := by
  by_cases empty : popped = []
  · subst empty
    exact ⟨q, rfl, represents⟩
  obtain ⟨stop, rest, behind⟩ : ∃ stop rest, blocks ++ [fakeTail] = stop :: rest :=
    List.exists_cons_of_ne_nil (by simp)
  have threaded := represents.threaded
  rw [List.append_assoc, behind] at threaded
  have size := represents.numFreeBlocks_eq
  rw [List.length_append, Nat.cast_add] at size
  have distinct : popped.Nodup := (List.nodup_append.mp represents.nodup).1
  have linked : ∀ x y, Adjacent (popped ++ [stop]) x y → q.links.next x = some y := by
    intro x y adjacent
    refine (threaded.next_iff x y).mpr (adjacent_cons.mpr (.inr ?_))
    exact adjacent_split.mpr (.inl adjacent)
  have first : q.links.next fakeHead = (popped ++ [stop]).head? := by
    obtain ⟨block, popped, rfl⟩ := List.exists_cons_of_ne_nil empty
    exact threaded.next_at (s := [])
  refine ⟨⟨(q.links.detachAll popped).link fakeHead stop, q.numFreeBlocks - popped.length⟩, ?_, ?_, ?_⟩
  · have enough : ¬ q.numFreeBlocks < popped.length := by omega
    have some_popped : popped.length ≠ 0 := fun none => empty (List.length_eq_zero_iff.mp none)
    simp only [popleftN, some_popped, enough, if_false, first, popLoop_spec distinct linked]
    rfl
  · rw [behind]
    exact threaded.unlink (s := []) (m := popped)
  · exact sub_eq_of_eq_add' size

theorem popleftN_short {q : FreeBlockQueue} {blocks : List BlockRef} {n : Nat} (represents : Represents q blocks)
    (short : blocks.length < n) : q.popleftN n = .error .assertionError := by
  have size := represents.numFreeBlocks_eq
  rw [popleftN, if_neg (by omega), if_pos (by omega)]

/-- The path up to a block, from the side of its last node. -/
theorem exists_before (front : List BlockRef) :
    ∃ before, fakeHead :: front = before ++ [front.getLastD fakeHead] := by
  obtain rfl | ⟨front, last, rfl⟩ := front.eq_nil_or_concat
  · exact ⟨[], rfl⟩
  · exact ⟨fakeHead :: front, by simp⟩

theorem exists_behind (back : List BlockRef) : ∃ rest, back ++ [fakeTail] = back.headD fakeTail :: rest := by
  cases back with
  | nil => exact ⟨[], rfl⟩
  | cons first back => exact ⟨back ++ [fakeTail], rfl⟩

theorem remove_spec {q : FreeBlockQueue} {front back : List BlockRef} {block : BlockRef}
    (represents : Represents q (front ++ block :: back)) :
    ∃ q', q.remove block = .ok q' ∧ Represents q' (front ++ back) := by
  obtain ⟨before, ahead⟩ := exists_before front
  obtain ⟨rest, after⟩ := exists_behind back
  set first := front.getLastD fakeHead
  set second := back.headD fakeTail
  have path : ∀ middle, fakeHead :: (front ++ (middle ++ back) ++ [fakeTail]) =
      before ++ first :: (middle ++ second :: rest) := by
    intro middle
    rw [List.append_assoc, ← List.cons_append, ahead, List.append_assoc, List.append_assoc, after]
    rfl
  have threaded : Threaded q.links (before ++ first :: ([block] ++ second :: rest)) :=
    path [block] ▸ represents.threaded
  have prev : q.links.prev block = some first := threaded.prev_at
  have next : q.links.next block = some second := by
    have shifted : Threaded q.links ((before ++ [first]) ++ block :: second :: rest) := by simpa using threaded
    exact shifted.next_at
  have apart := threaded.nodup
  simp only [List.nodup_append, List.nodup_cons, List.mem_append, List.mem_cons, not_or] at apart
  refine ⟨⟨(q.links.link first second).detach block, q.numFreeBlocks - 1⟩, ?_, ?_, ?_⟩
  · simp only [remove, prev, next]
  · rw [show front ++ back = front ++ ([] ++ back) from rfl, path [],
      Links.link_detach_comm (by grind) (by grind)]
    exact threaded.unlink
  · have size := represents.numFreeBlocks_eq
    simp only [List.length_append, List.length_cons, Nat.cast_add] at size ⊢
    omega

theorem remove_fresh {q : FreeBlockQueue} {blocks : List BlockRef} {block : BlockRef}
    (represents : Represents q blocks) (absent : block ∉ blocks) : q.remove block = .error .runtimeError := by
  have unlinked : q.links.prev block = none ∨ q.links.next block = none := by
    by_cases head : block = fakeHead
    · exact .inl (head ▸ represents.threaded.prev_head)
    · refine .inr (represents.threaded.next_eq_none fun other adjacent => ?_)
      have member := adjacent.mem_front (s := fakeHead :: blocks)
      exact absurd member (by simp [head, absent])
  rw [remove]
  rcases unlinked with none_before | none_behind
  · simp only [none_before]
  · cases q.links.prev block <;> simp only [none_behind]

theorem appendN_spec {q : FreeBlockQueue} {blocks added : List BlockRef} (represents : Represents q blocks)
    (distinct : added.Nodup) (fresh : ∀ block ∈ added, Fresh blocks block) :
    ∃ q', q.appendN added = .ok q' ∧ Represents q' (blocks ++ added) := by
  by_cases empty : added = []
  · subst empty
    exact ⟨q, rfl, by simpa using represents⟩
  obtain ⟨before, ahead⟩ := exists_before blocks
  have last := represents.prev_fakeTail
  set lastBlock := blocks.getLastD fakeHead
  have path : ∀ middle, fakeHead :: (blocks ++ middle ++ [fakeTail]) =
      before ++ lastBlock :: (middle ++ fakeTail :: []) := by
    intro middle
    rw [List.append_assoc, ← List.cons_append, ahead, List.append_assoc]
    rfl
  refine ⟨⟨(q.links.linkAll lastBlock added).link (added.getLastD lastBlock) fakeTail,
    q.numFreeBlocks + added.length⟩, ?_, ?_, ?_⟩
  · simp only [appendN, empty, if_false, last]
  · have threaded := represents.threaded
    have here : fakeHead :: (blocks ++ [fakeTail]) = before ++ lastBlock :: fakeTail :: [] := by
      simpa using path []
    unfold Fresh at fresh
    rw [here] at threaded fresh
    rw [path added, Links.linkAll_append_link]
    exact threaded.insert distinct fresh
  · rw [represents.numFreeBlocks_eq, List.length_append, Nat.cast_add]

theorem append_eq_appendN {q : FreeBlockQueue} {blocks : List BlockRef} (represents : Represents q blocks)
    (block : BlockRef) : q.append block = q.appendN [block] := by
  rw [append, appendN, represents.prev_fakeTail]
  rfl

theorem prependN_spec {q : FreeBlockQueue} {blocks added : List BlockRef} (represents : Represents q blocks)
    (distinct : added.Nodup) (fresh : ∀ block ∈ added, Fresh blocks block) :
    ∃ q', q.prependN added = .ok q' ∧ Represents q' (added ++ blocks) := by
  by_cases empty : added = []
  · subst empty
    exact ⟨q, rfl, represents⟩
  obtain ⟨rest, after⟩ := exists_behind blocks
  have first := represents.next_fakeHead
  set firstBlock := blocks.headD fakeTail
  refine ⟨⟨(q.links.linkAll fakeHead added).link (added.getLastD fakeHead) firstBlock,
    q.numFreeBlocks + added.length⟩, ?_, ?_, ?_⟩
  · simp only [prependN, empty, if_false, first]
  · have threaded := represents.threaded
    unfold Fresh at fresh
    rw [after] at threaded fresh
    rw [List.append_assoc, after, Links.linkAll_append_link]
    exact threaded.insert (s := []) distinct fresh
  · rw [represents.numFreeBlocks_eq, List.length_append, Nat.cast_add, add_comm]

theorem collectFrom_spec {links : Links BlockRef} {blocks : List BlockRef}
    (linked : ∀ x y, Adjacent (blocks ++ [fakeTail]) x y → links.next x = some y)
    (ends : links.next fakeTail = none) {fuel : Nat} (enough : blocks.length < fuel) :
    collectFrom links fuel (blocks.headD fakeTail) = some blocks := by
  induction fuel generalizing blocks with
  | zero => exact absurd enough (Nat.not_lt_zero _)
  | succ fuel ih =>
    cases blocks with
    | nil => simp [collectFrom, ends]
    | cons block blocks =>
      have next : links.next block = some (blocks.headD fakeTail) := by
        cases blocks with
        | nil => exact linked _ _ (.inl ⟨rfl, rfl⟩)
        | cons other blocks => exact linked _ _ (.inl ⟨rfl, rfl⟩)
      have later := ih (fun x y adjacent => linked x y (adjacent_cons.mpr (.inr adjacent)))
        (Nat.lt_of_succ_lt_succ enough)
      rw [List.headD_cons, collectFrom, next]
      simp only [later, Option.map_some]

theorem getAllFreeBlocks_spec {q : FreeBlockQueue} {blocks : List BlockRef} (represents : Represents q blocks)
    {fuel : Nat} (enough : blocks.length < fuel) : q.getAllFreeBlocks fuel = .ok (some blocks) := by
  have linked : ∀ x y, Adjacent (blocks ++ [fakeTail]) x y → q.links.next x = some y := fun x y adjacent =>
    (represents.threaded.next_iff x y).mpr (adjacent_cons.mpr (.inr adjacent))
  have ends : q.links.next fakeTail = none := by
    have threaded : Threaded q.links (fakeHead :: blocks ++ [fakeTail]) := represents.threaded
    exact threaded.next_last
  simp only [getAllFreeBlocks, represents.next_fakeHead, collectFrom_spec linked ends enough]

/-- The calls of the queue. -/
inductive Call where
  | popleft
  | popleftN (n : Nat)
  | remove (block : BlockRef)
  | append (block : BlockRef)
  | prependN (blocks : List BlockRef)
  | appendN (blocks : List BlockRef)
  deriving DecidableEq, Repr

def call (q : FreeBlockQueue) : Call → Except KvError (List BlockRef × FreeBlockQueue)
  | .popleft => do
    let (block, q) ← q.popleft
    return ([block], q)
  | .popleftN n => q.popleftN n
  | .remove block => do return ([], ← q.remove block)
  | .append block => do return ([], ← q.append block)
  | .prependN blocks => do return ([], ← q.prependN blocks)
  | .appendN blocks => do return ([], ← q.appendN blocks)

def listCall (blocks : List BlockRef) : Call → Except KvError (List BlockRef × List BlockRef)
  | .popleft =>
    match blocks with
    | [] => .error .valueError
    | block :: blocks => .ok ([block], blocks)
  | .popleftN n => if blocks.length < n then .error .assertionError else .ok (blocks.take n, blocks.drop n)
  | .remove block => if block ∈ blocks then .ok ([], blocks.erase block) else .error .runtimeError
  | .append block => .ok ([], blocks ++ [block])
  | .prependN added => .ok ([], added ++ blocks)
  | .appendN added => .ok ([], blocks ++ added)

def Call.Legal (blocks : List BlockRef) : Call → Prop
  | .append block => Fresh blocks block
  | .prependN added | .appendN added => added.Nodup ∧ ∀ block ∈ added, Fresh blocks block
  | _ => True

/-- The answers to a sequence of calls and the state after them. A call that raises changes nothing. -/
def answers {σ : Type*} (call : σ → Call → Except KvError (List BlockRef × σ)) :
    σ → List Call → List (Except KvError (List BlockRef)) × σ
  | s, [] => ([], s)
  | s, c :: calls =>
    match call s c with
    | .error error =>
      let (rest, s') := answers call s calls
      (.error error :: rest, s')
    | .ok (blocks, next) =>
      let (rest, s') := answers call next calls
      (.ok blocks :: rest, s')

def LegalCalls : List BlockRef → List Call → Prop
  | _, [] => True
  | blocks, c :: calls => c.Legal blocks ∧
    match listCall blocks c with
    | .error _ => LegalCalls blocks calls
    | .ok (_, next) => LegalCalls next calls

/-- One call does to the queue what it does to the list. -/
theorem call_refines {q : FreeBlockQueue} {blocks : List BlockRef} (represents : Represents q blocks) {c : Call}
    (legal : c.Legal blocks) :
    match listCall blocks c with
    | .error error => q.call c = .error error
    | .ok (ret, next) => ∃ q', q.call c = .ok (ret, q') ∧ Represents q' next := by
  cases c with
  | popleft =>
    cases blocks with
    | nil => simp only [listCall, call, popleft_nil represents]; rfl
    | cons block blocks =>
      obtain ⟨q', popped, represents'⟩ := popleft_spec represents
      exact ⟨q', by simp only [call, popped]; rfl, represents'⟩
  | popleftN n =>
    by_cases short : blocks.length < n
    · simp only [listCall, if_pos short, call, popleftN_short represents short]
    · have size : (blocks.take n).length = n := List.length_take_of_le (Nat.not_lt.mp short)
      obtain ⟨q', popped, represents'⟩ := popleftN_spec (blocks.take n) (blocks.drop n)
        (by rwa [List.take_append_drop])
      rw [size] at popped
      simp only [listCall, if_neg short]
      exact ⟨q', popped, represents'⟩
  | remove block =>
    by_cases member : block ∈ blocks
    · obtain ⟨front, back, rfl⟩ := List.append_of_mem member
      obtain ⟨q', removed, represents'⟩ := remove_spec represents
      have fresh : block ∉ front := fun here =>
        (List.nodup_append.mp represents.nodup).2.2 block here block List.mem_cons_self rfl
      simp only [listCall, if_pos member, call, removed, List.erase_append_right _ fresh, List.erase_cons_head]
      exact ⟨q', rfl, represents'⟩
    · simp only [listCall, if_neg member, call, remove_fresh represents member]
      rfl
  | append block =>
    obtain ⟨q', appended, represents'⟩ := appendN_spec represents (List.nodup_singleton block)
      (fun _ member => List.mem_singleton.mp member ▸ legal)
    simp only [listCall, call, append_eq_appendN represents, appended]
    exact ⟨q', rfl, represents'⟩
  | prependN added =>
    obtain ⟨q', prepended, represents'⟩ := prependN_spec represents legal.1 legal.2
    simp only [listCall, call, prepended]
    exact ⟨q', rfl, represents'⟩
  | appendN added =>
    obtain ⟨q', appended, represents'⟩ := appendN_spec represents legal.1 legal.2
    simp only [listCall, call, appended]
    exact ⟨q', rfl, represents'⟩

theorem answers_refine {q : FreeBlockQueue} {blocks : List BlockRef} (represents : Represents q blocks)
    {calls : List Call} (legal : LegalCalls blocks calls) :
    (answers call q calls).1 = (answers listCall blocks calls).1 ∧
      Represents (answers call q calls).2 (answers listCall blocks calls).2 := by
  induction calls generalizing q blocks with
  | nil => exact ⟨rfl, represents⟩
  | cons c calls ih =>
    obtain ⟨here, later⟩ := legal
    have step := call_refines represents here
    cases outcome : listCall blocks c with
    | error error =>
      simp only [outcome] at step later
      obtain ⟨same, represents'⟩ := ih represents later
      simp only [answers, outcome, step]
      exact ⟨congrArg _ same, represents'⟩
    | ok result =>
      obtain ⟨ret, next⟩ := result
      simp only [outcome] at step later
      obtain ⟨q', called, represents'⟩ := step
      obtain ⟨same, represents'⟩ := ih represents' later
      simp only [answers, outcome, called]
      exact ⟨congrArg _ same, represents'⟩

/-- Whatever is called on it, the queue answers like a list, and it never is out of step with its count. -/
theorem answers_new_eq_list (blocks : List BlockRef) (distinct : (fakeHead :: (blocks ++ [fakeTail])).Nodup)
    (calls : List Call) (legal : LegalCalls blocks calls) :
    (answers call (new blocks) calls).1 = (answers listCall blocks calls).1 ∧
      (answers call (new blocks) calls).2.numFreeBlocks = (answers listCall blocks calls).2.length ∧
      ∀ fuel, (answers listCall blocks calls).2.length < fuel →
        (answers call (new blocks) calls).2.getAllFreeBlocks fuel =
          .ok (some (answers listCall blocks calls).2) := by
  obtain ⟨same, represents⟩ := answers_refine (represents_new distinct) legal
  exact ⟨same, represents.numFreeBlocks_eq, fun _ enough => getAllFreeBlocks_spec represents enough⟩

theorem answers_new_three : (answers call (new [pooled 0, pooled 1, pooled 2])
    [.popleft, .remove (pooled 0), .append (pooled 0), .popleftN 4, .remove (pooled 2), .prependN [pooled 2]]).1 =
    [.ok [pooled 0], .error .runtimeError, .ok [], .error .assertionError, .ok [], .ok []] :=
  (answers_new_eq_list [pooled 0, pooled 1, pooled 2] (by decide)
    [.popleft, .remove (pooled 0), .append (pooled 0), .popleftN 4, .remove (pooled 2), .prependN [pooled 2]]
    (by simp [LegalCalls, Call.Legal, listCall, Fresh])).1

end FreeBlockQueue

end DreamAifd.KvCache
