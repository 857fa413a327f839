import Mathlib

/-! Chains of nodes that are linked in both directions, the links being fields of the nodes. A
chain is read as the list of its nodes. -/
namespace DreamAifd

variable {ν : Type*}

/-- `b` comes right after `a`. -/
def Adjacent : List ν → ν → ν → Prop
  | x :: y :: rest, a, b => (a = x ∧ b = y) ∨ Adjacent (y :: rest) a b
  | _, _, _ => False

@[simp] theorem not_adjacent_nil (a b : ν) : ¬ Adjacent [] a b := id

@[simp] theorem not_adjacent_singleton (x a b : ν) : ¬ Adjacent [x] a b := id

theorem adjacent_cons {x : ν} {path : List ν} {a b : ν} :
    Adjacent (x :: path) a b ↔ (a = x ∧ path.head? = some b) ∨ Adjacent path a b := by
  cases path with
  | nil => simp
  | cons y rest => simp [Adjacent, eq_comm]

/-- The new pair of two paths in a row is the last node of one and the first of the other. -/
theorem adjacent_append {s t : List ν} {a b : ν} :
    Adjacent (s ++ t) a b ↔
      Adjacent s a b ∨ (s.getLast? = some a ∧ t.head? = some b) ∨ Adjacent t a b := by
  induction s with
  | nil => simp
  | cons x s ih =>
    rw [List.cons_append, adjacent_cons, adjacent_cons, ih]
    cases s with
    | nil => simp [eq_comm]
    | cons y rest => simp only [List.cons_append, List.head?_cons, List.getLast?_cons_cons, or_assoc]

/-- A path falls apart at any of its nodes. -/
theorem adjacent_split {s t : List ν} {x a b : ν} :
    Adjacent (s ++ x :: t) a b ↔ Adjacent (s ++ [x]) a b ∨ Adjacent (x :: t) a b := by
  simp only [adjacent_append, List.head?_cons, not_adjacent_singleton, or_false, or_assoc]

theorem Adjacent.mem_left {path : List ν} {a b : ν} (adjacent : Adjacent path a b) : a ∈ path := by
  induction path with
  | nil => exact absurd adjacent (not_adjacent_nil a b)
  | cons x path ih =>
    rcases adjacent_cons.mp adjacent with ⟨rfl, _⟩ | later
    · exact List.mem_cons_self
    · exact List.mem_cons_of_mem x (ih later)

theorem Adjacent.mem_right {path : List ν} {a b : ν} (adjacent : Adjacent path a b) : b ∈ path := by
  induction path with
  | nil => exact absurd adjacent (not_adjacent_nil a b)
  | cons x path ih =>
    rcases adjacent_cons.mp adjacent with ⟨_, first⟩ | later
    · exact List.mem_cons_of_mem x (List.mem_of_head? first)
    · exact List.mem_cons_of_mem x (ih later)

theorem Adjacent.mem_front {s : List ν} {x a b : ν} (adjacent : Adjacent (s ++ [x]) a b) :
    a ∈ s := by
  induction s with
  | nil => exact absurd adjacent (not_adjacent_singleton x a b)
  | cons y s ih =>
    rcases adjacent_cons.mp adjacent with ⟨rfl, _⟩ | later
    · exact List.mem_cons_self
    · exact List.mem_cons_of_mem y (ih later)

theorem Adjacent.mem_back {x : ν} {t : List ν} {a b : ν} (adjacent : Adjacent (x :: t) a b) :
    b ∈ t := by
  induction t generalizing x with
  | nil => exact absurd adjacent (not_adjacent_singleton x a b)
  | cons y t ih =>
    rcases adjacent_cons.mp adjacent with ⟨_, first⟩ | later
    · exact List.mem_of_head? first
    · exact List.mem_cons_of_mem y (ih later)

structure Links (ν : Type*) where
  prev : ν → Option ν
  next : ν → Option ν

/-- The links say exactly what is adjacent on the path, and link nothing else. -/
structure Threaded (l : Links ν) (path : List ν) : Prop where
  nodup : path.Nodup
  next_iff : ∀ a b, l.next a = some b ↔ Adjacent path a b
  prev_iff : ∀ a b, l.prev b = some a ↔ Adjacent path a b

namespace Threaded

variable {l : Links ν} {s t : List ν} {a b : ν}

theorem next_eq_none (threaded : Threaded l s) (last : ∀ b, ¬ Adjacent s a b) : l.next a = none :=
  Option.eq_none_iff_forall_ne_some.mpr fun b linked => last b ((threaded.next_iff a b).mp linked)

theorem prev_eq_none (threaded : Threaded l s) (first : ∀ a, ¬ Adjacent s a b) : l.prev b = none :=
  Option.eq_none_iff_forall_ne_some.mpr fun a linked => first a ((threaded.prev_iff a b).mp linked)

/-- Nothing follows the end of a path. -/
theorem next_last (threaded : Threaded l (s ++ [a])) : l.next a = none :=
  threaded.next_eq_none fun _ adjacent =>
    (List.nodup_append.mp threaded.nodup).2.2 a adjacent.mem_front a (List.mem_singleton_self a) rfl

theorem prev_head (threaded : Threaded l (a :: t)) : l.prev a = none :=
  threaded.prev_eq_none fun _ adjacent => (List.nodup_cons.mp threaded.nodup).1 adjacent.mem_back

theorem next_at (threaded : Threaded l (s ++ a :: b :: t)) : l.next a = some b :=
  (threaded.next_iff a b).mpr (adjacent_split.mpr (.inr (.inl ⟨rfl, rfl⟩)))

theorem prev_at (threaded : Threaded l (s ++ a :: b :: t)) : l.prev b = some a :=
  (threaded.prev_iff a b).mpr (adjacent_split.mpr (.inr (.inl ⟨rfl, rfl⟩)))

end Threaded

namespace Links

def empty : Links ν := ⟨fun _ => none, fun _ => none⟩

variable [DecidableEq ν]

def link (l : Links ν) (a b : ν) : Links ν :=
  ⟨Function.update l.prev b (some a), Function.update l.next a (some b)⟩

def detach (l : Links ν) (a : ν) : Links ν :=
  ⟨Function.update l.prev a none, Function.update l.next a none⟩

/-- Links one node after another behind `a`. -/
def linkAll (l : Links ν) : ν → List ν → Links ν
  | _, [] => l
  | a, b :: rest => (l.link a b).linkAll b rest

def detachAll (l : Links ν) (m : List ν) : Links ν := m.foldl detach l

theorem next_link {l : Links ν} {a b x : ν} :
    (l.link a b).next x = if x = a then some b else l.next x := Function.update_apply ..

theorem prev_link {l : Links ν} {a b x : ν} :
    (l.link a b).prev x = if x = b then some a else l.prev x := Function.update_apply ..

theorem next_detachAll {l : Links ν} {m : List ν} {x : ν} :
    (l.detachAll m).next x = if x ∈ m then none else l.next x := by
  induction m generalizing l with
  | nil => simp [detachAll]
  | cons a m ih =>
    have step : (l.detachAll (a :: m)).next x = ((l.detach a).detachAll m).next x := rfl
    rw [step, ih]
    by_cases here : x = a <;> simp [detach, here]

theorem prev_detachAll {l : Links ν} {m : List ν} {x : ν} :
    (l.detachAll m).prev x = if x ∈ m then none else l.prev x := by
  induction m generalizing l with
  | nil => simp [detachAll]
  | cons a m ih =>
    have step : (l.detachAll (a :: m)).prev x = ((l.detach a).detachAll m).prev x := rfl
    rw [step, ih]
    by_cases here : x = a <;> simp [detach, here]

theorem next_linkAll {l : Links ν} {a : ν} {m : List ν} (distinct : (a :: m).Nodup) {x y : ν} :
    (l.linkAll a m).next x = some y ↔
      Adjacent (a :: m) x y ∨ (x ∉ (a :: m).dropLast ∧ l.next x = some y) := by
  induction m generalizing l a with
  | nil => simp [linkAll]
  | cons b m ih =>
    obtain ⟨fresh, distinct⟩ := List.nodup_cons.mp distinct
    have early : a ∉ (b :: m).dropLast := fun member => fresh (List.mem_of_mem_dropLast member)
    have apart : ¬ Adjacent (b :: m) a y := fun adjacent => fresh adjacent.mem_left
    rw [linkAll, ih distinct, next_link, adjacent_cons (x := a)]
    by_cases here : x = a
    · subst here
      simp [early, apart]
    · simp [here]

theorem prev_linkAll {l : Links ν} {a : ν} {m : List ν} (distinct : m.Nodup) {x y : ν} :
    (l.linkAll a m).prev y = some x ↔
      Adjacent (a :: m) x y ∨ (y ∉ m ∧ l.prev y = some x) := by
  induction m generalizing l a with
  | nil => simp [linkAll]
  | cons b m ih =>
    obtain ⟨fresh, distinct⟩ := List.nodup_cons.mp distinct
    have apart : ¬ Adjacent (b :: m) x b := fun adjacent => fresh adjacent.mem_back
    rw [linkAll, ih distinct, prev_link, adjacent_cons (x := a)]
    by_cases here : y = b
    · subst here
      simp [fresh, apart, eq_comm]
    · simp [here, Ne.symm here]

theorem linkAll_append_link {l : Links ν} {a b : ν} {m : List ν} :
    (l.linkAll a m).link (m.getLastD a) b = l.linkAll a (m ++ [b]) := by
  induction m generalizing l a with
  | nil => rfl
  | cons x m ih => rw [List.cons_append, linkAll, linkAll, ← ih, List.getLastD_cons]

/-- Links at other nodes can be set in either order. -/
theorem link_comm {l : Links ν} {a b c d : ν} (from_ne : a ≠ c) (to_ne : b ≠ d) :
    (l.link a b).link c d = (l.link c d).link a b := by
  rw [link, link, link, link, Function.update_comm to_ne, Function.update_comm from_ne]

theorem link_detach_comm {l : Links ν} {a b x : ν} (from_ne : x ≠ a) (to_ne : x ≠ b) :
    (l.link a b).detach x = (l.detach x).link a b := by
  rw [link, detach, detach, link, Function.update_comm to_ne.symm, Function.update_comm from_ne.symm]

theorem linkAll_link_comm {l : Links ν} {a b c : ν} {m : List ν} (from_ne : c ∉ a :: m)
    (to_ne : b ∉ m) : (l.linkAll a m).link c b = (l.link c b).linkAll a m := by
  induction m generalizing l a with
  | nil => rfl
  | cons x m ih =>
    obtain ⟨other, from_ne⟩ := List.ne_and_not_mem_of_not_mem_cons from_ne
    obtain ⟨different, to_ne⟩ := List.ne_and_not_mem_of_not_mem_cons to_ne
    rw [linkAll, linkAll, ih from_ne to_ne, link_comm other.symm different.symm]

end Links

namespace Threaded

variable [DecidableEq ν] {l : Links ν} {s m t : List ν} {a b : ν}

theorem linkAll_empty (distinct : (a :: m).Nodup) : Threaded (Links.empty.linkAll a m) (a :: m) where
  nodup := distinct
  next_iff x y := by simp [Links.next_linkAll distinct, Links.empty]
  prev_iff x y := by simp [Links.prev_linkAll (List.nodup_cons.mp distinct).2, Links.empty]

/-- A stretch of the path is taken out: its nodes are detached and its neighbours linked. -/
theorem unlink (threaded : Threaded l (s ++ a :: (m ++ b :: t))) :
    Threaded ((l.detachAll m).link a b) (s ++ a :: b :: t) := by
  have nodup := threaded.nodup
  have old : ∀ x y, Adjacent (s ++ a :: (m ++ b :: t)) x y ↔
      Adjacent (s ++ [a]) x y ∨ Adjacent (a :: m ++ [b]) x y ∨ Adjacent (b :: t) x y := by
    intro x y
    rw [adjacent_split, ← List.cons_append, adjacent_split (s := a :: m)]
  have new : ∀ x y, Adjacent (s ++ a :: b :: t) x y ↔
      Adjacent (s ++ [a]) x y ∨ (x = a ∧ y = b) ∨ Adjacent (b :: t) x y := by
    intro x y
    rw [adjacent_split, adjacent_cons]
    simp [eq_comm]
  have apart := nodup
  simp only [List.nodup_append, List.nodup_cons, List.mem_append, List.mem_cons, not_or] at apart
  refine ⟨nodup.sublist (by simp), fun x y => ?_, fun x y => ?_⟩
  · have linked := (threaded.next_iff x y).trans (old x y)
    have before := @Adjacent.mem_front _ s a x y
    have within := @Adjacent.mem_front _ (a :: m) b x y
    have after := @Adjacent.mem_left _ (b :: t) x y
    simp only [List.mem_cons] at within after
    rw [Links.next_link, Links.next_detachAll, new]
    grind
  · have linked := (threaded.prev_iff x y).trans (old x y)
    have before := @Adjacent.mem_right _ (s ++ [a]) x y
    have within := @Adjacent.mem_back _ a (m ++ [b]) x y
    have after := @Adjacent.mem_back _ b t x y
    simp only [List.mem_append, List.mem_singleton, ← List.cons_append] at before within
    rw [Links.prev_link, Links.prev_detachAll, new]
    grind

/-- Fresh nodes are put between two neighbours of the path. -/
theorem insert (threaded : Threaded l (s ++ a :: b :: t)) (distinct : m.Nodup)
    (fresh : ∀ x ∈ m, x ∉ s ++ a :: b :: t) :
    Threaded (l.linkAll a (m ++ [b])) (s ++ a :: (m ++ b :: t)) := by
  have apart := threaded.nodup
  have old : ∀ x y, Adjacent (s ++ a :: b :: t) x y ↔
      Adjacent (s ++ [a]) x y ∨ (x = a ∧ y = b) ∨ Adjacent (b :: t) x y := by
    intro x y
    rw [adjacent_split, adjacent_cons]
    simp [eq_comm]
  have new : ∀ x y, Adjacent (s ++ a :: (m ++ b :: t)) x y ↔
      Adjacent (s ++ [a]) x y ∨ Adjacent (a :: (m ++ [b])) x y ∨ Adjacent (b :: t) x y := by
    intro x y
    rw [adjacent_split, ← List.cons_append, adjacent_split (s := a :: m), List.cons_append]
  simp only [List.nodup_append, List.nodup_cons, List.mem_append, List.mem_cons, not_or] at apart fresh
  have nodup : (s ++ a :: (m ++ b :: t)).Nodup := by
    simp only [List.nodup_append, List.nodup_cons, List.mem_append, List.mem_cons, not_or]
    grind
  have middle : (a :: (m ++ [b])).Nodup := nodup.sublist
    ((((List.sublist_append_left [b] t).append_left m).cons_cons a).trans (List.sublist_append_right _ _))
  refine ⟨nodup, fun x y => ?_, fun x y => ?_⟩
  · have linked := (threaded.next_iff x y).trans (old x y)
    have before := @Adjacent.mem_front _ s a x y
    have after := @Adjacent.mem_left _ (b :: t) x y
    simp only [List.mem_cons] at after
    rw [Links.next_linkAll middle, new, ← List.cons_append, List.dropLast_concat]
    grind
  · have linked := (threaded.prev_iff x y).trans (old x y)
    have before := @Adjacent.mem_right _ (s ++ [a]) x y
    have after := @Adjacent.mem_back _ b t x y
    simp only [List.mem_append, List.mem_singleton] at before
    rw [Links.prev_linkAll (List.nodup_cons.mp middle).2, new]
    grind

end Threaded

end DreamAifd
