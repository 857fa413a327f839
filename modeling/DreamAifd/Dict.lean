import Mathlib

/-! Dictionaries of the modelled language: finite maps read by key, by size and by largest
key. Two of them are equal when they agree on every key, so insertion order is not kept. -/
namespace DreamAifd

structure Dict (κ ν : Type*) where
  entries : Finmap fun _ : κ => ν

namespace Dict

variable {κ ν : Type*}

def empty : Dict κ ν := ⟨∅⟩

def keys (d : Dict κ ν) : Finset κ := d.entries.keys

def size (d : Dict κ ν) : Nat := d.keys.card

@[simp] theorem keys_empty : (empty : Dict κ ν).keys = ∅ := Finmap.keys_empty

variable [DecidableEq κ]

def get? (d : Dict κ ν) (key : κ) : Option ν := d.entries.lookup key

def set (d : Dict κ ν) (key : κ) (value : ν) : Dict κ ν := ⟨Finmap.insert key value d.entries⟩

@[ext] theorem ext {d e : Dict κ ν} (same : ∀ key, d.get? key = e.get? key) : d = e :=
  congrArg mk (Finmap.ext_lookup same)

@[simp] theorem get?_empty (key : κ) : (empty : Dict κ ν).get? key = none := Finmap.lookup_empty key

@[simp] theorem get?_set_self (d : Dict κ ν) (key : κ) (value : ν) :
    (d.set key value).get? key = some value := Finmap.lookup_insert d.entries

theorem get?_set_ne (d : Dict κ ν) {key other : κ} (value : ν) (h : other ≠ key) :
    (d.set key value).get? other = d.get? other := Finmap.lookup_insert_of_ne d.entries h

theorem get?_set (d : Dict κ ν) (key other : κ) (value : ν) :
    (d.set key value).get? other = if other = key then some value else d.get? other := by
  split
  next h => rw [h, get?_set_self]
  next h => exact get?_set_ne d value h

theorem mem_keys {d : Dict κ ν} {key : κ} : key ∈ d.keys ↔ ∃ value, d.get? key = some value := by
  rw [keys, Finmap.mem_keys, get?, ← Option.isSome_iff_exists, Finmap.lookup_isSome]

/-- Writing the value a key already has changes nothing. -/
theorem set_get? (d : Dict κ ν) {key : κ} {value : ν} (present : d.get? key = some value) :
    d.set key value = d := by
  ext other : 1
  rw [get?_set]
  split
  next h => rw [h, present]
  next => rfl

def erase (d : Dict κ ν) (key : κ) : Dict κ ν := ⟨d.entries.erase key⟩

theorem get?_erase (d : Dict κ ν) (key other : κ) :
    (d.erase key).get? other = if other = key then none else d.get? other := by
  split
  next h => exact h ▸ Finmap.lookup_erase key d.entries
  next h => exact Finmap.lookup_erase_ne h

def only (d : Dict κ ν) (key : κ) : Dict κ ν :=
  match d.get? key with
  | some value => empty.set key value
  | none => empty

theorem get?_only (d : Dict κ ν) (key other : κ) :
    (d.only key).get? other = if other = key then d.get? key else none := by
  unfold only
  cases d.get? key with
  | some value => rw [get?_set, get?_empty]
  | none => rw [get?_empty, ite_self]

def last? {κ : Type*} [LinearOrder κ] (d : Dict κ ν) : Option ν :=
  if nonempty : d.keys.Nonempty then d.get? (d.keys.max' nonempty) else none

theorem last?_eq {κ : Type*} [LinearOrder κ] {d : Dict κ ν} {key : κ}
    (member : key ∈ d.keys) (largest : ∀ other ∈ d.keys, other ≤ key) :
    d.last? = d.get? key := by
  have nonempty : d.keys.Nonempty := ⟨key, member⟩
  have same : d.keys.max' nonempty = key :=
    le_antisymm (d.keys.max'_le nonempty key largest) (d.keys.le_max' key member)
  rw [last?, dif_pos nonempty, same]

def total (d : Dict κ ν) (measure : ν → Nat) : Nat := d.keys.sum fun key => (d.get? key).elim 0 measure

theorem get?_eq_none {d : Dict κ ν} {key : κ} (absent : key ∉ d.keys) : d.get? key = none := by
  by_contra present
  exact absent (mem_keys.mpr (Option.ne_none_iff_exists'.mp present))

/-- The sum over any set of keys that has all of the dictionary. -/
theorem total_eq_sum (d : Dict κ ν) (measure : ν → Nat) {keys : Finset κ} (all : d.keys ⊆ keys) :
    d.total measure = keys.sum fun key => (d.get? key).elim 0 measure :=
  Finset.sum_subset all fun key _ absent => by rw [get?_eq_none absent, Option.elim_none]

theorem total_of_agree {d e : Dict κ ν} (measure : ν → Nat) (key : κ)
    (same : ∀ other ≠ key, e.get? other = d.get? other) :
    e.total measure + (d.get? key).elim 0 measure = d.total measure + (e.get? key).elim 0 measure := by
  have all : ∀ f : Dict κ ν, f.keys ⊆ d.keys ∪ e.keys ∪ {key} → f.total measure =
      ((d.keys ∪ e.keys ∪ {key}).erase key).sum (fun other => (f.get? other).elim 0 measure) +
        (f.get? key).elim 0 measure := by
    intro f within
    rw [total_eq_sum f measure within]
    exact (Finset.sum_erase_add _ _ (by simp)).symm
  have rest : ((d.keys ∪ e.keys ∪ {key}).erase key).sum (fun other => (e.get? other).elim 0 measure) =
      ((d.keys ∪ e.keys ∪ {key}).erase key).sum (fun other => (d.get? other).elim 0 measure) :=
    Finset.sum_congr rfl fun other member => by rw [same other (Finset.ne_of_mem_erase member)]
  rw [all e (by intro other; simp; tauto), all d (by intro other; simp; tauto), rest]
  omega

theorem le_total {d : Dict κ ν} {key : κ} {value : ν} (present : d.get? key = some value) (measure : ν → Nat) :
    measure value ≤ d.total measure := by
  have member : key ∈ d.keys := mem_keys.mpr ⟨value, present⟩
  have one := Finset.single_le_sum (fun other _ => Nat.zero_le ((d.get? other).elim 0 measure)) member
  rwa [present] at one

theorem total_eq_zero {d : Dict κ ν} {measure : ν → Nat}
    (none_counts : ∀ key value, d.get? key = some value → measure value = 0) : d.total measure = 0 := by
  refine Finset.sum_eq_zero fun key _ => ?_
  cases present : d.get? key with
  | none => rfl
  | some value => exact none_counts key value present

theorem add_le_total {d : Dict κ ν} {key other : κ} {value value' : ν} (present : d.get? key = some value)
    (present' : d.get? other = some value') (different : key ≠ other) (measure : ν → Nat) :
    measure value + measure value' ≤ d.total measure := by
  have within : ({key, other} : Finset κ) ⊆ d.keys := by
    intro k member
    rcases Finset.mem_insert.mp member with rfl | last
    · exact mem_keys.mpr ⟨value, present⟩
    · exact mem_keys.mpr ⟨value', Finset.mem_singleton.mp last ▸ present'⟩
  have two := Finset.sum_le_sum_of_subset (f := fun k => (d.get? k).elim 0 measure) within
  rwa [Finset.sum_pair different, present, present'] at two

end Dict

end DreamAifd
