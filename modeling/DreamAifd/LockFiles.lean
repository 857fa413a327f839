import DreamAifd.Dict

/-! Files with advisory exclusive locks. A name leads to an inode, an open file description is on one inode,
and at most one description holds the lock of an inode, until it is closed. Inodes and descriptions are
numbered, and no number is used again. -/
namespace DreamAifd

/-- `descriptions` has the inode of every description opened so far, and `closed` every call of `close`. -/
structure LockFiles where
  names : Dict String Nat
  inodes : Nat
  descriptions : List Nat
  holder : Dict Nat Nat
  closed : List Nat

namespace LockFiles

variable (f : LockFiles)

def empty : LockFiles := ⟨Dict.empty, 0, [], Dict.empty, []⟩

/-- Opens an existing file; its description is the next one. -/
def openExisting (path : String) : Option LockFiles :=
  (f.names.get? path).map fun inode => { f with descriptions := f.descriptions ++ [inode] }

/-- Opens a file, which is created if it is missing. -/
def create (path : String) : LockFiles :=
  match f.names.get? path with
  | some inode => { f with descriptions := f.descriptions ++ [inode] }
  | none => { f with
      names := f.names.set path f.inodes
      inodes := f.inodes + 1
      descriptions := f.descriptions ++ [f.inodes] }

/-- The lock for a description; none while another one holds it. -/
def lock (fd : Nat) : Option LockFiles :=
  (f.descriptions[fd]?).bind fun inode =>
    if (f.holder.get? inode).all (· = fd) then some { f with holder := f.holder.set inode fd } else none

/-- Closing a description releases what it holds. -/
def close (fd : Nat) : LockFiles := { f with
  holder := (f.descriptions[fd]?).elim f.holder fun inode =>
    if f.holder.get? inode = some fd then f.holder.erase inode else f.holder
  closed := f.closed ++ [fd] }

/-- Removes a name; the inode stays while descriptions are on it. -/
def remove (path : String) : Option LockFiles :=
  (f.names.get? path).map fun _ => { f with names := f.names.erase path }

variable {f} {path : String} {fd inode : Nat}

theorem openExisting_cases {g : LockFiles} (opened : f.openExisting path = some g) :
    ∃ inode, f.names.get? path = some inode ∧ g = { f with descriptions := f.descriptions ++ [inode] } := by
  obtain ⟨inode, named, rfl⟩ := Option.map_eq_some_iff.mp opened
  exact ⟨inode, named, rfl⟩

/-- Opening a file adds a description on the inode that has the name afterwards: the old one, or a new one. -/
theorem create_cases (f : LockFiles) (path : String) : ∃ inode inodes,
    f.create path = { f with names := f.names.set path inode, inodes, descriptions := f.descriptions ++ [inode] } ∧
    ((f.names.get? path = some inode ∧ inodes = f.inodes) ∨
      (f.names.get? path = none ∧ inode = f.inodes ∧ inodes = f.inodes + 1)) := by
  rw [create]
  cases named : f.names.get? path with
  | some inode => exact ⟨inode, f.inodes, by rw [Dict.set_get? _ named], .inl ⟨rfl, rfl⟩⟩
  | none => exact ⟨f.inodes, f.inodes + 1, rfl, .inr ⟨rfl, rfl, rfl⟩⟩

/-- The description that gets a lock is on an inode whose lock no other one holds. -/
theorem lock_cases {g : LockFiles} (locked : f.lock fd = some g) :
    ∃ inode, f.descriptions[fd]? = some inode ∧ (∀ other, f.holder.get? inode = some other → other = fd) ∧
      g = { f with holder := f.holder.set inode fd } := by
  obtain ⟨inode, described, rest⟩ := Option.bind_eq_some_iff.mp locked
  split at rest
  next free =>
    refine ⟨inode, described, fun other held => ?_, (Option.some.inj rest).symm⟩
    simpa [held] using free
  next => exact absurd rest (Option.some_ne_none g).symm

theorem remove_cases {g : LockFiles} (removed : f.remove path = some g) :
    g = { f with names := f.names.erase path } := by
  obtain ⟨inode, -, rfl⟩ := Option.map_eq_some_iff.mp removed
  rfl

/-- Closing a description leaves the locks of all others. -/
theorem close_holder {other : Nat} (held : f.holder.get? inode = some other) (different : other ≠ fd) :
    (f.close fd).holder.get? inode = some other := by
  cases described : f.descriptions[fd]? with
  | none => simpa [close, described] using held
  | some own =>
    simp only [close, described, Option.elim_some]
    split
    next holds =>
      have apart : inode ≠ own := by
        rintro rfl
        exact different (Option.some.inj (held.symm.trans holds))
      rw [Dict.get?_erase, if_neg apart, held]
    next => exact held

theorem mem_close {other : Nat} (different : other ≠ fd) : other ∈ (f.close fd).closed ↔ other ∈ f.closed := by
  simp [close, different]

end LockFiles

end DreamAifd
