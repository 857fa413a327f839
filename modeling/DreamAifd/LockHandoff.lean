import DreamAifd.AppendOnly
import DreamAifd.LockFiles

/-! Handing a file over under a lock. Its owner opens the lock file and takes the lock before anybody is told the
path, and closes the descriptor when the file is finished. A client that was told the path opens the lock file,
takes the lock in its turn, closes the descriptor and removes the lock file. -/
namespace DreamAifd.LockHandoff

open AppendOnly

inductive OwnerStage where
  | opened | locked | finished
  deriving DecidableEq, Repr

structure Owner where
  path : String
  fd : Nat
  stage : OwnerStage

inductive ClientStage where
  | opened | locked | closed | returned | failed
  deriving DecidableEq, Repr

def ClientStage.isOpen (stage : ClientStage) : Bool := stage = .opened || stage = .locked

def ClientStage.hadLock (stage : ClientStage) : Bool := stage = .locked || stage = .closed || stage = .returned

structure Client (κ : Type*) where
  key : κ
  path : String
  fd : Nat
  stage : ClientStage

structure State (κ : Type*) where
  files : LockFiles
  owner : κ → Option Owner
  clients : List (Client κ)

variable {κ : Type*}

/-- The owner's descriptor is open, and has the lock once it was taken, until the owner is finished. -/
structure OwnerKept (files : LockFiles) (owner : Owner) (inode : Nat) : Prop where
  described : files.descriptions[owner.fd]? = some inode
  held : owner.stage = .locked → files.holder.get? inode = some owner.fd
  closed : owner.fd ∈ files.closed ↔ owner.stage = .finished

/-- Where paths are `distinct`, a client is on the inode of its owner, and after the lock only behind a finished
one. -/
structure ClientKept (distinct : Bool) (files : LockFiles) (owner : Owner) (client : Client κ) (inode : Nat) :
    Prop where
  told : owner.stage ≠ .opened
  described : files.descriptions[client.fd]? = some inode
  shared : distinct = true → files.descriptions[owner.fd]? = some inode
  behind : distinct = true → client.stage.hadLock → owner.stage = .finished
  closed : client.fd ∈ files.closed ↔ client.stage.isOpen = false

/-- Who has which descriptor does not depend on the paths; only with `distinct` ones are the owners apart. -/
structure Invariant (distinct : Bool) (s : State κ) : Prop where
  numbered : ∀ path inode, s.files.names.get? path = some inode → inode < s.files.inodes
  described : ∀ (fd inode : Nat), s.files.descriptions[fd]? = some inode → inode < s.files.inodes
  bounded : ∀ fd ∈ s.files.closed, fd < s.files.descriptions.length
  closedOnce : s.files.closed.Nodup
  named : ∀ path inode, s.files.names.get? path = some inode →
    ∃ key owner, s.owner key = some owner ∧ owner.path = path ∧ s.files.descriptions[owner.fd]? = some inode
  owners : ∀ key owner, s.owner key = some owner → ∃ inode, OwnerKept s.files owner inode
  owned : ∀ key owner other owner', s.owner key = some owner → s.owner other = some owner' → key ≠ other →
    owner.fd ≠ owner'.fd
  apart : distinct = true → ∀ key owner other owner', s.owner key = some owner → s.owner other = some owner' →
    key ≠ other → owner.path ≠ owner'.path ∧ s.files.descriptions[owner.fd]? ≠ s.files.descriptions[owner'.fd]?
  clients : ∀ client ∈ s.clients, ∃ owner inode, s.owner client.key = some owner ∧
    ClientKept distinct s.files owner client inode
  different : ∀ client ∈ s.clients, ∀ key owner, s.owner key = some owner → client.fd ≠ owner.fd
  opened : (s.clients.map (·.fd)).Nodup
  covered : ∀ fd < s.files.descriptions.length,
    (∃ key owner, s.owner key = some owner ∧ owner.fd = fd) ∨ ∃ client ∈ s.clients, client.fd = fd

variable {distinct : Bool} {s : State κ} {files : LockFiles} {owner : Owner} {client : Client κ} {inode : Nat}

theorem invariant_initial : Invariant distinct (⟨.empty, fun _ => none, []⟩ : State κ) where
  numbered path inode named := by simp [LockFiles.empty] at named
  described fd inode described := by simp [LockFiles.empty] at described
  bounded fd closed := by simp [LockFiles.empty] at closed
  closedOnce := List.nodup_nil
  named path inode named := by simp [LockFiles.empty] at named
  owners key owner owns := by simp at owns
  owned key owner other owner' owns := by simp at owns
  apart _ key owner other owner' owns := by simp at owns
  clients client member := by simp at member
  different client member := by simp at member
  opened := List.nodup_nil
  covered fd bound := by simp [LockFiles.empty] at bound

/-- What a change of the files has to keep of an owner. -/
theorem OwnerKept.congr {files' : LockFiles} (kept : OwnerKept files owner inode)
    (described : files'.descriptions[owner.fd]? = some inode)
    (held : files.holder.get? inode = some owner.fd → files'.holder.get? inode = some owner.fd)
    (closed : owner.fd ∈ files'.closed ↔ owner.fd ∈ files.closed) : OwnerKept files' owner inode :=
  ⟨described, fun stage => held (kept.held stage), closed.trans kept.closed⟩

theorem ClientKept.congr {files' : LockFiles} (kept : ClientKept distinct files owner client inode)
    (described : files'.descriptions[client.fd]? = some inode)
    (shared : distinct = true → files'.descriptions[owner.fd]? = some inode)
    (closed : client.fd ∈ files'.closed ↔ client.fd ∈ files.closed) : ClientKept distinct files' owner client inode :=
  ⟨kept.told, described, shared, kept.behind, closed.trans kept.closed⟩

theorem Invariant.fresh_owner (invariant : Invariant distinct s) {key : κ} (owns : s.owner key = some owner) :
    owner.fd < s.files.descriptions.length := by
  obtain ⟨inode, kept⟩ := invariant.owners key owner owns
  exact (List.getElem?_eq_some_iff.mp kept.described).1

theorem Invariant.fresh_client (invariant : Invariant distinct s) (member : client ∈ s.clients) :
    client.fd < s.files.descriptions.length := by
  obtain ⟨owner, inode, -, kept⟩ := invariant.clients client member
  exact (List.getElem?_eq_some_iff.mp kept.described).1

/-- Two owners stay apart when another description is opened. -/
theorem Invariant.apart_concat (invariant : Invariant distinct s) (apart : distinct = true) {first second : κ}
    {owner₁ owner₂ : Owner} (owns₁ : s.owner first = some owner₁) (owns₂ : s.owner second = some owner₂)
    (different : first ≠ second) (inode : Nat) : owner₁.path ≠ owner₂.path ∧
      (s.files.descriptions ++ [inode])[owner₁.fd]? ≠ (s.files.descriptions ++ [inode])[owner₂.fd]? := by
  obtain ⟨inode₁, before₁⟩ := invariant.owners first owner₁ owns₁
  obtain ⟨inode₂, before₂⟩ := invariant.owners second owner₂ owns₂
  obtain ⟨paths, inodes⟩ := invariant.apart apart first owner₁ second owner₂ owns₁ owns₂ different
  refine ⟨paths, ?_⟩
  rw [before₁.described, before₂.described] at inodes
  rw [getElem?_append_old before₁.described _, getElem?_append_old before₂.described _]
  exact inodes

/-- The next description has not been closed. -/
theorem Invariant.unclosed_next (invariant : Invariant distinct s) : s.files.descriptions.length ∉ s.files.closed :=
  fun member => absurd (invariant.bounded _ member) (lt_irrefl _)

theorem Invariant.bounded_concat (invariant : Invariant distinct s) (inode : Nat) {fd : Nat}
    (member : fd ∈ s.files.closed) : fd < (s.files.descriptions ++ [inode]).length := by
  simp only [List.length_append, List.length_singleton]
  exact (invariant.bounded fd member).trans (Nat.lt_succ_self _)

/-- With one more description, a descriptor is the next one or somebody's as before. -/
theorem Invariant.covered_concat (invariant : Invariant distinct s) {inode fd : Nat}
    (bound : fd < (s.files.descriptions ++ [inode]).length) : fd = s.files.descriptions.length ∨
      (∃ key owner, s.owner key = some owner ∧ owner.fd = fd) ∨ ∃ client ∈ s.clients, client.fd = fd := by
  simp only [List.length_append, List.length_singleton] at bound
  by_cases below : fd < s.files.descriptions.length
  · exact .inr (invariant.covered fd below)
  · exact .inl (by omega)

/-- An owner with a path and an inode of its own is apart from those there were. -/
theorem Invariant.apart_fresh (invariant : Invariant distinct s) {path : String} {other : κ} {owner : Owner}
    (owns : s.owner other = some owner) (own : owner.path ≠ path) : path ≠ owner.path ∧
      (s.files.descriptions ++ [s.files.inodes])[s.files.descriptions.length]? ≠
        (s.files.descriptions ++ [s.files.inodes])[owner.fd]? := by
  obtain ⟨inode, before⟩ := invariant.owners other owner owns
  refine ⟨own.symm, ?_⟩
  rw [List.getElem?_concat_length, getElem?_append_old before.described _]
  exact fun same => (invariant.described _ _ before.described).ne (Option.some.inj same).symm

/-- A client that has had the lock is behind an owner that has finished. -/
theorem Invariant.finished (invariant : Invariant true s) (member : client ∈ s.clients) (had : client.stage.hadLock) :
    ∃ owner, s.owner client.key = some owner ∧ owner.stage = .finished := by
  obtain ⟨owner, inode, owns, kept⟩ := invariant.clients client member
  exact ⟨owner, owns, kept.behind rfl had⟩

/-- A descriptor that has not been closed is an unfinished owner's or an unfinished client's. -/
theorem Invariant.inUse (invariant : Invariant distinct s) {fd : Nat} (bound : fd < s.files.descriptions.length)
    (unclosed : fd ∉ s.files.closed) :
    (∃ key owner, s.owner key = some owner ∧ owner.fd = fd ∧ owner.stage ≠ .finished) ∨
      ∃ client ∈ s.clients, client.fd = fd ∧ client.stage.isOpen := by
  rcases invariant.covered fd bound with ⟨key, owner, owns, rfl⟩ | ⟨client, member, rfl⟩
  · obtain ⟨inode, kept⟩ := invariant.owners key owner owns
    exact .inl ⟨key, owner, owns, rfl, mt kept.closed.mpr unclosed⟩
  · obtain ⟨owner, inode, -, kept⟩ := invariant.clients client member
    exact .inr ⟨client, member, rfl, by simpa [kept.closed] using unclosed⟩

def State.setClient (s : State κ) (i : Nat) (client : Client κ) (files : LockFiles) : State κ :=
  { s with files, clients := s.clients.set i client }

/-- A client that was told the path opens the lock file its owner opened. -/
theorem invariant_clientOpens (invariant : Invariant distinct s) {key : κ} (owns : s.owner key = some owner)
    (told : owner.stage ≠ .opened) (opened : s.files.openExisting owner.path = some files) :
    Invariant distinct { s with
      files, clients := s.clients ++ [⟨key, owner.path, s.files.descriptions.length, .opened⟩] } := by
  obtain ⟨inode, named, rfl⟩ := LockFiles.openExisting_cases opened
  have shared : distinct = true → s.files.descriptions[owner.fd]? = some inode := by
    intro apart
    obtain ⟨other, owner', owns', samePath, described⟩ := invariant.named owner.path inode named
    have same : key = other := by
      by_contra different
      exact (invariant.apart apart key owner other owner' owns owns' different).1 samePath.symm
    subst same
    exact Option.some.inj (owns.symm.trans owns') ▸ described
  refine ⟨invariant.numbered, ?_, fun fd => invariant.bounded_concat inode, invariant.closedOnce,
    ?_, ?_, invariant.owned, ?_, ?_, ?_, ?_, ?_⟩
  · intro fd own described
    rcases getElem?_concat_cases described with before | ⟨-, rfl⟩
    · exact invariant.described fd own before
    · exact invariant.numbered owner.path inode named
  · intro path own isNamed
    obtain ⟨other, owner', owns', own, before⟩ := invariant.named path own isNamed
    exact ⟨other, owner', owns', own, getElem?_append_old before _⟩
  · intro other owner' owns'
    obtain ⟨own, before⟩ := invariant.owners other owner' owns'
    exact ⟨own, before.congr (getElem?_append_old before.described _) id Iff.rfl⟩
  · exact fun apart first owner₁ second owner₂ owns₁ owns₂ different =>
      invariant.apart_concat apart owns₁ owns₂ different inode
  · intro client member
    rcases List.mem_append.mp member with earlier | now
    · obtain ⟨owner', own, owns', before⟩ := invariant.clients client earlier
      exact ⟨owner', own, owns', before.congr (getElem?_append_old before.described _)
        (fun apart => getElem?_append_old (before.shared apart) _) Iff.rfl⟩
    · rw [List.mem_singleton.mp now]
      refine ⟨owner, inode, owns, told, by simp, fun apart => getElem?_append_old (shared apart) _, ?_, ?_⟩
      · simp [ClientStage.hadLock]
      · simpa [ClientStage.isOpen] using invariant.unclosed_next
  · intro client member other owner' owns'
    rcases List.mem_append.mp member with earlier | now
    · exact invariant.different client earlier other owner' owns'
    · rw [List.mem_singleton.mp now]
      exact (invariant.fresh_owner owns').ne'
  · rw [List.map_append, List.nodup_append]
    refine ⟨invariant.opened, List.nodup_singleton _, fun fd member last now same => ?_⟩
    obtain ⟨client, earlier, rfl⟩ := List.mem_map.mp member
    rw [List.map_singleton, List.mem_singleton] at now
    exact (invariant.fresh_client earlier).ne (same.trans now)
  · intro fd bound
    rcases invariant.covered_concat bound with now | opened | ⟨client, member, same⟩
    · exact .inr ⟨_, List.mem_append_right _ (List.mem_singleton_self _), now.symm⟩
    · exact .inl opened
    · exact .inr ⟨client, List.mem_append_left _ member, same⟩

/-- A client's step: what has to be shown of its own descriptor, and that all others are left. -/
theorem invariant_setClient (invariant : Invariant distinct s) {i : Nat} (present : s.clients[i]? = some client)
    {stage : ClientStage}
    (names : ∀ path inode, files.names.get? path = some inode → s.files.names.get? path = some inode)
    (inodes : files.inodes = s.files.inodes) (descriptions : files.descriptions = s.files.descriptions)
    (owners : ∀ key owner inode, s.owner key = some owner → OwnerKept s.files owner inode →
      OwnerKept files owner inode)
    (kept : ∀ owner inode, s.owner client.key = some owner → ClientKept distinct s.files owner client inode →
      ClientKept distinct files owner { client with stage } inode)
    (closed : ∀ fd ≠ client.fd, fd ∈ files.closed ↔ fd ∈ s.files.closed) (closedOnce : files.closed.Nodup) :
    Invariant distinct (s.setClient i { client with stage } files) := by
  have bound : i < s.clients.length := (List.getElem?_eq_some_iff.mp present).1
  have member : client ∈ s.clients := List.mem_of_getElem? present
  have back : ∀ other ∈ s.clients.set i { client with stage }, other = { client with stage } ∨
      other ∈ s.clients ∧ other.fd ≠ client.fd := by
    intro other now
    obtain ⟨j, inside⟩ := List.mem_iff_getElem?.mp now
    by_cases same : i = j
    · subst same
      rw [List.getElem?_set_self bound] at inside
      exact .inl (Option.some.inj inside).symm
    · rw [List.getElem?_set_ne same] at inside
      refine .inr ⟨List.mem_of_getElem? inside, fun sameFd => same ?_⟩
      have first : (s.clients.map (·.fd))[i]? = some client.fd := by simp [present]
      have second : (s.clients.map (·.fd))[j]? = some client.fd := by simp [inside, sameFd]
      exact (List.getElem?_inj (List.getElem?_eq_some_iff.mp first).1 invariant.opened).mp
        (first.trans second.symm)
  have sameFds : (s.clients.set i { client with stage }).map (·.fd) = s.clients.map (·.fd) := by
    apply List.ext_getElem?
    intro j
    by_cases same : i = j
    · subst same
      rw [List.getElem?_map, List.getElem?_set_self bound, List.getElem?_map, present]
      rfl
    · simp [List.getElem?_set_ne same]
  refine ⟨?_, ?_, ?_, closedOnce, ?_, ?_, invariant.owned, ?_, ?_, ?_, ?_, ?_⟩
  · intro path inode named
    exact inodes.symm ▸ invariant.numbered path inode (names path inode named)
  · intro fd inode described
    exact inodes.symm ▸ invariant.described fd inode (descriptions ▸ described)
  · intro fd inClosed
    by_cases same : fd = client.fd
    · rw [same]
      exact descriptions.symm ▸ invariant.fresh_client member
    · exact descriptions.symm ▸ invariant.bounded fd ((closed fd same).mp inClosed)
  · intro path inode named
    exact descriptions.symm ▸ invariant.named path inode (names path inode named)
  · intro key owner owns
    obtain ⟨inode, before⟩ := invariant.owners key owner owns
    exact ⟨inode, owners key owner inode owns before⟩
  · exact fun apart => descriptions.symm ▸ invariant.apart apart
  · intro other now
    rcases back other now with rfl | ⟨earlier, different⟩
    · obtain ⟨owner, inode, owns, before⟩ := invariant.clients client member
      exact ⟨owner, inode, owns, kept owner inode owns before⟩
    · obtain ⟨owner, inode, owns, before⟩ := invariant.clients other earlier
      exact ⟨owner, inode, owns, before.congr (descriptions.symm ▸ before.described)
        (fun apart => descriptions.symm ▸ before.shared apart) (closed other.fd different)⟩
  · intro other now key owner owns
    rcases back other now with rfl | ⟨earlier, -⟩
    · exact invariant.different client member key owner owns
    · exact invariant.different other earlier key owner owns
  · exact sameFds.symm ▸ invariant.opened
  · intro fd below
    rcases invariant.covered fd (descriptions ▸ below) with opened | ⟨other, earlier, rfl⟩
    · exact .inl opened
    · have inside : other.fd ∈ (s.clients.set i { client with stage }).map (·.fd) :=
        sameFds.symm ▸ List.mem_map.mpr ⟨other, earlier, rfl⟩
      obtain ⟨now, inNow, same⟩ := List.mem_map.mp inside
      exact .inr ⟨now, inNow, same⟩

/-- A client gets the lock only behind an owner that has finished. -/
theorem invariant_clientLocks (invariant : Invariant distinct s) {i : Nat} (present : s.clients[i]? = some client)
    (stage : client.stage = .opened) (locked : s.files.lock client.fd = some files) :
    Invariant distinct (s.setClient i { client with stage := .locked } files) := by
  obtain ⟨inode, described, free, rfl⟩ := LockFiles.lock_cases locked
  have member := List.mem_of_getElem? present
  refine invariant_setClient invariant present (fun _ _ => id) rfl rfl ?_ ?_ (fun _ _ => Iff.rfl)
    invariant.closedOnce
  · intro key owner own owns before
    refine before.congr before.described (fun held => ?_) Iff.rfl
    have different : own ≠ inode := by
      rintro rfl
      exact invariant.different client member key owner owns (free owner.fd held).symm
    exact (Dict.get?_set_ne _ _ different).trans held
  · intro owner own owns before
    refine ⟨before.told, before.described, before.shared, fun apart _ => ?_, ?_⟩
    · obtain rfl := Option.some.inj (described.symm.trans before.described)
      obtain ⟨own, kept⟩ := invariant.owners client.key owner owns
      obtain rfl := Option.some.inj ((before.shared apart).symm.trans kept.described)
      cases ownerStage : owner.stage with
      | opened => exact absurd ownerStage before.told
      | locked =>
        exact absurd (free owner.fd (kept.held ownerStage)).symm
          (invariant.different client member client.key owner owns)
      | finished => rfl
    · simpa [stage, ClientStage.isOpen] using before.closed

theorem invariant_clientCloses (invariant : Invariant distinct s) {i : Nat} (present : s.clients[i]? = some client)
    (isOpen : client.stage.isOpen) {stage : ClientStage} (ended : stage.isOpen = false)
    (had : stage.hadLock → client.stage.hadLock) :
    Invariant distinct (s.setClient i { client with stage } (s.files.close client.fd)) := by
  have member := List.mem_of_getElem? present
  refine invariant_setClient invariant present (fun _ _ => id) rfl rfl ?_ ?_
    (fun fd different => LockFiles.mem_close different) ?_
  · intro key owner inode owns before
    have different := (invariant.different client member key owner owns).symm
    exact before.congr before.described (fun held => LockFiles.close_holder held different)
      (LockFiles.mem_close different)
  · intro owner inode owns before
    refine ⟨before.told, before.described, before.shared, fun apart now => before.behind apart (had now), ?_⟩
    simp [LockFiles.close, ended]
  · obtain ⟨owner, inode, -, before⟩ := invariant.clients client member
    have unclosed : client.fd ∉ s.files.closed := by simp [before.closed, isOpen]
    exact List.nodup_append.mpr ⟨invariant.closedOnce, List.nodup_singleton _, fun a inClosed b last same =>
      unclosed (List.mem_singleton.mp last ▸ same ▸ inClosed)⟩

theorem invariant_clientRemoves (invariant : Invariant distinct s) {i : Nat} (present : s.clients[i]? = some client)
    (stage : client.stage = .closed) (removed : s.files.remove client.path = some files) :
    Invariant distinct (s.setClient i { client with stage := .returned } files) := by
  rw [LockFiles.remove_cases removed]
  refine invariant_setClient invariant present ?_ rfl rfl (fun _ _ _ _ before => before.congr before.described id
    Iff.rfl) ?_ (fun _ _ => Iff.rfl) invariant.closedOnce
  · intro path inode named
    rw [Dict.get?_erase] at named
    split at named
    next => cases named
    next => exact named
  · intro owner inode owns before
    refine ⟨before.told, before.described, before.shared, fun apart _ => before.behind apart ?_, ?_⟩
    · simp [stage, ClientStage.hadLock]
    · simpa [stage, ClientStage.isOpen] using before.closed

variable [DecidableEq κ]

def State.setOwner (s : State κ) (key : κ) (owner : Owner) (files : LockFiles) : State κ :=
  { s with files, owner := Function.update s.owner key (some owner) }

/-- A client is told its owner's path once the owner has the lock. Where paths are `distinct`, it is the owner's own. -/
inductive Step (distinct : Bool) (s : State κ) : State κ → Prop where
  | ownerOpens (key : κ) (path : String) (fresh : s.owner key = none)
      (own : distinct = true → ∀ other owner, s.owner other = some owner → owner.path ≠ path) :
      Step distinct s (s.setOwner key ⟨path, s.files.descriptions.length, .opened⟩ (s.files.create path))
  | ownerLocks (key : κ) (owner : Owner) (files : LockFiles) (owns : s.owner key = some owner)
      (stage : owner.stage = .opened) (locked : s.files.lock owner.fd = some files) :
      Step distinct s (s.setOwner key { owner with stage := .locked } files)
  | ownerCloses (key : κ) (owner : Owner) (owns : s.owner key = some owner) (stage : owner.stage = .locked) :
      Step distinct s (s.setOwner key { owner with stage := .finished } (s.files.close owner.fd))
  | clientOpens (key : κ) (owner : Owner) (files : LockFiles) (owns : s.owner key = some owner)
      (told : owner.stage ≠ .opened) (opened : s.files.openExisting owner.path = some files) :
      Step distinct s { s with
        files, clients := s.clients ++ [⟨key, owner.path, s.files.descriptions.length, .opened⟩] }
  | clientLocks (i : Nat) (client : Client κ) (files : LockFiles) (present : s.clients[i]? = some client)
      (stage : client.stage = .opened) (locked : s.files.lock client.fd = some files) :
      Step distinct s (s.setClient i { client with stage := .locked } files)
  | clientFails (i : Nat) (client : Client κ) (present : s.clients[i]? = some client)
      (stage : client.stage.isOpen) :
      Step distinct s (s.setClient i { client with stage := .failed } (s.files.close client.fd))
  | clientCloses (i : Nat) (client : Client κ) (present : s.clients[i]? = some client)
      (stage : client.stage = .locked) :
      Step distinct s (s.setClient i { client with stage := .closed } (s.files.close client.fd))
  | clientRemoves (i : Nat) (client : Client κ) (files : LockFiles) (present : s.clients[i]? = some client)
      (stage : client.stage = .closed) (removed : s.files.remove client.path = some files) :
      Step distinct s (s.setClient i { client with stage := .returned } files)

theorem setOwner_self (s : State κ) (key : κ) (owner : Owner) (files : LockFiles) :
    (s.setOwner key owner files).owner key = some owner := Function.update_self ..

theorem setOwner_ne (s : State κ) {key other : κ} (owner : Owner) (files : LockFiles) (different : other ≠ key) :
    (s.setOwner key owner files).owner other = s.owner other := Function.update_of_ne different ..

/-- What any two owners have to each other, a new owner has to have to the others. -/
theorem setOwner_pairwise {relation : Owner → Owner → Prop} {key : κ} {opened : Owner}
    (symmetric : ∀ {a b}, relation a b → relation b a)
    (new : ∀ other owner, other ≠ key → s.owner other = some owner → relation opened owner)
    (pairwise : ∀ first owner₁ second owner₂, s.owner first = some owner₁ → s.owner second = some owner₂ →
      first ≠ second → relation owner₁ owner₂)
    (first : κ) (owner₁ : Owner) (second : κ) (owner₂ : Owner)
    (now₁ : (s.setOwner key opened files).owner first = some owner₁)
    (now₂ : (s.setOwner key opened files).owner second = some owner₂) (different : first ≠ second) :
    relation owner₁ owner₂ := by
  by_cases isFirst : first = key
  · subst isFirst
    obtain rfl := Option.some.inj ((setOwner_self ..).symm.trans now₁)
    rw [setOwner_ne s _ _ different.symm] at now₂
    exact new second owner₂ different.symm now₂
  rw [setOwner_ne s _ _ isFirst] at now₁
  by_cases isSecond : second = key
  · subst isSecond
    obtain rfl := Option.some.inj ((setOwner_self ..).symm.trans now₂)
    exact symmetric (new first owner₁ isFirst now₁)
  · rw [setOwner_ne s _ _ isSecond] at now₂
    exact pairwise first owner₁ second owner₂ now₁ now₂ different

/-- An owner's step: what has to be shown of its own descriptor, and that all others are left. -/
theorem invariant_setOwner (invariant : Invariant distinct s) {key : κ} (owns : s.owner key = some owner)
    {stage : OwnerStage} (names : files.names = s.files.names) (inodes : files.inodes = s.files.inodes)
    (descriptions : files.descriptions = s.files.descriptions)
    (kept : ∀ inode, OwnerKept s.files owner inode → OwnerKept files { owner with stage } inode)
    (others : ∀ owner' : Owner, owner.fd ≠ owner'.fd →
      ∀ inode, OwnerKept s.files owner' inode → OwnerKept files owner' inode)
    (told : owner.stage ≠ .opened → stage ≠ .opened) (finished : owner.stage = .finished → stage = .finished)
    (closed : ∀ fd ≠ owner.fd, fd ∈ files.closed ↔ fd ∈ s.files.closed) (closedOnce : files.closed.Nodup) :
    Invariant distinct (s.setOwner key { owner with stage } files) := by
  have back : ∀ other owner', (s.setOwner key { owner with stage } files).owner other = some owner' →
      ∃ before, s.owner other = some before ∧ before.path = owner'.path ∧ before.fd = owner'.fd := by
    intro other owner' now
    by_cases same : other = key
    · subst same
      rw [setOwner_self] at now
      exact ⟨owner, owns, by rw [← Option.some.inj now], by rw [← Option.some.inj now]⟩
    · exact ⟨owner', (setOwner_ne s _ files same).symm.trans now, rfl, rfl⟩
  have forth : ∀ other before, s.owner other = some before → ∃ owner',
      (s.setOwner key { owner with stage } files).owner other = some owner' ∧ owner'.path = before.path ∧
        owner'.fd = before.fd ∧ (before.stage ≠ .opened → owner'.stage ≠ .opened) ∧
        (before.stage = .finished → owner'.stage = .finished) := by
    intro other before owned
    by_cases same : other = key
    · subst same
      obtain rfl := Option.some.inj (owns.symm.trans owned)
      exact ⟨_, setOwner_self .., rfl, rfl, told, finished⟩
    · exact ⟨before, (setOwner_ne s _ files same).trans owned, rfl, rfl, id, id⟩
  refine ⟨?_, ?_, ?_, closedOnce, ?_, ?_, ?_, ?_, ?_, ?_, invariant.opened, ?_⟩
  · intro path inode named
    exact inodes.symm ▸ invariant.numbered path inode (names ▸ named)
  · intro fd inode described
    exact inodes.symm ▸ invariant.described fd inode (descriptions ▸ described)
  · intro fd member
    by_cases same : fd = owner.fd
    · rw [same]
      exact descriptions.symm ▸ invariant.fresh_owner owns
    · exact descriptions.symm ▸ invariant.bounded fd ((closed fd same).mp member)
  · intro path inode named
    obtain ⟨other, before, owned, own, described⟩ := invariant.named path inode (names ▸ named)
    obtain ⟨owner', now, samePath, sameFd, -⟩ := forth other before owned
    exact ⟨other, owner', now, samePath.trans own, sameFd.symm ▸ descriptions.symm ▸ described⟩
  · intro other owner' now
    by_cases same : other = key
    · subst same
      rw [setOwner_self] at now
      obtain ⟨inode, before⟩ := invariant.owners other owner owns
      exact ⟨inode, Option.some.inj now ▸ kept inode before⟩
    · rw [setOwner_ne s _ files same] at now
      obtain ⟨inode, before⟩ := invariant.owners other owner' now
      exact ⟨inode, others owner' (invariant.owned key owner other owner' owns now (Ne.symm same)) inode before⟩
  · intro first owner₁ second owner₂ now₁ now₂ different
    obtain ⟨before₁, owned₁, -, fd₁⟩ := back first owner₁ now₁
    obtain ⟨before₂, owned₂, -, fd₂⟩ := back second owner₂ now₂
    rw [← fd₁, ← fd₂]
    exact invariant.owned first before₁ second before₂ owned₁ owned₂ different
  · intro apart first owner₁ second owner₂ now₁ now₂ different
    obtain ⟨before₁, owned₁, path₁, fd₁⟩ := back first owner₁ now₁
    obtain ⟨before₂, owned₂, path₂, fd₂⟩ := back second owner₂ now₂
    rw [← path₁, ← path₂, ← fd₁, ← fd₂]
    exact descriptions.symm ▸ invariant.apart apart first before₁ second before₂ owned₁ owned₂ different
  · intro client member
    obtain ⟨before, inode, owned, kept⟩ := invariant.clients client member
    obtain ⟨owner', now, -, sameFd, stillTold, stillFinished⟩ := forth client.key before owned
    refine ⟨owner', inode, now, stillTold kept.told, descriptions.symm ▸ kept.described, ?_, ?_, ?_⟩
    · exact fun apart => sameFd.symm ▸ descriptions.symm ▸ kept.shared apart
    · exact fun apart had => stillFinished (kept.behind apart had)
    · exact (closed client.fd (invariant.different client member key owner owns)).trans kept.closed
  · intro client member other owner' now
    obtain ⟨before, owned, -, sameFd⟩ := back other owner' now
    exact sameFd ▸ invariant.different client member other before owned
  · intro fd bound
    rcases invariant.covered fd (descriptions ▸ bound) with ⟨other, before, owned, same⟩ | opened
    · obtain ⟨owner', now, -, sameFd, -⟩ := forth other before owned
      exact .inl ⟨other, owner', now, sameFd.trans same⟩
    · exact .inr opened

theorem invariant_ownerLocks (invariant : Invariant distinct s) {key : κ} (owns : s.owner key = some owner)
    (stage : owner.stage = .opened) (locked : s.files.lock owner.fd = some files) :
    Invariant distinct (s.setOwner key { owner with stage := .locked } files) := by
  obtain ⟨inode, described, free, rfl⟩ := LockFiles.lock_cases locked
  refine invariant_setOwner invariant owns rfl rfl rfl ?_ ?_ ?_ ?_ (fun _ _ => Iff.rfl) invariant.closedOnce
  · intro own kept
    obtain rfl := Option.some.inj (described.symm.trans kept.described)
    refine ⟨described, fun _ => Dict.get?_set_self _ _ _, ?_⟩
    simpa [stage] using kept.closed
  · intro owner' apart own kept
    refine kept.congr kept.described (fun held => ?_) Iff.rfl
    have different : own ≠ inode := by
      rintro rfl
      exact apart (free owner'.fd held).symm
    exact (Dict.get?_set_ne _ _ different).trans held
  · exact fun _ => by simp
  · exact fun finished => by simp [stage] at finished

theorem invariant_ownerCloses (invariant : Invariant distinct s) {key : κ} (owns : s.owner key = some owner)
    (stage : owner.stage = .locked) :
    Invariant distinct (s.setOwner key { owner with stage := .finished } (s.files.close owner.fd)) := by
  obtain ⟨inode, kept⟩ := invariant.owners key owner owns
  have unclosed : owner.fd ∉ s.files.closed := by simp [kept.closed, stage]
  refine invariant_setOwner invariant owns rfl rfl rfl ?_ ?_ ?_ ?_ ?_ ?_
  · intro own before
    exact ⟨before.described, fun locked => by simp at locked, by simp [LockFiles.close]⟩
  · intro owner' apart own before
    exact before.congr before.described (fun held => LockFiles.close_holder held apart.symm)
      (LockFiles.mem_close apart.symm)
  · exact fun _ => by simp
  · exact fun _ => rfl
  · exact fun fd different => LockFiles.mem_close different
  · exact List.nodup_append.mpr ⟨invariant.closedOnce, List.nodup_singleton _, fun a member b last same =>
      unclosed (List.mem_singleton.mp last ▸ same ▸ member)⟩

/-- An owner opens a lock file, which is new where nobody has opened one with its path before. -/
theorem invariant_ownerOpens (invariant : Invariant distinct s) {key : κ} {path : String} (fresh : s.owner key = none)
    (own : distinct = true → ∀ other owner, s.owner other = some owner → owner.path ≠ path) :
    Invariant distinct (s.setOwner key ⟨path, s.files.descriptions.length, .opened⟩ (s.files.create path)) := by
  obtain ⟨inode, inodes, created, cases⟩ := s.files.create_cases path
  have numbered : inode < inodes ∧ s.files.inodes ≤ inodes := by
    rcases cases with ⟨named, rfl⟩ | ⟨-, rfl, rfl⟩
    · exact ⟨invariant.numbered path inode named, le_rfl⟩
    · exact ⟨Nat.lt_succ_self _, Nat.le_succ _⟩
  have new : distinct = true → inode = s.files.inodes := by
    intro apart
    rcases cases with ⟨named, -⟩ | ⟨-, rfl, -⟩
    · obtain ⟨other, owner, owns, same, -⟩ := invariant.named path inode named
      exact absurd same (own apart other owner owns)
    · rfl
  rw [created]
  set opened : Owner := ⟨path, s.files.descriptions.length, .opened⟩ with openedOwner
  have last : (s.files.descriptions ++ [inode])[s.files.descriptions.length]? = some inode :=
    List.getElem?_concat_length
  set t := s.setOwner key opened { s.files with
    names := s.files.names.set path inode, inodes, descriptions := s.files.descriptions ++ [inode] } with opens
  have old : ∀ other owner, other ≠ key → t.owner other = some owner → s.owner other = some owner :=
    fun other owner different now => (setOwner_ne s _ _ different).symm.trans now
  have kept : ∀ other owner, s.owner other = some owner → other ≠ key := by
    rintro other owner owns rfl
    rw [fresh] at owns
    cases owns
  refine ⟨?_, ?_, fun fd => invariant.bounded_concat _, invariant.closedOnce,
    ?_, ?_, ?_, ?_, ?_, ?_, invariant.opened, ?_⟩
  · intro name own named
    rw [show t.files.names = s.files.names.set path inode from rfl, Dict.get?_set] at named
    split at named
    next => exact Option.some.inj named ▸ numbered.1
    next => exact (invariant.numbered name own named).trans_le numbered.2
  · intro fd own described
    rcases getElem?_concat_cases described with before | ⟨-, rfl⟩
    · exact (invariant.described fd own before).trans_le numbered.2
    · exact numbered.1
  · intro name own named
    rw [show t.files.names = s.files.names.set path inode from rfl, Dict.get?_set] at named
    split at named
    next same =>
      subst same
      exact ⟨key, opened, setOwner_self .., rfl, Option.some.inj named ▸ last⟩
    next =>
      obtain ⟨other, owner, owns, same, described⟩ := invariant.named name own named
      exact ⟨other, owner, (setOwner_ne s _ _ (kept other owner owns)).trans owns, same,
        getElem?_append_old described _⟩
  · intro other owner now
    by_cases same : other = key
    · subst same
      obtain rfl := Option.some.inj ((setOwner_self ..).symm.trans now)
      refine ⟨inode, last, fun locked => by simp [openedOwner] at locked, ?_⟩
      exact ⟨fun member => absurd member invariant.unclosed_next, fun finished => by simp [openedOwner] at finished⟩
    · obtain ⟨own, before⟩ := invariant.owners other owner (old other owner same now)
      exact ⟨own, before.congr (getElem?_append_old before.described _) id Iff.rfl⟩
  · exact setOwner_pairwise Ne.symm (fun other owner _ owns => (invariant.fresh_owner owns).ne') invariant.owned
  · intro apart
    obtain rfl := new apart
    exact setOwner_pairwise (fun apart => apart.imp Ne.symm Ne.symm)
      (fun other owner _ owns => invariant.apart_fresh owns (own apart other owner owns))
      (fun _ _ _ _ owns₁ owns₂ different => invariant.apart_concat apart owns₁ owns₂ different _)
  · intro client member
    obtain ⟨owner, own, owns, before⟩ := invariant.clients client member
    exact ⟨owner, own, (setOwner_ne s _ _ (kept _ _ owns)).trans owns,
      before.congr (getElem?_append_old before.described _)
        (fun apart => getElem?_append_old (before.shared apart) _) Iff.rfl⟩
  · intro client member other owner now
    by_cases same : other = key
    · subst same
      obtain rfl := Option.some.inj ((setOwner_self ..).symm.trans now)
      exact (invariant.fresh_client member).ne
    · exact invariant.different client member other owner (old other owner same now)
  · intro fd bound
    rcases invariant.covered_concat bound with now | ⟨other, owner, owns, same⟩ | client
    · exact .inl ⟨key, opened, setOwner_self .., now.symm⟩
    · exact .inl ⟨other, owner, (setOwner_ne s _ _ (kept other owner owns)).trans owns, same⟩
    · exact .inr client

theorem invariant_step {t : State κ} (invariant : Invariant distinct s) (stepped : Step distinct s t) :
    Invariant distinct t := by
  cases stepped with
  | ownerOpens key path fresh own => exact invariant_ownerOpens invariant fresh own
  | ownerLocks key owner files owns stage locked => exact invariant_ownerLocks invariant owns stage locked
  | ownerCloses key owner owns stage => exact invariant_ownerCloses invariant owns stage
  | clientOpens key owner files owns told opened => exact invariant_clientOpens invariant owns told opened
  | clientLocks i client files present stage locked => exact invariant_clientLocks invariant present stage locked
  | clientFails i client present stage =>
    exact invariant_clientCloses invariant present stage rfl (by simp [ClientStage.hadLock])
  | clientCloses i client present stage =>
    exact invariant_clientCloses invariant present (by simp [stage, ClientStage.isOpen]) rfl
      (by simp [stage, ClientStage.hadLock])
  | clientRemoves i client files present stage removed =>
    exact invariant_clientRemoves invariant present stage removed

end DreamAifd.LockHandoff
