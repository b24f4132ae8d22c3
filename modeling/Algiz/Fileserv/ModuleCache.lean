/-
  `ModuleCache`: threads look up modules, remove them, and let go of the locks they were given.

  Every operation on a mutex, every look-up and every call of the loader is a step of its own, so
  the threads interleave freely. A step that uses an `Item` that is destroyed, destroys one whose
  mutex is in use, unlocks a mutex that it has not locked, or closes a handle that is not open goes
  to `Place.fault`. `dlopen` counts: a library that is opened twice has one handle, and it stays
  open until it has been closed twice. The clock need not be steady, and `lastUsed`, which is
  written under the shared lock, is written at once.

  The property is that while a thread holds a lock that `operator[]` gave it, its `Item` is neither
  closed nor destroyed (`SparesGiven`), and that the handle its function was looked up in is open
  (`GivenOpen`).
-/
import Mathlib.Logic.Function.Basic
import Algiz.Lib.SharedMutex

namespace Algiz.Plugins

open Algiz.Lib

/-- `ModuleCache::Item`. `closed` says whether `dlclose` was called for it; nothing reads it. -/
structure Item (T Handle Fn : Type*) where
  lastUsed : Int
  handle : Handle
  function : Fn
  mutex : SharedMutex T := {}
  closed : Bool := false

/-- What `operator[]` returns: the function, and the `shared_lock` on its item's mutex. -/
structure Pair (Fn : Type*) where
  item : Nat
  function : Fn
  deriving DecidableEq

/-- How a thread holds `cacheMutex`. -/
inductive Mode where
  | shared | unique
  deriving DecidableEq

/-- What follows once an item is out of the cache: `makeSpace` is over and the module is loaded, or
    `remove` returns. -/
inductive After (Path : Type*) where
  | load (path : Path)
  | finish

/-- Where a thread stands: what it does next. An entry of the cache is a path and the number of its
    `Item`. -/
inductive Place (Path Handle : Type*) where
  /-- in code of its own -/
  | outside
  /-- `operator[]`: `std::shared_lock lock{cacheMutex}` -/
  | lockShared (path : Path)
  /-- `cache.find(path)`, for the first time -/
  | find (path : Path)
  /-- the end of the block, if there was nothing -/
  | unlockShared (path : Path)
  /-- `std::unique_lock lock{cacheMutex}` -/
  | lockUnique (path : Path)
  /-- `cache.find(path)`, for the second time -/
  | findAgain (path : Path)
  /-- `makeSpace`, up to the item it closes -/
  | makeSpace (path : Path)
  /-- `iter->second.lastUsed = std::chrono::system_clock::now()` -/
  | stamp (mode : Mode) (item : Nat)
  /-- `iter->second.pair()` -/
  | pair (mode : Mode) (item : Nat)
  /-- `cacheMutex` is unlocked, as the function returns or throws -/
  | leave (mode : Mode)
  /-- `remove`: `std::unique_lock lock{cacheMutex}` -/
  | lockRemove (path : Path)
  /-- `cache.find(path)` -/
  | findRemoved (path : Path)
  /-- `Item::close`: `std::unique_lock lock{mutex}` -/
  | lockItem (entry : Path × Nat) (after : After Path)
  | dlclose (entry : Path × Nat) (after : After Path)
  | unlockItem (entry : Path × Nat) (after : After Path)
  /-- `cache.erase(iter)` -/
  | erase (entry : Path × Nat) (after : After Path)
  | dlopen (path : Path)
  /-- `cache.try_emplace(path, handle)` -/
  | construct (path : Path) (handle : Handle)
  | fault

/-- The cache, the loader and the threads. -/
structure ModuleCache (T Path Handle Fn : Type*) where
  maxSize : Nat
  cacheMutex : SharedMutex T := {}
  cache : List (Path × Nat) := []
  /-- the `Item`s that are constructed and not destroyed -/
  items : Nat → Option (Item T Handle Fn) := fun _ => none
  /-- how many `Item`s have been constructed -/
  made : Nat := 0
  /-- how often a handle was returned by `dlopen` and not yet closed -/
  opened : Handle → Nat := fun _ => 0
  place : T → Place Path Handle := fun _ => .outside
  /-- the locks that a thread was given and holds -/
  given : T → List (Pair Fn) := fun _ => []

/-- What a step finds out: the time, the least element that `min_element` returns, and what
    `dlopen` and `dlsym` answer. -/
structure Answers (Path Handle Fn : Type*) where
  now : Int
  least : Path × Nat
  handle : Option Handle
  function : Option Fn

inductive CacheEvent (T Path Handle Fn : Type*) where
  /-- a thread calls `operator[]` -/
  | lookUp (t : T) (path : Path)
  /-- a thread calls `remove` -/
  | remove (t : T) (path : Path)
  /-- a thread destroys a lock it was given -/
  | release (t : T) (pair : Pair Fn)
  /-- a thread goes on in one of the calls -/
  | advance (t : T) (answers : Answers Path Handle Fn)

variable {T Path Handle Fn : Type*}

namespace ModuleCache

variable [DecidableEq T]

/-- Thread `t` gets to a place. -/
def go (s : ModuleCache T Path Handle Fn) (t : T) (place : Place Path Handle) :
    ModuleCache T Path Handle Fn :=
  { s with place := Function.update s.place t place }

theorem go_self (s : ModuleCache T Path Handle Fn) (t : T) : s.go t (s.place t) = s := by
  unfold go
  rw [Function.update_eq_self]

def setItem (s : ModuleCache T Path Handle Fn) (n : Nat) (item : Item T Handle Fn) :
    ModuleCache T Path Handle Fn :=
  { s with items := Function.update s.items n (some item) }

/-- The destructor of a lock on `cacheMutex`. -/
def unlockCache (s : ModuleCache T Path Handle Fn) (mode : Mode) (t : T)
    (place : Place Path Handle) : ModuleCache T Path Handle Fn :=
  match mode with
  | .shared =>
    match s.cacheMutex.unlockShared t with
    | some m => { s with cacheMutex := m }.go t place
    | none => s.go t .fault
  | .unique =>
    match s.cacheMutex.unlock t with
    | some m => { s with cacheMutex := m }.go t place
    | none => s.go t .fault

/-- No entry was used longer ago. Every entry has its `Item` (`Safe.entries`). -/
def LeastUsed (s : ModuleCache T Path Handle Fn) (entry : Path × Nat) : Prop :=
  entry ∈ s.cache ∧ ∀ other ∈ s.cache,
    ((s.items entry.2).map Item.lastUsed).getD 0 ≤ ((s.items other.2).map Item.lastUsed).getD 0

/-- An `Item` is used: undefined once it is destroyed. -/
def withItem (s : ModuleCache T Path Handle Fn) (t : T) (n : Nat)
    (k : Item T Handle Fn → Option (ModuleCache T Path Handle Fn)) :
    Option (ModuleCache T Path Handle Fn) :=
  match s.items n with
  | some item => k item
  | none => some (s.go t .fault)

theorem withItem_some {s : ModuleCache T Path Handle Fn} {n : Nat} {item : Item T Handle Fn}
    (hitem : s.items n = some item) (t : T)
    (k : Item T Handle Fn → Option (ModuleCache T Path Handle Fn)) :
    s.withItem t n k = k item := by
  unfold withItem
  rw [hitem]

variable [DecidableEq Path]

instance (s : ModuleCache T Path Handle Fn) (entry : Path × Nat) : Decidable (s.LeastUsed entry) :=
  inferInstanceAs (Decidable (_ ∧ _))

/-- `cache.find(path)` -/
def entry (s : ModuleCache T Path Handle Fn) (path : Path) : Option (Path × Nat) :=
  s.cache.find? (·.1 = path)

omit [DecidableEq T] in
theorem entry_mem {s : ModuleCache T Path Handle Fn} {path : Path} {entry : Path × Nat}
    (h : s.entry path = some entry) : entry ∈ s.cache := List.mem_of_find?_eq_some h

variable [DecidableEq Handle]

/-- The next step of a thread in one of the calls; `none` while it blocks. -/
def advance (s : ModuleCache T Path Handle Fn) (t : T) (answers : Answers Path Handle Fn) :
    Option (ModuleCache T Path Handle Fn) :=
  match s.place t with
  | .outside | .fault => none
  | .lockShared path =>
    (s.cacheMutex.lockShared t).map fun m => { s with cacheMutex := m }.go t (.find path)
  | .find path =>
    match s.entry path with
    | some entry => some (s.go t (.stamp .shared entry.2))
    | none => some (s.go t (.unlockShared path))
  | .unlockShared path => some (s.unlockCache .shared t (.lockUnique path))
  | .lockUnique path =>
    (s.cacheMutex.lock t).map fun m => { s with cacheMutex := m }.go t (.findAgain path)
  | .findAgain path =>
    match s.entry path with
    | some entry => some (s.go t (.stamp .unique entry.2))
    | none =>
      if s.maxSize ≤ s.cache.length then some (s.go t (.makeSpace path))
      else some (s.go t (.dlopen path))
  | .makeSpace path =>
    if s.cache = [] ∨ s.cache.length < s.maxSize then some (s.go t (.dlopen path))
    else if s.LeastUsed answers.least then
      some (s.go t (.lockItem answers.least (.load path)))
    else none
  | .stamp mode n =>
    s.withItem t n fun item =>
      some ((s.setItem n { item with lastUsed := answers.now }).go t (.pair mode n))
  | .pair mode n =>
    s.withItem t n fun item =>
      (item.mutex.lockShared t).map fun m =>
        ({ s.setItem n { item with mutex := m } with
          given := Function.update s.given t (⟨n, item.function⟩ :: s.given t) }).go t (.leave mode)
  | .leave mode => some (s.unlockCache mode t .outside)
  | .lockRemove path =>
    (s.cacheMutex.lock t).map fun m => { s with cacheMutex := m }.go t (.findRemoved path)
  | .findRemoved path =>
    match s.entry path with
    | some entry => some (s.go t (.lockItem entry .finish))
    | none => some (s.go t (.leave .unique))
  | .lockItem entry after =>
    s.withItem t entry.2 fun item =>
      (item.mutex.lock t).map fun m =>
        (s.setItem entry.2 { item with mutex := m }).go t (.dlclose entry after)
  | .dlclose entry after =>
    s.withItem t entry.2 fun item =>
      if s.opened item.handle = 0 then some (s.go t .fault)
      else
        some ({ s.setItem entry.2 { item with closed := true } with
          opened := Function.update s.opened item.handle (s.opened item.handle - 1) }.go t
            (.unlockItem entry after))
  | .unlockItem entry after =>
    s.withItem t entry.2 fun item =>
      match item.mutex.unlock t with
      | some m => some ((s.setItem entry.2 { item with mutex := m }).go t (.erase entry after))
      | none => some (s.go t .fault)
  | .erase entry after =>
    s.withItem t entry.2 fun item =>
      if item.mutex.Free then
        some ({ s with
          cache := s.cache.erase entry
          items := Function.update s.items entry.2 none }.go t
            (match after with
              | .load path => .dlopen path
              | .finish => .leave .unique))
      else some (s.go t .fault)
  | .dlopen path =>
    match answers.handle with
    | some handle =>
      some ({ s with
        opened := Function.update s.opened handle (s.opened handle + 1) }.go t
          (.construct path handle))
    | none => some (s.go t (.leave .unique))
  | .construct path handle =>
    -- without the symbol the constructor throws, and the handle stays open
    match answers.function with
    | some function =>
      some ({ s.setItem s.made
          { lastUsed := answers.now, handle := handle, function := function } with
        cache := (path, s.made) :: s.cache
        made := s.made + 1 }.go t (.pair .unique s.made))
    | none => some (s.go t (.leave .unique))

variable [DecidableEq Fn]

/-- `~shared_lock` -/
def release (s : ModuleCache T Path Handle Fn) (t : T) (pair : Pair Fn) :
    Option (ModuleCache T Path Handle Fn) :=
  s.withItem t pair.item fun item =>
    match item.mutex.unlockShared t with
    | some m =>
      some { s.setItem pair.item { item with mutex := m } with
        given := Function.update s.given t ((s.given t).erase pair) }
    | none => some (s.go t .fault)

/-- One step; `none` if it cannot be taken. -/
def step (s : ModuleCache T Path Handle Fn) :
    CacheEvent T Path Handle Fn → Option (ModuleCache T Path Handle Fn)
  | .lookUp t path =>
    match s.place t with
    | .outside => some (s.go t (.lockShared path))
    | _ => none
  | .remove t path =>
    match s.place t with
    | .outside => some (s.go t (.lockRemove path))
    | _ => none
  | .release t pair =>
    match s.place t with
    | .outside => if pair ∈ s.given t then s.release t pair else none
    | _ => none
  | .advance t answers => s.advance t answers

end ModuleCache

/-! ## The property -/

/-- The item whose handle the step closes, or that it destroys. -/
def Place.ends : Place Path Handle → Option Nat
  | .dlclose entry _ | .erase entry _ => some entry.2
  | _ => none

/-- The step neither closes nor destroys an item whose lock some thread holds. -/
def SparesGiven (s : ModuleCache T Path Handle Fn) : CacheEvent T Path Handle Fn → Prop
  | .advance t _ => ∀ n, (s.place t).ends = some n → ∀ u, ∀ pair ∈ s.given u, pair.item ≠ n
  | .lookUp .. | .remove .. | .release .. => True

/-- The functions that the threads hold the locks of are those of items that are there, and of
    handles that are open. Nothing that is destroyed was used, and no handle closed too often. -/
structure GivenOpen (s : ModuleCache T Path Handle Fn) : Prop where
  given : ∀ t, ∀ pair ∈ s.given t, ∃ item, s.items pair.item = some item ∧
    item.function = pair.function ∧ 0 < s.opened item.handle
  noFault : ∀ t, s.place t ≠ .fault

end Algiz.Plugins
