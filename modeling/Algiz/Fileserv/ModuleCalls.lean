/-
  The calls of one thread to `ModuleCache`, one after the other.

  `View` is what a call is about: the cache, its items without their mutexes, the handles that are
  open, and the locks that the thread was given. On it `operator[]` and `remove` are functions. They
  are what the steps of `ModuleCache.advance` come to: `Place.rest` says what is left to do at each
  place, and a step does a part of it (`advance_rest`). So a call that returns has done what the
  function says (`get_view`).
-/
import Algiz.Lib.Scan
import Algiz.Fileserv.ModuleLifetime

namespace Algiz.Plugins

open Algiz.Lib ModuleCache

/-- What the clock, `dlopen` and `dlsym` answer during a call. -/
structure Load (Handle Fn : Type*) where
  now : Int
  handle : Option Handle
  function : Option Fn

/-- The cache, without its mutexes. -/
@[ext] structure View (Path Handle Fn : Type*) where
  cache : List (Path × Nat)
  /-- `lastUsed`, `handle` and `function` of the items -/
  items : Nat → Option (Int × Handle × Fn) := fun _ => none
  made : Nat := 0
  opened : Handle → Nat := fun _ => 0
  /-- the locks that the thread was given and holds -/
  given : List (Pair Fn) := []

variable {T Path Handle Fn : Type*}

/-! ## The calls as functions -/

namespace View

/-- An item is used now. -/
def stamp (v : View Path Handle Fn) (n : Nat) (now : Int) : View Path Handle Fn :=
  { v with items := Function.update v.items n ((v.items n).map fun item => (now, item.2)) }

/-- `Item::pair` -/
def pair (v : View Path Handle Fn) (n : Nat) : View Path Handle Fn :=
  match v.items n with
  | some item => { v with given := ⟨n, item.2.2⟩ :: v.given }
  | none => v

/-- `lastUsed` of an entry. Every entry has its item (`Tidy.stored`). -/
def lastUsed (v : View Path Handle Fn) (entry : Path × Nat) : Int :=
  ((v.items entry.2).map Prod.fst).getD 0

/-- `std::ranges::min_element`, for a cache that is not empty: `path` is not used. -/
def least (v : View Path Handle Fn) (path : Path) : Path × Nat :=
  match v.cache with
  | [] => (path, 0)
  | first :: rest => scan (fun best next => v.lastUsed next < v.lastUsed best) first rest

section

variable [DecidableEq Handle]

/-- `dlopen`, once it has returned a handle. -/
def dlopen (v : View Path Handle Fn) (handle : Handle) : View Path Handle Fn :=
  { v with opened := Function.update v.opened handle (v.opened handle + 1) }

/-- `Item::close` -/
def close (v : View Path Handle Fn) (entry : Path × Nat) : View Path Handle Fn :=
  match v.items entry.2 with
  | some item =>
    { v with opened := Function.update v.opened item.2.1 (v.opened item.2.1 - 1) }
  | none => v

end

/-- `try_emplace` and `pair`. -/
def construct (v : View Path Handle Fn) (path : Path) (handle : Handle) (load : Load Handle Fn) :
    View Path Handle Fn :=
  match load.function with
  | some function =>
    { v with
      cache := (path, v.made) :: v.cache
      items := Function.update v.items v.made (some (load.now, handle, function))
      made := v.made + 1 }.pair v.made
  -- "Couldn't find algizModule symbol"
  | none => v

variable [DecidableEq Path]

/-- `cache.find(path)` -/
def entry (v : View Path Handle Fn) (path : Path) : Option (Path × Nat) :=
  v.cache.find? (·.1 = path)

/-- `cache.erase(iter)` -/
def erase (v : View Path Handle Fn) (entry : Path × Nat) : View Path Handle Fn :=
  { v with cache := v.cache.erase entry, items := Function.update v.items entry.2 none }

variable [DecidableEq Handle]

/-- `operator[]` from `dlopen` on. -/
def load (v : View Path Handle Fn) (path : Path) (load : Load Handle Fn) : View Path Handle Fn :=
  match load.handle with
  | some handle => (v.dlopen handle).construct path handle load
  -- "Couldn't dlopen"
  | none => v

/-- `makeSpace` -/
def makeSpace (v : View Path Handle Fn) (maxSize : Nat) (path : Path) : View Path Handle Fn :=
  if v.cache = [] ∨ v.cache.length < maxSize then v
  else (v.close (v.least path)).erase (v.least path)

/-- `operator[]` -/
def get (v : View Path Handle Fn) (maxSize : Nat) (path : Path) (load : Load Handle Fn) :
    View Path Handle Fn :=
  match v.entry path with
  | some entry => (v.stamp entry.2 load.now).pair entry.2
  | none => (if maxSize ≤ v.cache.length then v.makeSpace maxSize path else v).load path load

/-- `remove` -/
def remove (v : View Path Handle Fn) (path : Path) : View Path Handle Fn :=
  match v.entry path with
  | some entry => (v.close entry).erase entry
  | none => v

end View

section Found

variable {v : View Path Handle Fn} {path : Path}

theorem View.entry_mem [DecidableEq Path] {entry : Path × Nat} (h : v.entry path = some entry) :
    entry ∈ v.cache := List.mem_of_find?_eq_some h

theorem View.least_mem (h : v.cache ≠ []) (path : Path) : v.least path ∈ v.cache := by
  unfold View.least
  cases hcache : v.cache with
  | nil => exact absurd hcache h
  | cons first rest => exact scan_mem

theorem View.least_congr (h : v.cache ≠ []) (path path' : Path) :
    v.least path = v.least path' := by
  unfold View.least
  cases hcache : v.cache with
  | nil => exact absurd hcache h
  | cons first rest => rfl

/-- No entry was used longer ago. -/
theorem View.lastUsed_least (path : Path) {entry : Path × Nat} (h : entry ∈ v.cache) :
    v.lastUsed (v.least path) ≤ v.lastUsed entry := by
  unfold View.least
  cases hcache : v.cache with
  | nil =>
    rw [hcache] at h
    exact absurd h List.not_mem_nil
  | cons first rest =>
    rw [hcache] at h
    exact scan_least v.lastUsed entry h

variable [DecidableEq Path] [DecidableEq Handle]

/-- Taking an item out gives no lock. -/
theorem View.drop_given (v : View Path Handle Fn) (entry : Path × Nat) :
    ((v.close entry).erase entry).given = v.given := by
  unfold View.erase View.close
  split <;> rfl

theorem View.makeSpace_room {maxSize : Nat} (h : v.cache = [] ∨ v.cache.length < maxSize) :
    v.makeSpace maxSize path = v := if_pos h

theorem View.makeSpace_given (v : View Path Handle Fn) (maxSize : Nat) (path : Path) :
    (v.makeSpace maxSize path).given = v.given := by
  unfold View.makeSpace
  split
  · rfl
  · exact v.drop_given _

theorem View.get_found {entry : Path × Nat} (h : v.entry path = some entry) (maxSize : Nat)
    (load : Load Handle Fn) :
    v.get maxSize path load = (v.stamp entry.2 load.now).pair entry.2 := by
  unfold View.get
  rw [h]

/-- Where there is room, `makeSpace` leaves everything as it is. -/
theorem View.get_missing (h : v.entry path = none) (maxSize : Nat) (load : Load Handle Fn) :
    v.get maxSize path load = (v.makeSpace maxSize path).load path load := by
  unfold View.get
  rw [h]
  dsimp only
  split
  · rfl
  · rename_i hroom
    rw [View.makeSpace_room (.inr (Nat.not_le.mp hroom))]

omit [DecidableEq Path] in
theorem View.load_none (v : View Path Handle Fn) (path : Path) {load : Load Handle Fn}
    (h : load.handle = none) : v.load path load = v := by
  unfold View.load
  rw [h]

omit [DecidableEq Path] in
theorem View.load_some (v : View Path Handle Fn) (path : Path) {load : Load Handle Fn}
    {handle : Handle} (h : load.handle = some handle) :
    v.load path load = (v.dlopen handle).construct path handle load := by
  unfold View.load
  rw [h]

omit [DecidableEq Path] [DecidableEq Handle] in
theorem View.construct_none (v : View Path Handle Fn) (path : Path) {load : Load Handle Fn}
    (h : load.function = none) (handle : Handle) : v.construct path handle load = v := by
  unfold View.construct
  rw [h]

theorem View.remove_found {entry : Path × Nat} (h : v.entry path = some entry) :
    v.remove path = (v.close entry).erase entry := by
  unfold View.remove
  rw [h]

theorem View.remove_missing (h : v.entry path = none) : v.remove path = v := by
  unfold View.remove
  rw [h]

end Found

/-! ## The calls as steps -/

namespace ModuleCache

/-- What the calls of thread `t` are about. -/
def view (s : ModuleCache T Path Handle Fn) (t : T) : View Path Handle Fn where
  cache := s.cache
  items n := (s.items n).map fun item => (item.lastUsed, item.handle, item.function)
  made := s.made
  opened := s.opened
  given := s.given t

variable [DecidableEq T] [DecidableEq Path] [DecidableEq Handle]

/-- The answers that a thread gets at its place. -/
def answers (s : ModuleCache T Path Handle Fn) (t : T) (path : Path) (load : Load Handle Fn) :
    Answers Path Handle Fn :=
  ⟨load.now, (s.view t).least path, load.handle, load.function⟩

/-- A thread goes on until its call is over; `none` if it blocks on the way. -/
def finish (t : T) (path : Path) (load : Load Handle Fn) :
    Nat → ModuleCache T Path Handle Fn → Option (ModuleCache T Path Handle Fn)
  | 0, _ => none
  | fuel + 1, s =>
    match s.place t with
    | .outside => some s
    | _ => (s.advance t (s.answers t path load)).bind (finish t path load fuel)

variable [DecidableEq Fn]

/-- `operator[]`, with no other thread in between. It takes fourteen steps at most. -/
def get (s : ModuleCache T Path Handle Fn) (t : T) (path : Path) (load : Load Handle Fn) :
    Option (ModuleCache T Path Handle Fn) :=
  (s.step (.lookUp t path)).bind (finish t path load 15)

/-- `remove`, with no other thread in between. It uses no answers. -/
def remove (s : ModuleCache T Path Handle Fn) (t : T) (path : Path) :
    Option (ModuleCache T Path Handle Fn) :=
  (s.step (.remove t path)).bind (finish t path ⟨0, none, none⟩ 8)

end ModuleCache

/-! ## What is left to do -/

section Rest

variable [DecidableEq Path] [DecidableEq Handle]

/-- What a call does once the item is out of the cache. -/
def After.rest (load : Load Handle Fn) : After Path → View Path Handle Fn → View Path Handle Fn
  | .load path, v => v.load path load
  | .finish, v => v

/-- What a call still does from a place on. -/
def Place.rest (maxSize : Nat) (load : Load Handle Fn) :
    Place Path Handle → View Path Handle Fn → View Path Handle Fn
  | .outside, v | .leave _, v | .fault, v => v
  | .lockShared path, v | .find path, v | .unlockShared path, v | .lockUnique path, v
  | .findAgain path, v => v.get maxSize path load
  | .makeSpace path, v => (v.makeSpace maxSize path).load path load
  | .stamp _ n, v => (v.stamp n load.now).pair n
  | .pair _ n, v => v.pair n
  | .lockRemove path, v | .findRemoved path, v => v.remove path
  | .lockItem entry after, v | .dlclose entry after, v =>
    after.rest load ((v.close entry).erase entry)
  | .unlockItem entry after, v | .erase entry after, v => after.rest load (v.erase entry)
  | .dlopen path, v => v.load path load
  | .construct path handle, v => v.construct path handle load

end Rest

section Views

variable [DecidableEq T] {s s' : ModuleCache T Path Handle Fn} {t : T} {n : Nat}
  {item item' : Item T Handle Fn} {place : Place Path Handle}

@[simp] theorem place_go (s : ModuleCache T Path Handle Fn) (t : T) (place : Place Path Handle) :
    (s.go t place).place t = place := Function.update_self ..

@[simp] theorem view_go (s : ModuleCache T Path Handle Fn) (t : T) (place : Place Path Handle) :
    (s.go t place).view t = s.view t := rfl

omit [DecidableEq T] in
theorem view_items (hitem : s.items n = some item) :
    (s.view t).items n = some (item.lastUsed, item.handle, item.function) := by
  unfold ModuleCache.view
  dsimp only
  rw [hitem, Option.map_some]

omit [DecidableEq T] in
/-- An item is replaced, as it is seen. -/
theorem map_update_items (items : Nat → Option (Item T Handle Fn)) (n : Nat)
    (x : Option (Item T Handle Fn)) :
    (fun k => (Function.update items n x k).map fun item =>
      (item.lastUsed, item.handle, item.function)) =
    Function.update (fun k => (items k).map fun item =>
      (item.lastUsed, item.handle, item.function)) n
      (x.map fun item => (item.lastUsed, item.handle, item.function)) := by
  funext k
  by_cases hk : k = n
  · subst hk
    rw [Function.update_self, Function.update_self]
  · rw [Function.update_of_ne hk, Function.update_of_ne hk]

omit [DecidableEq T] in
/-- What the mutexes and `closed` are is not seen. -/
theorem view_setItem (item' : Item T Handle Fn) (hitem : s.items n = some item)
    (hused : item'.lastUsed = item.lastUsed)
    (hhandle : item'.handle = item.handle) (hfunction : item'.function = item.function) :
    (s.setItem n item').view t = s.view t := by
  unfold ModuleCache.view ModuleCache.setItem
  rw [map_update_items, Option.map_some, hused, hhandle, hfunction]
  have hself : (fun k => (s.items k).map fun item =>
      (item.lastUsed, item.handle, item.function)) n =
        some (item.lastUsed, item.handle, item.function) := by
    dsimp only
    rw [hitem, Option.map_some]
  rw [← hself, Function.update_eq_self]

omit [DecidableEq T] in
/-- An entry is used now. -/
theorem view_stamp (hitem : s.items n = some item) (now : Int) :
    (s.setItem n { item with lastUsed := now }).view t = (s.view t).stamp n now := by
  unfold ModuleCache.view ModuleCache.setItem View.stamp
  dsimp only
  rw [map_update_items, hitem, Option.map_some, Option.map_some]
  rfl

/-- The thread is given a lock of an item. -/
theorem view_pair (hitem : s.items n = some item) (m : SharedMutex T) :
    ModuleCache.view { s.setItem n { item with mutex := m } with
      given := Function.update s.given t (⟨n, item.function⟩ :: s.given t) } t =
        (s.view t).pair n := by
  have hitems := congrArg View.items
    (view_setItem (t := t) { item with mutex := m } hitem rfl rfl rfl)
  unfold View.pair
  rw [view_items hitem]
  dsimp only
  ext1
  · rfl
  · exact hitems
  · rfl
  · rfl
  · show Function.update s.given t _ t = _
    rw [Function.update_self]
    rfl

omit [DecidableEq T] in
/-- An item is closed. -/
theorem view_close [DecidableEq Handle] {entry : Path × Nat} (hitem : s.items entry.2 = some item) :
    ModuleCache.view { s.setItem entry.2 { item with closed := true } with
      opened := Function.update s.opened item.handle (s.opened item.handle - 1) } t =
        (s.view t).close entry := by
  have hitems := congrArg View.items
    (view_setItem (t := t) { item with closed := true } hitem rfl rfl rfl)
  unfold View.close
  rw [view_items hitem]
  dsimp only
  ext1
  · rfl
  · exact hitems
  · rfl
  · rfl
  · rfl

omit [DecidableEq T] in
/-- An entry is erased, with its item. -/
theorem view_erase [DecidableEq Path] (s : ModuleCache T Path Handle Fn) (t : T)
    (entry : Path × Nat) :
    ModuleCache.view { s with
      cache := s.cache.erase entry
      items := Function.update s.items entry.2 none } t = (s.view t).erase entry := by
  unfold ModuleCache.view View.erase
  dsimp only
  rw [map_update_items]
  rfl

/-- Unlocking `cacheMutex` is not seen. -/
theorem unlockCache_cases (s : ModuleCache T Path Handle Fn) (mode : Mode) (t : T)
    (place : Place Path Handle) : s.unlockCache mode t place = s.go t .fault ∨
      ∃ m, s.unlockCache mode t place = { s with cacheMutex := m }.go t place := by
  unfold ModuleCache.unlockCache
  cases mode with
  | shared =>
    dsimp only
    cases s.cacheMutex.unlockShared t with
    | none => exact .inl rfl
    | some m => exact .inr ⟨m, rfl⟩
  | unique =>
    dsimp only
    cases s.cacheMutex.unlock t with
    | none => exact .inl rfl
    | some m => exact .inr ⟨m, rfl⟩

variable [DecidableEq Handle]

theorem Safe.ne_fault (hs : Safe s) : s.place t ≠ .fault := by
  intro hfault
  have hstands := hs.stands t
  rw [hfault] at hstands
  exact hstands

/-- Where nothing goes wrong, `cacheMutex` is unlocked. -/
theorem unlockCache_go {mode : Mode} (hs' : Safe (s.unlockCache mode t place)) :
    ∃ m, s.unlockCache mode t place = { s with cacheMutex := m }.go t place := by
  refine (unlockCache_cases s mode t place).resolve_left fun hfault => ?_
  rw [hfault] at hs'
  exact hs'.ne_fault (place_go ..)

end Views

section Steps

variable [DecidableEq T] [DecidableEq Path] [DecidableEq Handle]
  {s s' : ModuleCache T Path Handle Fn} {t : T} {path : Path} {load : Load Handle Fn}

omit [DecidableEq T] [DecidableEq Handle] in
theorem entry_view (s : ModuleCache T Path Handle Fn) (t : T) (path : Path) :
    (s.view t).entry path = s.entry path := rfl

/-- A thread goes to a place from which what is left to do is what was left to do before. -/
theorem go_rest {next : ModuleCache T Path Handle Fn} {place old : Place Path Handle}
    (hsize : next.maxSize = s.maxSize)
    (hrest : place.rest s.maxSize load (next.view t) = old.rest s.maxSize load (s.view t)) :
    (next.go t place).maxSize = s.maxSize ∧
      ((next.go t place).place t).rest (next.go t place).maxSize load ((next.go t place).view t) =
        old.rest s.maxSize load (s.view t) := by
  have hsize' : (next.go t place).maxSize = s.maxSize := hsize
  refine ⟨hsize', ?_⟩
  rw [place_go, view_go, hsize', hrest]

/-- A step does a part of what is left to do. -/
theorem advance_rest (hs : Safe s) (hstep : s.advance t (s.answers t path load) = some s') :
    s'.maxSize = s.maxSize ∧ (s'.place t).rest s'.maxSize load (s'.view t) =
      (s.place t).rest s.maxSize load (s.view t) := by
  have hs' := hs.advance hstep
  have hstands := hs.stands t
  unfold ModuleCache.advance at hstep
  cases hplace : s.place t with
  | outside | fault =>
    rw [hplace] at hstep
    cases hstep
  | lockShared path' =>
    simp only [hplace, Option.map_eq_some_iff] at hstep
    obtain ⟨m, -, rfl⟩ := hstep
    exact go_rest rfl rfl
  | find path' =>
    simp only [hplace] at hstep
    cases hentry : s.entry path' with
    | some entry =>
      simp only [hentry] at hstep
      obtain rfl := Option.some.inj hstep
      exact go_rest rfl (View.get_found ((entry_view s t path').trans hentry) s.maxSize load).symm
    | none =>
      simp only [hentry] at hstep
      obtain rfl := Option.some.inj hstep
      exact go_rest rfl rfl
  | unlockShared path' =>
    simp only [hplace] at hstep
    obtain rfl := Option.some.inj hstep
    obtain ⟨m, heq⟩ := unlockCache_go hs'
    rw [heq]
    exact go_rest rfl rfl
  | lockUnique path' =>
    simp only [hplace, Option.map_eq_some_iff] at hstep
    obtain ⟨m, -, rfl⟩ := hstep
    exact go_rest rfl rfl
  | findAgain path' =>
    simp only [hplace] at hstep
    cases hentry : s.entry path' with
    | some entry =>
      simp only [hentry] at hstep
      obtain rfl := Option.some.inj hstep
      exact go_rest rfl (View.get_found ((entry_view s t path').trans hentry) s.maxSize load).symm
    | none =>
      have hget := View.get_missing ((entry_view s t path').trans hentry) s.maxSize load
      simp only [hentry] at hstep
      split at hstep
      · obtain rfl := Option.some.inj hstep
        exact go_rest rfl hget.symm
      · rename_i hroom
        obtain rfl := Option.some.inj hstep
        rw [View.makeSpace_room (.inr (Nat.not_le.mp hroom))] at hget
        exact go_rest rfl hget.symm
  | makeSpace path' =>
    simp only [hplace] at hstep
    split at hstep
    · rename_i hroom
      obtain rfl := Option.some.inj hstep
      exact go_rest rfl (congrArg (View.load · path' load) (if_pos hroom).symm)
    · rename_i hroom
      split at hstep
      · obtain rfl := Option.some.inj hstep
        have hleast : (s.answers t path load).least = (s.view t).least path' :=
          View.least_congr (fun hnil => hroom (.inl hnil)) path path'
        rw [hleast]
        exact go_rest rfl (congrArg (View.load · path' load) (if_neg hroom).symm)
      · cases hstep
  | stamp mode n =>
    rw [hplace] at hstands
    obtain ⟨item, hitem, -⟩ := hstands
    simp only [hplace, withItem_some hitem] at hstep
    obtain rfl := Option.some.inj hstep
    exact go_rest rfl (congrArg (View.pair · n) (view_stamp hitem load.now))
  | pair mode n =>
    rw [hplace] at hstands
    obtain ⟨item, hitem, -⟩ := hstands
    simp only [hplace, withItem_some hitem, Option.map_eq_some_iff] at hstep
    obtain ⟨m, -, rfl⟩ := hstep
    exact go_rest rfl (view_pair hitem m)
  | leave mode =>
    simp only [hplace] at hstep
    obtain rfl := Option.some.inj hstep
    obtain ⟨m, heq⟩ := unlockCache_go hs'
    rw [heq]
    exact go_rest rfl rfl
  | lockRemove path' =>
    simp only [hplace, Option.map_eq_some_iff] at hstep
    obtain ⟨m, -, rfl⟩ := hstep
    exact go_rest rfl rfl
  | findRemoved path' =>
    simp only [hplace] at hstep
    cases hentry : s.entry path' with
    | some entry =>
      simp only [hentry] at hstep
      obtain rfl := Option.some.inj hstep
      exact go_rest rfl (View.remove_found ((entry_view s t path').trans hentry)).symm
    | none =>
      simp only [hentry] at hstep
      obtain rfl := Option.some.inj hstep
      exact go_rest rfl (View.remove_missing ((entry_view s t path').trans hentry)).symm
  | lockItem entry after =>
    rw [hplace] at hstands
    obtain ⟨-, item, hitem, -⟩ := hstands
    simp only [hplace, withItem_some hitem, Option.map_eq_some_iff] at hstep
    obtain ⟨m, -, rfl⟩ := hstep
    refine go_rest rfl ?_
    rw [view_setItem { item with mutex := m } hitem rfl rfl rfl]
    rfl
  | dlclose entry after =>
    rw [hplace] at hstands
    obtain ⟨-, item, hitem, hclosed⟩ := hstands
    have hopened := (hs.dlclose hplace hitem hclosed).1
    simp only [hplace, withItem_some hitem, if_neg hopened] at hstep
    obtain rfl := Option.some.inj hstep
    exact go_rest rfl
      (congrArg (fun v : View Path Handle Fn => after.rest load (v.erase entry)) (view_close hitem))
  | unlockItem entry after =>
    rw [hplace] at hstands
    obtain ⟨-, item, hitem, -⟩ := hstands
    simp only [hplace, withItem_some hitem] at hstep
    split at hstep
    · rename_i m hunlock
      obtain rfl := Option.some.inj hstep
      refine go_rest rfl ?_
      rw [view_setItem { item with mutex := m } hitem rfl rfl rfl]
      rfl
    · obtain rfl := Option.some.inj hstep
      exact absurd (place_go ..) hs'.ne_fault
  | erase entry after =>
    rw [hplace] at hstands
    obtain ⟨-, item, hitem, -⟩ := hstands
    simp only [hplace, withItem_some hitem] at hstep
    split at hstep
    · obtain rfl := Option.some.inj hstep
      refine go_rest rfl ?_
      rw [view_erase]
      cases after with
      | load path' => rfl
      | finish => rfl
    · obtain rfl := Option.some.inj hstep
      exact absurd (place_go ..) hs'.ne_fault
  | dlopen path' =>
    simp only [hplace] at hstep
    split at hstep
    · rename_i handle hhandle
      obtain rfl := Option.some.inj hstep
      have hload := (s.view t).load_some path' hhandle
      exact go_rest rfl hload.symm
    · rename_i hhandle
      obtain rfl := Option.some.inj hstep
      have hload := (s.view t).load_none path' hhandle
      exact go_rest rfl hload.symm
  | construct path' handle =>
    simp only [hplace] at hstep
    split at hstep
    · rename_i function hfunction
      obtain rfl := Option.some.inj hstep
      refine go_rest rfl ?_
      unfold Place.rest View.construct
      rw [show load.function = some function from hfunction]
      dsimp only
      congr 1
      unfold ModuleCache.view ModuleCache.setItem
      dsimp only
      rw [map_update_items]
      rfl
    · rename_i hfunction
      obtain rfl := Option.some.inj hstep
      have hconstruct := (s.view t).construct_none path' hfunction handle
      exact go_rest rfl hconstruct.symm

end Steps

/-! ## Whole calls -/

section Calls

variable [DecidableEq T] [DecidableEq Path] [DecidableEq Handle]
  {s s' : ModuleCache T Path Handle Fn} {t : T} {path : Path} {load : Load Handle Fn}

/-- Going on until the call is over does what is left to do. -/
theorem finish_view {fuel : Nat} (hs : Safe s) (h : finish t path load fuel s = some s') :
    Safe s' ∧ s'.place t = .outside ∧ s'.maxSize = s.maxSize ∧
      s'.view t = (s.place t).rest s.maxSize load (s.view t) := by
  induction fuel generalizing s with
  | zero => exact nomatch h
  | succ fuel ih =>
    unfold ModuleCache.finish at h
    split at h
    · rename_i hout
      obtain rfl := Option.some.inj h
      rw [hout]
      exact ⟨hs, rfl, rfl, rfl⟩
    · obtain ⟨next, hstep, hrest⟩ := Option.bind_eq_some_iff.mp h
      obtain ⟨hsafe, hout, hsize, hview⟩ := ih (hs.advance hstep) hrest
      obtain ⟨hsize', hview'⟩ := advance_rest hs hstep
      exact ⟨hsafe, hout, hsize.trans hsize', hview.trans hview'⟩

variable [DecidableEq Fn]

/-- `operator[]` does what the function says, in fourteen steps at most. -/
theorem get_view (hs : Safe s) (h : s.get t path load = some s') :
    Safe s' ∧ s'.place t = .outside ∧ s'.maxSize = s.maxSize ∧
      s'.view t = (s.view t).get s.maxSize path load := by
  obtain ⟨begun, hstep, hfinish⟩ := Option.bind_eq_some_iff.mp h
  have hbegun := finish_view (hs.step hstep) hfinish
  obtain ⟨-, rfl⟩ := step_lookUp_iff.mp hstep
  rw [place_go] at hbegun
  exact hbegun

/-- `remove` does what the function says. -/
theorem remove_view (hs : Safe s) (h : s.remove t path = some s') :
    Safe s' ∧ s'.place t = .outside ∧ s'.maxSize = s.maxSize ∧
      s'.view t = (s.view t).remove path := by
  obtain ⟨begun, hstep, hfinish⟩ := Option.bind_eq_some_iff.mp h
  have hbegun := finish_view (hs.step hstep) hfinish
  obtain ⟨-, rfl⟩ := step_remove_iff.mp hstep
  rw [place_go] at hbegun
  exact hbegun

end Calls

end Algiz.Plugins
