/-
  The order of the locks of `ModuleCache`, and what a thread relies on between them.

  An item's mutex is only locked with `cacheMutex` held. With `cacheMutex` shared nobody closes an
  item; with it owned nobody else holds it, so the one item that is closed and still there is the
  owner's (`Safe`). A step that leaves the items keeps all this if the mutexes are held again by
  those who stand where they are held (`Safe.same`).
-/
import Algiz.Lib.Counting
import Algiz.Fileserv.ModuleCache

namespace Algiz.Plugins

open Algiz.Lib

variable {T Path Handle Fn : Type*}

/-! ## The invariant -/

namespace Place

/-- How a thread there holds `cacheMutex`. -/
def mode : Place Path Handle → Option Mode
  | .outside | .lockShared _ | .lockUnique _ | .lockRemove _ | .fault => none
  | .find _ | .unlockShared _ => some .shared
  | .stamp mode _ | .pair mode _ | .leave mode => some mode
  | .findAgain _ | .makeSpace _ | .findRemoved _ | .lockItem .. | .dlclose .. | .unlockItem ..
  | .erase .. | .dlopen _ | .construct .. => some .unique

/-- How often a thread there shares `cacheMutex`. -/
def shares (place : Place Path Handle) : Nat := if place.mode = some .shared then 1 else 0

/-- The item whose mutex a thread there owns. -/
def owned : Place Path Handle → Option Nat
  | .dlclose entry _ | .unlockItem entry _ => some entry.2
  | _ => none

/-- The item that a thread there has closed and not yet destroyed. -/
def closing : Place Path Handle → Option Nat
  | .unlockItem entry _ | .erase entry _ => some entry.2
  | _ => none

theorem owned_eq_none {place : Place Path Handle} (h : place.mode ≠ some .unique) :
    place.owned = none := by
  cases place <;> first | rfl | exact absurd rfl h

theorem closing_eq_none {place : Place Path Handle} (h : place.mode ≠ some .unique) :
    place.closing = none := by
  cases place <;> first | rfl | exact absurd rfl h

/-- What the places tell is not changed by a move to one that tells the same. -/
theorem update_eq [DecidableEq T] {α : Type*} {f : Place Path Handle → α}
    {places : T → Place Path Handle} {t : T} {place : Place Path Handle}
    (h : f place = f (places t)) (u : T) :
    f (Function.update places t place u) = f (places u) := by
  by_cases hu : u = t
  · subst hu
    rw [Function.update_self, h]
  · rw [Function.update_of_ne hu]

end Place

namespace ModuleCache

section Views

variable (s : ModuleCache T Path Handle Fn)

def cacheShares (t : T) : Nat := (s.place t).shares

def cacheOwns (t : T) : Prop := (s.place t).mode = some .unique

def itemShares (n : Nat) (t : T) : Nat := (s.given t).countP (·.item = n)

def itemOwns (n : Nat) (t : T) : Prop := (s.place t).owned = some n

/-- The item is there and not closed. -/
def Live (n : Nat) : Prop := ∃ item, s.items n = some item ∧ item.closed = false

/-- The item is closed and still there. -/
def Closed (n : Nat) : Prop := ∃ item, s.items n = some item ∧ item.closed = true

/-- How many items have the handle and have not closed it. -/
def uses [DecidableEq Handle] (handle : Handle) : Nat :=
  (List.range s.made).countP fun n =>
    (s.items n).any fun item => item.handle = handle && !item.closed

/-- What a thread relies on where it stands. -/
def Stands [DecidableEq Handle] : Place Path Handle → Prop
  | .stamp _ n | .pair _ n => s.Live n
  | .lockItem entry _ | .dlclose entry _ => entry ∈ s.cache ∧ s.Live entry.2
  | .unlockItem entry _ | .erase entry _ => entry ∈ s.cache ∧ s.Closed entry.2
  | .construct _ handle => s.uses handle < s.opened handle
  | .fault => False
  | .outside | .lockShared _ | .find _ | .unlockShared _ | .lockUnique _ | .findAgain _
  | .makeSpace _ | .leave _ | .lockRemove _ | .findRemoved _ | .dlopen _ => True

end Views

end ModuleCache

open ModuleCache

/-- The cache, the handles and what items there are: all but times and mutexes. -/
structure Same (s s' : ModuleCache T Path Handle Fn) : Prop where
  cache : s'.cache = s.cache
  made : s'.made = s.made
  opened : s'.opened = s.opened
  items : ∀ n, (s'.items n).map (fun item => (item.handle, item.function, item.closed)) =
    (s.items n).map fun item => (item.handle, item.function, item.closed)

section Same

variable {s s' : ModuleCache T Path Handle Fn}

theorem Same.symm (h : Same s s') : Same s' s :=
  ⟨h.cache.symm, h.made.symm, h.opened.symm, fun n => (h.items n).symm⟩

theorem Same.item (h : Same s s') {n : Nat} {item : Item T Handle Fn}
    (hitem : s.items n = some item) : ∃ item', s'.items n = some item' ∧
      item'.handle = item.handle ∧ item'.function = item.function ∧
      item'.closed = item.closed := by
  have hitems := h.items n
  rw [hitem] at hitems
  cases hitem' : s'.items n with
  | none =>
    rw [hitem'] at hitems
    cases hitems
  | some item' =>
    rw [hitem', Option.map_some, Option.map_some, Option.some_inj, Prod.mk.injEq,
      Prod.mk.injEq] at hitems
    exact ⟨item', rfl, hitems⟩

theorem Same.live (h : Same s s') {n : Nat} (hlive : s.Live n) : s'.Live n := by
  obtain ⟨item, hitem, hclosed⟩ := hlive
  obtain ⟨item', hitem', -, -, hclosed'⟩ := h.item hitem
  exact ⟨item', hitem', hclosed'.trans hclosed⟩

theorem Same.closed (h : Same s s') {n : Nat} (hn : s.Closed n) : s'.Closed n := by
  obtain ⟨item, hitem, hclosed⟩ := hn
  obtain ⟨item', hitem', -, -, hclosed'⟩ := h.item hitem
  exact ⟨item', hitem', hclosed'.trans hclosed⟩

theorem Same.uses [DecidableEq Handle] (h : Same s s') (handle : Handle) :
    s'.uses handle = s.uses handle := by
  unfold ModuleCache.uses
  rw [h.made]
  refine countP_congr_of_mem fun n _ => ?_
  cases hitem : s.items n with
  | none =>
    cases hitem' : s'.items n with
    | none => rfl
    | some item' =>
      obtain ⟨item, hsome, -⟩ := h.symm.item hitem'
      rw [hitem] at hsome
      cases hsome
  | some item =>
    obtain ⟨item', hitem', hhandle, -, hclosed⟩ := h.item hitem
    rw [hitem', Option.any_some, Option.any_some, hhandle, hclosed]

/-- What a step makes of one item changes the uses of handles by what it makes of that item's. -/
theorem uses_update [DecidableEq Handle] (s s' : ModuleCache T Path Handle Fn) {n : Nat}
    (hmade : s'.made = s.made) (hn : n < s.made)
    (hitems : ∀ k, k ≠ n → s'.items k = s.items k) (handle : Handle) :
    s'.uses handle +
        ((s.items n).any fun item => item.handle = handle && !item.closed).toNat =
      s.uses handle +
        ((s'.items n).any fun item => item.handle = handle && !item.closed).toNat := by
  unfold ModuleCache.uses
  rw [hmade]
  refine countP_update (q := fun k => (s.items k).any fun item =>
    item.handle = handle && !item.closed) List.nodup_range (List.mem_range.mpr hn) fun k _ hk => ?_
  rw [hitems k hk]

theorem Same.stands [DecidableEq Handle] (h : Same s s') {place : Place Path Handle}
    (hplace : s.Stands place) :
    s'.Stands place := by
  cases place with
  | stamp | pair => exact h.live hplace
  | lockItem | dlclose => exact ⟨h.cache.symm ▸ hplace.1, h.live hplace.2⟩
  | unlockItem | erase => exact ⟨h.cache.symm ▸ hplace.1, h.closed hplace.2⟩
  | construct path handle =>
    show s'.uses handle < s'.opened handle
    rw [h.uses, h.opened]
    exact hplace
  | fault => exact hplace
  | outside | lockShared | find | unlockShared | lockUnique | findAgain | makeSpace | leave
  | lockRemove | findRemoved | dlopen => trivial

theorem Same.setItem {n : Nat} {item item' : Item T Handle Fn} (hitem : s.items n = some item)
    (hhandle : item'.handle = item.handle) (hfunction : item'.function = item.function)
    (hclosed : item'.closed = item.closed) : Same s (s.setItem n item') := by
  refine ⟨rfl, rfl, rfl, fun m => ?_⟩
  by_cases hm : m = n
  · subst hm
    show (Function.update s.items m (some item') m).map _ = _
    rw [Function.update_self, hitem, Option.map_some, Option.map_some, hhandle, hfunction, hclosed]
  · show (Function.update s.items n (some item') m).map _ = _
    rw [Function.update_of_ne hm]

end Same

variable [DecidableEq T] [DecidableEq Handle]

/-- The invariant: the mutexes are held by those who stand where they are held, an item that is
    closed is being taken out of the cache, and every handle is open for each item that has it. -/
structure Safe (s : ModuleCache T Path Handle Fn) : Prop where
  cacheMutex : s.cacheMutex.Agrees s.cacheShares s.cacheOwns
  mutexes : ∀ n item, s.items n = some item →
    item.mutex.Agrees (s.itemShares n) (s.itemOwns n)
  stands : ∀ t, s.Stands (s.place t)
  given : ∀ t, ∀ pair ∈ s.given t, ∃ item, s.items pair.item = some item ∧
    item.closed = false ∧ item.function = pair.function
  closed : ∀ n, s.Closed n → ∃ t, (s.place t).closing = some n
  entries : ∀ entry ∈ s.cache, ∃ item, s.items entry.2 = some item
  distinct : (s.cache.map Prod.snd).Nodup
  numbered : ∀ n item, s.items n = some item → n < s.made
  opened : ∀ handle, s.uses handle ≤ s.opened handle

theorem safe_init (maxSize : Nat) :
    Safe ({ maxSize := maxSize } : ModuleCache T Path Handle Fn) where
  cacheMutex := SharedMutex.Agrees.new.congr (fun _ => rfl) fun _ => by simp [cacheOwns, Place.mode]
  mutexes _ _ h := by cases h
  stands _ := trivial
  given _ _ h := absurd h List.not_mem_nil
  closed _ h := by obtain ⟨_, h, _⟩ := h; cases h
  entries _ h := absurd h List.not_mem_nil
  distinct := List.nodup_nil
  numbered _ _ h := by cases h
  opened _ := Nat.le_refl 0

section Read

variable {s : ModuleCache T Path Handle Fn} (hs : Safe s)
include hs

/-- Who owns `cacheMutex` holds it alone. -/
theorem Safe.alone {t : T} (ht : (s.place t).mode = some .unique) {u : T} (hu : u ≠ t) :
    (s.place u).mode = none := by
  obtain ⟨howner, hshares⟩ := hs.cacheMutex.alone ht
  have hshare := hshares u
  cases hmode : (s.place u).mode with
  | none => rfl
  | some mode =>
    cases mode with
    | unique => exact absurd (howner u hmode) hu
    | shared =>
      rw [cacheShares, Place.shares, if_pos hmode] at hshare
      cases hshare

/-- The owner of `cacheMutex` is the only one that owns the mutex of an item. -/
theorem Safe.alone_owned {t : T} (ht : (s.place t).mode = some .unique) {u : T} (hu : u ≠ t) :
    (s.place u).owned = none := by
  refine Place.owned_eq_none ?_
  rw [hs.alone ht hu]
  decide

/-- A place without `cacheMutex` relies on nothing. -/
theorem Safe.stands_of_none {s' : ModuleCache T Path Handle Fn} {u : T}
    (hu : (s.place u).mode = none) : s'.Stands (s.place u) := by
  have hstands := hs.stands u
  cases hplace : s.place u <;> rw [hplace] at hu hstands <;> trivial

/-- As long as a thread that has closed nothing holds `cacheMutex`, no item is closed. -/
theorem Safe.not_closed {t : T} {place : Place Path Handle} (hplace : s.place t = place)
    (hmode : place.mode ≠ none) (hclosing : place.closing = none) (n : Nat) : ¬ s.Closed n := by
  intro hclosed
  obtain ⟨u, hu⟩ := hs.closed n hclosed
  have hunique : (s.place u).mode = some .unique := by
    by_contra hne
    rw [Place.closing_eq_none hne] at hu
    cases hu
  by_cases hut : u = t
  · rw [hut, hplace, hclosing] at hu
    cases hu
  · rw [← hplace] at hmode
    exact hmode (hs.alone hunique (Ne.symm hut))

/-- An entry that such a thread finds. -/
theorem Safe.live {t : T} {place : Place Path Handle} (hplace : s.place t = place)
    (hmode : place.mode ≠ none) (hclosing : place.closing = none) {entry : Path × Nat}
    (he : entry ∈ s.cache) : s.Live entry.2 := by
  obtain ⟨item, hitem⟩ := hs.entries entry he
  refine ⟨item, hitem, ?_⟩
  cases hclosed : item.closed with
  | false => rfl
  | true => exact absurd ⟨item, hitem, hclosed⟩ (hs.not_closed hplace hmode hclosing entry.2)

end Read

/-! ## Steps that leave the items -/

section Same

variable {s s' : ModuleCache T Path Handle Fn}

/-- A step that leaves the items: the mutexes are right again, and the thread may stand where it
    got to. -/
theorem Safe.same (hs : Safe s) (hsame : Same s s') {t : T} {place : Place Path Handle}
    (hplace : s'.place = Function.update s.place t place)
    (hcache : s'.cacheMutex.Agrees s'.cacheShares s'.cacheOwns)
    (hmutexes : ∀ n item, s'.items n = some item →
      item.mutex.Agrees (s'.itemShares n) (s'.itemOwns n))
    (hstands : s.Stands place) (hclosing : place.closing = (s.place t).closing)
    (hgiven : ∀ u, ∀ pair ∈ s'.given u, pair ∈ s.given u ∨ ∃ item,
      s.items pair.item = some item ∧ item.closed = false ∧ item.function = pair.function) :
    Safe s' where
  cacheMutex := hcache
  mutexes := hmutexes
  stands u := by
    rw [hplace]
    by_cases hu : u = t
    · subst hu
      rw [Function.update_self]
      exact hsame.stands hstands
    · rw [Function.update_of_ne hu]
      exact hsame.stands (hs.stands u)
  given u pair hpair := by
    obtain ⟨item, hitem, hclosed, hfunction⟩ := (hgiven u pair hpair).elim (hs.given u pair) id
    obtain ⟨item', hitem', -, hfunction', hclosed'⟩ := hsame.item hitem
    exact ⟨item', hitem', hclosed'.trans hclosed, hfunction'.trans hfunction⟩
  closed n hn := by
    obtain ⟨u, hu⟩ := hs.closed n (hsame.symm.closed hn)
    refine ⟨u, ?_⟩
    rw [hplace, Place.update_eq hclosing, hu]
  entries entry he := by
    rw [hsame.cache] at he
    obtain ⟨item, hitem⟩ := hs.entries entry he
    obtain ⟨item', hitem', -⟩ := hsame.item hitem
    exact ⟨item', hitem'⟩
  distinct := by
    rw [hsame.cache]
    exact hs.distinct
  numbered n item hitem := by
    obtain ⟨item', hitem', -⟩ := hsame.symm.item hitem
    rw [hsame.made]
    exact hs.numbered n item' hitem'
  opened handle := by
    rw [hsame.uses, hsame.opened]
    exact hs.opened handle

/-- A thread goes to a place that holds `cacheMutex` the same way. -/
theorem Safe.cacheMutex_go (hs : Safe s) {t : T} {place : Place Path Handle}
    (hmode : place.mode = (s.place t).mode) :
    s.cacheMutex.Agrees (s.go t place).cacheShares (s.go t place).cacheOwns := by
  have hshares : place.shares = (s.place t).shares := by
    unfold Place.shares
    rw [hmode]
  refine hs.cacheMutex.congr (Place.update_eq hshares) fun u => ?_
  show (Function.update s.place t place u).mode = _ ↔ _
  rw [Place.update_eq hmode]
  rfl

/-- A thread goes from one place to another that holds the same mutexes. -/
theorem Safe.go (hs : Safe s) {t : T} {place place' : Place Path Handle}
    (hplace : s.place t = place) (hstands : s.Stands place') (hmode : place'.mode = place.mode)
    (howned : place'.owned = place.owned) (hclosing : place'.closing = place.closing) :
    Safe (s.go t place') := by
  subst hplace
  refine hs.same ⟨rfl, rfl, rfl, fun _ => rfl⟩ rfl (hs.cacheMutex_go hmode)
    (fun n item hitem => ?_) hstands hclosing fun _ _ h => .inl h
  refine (hs.mutexes n item hitem).congr (fun _ => rfl) fun u => ?_
  show (Function.update s.place t place' u).owned = _ ↔ _
  rw [Place.update_eq howned]
  rfl

/-- A thread locks or unlocks `cacheMutex`. -/
theorem Safe.goLocked (hs : Safe s) {t : T} {place : Place Path Handle} {m : SharedMutex T}
    (hm : m.Agrees (s.go t place).cacheShares (s.go t place).cacheOwns) (hstands : s.Stands place)
    (howned : place.owned = (s.place t).owned) (hclosing : place.closing = (s.place t).closing) :
    Safe ({ s with cacheMutex := m }.go t place) := by
  refine hs.same ⟨rfl, rfl, rfl, fun _ => rfl⟩ rfl hm (fun n item hitem => ?_) hstands hclosing
    fun _ _ h => .inl h
  refine (hs.mutexes n item hitem).congr (fun _ => rfl) fun u => ?_
  show (Function.update s.place t place u).owned = _ ↔ _
  rw [Place.update_eq howned]
  rfl

/-- An item is stamped, or its mutex locked or unlocked. -/
theorem Safe.goItem (hs : Safe s) {t : T} {place : Place Path Handle} {n : Nat}
    {item item' : Item T Handle Fn} (given : T → List (Pair Fn)) (hitem : s.items n = some item)
    (hhandle : item'.handle = item.handle) (hfunction : item'.function = item.function)
    (hclosed : item'.closed = item.closed) (hstands : s.Stands place)
    (hmode : place.mode = (s.place t).mode) (hclosing : place.closing = (s.place t).closing)
    (hmutex : item'.mutex.Agrees (fun u => (given u).countP (·.item = n))
      fun u => (Function.update s.place t place u).owned = some n)
    (hothers : ∀ k, k ≠ n → (∀ u, (given u).countP (·.item = k) = s.itemShares k u) ∧
      (place.owned = some k ↔ (s.place t).owned = some k))
    (hgiven : ∀ u, ∀ pair ∈ given u, pair ∈ s.given u ∨ ∃ item,
      s.items pair.item = some item ∧ item.closed = false ∧ item.function = pair.function) :
    Safe ({ s.setItem n item' with given := given }.go t place) := by
  have hsame := Same.setItem hitem hhandle hfunction hclosed
  refine hs.same ⟨hsame.cache, hsame.made, hsame.opened, hsame.items⟩ rfl
    (hs.cacheMutex_go hmode) (fun k other hother => ?_) hstands hclosing hgiven
  · have hother : Function.update s.items n (some item') k = some other := hother
    by_cases hk : k = n
    · subst hk
      rw [Function.update_self] at hother
      obtain rfl := Option.some.inj hother
      exact hmutex
    · rw [Function.update_of_ne hk] at hother
      obtain ⟨hshares, howned⟩ := hothers k hk
      refine (hs.mutexes k other hother).congr hshares fun u => ?_
      show (Function.update s.place t place u).owned = _ ↔ _
      by_cases hu : u = t
      · subst hu
        rw [Function.update_self]
        exact howned
      · rw [Function.update_of_ne hu]
        rfl

end Same

/-! ## Steps on `cacheMutex` -/

section Locks

variable {s : ModuleCache T Path Handle Fn} (hs : Safe s) {t : T} {place : Place Path Handle}
  {m : SharedMutex T}
include hs

omit hs [DecidableEq Handle] in
/-- A thread comes to a place where it holds another number of shares. -/
theorem shares_go {n : Nat} (hplace : place.shares = n) (u : T) :
    (Function.update s.place t place u).shares = Function.update s.cacheShares t n u := by
  by_cases hu : u = t
  · subst hu
    rw [Function.update_self, Function.update_self, hplace]
  · rw [Function.update_of_ne hu, Function.update_of_ne hu]
    rfl

omit hs [DecidableEq Handle] in
/-- Who holds the mutex alone is not changed by a thread that does not before or after. -/
theorem unique_go (hbefore : (s.place t).mode ≠ some .unique) (hafter : place.mode ≠ some .unique)
    (u : T) : (Function.update s.place t place u).mode = some .unique ↔
      (s.place u).mode = some .unique := by
  by_cases hu : u = t
  · subst hu
    rw [Function.update_self]
    exact iff_of_false hafter hbefore
  · rw [Function.update_of_ne hu]

theorem Safe.lockShared (hmode : (s.place t).mode = none) (hplace : place.mode = some .shared)
    (hstands : s.Stands place) (hlock : s.cacheMutex.lockShared t = some m) :
    Safe ({ s with cacheMutex := m }.go t place) := by
  obtain ⟨-, hm⟩ := hs.cacheMutex.lockShared hlock
  have hshares : place.shares = s.cacheShares t + 1 := by
    simp [cacheShares, Place.shares, hmode, hplace]
  refine hs.goLocked (hm.congr (shares_go hshares)
    (unique_go (by rw [hmode]; decide) (by rw [hplace]; decide))) hstands ?_ ?_
  · rw [Place.owned_eq_none (by rw [hplace]; decide), Place.owned_eq_none (by rw [hmode]; decide)]
  · rw [Place.closing_eq_none (by rw [hplace]; decide),
      Place.closing_eq_none (by rw [hmode]; decide)]

/-- After `lock()` nobody else holds it, after `unlock()` nobody does. -/
theorem Safe.goAlone (hothers : ∀ u, u ≠ t → (s.place u).mode = none)
    (hshared : place.mode ≠ some .shared)
    (hm : m.Agrees (fun _ => 0) fun u => u = t ∧ place.mode = some .unique)
    (hstands : s.Stands place) (howned : place.owned = (s.place t).owned)
    (hclosing : place.closing = (s.place t).closing) :
    Safe ({ s with cacheMutex := m }.go t place) := by
  refine hs.goLocked (hm.congr (fun u => ?_) fun u => ?_) hstands howned hclosing
  · show (Function.update s.place t place u).shares = 0
    by_cases hu : u = t
    · subst hu
      rw [Function.update_self]
      exact if_neg hshared
    · rw [Function.update_of_ne hu, Place.shares, hothers u hu]
      rfl
  · show (Function.update s.place t place u).mode = _ ↔ _
    by_cases hu : u = t
    · subst hu
      rw [Function.update_self]
      simp
    · rw [Function.update_of_ne hu, hothers u hu]
      simp [hu]

theorem Safe.lock (hmode : (s.place t).mode = none) (hplace : place.mode = some .unique)
    (hstands : s.Stands place) (howned : place.owned = none) (hclosing : place.closing = none)
    (hlock : s.cacheMutex.lock t = some m) : Safe ({ s with cacheMutex := m }.go t place) := by
  obtain ⟨hshares, howns, hm⟩ := hs.cacheMutex.lock hlock
  have hothers : ∀ u, u ≠ t → (s.place u).mode = none := by
    intro u _
    cases hu : (s.place u).mode with
    | none => rfl
    | some mode =>
      cases mode with
      | unique => exact absurd hu (howns u)
      | shared =>
        have hshare := hshares u
        rw [cacheShares, Place.shares, if_pos hu] at hshare
        cases hshare
  refine hs.goAlone hothers (by rw [hplace]; decide) (hm.congr (fun _ => rfl) fun u => ?_) hstands
    ?_ ?_
  · rw [hplace]
    simp
  · rw [howned, Place.owned_eq_none (by rw [hmode]; decide)]
  · rw [hclosing, Place.closing_eq_none (by rw [hmode]; decide)]

theorem Safe.unlockCache {mode : Mode} {old : Place Path Handle} (hold : s.place t = old)
    (hmode : old.mode = some mode) (howned : old.owned = none) (hclosing : old.closing = none)
    (hplace : place.mode = none) (hstands : s.Stands place) :
    Safe (s.unlockCache mode t place) := by
  subst hold
  have howned' : place.owned = (s.place t).owned := by
    rw [howned, Place.owned_eq_none (by rw [hplace]; decide)]
  have hclosing' : place.closing = (s.place t).closing := by
    rw [hclosing, Place.closing_eq_none (by rw [hplace]; decide)]
  cases mode with
  | shared =>
    have hone : s.cacheShares t = 1 := if_pos hmode
    obtain ⟨m, hunlock, hm⟩ := hs.cacheMutex.unlockShared (t := t) (by omega)
    unfold ModuleCache.unlockCache
    simp only [hunlock]
    have hshares : place.shares = s.cacheShares t - 1 := by
      simp [hone, Place.shares, hplace]
    exact hs.goLocked (hm.congr (shares_go hshares)
      (unique_go (by rw [hmode]; decide) (by rw [hplace]; decide))) hstands howned' hclosing'
  | unique =>
    obtain ⟨m, hunlock, hm⟩ := hs.cacheMutex.unlock (t := t) hmode
    unfold ModuleCache.unlockCache
    simp only [hunlock]
    refine hs.goAlone (fun u hu => hs.alone hmode hu) (by rw [hplace]; decide)
      (hm.congr (fun _ => rfl) fun u => ?_) hstands howned' hclosing'
    rw [hplace]
    simp

end Locks

/-! ## Steps on the mutex of an item -/

section Items

variable {s : ModuleCache T Path Handle Fn} (hs : Safe s) {t : T} {n : Nat}
  {item : Item T Handle Fn}
include hs

theorem Safe.stamp {mode : Mode} (hplace : s.place t = .stamp mode n)
    (hitem : s.items n = some item) (hclosed : item.closed = false) (now : Int) :
    Safe ((s.setItem n { item with lastUsed := now }).go t (.pair mode n)) := by
  refine hs.goItem s.given hitem rfl rfl rfl ⟨item, hitem, hclosed⟩ (by rw [hplace]; rfl)
    (by rw [hplace]; rfl) ?_ (fun k _ => ⟨fun _ => rfl, by rw [hplace]; rfl⟩)
    fun _ _ h => .inl h
  refine (hs.mutexes n item hitem).congr (fun _ => rfl) fun u => ?_
  rw [Place.update_eq (f := Place.owned) (by rw [hplace]; rfl)]
  rfl

theorem Safe.pair {mode : Mode} {m : SharedMutex T} (hplace : s.place t = .pair mode n)
    (hitem : s.items n = some item) (hclosed : item.closed = false)
    (hlock : item.mutex.lockShared t = some m) :
    Safe ({ s.setItem n { item with mutex := m } with
      given := Function.update s.given t (⟨n, item.function⟩ :: s.given t) }.go t
        (.leave mode)) := by
  obtain ⟨-, hm⟩ := (hs.mutexes n item hitem).lockShared hlock
  refine hs.goItem _ hitem rfl rfl rfl trivial (by rw [hplace]; rfl) (by rw [hplace]; rfl)
    (hm.congr (fun u => ?_) fun u => ?_) (fun k hk => ⟨fun u => ?_, by rw [hplace]; rfl⟩)
    fun u pair hpair => ?_
  · by_cases hu : u = t
    · subst hu
      rw [Function.update_self, Function.update_self, List.countP_cons_of_pos (by simp)]
      rfl
    · rw [Function.update_of_ne hu, Function.update_of_ne hu]
      rfl
  · rw [Place.update_eq (f := Place.owned) (by rw [hplace]; rfl)]
    rfl
  · by_cases hu : u = t
    · subst hu
      rw [Function.update_self, List.countP_cons_of_neg (by simpa using hk.symm)]
      rfl
    · rw [Function.update_of_ne hu]
      rfl
  · by_cases hu : u = t
    · subst hu
      rw [Function.update_self, List.mem_cons] at hpair
      rcases hpair with rfl | hpair
      · exact .inr ⟨item, hitem, hclosed, rfl⟩
      · exact .inl hpair
    · rw [Function.update_of_ne hu] at hpair
      exact .inl hpair

theorem Safe.lockItem {entry : Path × Nat} {after : After Path} {m : SharedMutex T}
    (hplace : s.place t = .lockItem entry after) (hitem : s.items entry.2 = some item)
    (hlock : item.mutex.lock t = some m) :
    Safe ((s.setItem entry.2 { item with mutex := m }).go t (.dlclose entry after)) := by
  obtain ⟨hshares, -, hm⟩ := (hs.mutexes entry.2 item hitem).lock hlock
  have hstands := hs.stands t
  rw [hplace] at hstands
  have hothers : ∀ u, u ≠ t → (s.place u).owned = none :=
    fun u hu => hs.alone_owned (by rw [hplace]; rfl) hu
  refine hs.goItem s.given hitem rfl rfl rfl hstands (by rw [hplace]; rfl)
    (by rw [hplace]; rfl) (hm.congr hshares fun u => ?_)
    (fun k hk => ⟨fun _ => rfl, ?_⟩) fun _ _ h => .inl h
  · by_cases hu : u = t
    · subst hu
      rw [Function.update_self]
      exact iff_of_true rfl rfl
    · rw [Function.update_of_ne hu, hothers u hu]
      simp [hu]
  · rw [hplace]
    show some entry.2 = some k ↔ none = some k
    simp [hk.symm]

theorem Safe.unlockItem {entry : Path × Nat} {after : After Path}
    (hplace : s.place t = .unlockItem entry after) (hitem : s.items entry.2 = some item) :
    ∃ m, item.mutex.unlock t = some m ∧
      Safe ((s.setItem entry.2 { item with mutex := m }).go t (.erase entry after)) := by
  have howns : s.itemOwns entry.2 t := by
    rw [itemOwns, hplace]
    rfl
  have hmutex := hs.mutexes entry.2 item hitem
  obtain ⟨m, hunlock, hm⟩ := hmutex.unlock howns
  have hstands := hs.stands t
  rw [hplace] at hstands
  have hothers : ∀ u, u ≠ t → (s.place u).owned = none :=
    fun u hu => hs.alone_owned (by rw [hplace]; rfl) hu
  refine ⟨m, hunlock, hs.goItem s.given hitem rfl rfl rfl hstands (by rw [hplace]; rfl)
    (by rw [hplace]; rfl) (hm.congr (hmutex.alone howns).2 fun u => ?_)
    (fun k hk => ⟨fun _ => rfl, ?_⟩) fun _ _ h => .inl h⟩
  · by_cases hu : u = t
    · subst hu
      rw [Function.update_self]
      exact iff_of_false nofun id
    · rw [Function.update_of_ne hu, hothers u hu]
      simp
  · rw [hplace]
    show none = some k ↔ some entry.2 = some k
    simp [hk.symm]

theorem Safe.release [DecidableEq Fn] {pair : Pair Fn} {s' : ModuleCache T Path Handle Fn}
    (hpair : pair ∈ s.given t) (hstep : s.release t pair = some s') : Safe s' := by
  obtain ⟨item, hitem, -, -⟩ := hs.given t pair hpair
  have hcount : (s.given t).countP (·.item = pair.item) =
      ((s.given t).erase pair).countP (·.item = pair.item) + 1 := by
    rw [(List.perm_cons_erase hpair).countP_eq, List.countP_cons_of_pos (by simp)]
  have hshares : 0 < s.itemShares pair.item t := by
    rw [itemShares, hcount]
    omega
  obtain ⟨m, hunlock, hm⟩ := (hs.mutexes pair.item item hitem).unlockShared hshares
  unfold ModuleCache.release at hstep
  simp only [withItem_some hitem, hunlock] at hstep
  obtain rfl := Option.some.inj hstep
  have hself : Function.update s.place t (s.place t) = s.place := Function.update_eq_self ..
  rw [← go_self { s.setItem pair.item { item with mutex := m } with
    given := Function.update s.given t ((s.given t).erase pair) } t]
  refine hs.goItem _ hitem rfl rfl rfl (hs.stands t) rfl rfl (hm.congr (fun u => ?_) fun u => ?_)
    (fun k hk => ⟨fun u => ?_, Iff.rfl⟩) fun u other hother => ?_
  · by_cases hu : u = t
    · subst hu
      rw [Function.update_self, Function.update_self, itemShares, hcount]
      rfl
    · rw [Function.update_of_ne hu, Function.update_of_ne hu]
      rfl
  · show (Function.update s.place t (s.place t) u).owned = _ ↔ _
    rw [hself]
    rfl
  · by_cases hu : u = t
    · subst hu
      rw [Function.update_self, itemShares, (List.perm_cons_erase hpair).countP_eq,
        List.countP_cons_of_neg (by simpa using hk.symm)]
    · rw [Function.update_of_ne hu]
      rfl
  · by_cases hu : u = t
    · subst hu
      rw [Function.update_self] at hother
      exact .inl (List.mem_of_mem_erase hother)
    · rw [Function.update_of_ne hu] at hother
      exact .inl hother

end Items

end Algiz.Plugins
