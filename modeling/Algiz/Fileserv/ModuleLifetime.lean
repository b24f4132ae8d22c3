/-
  The lifetime of the modules in `ModuleCache`.

  An item is closed by the owner of `cacheMutex` and of the item's own mutex: nobody shares that, so
  nobody has the item's lock, and nobody can get it before the item is destroyed. The handle is
  closed once for each time it was opened, so it is open for every item that has not closed it.
  Every interleaving keeps to this (`given_open`).
-/
import Algiz.Lib.Transition
import Algiz.Fileserv.ModuleLocks

namespace Algiz.Plugins

open Algiz.Lib ModuleCache

variable {T Path Handle Fn : Type*} [DecidableEq T] [DecidableEq Handle]

/-! ## Closing, destroying, opening and constructing -/

section Owner

variable {s : ModuleCache T Path Handle Fn} (hs : Safe s) {t : T}
include hs

/-- Nobody holds the lock of an item whose mutex is owned. -/
theorem Safe.not_given {n : Nat} {item : Item T Handle Fn} (hitem : s.items n = some item)
    (howned : (s.place t).owned = some n) (u : T) : ∀ pair ∈ s.given u, pair.item ≠ n := by
  intro pair hpair hn
  have hzero := ((hs.mutexes n item hitem).alone howned).2 u
  rw [itemShares, List.countP_eq_zero] at hzero
  exact hzero pair hpair (by simpa using hn)

/-- A step of the owner of `cacheMutex` that changes one item, of which nobody holds the lock. -/
theorem Safe.owner {s' : ModuleCache T Path Handle Fn} {place : Place Path Handle} {n : Nat}
    (hmode : (s.place t).mode = some .unique)
    (hplace : s'.place = Function.update s.place t place) (hmode' : place.mode = some .unique)
    (hcache : s'.cacheMutex = s.cacheMutex) (hgiven : s'.given = s.given)
    (hitems : ∀ k, k ≠ n → s'.items k = s.items k)
    (hfree : ∀ u, ∀ pair ∈ s.given u, pair.item ≠ n)
    (hmutex : ∀ item, s'.items n = some item →
      item.mutex.Agrees (s.itemShares n) fun u => (s'.place u).owned = some n)
    (howned : ∀ k, k ≠ n → (place.owned = some k ↔ (s.place t).owned = some k))
    (hclosed : s'.Closed n → place.closing = some n)
    (hclosing : ∀ k, k ≠ n → (s.place t).closing ≠ some k) (hstands : s'.Stands place)
    (hentries : ∀ entry ∈ s'.cache, ∃ item, s'.items entry.2 = some item)
    (hdistinct : (s'.cache.map Prod.snd).Nodup)
    (hnumbered : ∀ k item, s'.items k = some item → k < s'.made)
    (hopened : ∀ handle, s'.uses handle ≤ s'.opened handle) : Safe s' where
  cacheMutex := by
    rw [hcache]
    have hshares : place.shares = (s.place t).shares := by
      unfold Place.shares
      rw [hmode, hmode']
    refine hs.cacheMutex.congr (fun u => ?_) fun u => ?_
    · rw [cacheShares, hplace, Place.update_eq hshares]
      rfl
    · rw [cacheOwns, hplace, Place.update_eq (hmode'.trans hmode.symm)]
      rfl
  mutexes k item hitem := by
    by_cases hk : k = n
    · subst hk
      refine (hmutex item hitem).congr (fun u => ?_) fun _ => Iff.rfl
      rw [itemShares, hgiven]
      rfl
    · rw [hitems k hk] at hitem
      refine (hs.mutexes k item hitem).congr (fun u => ?_) fun u => ?_
      · rw [itemShares, hgiven]
        rfl
      · rw [itemOwns, hplace]
        by_cases hu : u = t
        · subst hu
          rw [Function.update_self]
          exact howned k hk
        · rw [Function.update_of_ne hu]
          rfl
  stands u := by
    rw [hplace]
    by_cases hu : u = t
    · subst hu
      rwa [Function.update_self]
    · rw [Function.update_of_ne hu]
      exact hs.stands_of_none (hs.alone hmode hu)
  given u pair hpair := by
    rw [hgiven] at hpair
    rw [hitems _ (hfree u pair hpair)]
    exact hs.given u pair hpair
  closed k hk := by
    by_cases hkn : k = n
    · subst hkn
      refine ⟨t, ?_⟩
      rw [hplace, Function.update_self]
      exact hclosed hk
    · obtain ⟨item, hitem, hk⟩ := hk
      rw [hitems k hkn] at hitem
      obtain ⟨u, hu⟩ := hs.closed k ⟨item, hitem, hk⟩
      refine ⟨u, ?_⟩
      have hne : u ≠ t := by
        rintro rfl
        exact hclosing k hkn hu
      rwa [hplace, Function.update_of_ne hne]
  entries := hentries
  distinct := hdistinct
  numbered := hnumbered
  opened := hopened

theorem Safe.dlclose {entry : Path × Nat} {after : After Path} {item : Item T Handle Fn}
    (hplace : s.place t = .dlclose entry after) (hitem : s.items entry.2 = some item)
    (hclosed : item.closed = false) :
    s.opened item.handle ≠ 0 ∧
      Safe ({ s.setItem entry.2 { item with closed := true } with
        opened := Function.update s.opened item.handle (s.opened item.handle - 1) }.go t
          (.unlockItem entry after)) := by
  have hmode : (s.place t).mode = some .unique := by rw [hplace]; rfl
  have hstands := hs.stands t
  rw [hplace] at hstands
  have hself : (s.setItem entry.2 { item with closed := true }).items entry.2 =
      some { item with closed := true } := Function.update_self ..
  have hitems : ∀ k, k ≠ entry.2 →
      (s.setItem entry.2 { item with closed := true }).items k = s.items k :=
    fun k hk => Function.update_of_ne hk ..
  have huses : ∀ handle, (s.setItem entry.2 { item with closed := true }).uses handle +
      (decide (item.handle = handle)).toNat = s.uses handle := by
    intro handle
    have h := uses_update s (s.setItem entry.2 { item with closed := true }) rfl
      (hs.numbered _ _ hitem) hitems handle
    rw [hself, hitem] at h
    simpa [hclosed] using h
  constructor
  · have hone := huses item.handle
    have hle := hs.opened item.handle
    simp only [decide_true, Bool.toNat_true] at hone
    omega
  · refine hs.owner (n := entry.2) hmode rfl rfl rfl rfl hitems
      (hs.not_given hitem (by rw [hplace]; rfl)) (fun other hother => ?_)
      (fun k hk => by rw [hplace]; rfl) (fun _ => rfl) (fun k _ => by rw [hplace]; exact nofun)
      ⟨hstands.1, _, hself, rfl⟩ (fun other hother => ?_) hs.distinct (fun k other hother => ?_)
      fun handle => ?_
    · have hother : (s.setItem entry.2 { item with closed := true }).items entry.2 = some other :=
        hother
      rw [hself] at hother
      obtain rfl := Option.some.inj hother
      refine (hs.mutexes entry.2 item hitem).congr (fun _ => rfl) fun u => ?_
      show (Function.update s.place t _ u).owned = _ ↔ _
      rw [Place.update_eq (f := Place.owned) (by rw [hplace]; rfl)]
      rfl
    · by_cases hk : other.2 = entry.2
      · exact ⟨{ item with closed := true }, by rw [hk]; exact hself⟩
      · obtain ⟨found, hfound⟩ := hs.entries other hother
        exact ⟨found, (hitems _ hk).trans hfound⟩
    · by_cases hk : k = entry.2
      · rw [hk]
        exact hs.numbered _ _ hitem
      · exact hs.numbered k other ((hitems k hk).symm.trans hother)
    · show (s.setItem entry.2 { item with closed := true }).uses handle ≤
        Function.update s.opened item.handle (s.opened item.handle - 1) handle
      have hcount := huses handle
      have hle := hs.opened handle
      by_cases hhandle : handle = item.handle
      · subst hhandle
        rw [Function.update_self]
        simp only [decide_true, Bool.toNat_true] at hcount
        omega
      · rw [Function.update_of_ne hhandle]
        omega

theorem Safe.erase [DecidableEq Path] {entry : Path × Nat} {after : After Path}
    {item : Item T Handle Fn} (hplace : s.place t = .erase entry after)
    (hitem : s.items entry.2 = some item) :
    item.mutex.Free ∧ ∀ place : Place Path Handle, place.mode = some .unique →
      place.owned = none → place.closing = none →
      (∀ s' : ModuleCache T Path Handle Fn, s'.Stands place) →
      Safe ({ s with
        cache := s.cache.erase entry
        items := Function.update s.items entry.2 none }.go t place) := by
  have hmode : (s.place t).mode = some .unique := by rw [hplace]; rfl
  have hstands := hs.stands t
  rw [hplace] at hstands
  obtain ⟨hmem, closedItem, hclosedItem, hclosed⟩ := hstands
  rw [hitem] at hclosedItem
  obtain rfl := Option.some.inj hclosedItem
  have hfree : ∀ u, ∀ pair ∈ s.given u, pair.item ≠ entry.2 := by
    intro u pair hpair hn
    obtain ⟨found, hfound, hopen, -⟩ := hs.given u pair hpair
    rw [hn, hitem] at hfound
    obtain rfl := Option.some.inj hfound
    rw [hclosed] at hopen
    cases hopen
  have hself : Function.update s.items entry.2 none entry.2 = none := Function.update_self ..
  have hitems : ∀ k, k ≠ entry.2 → Function.update s.items entry.2 none k = s.items k :=
    fun k hk => Function.update_of_ne hk ..
  constructor
  · refine (hs.mutexes entry.2 item hitem).free (fun u => ?_) fun u hu => ?_
    · rw [itemShares, List.countP_eq_zero]
      intro pair hpair hn
      exact hfree u pair hpair (by simpa using hn)
    · have hunique : (s.place u).mode = some .unique := by
        by_contra hne
        rw [itemOwns, Place.owned_eq_none hne] at hu
        cases hu
      by_cases hut : u = t
      · rw [itemOwns, hut, hplace] at hu
        cases hu
      · rw [hs.alone hmode hut] at hunique
        cases hunique
  · intro place hunique howned hclosing hanywhere
    refine hs.owner (n := entry.2) hmode rfl hunique rfl rfl hitems hfree
      (fun other hother => ?_) (fun k _ => by rw [howned, hplace]; rfl) (fun hn => ?_)
      (fun k hk hn => ?_) (hanywhere _) (fun other hother => ?_) ?_ (fun k other hother => ?_)
      fun handle => ?_
    · cases hself.symm.trans hother
    · obtain ⟨other, hother, -⟩ := hn
      cases hself.symm.trans hother
    · rw [hplace] at hn
      exact hk (Option.some.inj hn).symm
    · have hother : other ∈ s.cache.erase entry := hother
      have hnodup : s.cache.Nodup := hs.distinct.of_map _
      rw [hnodup.mem_erase_iff] at hother
      obtain ⟨found, hfound⟩ := hs.entries other hother.2
      refine ⟨found, (hitems _ fun hn => hother.1 ?_).trans hfound⟩
      exact List.inj_on_of_nodup_map hs.distinct hother.2 hmem hn
    · exact hs.distinct.sublist (List.erase_sublist.map _)
    · have hne : k ≠ entry.2 := by
        rintro rfl
        cases hself.symm.trans hother
      exact hs.numbered k other ((hitems k hne).symm.trans hother)
    · -- the item was closed: it used its handle no more
      have huses := uses_update s { s with
        items := Function.update s.items entry.2 none } rfl (hs.numbered _ _ hitem) hitems handle
      rw [hitem] at huses
      simp only [Function.update_self, Option.any_none, Option.any_some, hclosed, Bool.not_true,
        Bool.and_false, Bool.toNat_false, Nat.add_zero] at huses
      exact (Nat.le_of_eq huses).trans (hs.opened handle)

/-- An item that has not been constructed is in no state. -/
theorem Safe.items_made : s.items s.made = none := by
  cases hitem : s.items s.made with
  | none => rfl
  | some item => exact absurd (hs.numbered _ item hitem) (Nat.lt_irrefl _)

theorem Safe.not_given_made (u : T) : ∀ pair ∈ s.given u, pair.item ≠ s.made := by
  intro pair hpair hn
  obtain ⟨item, hitem, -, -⟩ := hs.given u pair hpair
  rw [hn, hs.items_made] at hitem
  cases hitem

theorem Safe.dlopen {path : Path} (hplace : s.place t = .dlopen path) (handle : Handle) :
    Safe ({ s with opened := Function.update s.opened handle (s.opened handle + 1) }.go t
      (.construct path handle)) := by
  have hle : ∀ h, s.opened h ≤ Function.update s.opened handle (s.opened handle + 1) h := by
    intro h
    by_cases hh : h = handle
    · subst hh
      rw [Function.update_self]
      omega
    · rw [Function.update_of_ne hh]
  refine hs.owner (n := s.made) (by rw [hplace]; rfl) rfl rfl rfl rfl (fun _ _ => rfl)
    hs.not_given_made (fun item hitem => ?_) (fun k _ => by rw [hplace]; rfl) (fun hn => ?_)
    (fun k _ => by rw [hplace]; exact nofun) ?_ hs.entries hs.distinct hs.numbered
    fun h => (hs.opened h).trans (hle h)
  · cases hs.items_made.symm.trans hitem
  · obtain ⟨item, hitem, -⟩ := hn
    cases hs.items_made.symm.trans hitem
  · show s.uses handle < Function.update s.opened handle (s.opened handle + 1) handle
    rw [Function.update_self]
    exact Nat.lt_succ_of_le (hs.opened handle)

theorem Safe.construct {path : Path} {handle : Handle} (hplace : s.place t = .construct path handle)
    (now : Int) (function : Fn) :
    Safe ({ s.setItem s.made { lastUsed := now, handle := handle, function := function } with
      cache := (path, s.made) :: s.cache
      made := s.made + 1 }.go t (.pair .unique s.made)) := by
  have hself : Function.update s.items s.made (some
      { lastUsed := now, handle := handle, function := function }) s.made =
        some { lastUsed := now, handle := handle, function := function } := Function.update_self ..
  have hitems : ∀ k, k ≠ s.made → Function.update s.items s.made (some
      { lastUsed := now, handle := handle, function := function }) k = s.items k :=
    fun k hk => Function.update_of_ne hk ..
  have hstands := hs.stands t
  rw [hplace] at hstands
  refine hs.owner (n := s.made) (by rw [hplace]; rfl) rfl rfl rfl rfl hitems hs.not_given_made
    (fun item hitem => ?_) (fun k _ => by rw [hplace]; rfl) (fun hn => ?_)
    (fun k _ => by rw [hplace]; exact nofun) ⟨_, hself, rfl⟩ (fun entry he => ?_) ?_
    (fun k item hitem => ?_) fun h => ?_
  · obtain rfl := Option.some.inj (hself.symm.trans hitem)
    refine SharedMutex.Agrees.new.congr (fun u => ?_) fun u => ?_
    · rw [itemShares, List.countP_eq_zero]
      intro pair hpair hn
      exact hs.not_given_made u pair hpair (by simpa using hn)
    · show (Function.update s.place t (.pair .unique s.made) u).owned = _ ↔ _
      refine iff_of_false (fun hu => ?_) id
      by_cases hut : u = t
      · subst hut
        rw [Function.update_self] at hu
        cases hu
      · rw [Function.update_of_ne hut, hs.alone_owned (by rw [hplace]; rfl) hut] at hu
        cases hu
  · obtain ⟨item, hitem, hclosed⟩ := hn
    obtain rfl := Option.some.inj (hself.symm.trans hitem)
    cases hclosed
  · rcases List.mem_cons.mp he with rfl | he
    · exact ⟨_, hself⟩
    · obtain ⟨item, hitem⟩ := hs.entries entry he
      have hne : entry.2 ≠ s.made := fun hn => by
        rw [hn, hs.items_made] at hitem
        cases hitem
      exact ⟨item, (hitems _ hne).trans hitem⟩
  · refine List.nodup_cons.mpr ⟨fun hmem => ?_, hs.distinct⟩
    obtain ⟨entry, he, hn⟩ := List.mem_map.mp hmem
    obtain ⟨item, hitem⟩ := hs.entries entry he
    rw [hn, hs.items_made] at hitem
    cases hitem
  · by_cases hk : k = s.made
    · rw [hk]
      exact Nat.lt_succ_self _
    · exact Nat.lt_succ_of_lt (hs.numbered k item ((hitems k hk).symm.trans hitem))
  · have huses : (List.range s.made).countP (fun k => (Function.update s.items s.made (some
        { lastUsed := now, handle := handle, function := function }) k).any fun item =>
          item.handle = h && !item.closed) = s.uses h :=
      countP_congr_of_mem fun k hk => by rw [hitems k (List.mem_range.mp hk).ne]
    show (List.range (s.made + 1)).countP (fun k => (Function.update s.items s.made (some
      { lastUsed := now, handle := handle, function := function }) k).any fun item =>
        item.handle = h && !item.closed) ≤ s.opened h
    rw [List.range_succ, List.countP_append, huses, List.countP_singleton, hself, Option.any_some]
    have hle := hs.opened h
    by_cases hh : handle = h
    · subst hh
      have hlt : s.uses handle < s.opened handle := hstands
      simp only [decide_true, Bool.not_false, Bool.and_self, if_true]
      omega
    · simpa [hh] using hle

end Owner

/-! ## Runs -/

section Runs

variable {s s' : ModuleCache T Path Handle Fn}

/-- The lock that a thread holds is that of an item that uses its handle. -/
theorem Safe.givenOpen (hs : Safe s) : GivenOpen s := by
  refine ⟨fun t pair hpair => ?_, fun t hfault => ?_⟩
  · obtain ⟨item, hitem, hclosed, hfunction⟩ := hs.given t pair hpair
    refine ⟨item, hitem, hfunction, lt_of_lt_of_le ?_ (hs.opened item.handle)⟩
    refine List.countP_pos_iff.mpr ⟨pair.item, List.mem_range.mpr (hs.numbered _ _ hitem), ?_⟩
    rw [hitem, Option.any_some, hclosed]
    simp
  · have hstands := hs.stands t
    rw [hfault] at hstands
    exact hstands

theorem Safe.sparesGiven (hs : Safe s) (e : CacheEvent T Path Handle Fn) : SparesGiven s e := by
  cases e with
  | lookUp | remove | release => trivial
  | advance t answers =>
    intro n hn u pair hpair heq
    have hstands := hs.stands t
    cases hplace : s.place t <;> rw [hplace] at hn hstands
    case dlclose entry after =>
      obtain rfl := Option.some.inj hn
      obtain ⟨-, item, hitem, -⟩ := hstands
      exact hs.not_given hitem (by rw [hplace]; rfl) u pair hpair heq
    case erase entry after =>
      obtain rfl := Option.some.inj hn
      obtain ⟨-, item, hitem, hclosed⟩ := hstands
      obtain ⟨found, hfound, hopen, -⟩ := hs.given u pair hpair
      rw [heq, hitem] at hfound
      obtain rfl := Option.some.inj hfound
      rw [hclosed] at hopen
      cases hopen
    all_goals cases hn

variable [DecidableEq Path]

/-- One step of a thread in a call. -/
theorem Safe.advance (hs : Safe s) {t : T} {answers : Answers Path Handle Fn}
    (hstep : s.advance t answers = some s') : Safe s' := by
  have hstands := hs.stands t
  unfold ModuleCache.advance at hstep
  cases hplace : s.place t with
  | outside | fault =>
    rw [hplace] at hstep
    cases hstep
  | lockShared path =>
    simp only [hplace, Option.map_eq_some_iff] at hstep
    obtain ⟨m, hlock, rfl⟩ := hstep
    exact hs.lockShared (by rw [hplace]; rfl) rfl trivial hlock
  | find path =>
    simp only [hplace] at hstep
    cases hentry : s.entry path with
    | some entry =>
      simp only [hentry] at hstep
      obtain rfl := Option.some.inj hstep
      have hlive := hs.live hplace nofun rfl (entry_mem hentry)
      exact hs.go hplace hlive rfl rfl rfl
    | none =>
      simp only [hentry] at hstep
      obtain rfl := Option.some.inj hstep
      exact hs.go hplace trivial rfl rfl rfl
  | unlockShared path =>
    simp only [hplace] at hstep
    obtain rfl := Option.some.inj hstep
    exact hs.unlockCache hplace rfl rfl rfl rfl trivial
  | lockUnique path =>
    simp only [hplace, Option.map_eq_some_iff] at hstep
    obtain ⟨m, hlock, rfl⟩ := hstep
    exact hs.lock (by rw [hplace]; rfl) rfl trivial rfl rfl hlock
  | findAgain path =>
    simp only [hplace] at hstep
    cases hentry : s.entry path with
    | some entry =>
      simp only [hentry] at hstep
      obtain rfl := Option.some.inj hstep
      have hlive := hs.live hplace nofun rfl (entry_mem hentry)
      exact hs.go hplace hlive rfl rfl rfl
    | none =>
      simp only [hentry] at hstep
      split at hstep
      all_goals
        obtain rfl := Option.some.inj hstep
        exact hs.go hplace trivial rfl rfl rfl
  | makeSpace path =>
    simp only [hplace] at hstep
    split at hstep
    · obtain rfl := Option.some.inj hstep
      exact hs.go hplace trivial rfl rfl rfl
    · split at hstep
      · rename_i hleast
        obtain rfl := Option.some.inj hstep
        have hlive := hs.live hplace nofun rfl hleast.1
        exact hs.go hplace ⟨hleast.1, hlive⟩ rfl rfl rfl
      · cases hstep
  | stamp mode n =>
    rw [hplace] at hstands
    obtain ⟨item, hitem, hclosed⟩ := hstands
    simp only [hplace, withItem_some hitem] at hstep
    obtain rfl := Option.some.inj hstep
    exact hs.stamp hplace hitem hclosed _
  | pair mode n =>
    rw [hplace] at hstands
    obtain ⟨item, hitem, hclosed⟩ := hstands
    simp only [hplace, withItem_some hitem, Option.map_eq_some_iff] at hstep
    obtain ⟨m, hlock, rfl⟩ := hstep
    exact hs.pair hplace hitem hclosed hlock
  | leave mode =>
    simp only [hplace] at hstep
    obtain rfl := Option.some.inj hstep
    exact hs.unlockCache hplace rfl rfl rfl rfl trivial
  | lockRemove path =>
    simp only [hplace, Option.map_eq_some_iff] at hstep
    obtain ⟨m, hlock, rfl⟩ := hstep
    exact hs.lock (by rw [hplace]; rfl) rfl trivial rfl rfl hlock
  | findRemoved path =>
    simp only [hplace] at hstep
    cases hentry : s.entry path with
    | some entry =>
      simp only [hentry] at hstep
      obtain rfl := Option.some.inj hstep
      have hmem := entry_mem hentry
      have hlive := hs.live hplace nofun rfl hmem
      exact hs.go hplace ⟨hmem, hlive⟩ rfl rfl rfl
    | none =>
      simp only [hentry] at hstep
      obtain rfl := Option.some.inj hstep
      exact hs.go hplace trivial rfl rfl rfl
  | lockItem entry after =>
    rw [hplace] at hstands
    obtain ⟨-, item, hitem, -⟩ := hstands
    simp only [hplace, withItem_some hitem, Option.map_eq_some_iff] at hstep
    obtain ⟨m, hlock, rfl⟩ := hstep
    exact hs.lockItem hplace hitem hlock
  | dlclose entry after =>
    rw [hplace] at hstands
    obtain ⟨-, item, hitem, hclosed⟩ := hstands
    obtain ⟨hopened, hsafe⟩ := hs.dlclose hplace hitem hclosed
    simp only [hplace, withItem_some hitem, if_neg hopened] at hstep
    obtain rfl := Option.some.inj hstep
    exact hsafe
  | unlockItem entry after =>
    rw [hplace] at hstands
    obtain ⟨-, item, hitem, -⟩ := hstands
    obtain ⟨m, hunlock, hsafe⟩ := hs.unlockItem hplace hitem
    simp only [hplace, withItem_some hitem, hunlock] at hstep
    obtain rfl := Option.some.inj hstep
    exact hsafe
  | erase entry after =>
    rw [hplace] at hstands
    obtain ⟨-, item, hitem, -⟩ := hstands
    obtain ⟨hfree, hsafe⟩ := hs.erase hplace hitem
    simp only [hplace, withItem_some hitem, if_pos hfree] at hstep
    obtain rfl := Option.some.inj hstep
    cases after with
    | load path => exact hsafe _ rfl rfl rfl fun _ => trivial
    | finish => exact hsafe _ rfl rfl rfl fun _ => trivial
  | dlopen path =>
    simp only [hplace] at hstep
    split at hstep
    · obtain rfl := Option.some.inj hstep
      exact hs.dlopen hplace _
    · obtain rfl := Option.some.inj hstep
      exact hs.go hplace trivial rfl rfl rfl
  | construct path handle =>
    simp only [hplace] at hstep
    split at hstep
    · obtain rfl := Option.some.inj hstep
      exact hs.construct hplace _ _
    · obtain rfl := Option.some.inj hstep
      exact hs.go hplace trivial rfl rfl rfl

variable [DecidableEq Fn]

/-- A call begins outside of all others. -/
theorem step_lookUp_iff {t : T} {path : Path} : s.step (.lookUp t path) = some s' ↔
    s.place t = .outside ∧ s.go t (.lockShared path) = s' := by
  unfold ModuleCache.step
  cases hplace : s.place t <;> simp [hplace]

theorem step_remove_iff {t : T} {path : Path} : s.step (.remove t path) = some s' ↔
    s.place t = .outside ∧ s.go t (.lockRemove path) = s' := by
  unfold ModuleCache.step
  cases hplace : s.place t <;> simp [hplace]

/-- A lock is let go of outside of all calls. -/
theorem step_release_iff {t : T} {pair : Pair Fn} : s.step (.release t pair) = some s' ↔
    s.place t = .outside ∧ pair ∈ s.given t ∧ s.release t pair = some s' := by
  unfold ModuleCache.step
  cases hplace : s.place t <;> simp [hplace]

theorem Safe.step (hs : Safe s) {e : CacheEvent T Path Handle Fn} (hstep : s.step e = some s') :
    Safe s' := by
  cases e with
  | lookUp t path =>
    obtain ⟨hplace, rfl⟩ := step_lookUp_iff.mp hstep
    exact hs.go hplace trivial rfl rfl rfl
  | remove t path =>
    obtain ⟨hplace, rfl⟩ := step_remove_iff.mp hstep
    exact hs.go hplace trivial rfl rfl rfl
  | release t pair =>
    obtain ⟨-, hpair, hrelease⟩ := step_release_iff.mp hstep
    exact hs.release hpair hrelease
  | advance t answers => exact hs.advance hstep

/-- **The module cache.** In every interleaving of look-ups, removals and releases, for any size of
    the cache and any answers of the loader: no step closes or destroys an item whose lock some
    thread holds, and the function that came with a lock is that of an item that is there and of a
    handle that is open. -/
theorem given_open (maxSize : Nat) (es : List (CacheEvent T Path Handle Fn)) :
    AllStates ModuleCache.step GivenOpen { maxSize := maxSize } es ∧
      AllSteps ModuleCache.step SparesGiven { maxSize := maxSize } es := by
  have hstep : ∀ (s : ModuleCache T Path Handle Fn) e s', Safe s → s.step e = some s' → Safe s' :=
    fun _ _ _ hs h => hs.step h
  exact ⟨.of_invariant hstep (fun _ hs => hs.givenOpen) es (safe_init maxSize),
    .of_invariant hstep (fun _ e hs => hs.sparesGiven e) es (safe_init maxSize)⟩

/-- A removal waits for the thread that was given the lock, and goes on when it lets go of it. -/
example :
    let go (t : Nat) : CacheEvent Nat Nat Nat Nat :=
      .advance t { now := 0, least := (0, 0), handle := some 7, function := some 9 }
    let es := .lookUp 0 1 :: List.replicate 9 (go 0) ++ [.remove 1 1, go 1, go 1]
    let s := exec ModuleCache.step { maxSize := 64 } es
    s.map (fun s => s.given 0) = some [⟨0, 9⟩] ∧
      (s.bind fun s => s.step (go 1)).isNone ∧
      (exec ModuleCache.step { maxSize := 64 }
          (es ++ [.release 0 ⟨0, 9⟩, go 1, go 1, go 1, go 1])).map
        (fun s => (s.cache, s.opened 7)) = some ([], 0) := by
  decide

end Runs

end Algiz.Plugins
