/-
  `ModuleCache` as a cache of what was used last.

  The table of the times at which the entries were used (`View.times`) is ordered as a list is in
  which a look-up puts its path in front, and a full list drops its last one. With one thread, a
  clock that goes on and modules that load, the paths in the cache are those of the list
  (`keys_lru`), and no call blocks that is made without a lock in hand.
-/
import Algiz.Lib.Recency
import Algiz.Fileserv.ModuleCalls

namespace Algiz.Plugins

open Algiz.Lib ModuleCache

variable {T Path Handle Fn : Type*}

/-- What the thread does. -/
inductive Call (Path Handle Fn : Type*) where
  /-- `operator[]` -/
  | get (path : Path) (load : Load Handle Fn)
  /-- `remove` -/
  | remove (path : Path)
  /-- the lock that it was given last is destroyed, if it holds one -/
  | letGo

namespace Call

/-- When a module is looked up. -/
def time : Call Path Handle Fn → Option Int
  | .get _ load => some load.now
  | .remove _ | .letGo => none

/-- What a call is for the list of what was used last. -/
def use : Call Path Handle Fn → Option (Use Path)
  | .get path _ => some (.get path)
  | .remove path => some (.drop path)
  | .letGo => none

/-- A module that is asked for can be loaded. -/
def Loads : Call Path Handle Fn → Prop
  | .get _ load => load.handle ≠ none ∧ load.function ≠ none
  | .remove _ | .letGo => True

end Call

/-- A call, with no other thread in between. -/
def ModuleCache.call [DecidableEq T] [DecidableEq Path] [DecidableEq Handle] [DecidableEq Fn]
    (t : T) (s : ModuleCache T Path Handle Fn) :
    Call Path Handle Fn → Option (ModuleCache T Path Handle Fn)
  | .get path load => s.get t path load
  | .remove path => s.remove t path
  | .letGo =>
    match s.given t with
    | [] => some s
    | pair :: _ => s.step (.release t pair)

namespace View

/-- A call as a function. -/
def call [DecidableEq Path] [DecidableEq Handle] (maxSize : Nat) (v : View Path Handle Fn) :
    Call Path Handle Fn → View Path Handle Fn
  | .get path load => v.get maxSize path load
  | .remove path => v.remove path
  | .letGo => { v with given := v.given.tail }

/-- When each path in the cache was used. -/
def times [DecidableEq Path] (v : View Path Handle Fn) : Map Path Int := fun path =>
  (v.entry path).bind fun entry => (v.items entry.2).map Prod.fst

end View

/-- The entries have different paths and items of their own, all of them made before. -/
structure Tidy (v : View Path Handle Fn) : Prop where
  keys : (v.cache.map Prod.fst).Nodup
  numbers : (v.cache.map Prod.snd).Nodup
  stored : ∀ entry ∈ v.cache, v.items entry.2 ≠ none
  numbered : ∀ entry ∈ v.cache, entry.2 < v.made

/-! ## The times -/

section Times

variable [DecidableEq Path] {v w : View Path Handle Fn} {entry : Path × Nat} {path : Path}

omit [DecidableEq Path] in
theorem tidy_empty : Tidy ({ cache := [] } : View Path Handle Fn) :=
  ⟨List.nodup_nil, List.nodup_nil, fun _ h => absurd h List.not_mem_nil,
    fun _ h => absurd h List.not_mem_nil⟩

omit [DecidableEq Path] in
theorem Tidy.congr (hv : Tidy v) (hcache : w.cache = v.cache) (hitems : w.items = v.items)
    (hmade : w.made = v.made) : Tidy w := by
  refine ⟨?_, ?_, ?_, ?_⟩
  · rw [hcache]
    exact hv.keys
  · rw [hcache]
    exact hv.numbers
  · rw [hcache, hitems]
    exact hv.stored
  · rw [hcache, hmade]
    exact hv.numbered

theorem times_congr (hcache : w.cache = v.cache) (hitems : w.items = v.items) :
    w.times = v.times := by
  unfold View.times View.entry
  rw [hcache, hitems]

theorem Tidy.entry_eq_some (hv : Tidy v) :
    v.entry path = some entry ↔ entry ∈ v.cache ∧ entry.1 = path := by
  constructor
  · intro h
    exact ⟨View.entry_mem h, by simpa using List.find?_some h⟩
  · rintro ⟨hmem, rfl⟩
    cases hfound : v.entry entry.1 with
    | none =>
      unfold View.entry at hfound
      rw [List.find?_eq_none] at hfound
      exact absurd (decide_eq_true rfl) (hfound entry hmem)
    | some found =>
      have hpath : found.1 = entry.1 := by simpa using List.find?_some hfound
      rw [List.inj_on_of_nodup_map hv.keys (View.entry_mem hfound) hmem hpath]

theorem Tidy.times_entry (hv : Tidy v) (hmem : entry ∈ v.cache) :
    v.times entry.1 = some (v.lastUsed entry) := by
  unfold View.times View.lastUsed
  rw [hv.entry_eq_some.mpr ⟨hmem, rfl⟩, Option.bind_some]
  obtain ⟨item, hitem⟩ := Option.ne_none_iff_exists'.mp (hv.stored entry hmem)
  rw [hitem]
  rfl

theorem Tidy.exists_entry (hv : Tidy v) {time : Int} (h : v.times path = some time) :
    ∃ entry ∈ v.cache, entry.1 = path ∧ v.lastUsed entry = time := by
  obtain ⟨entry, hentry, -⟩ := Option.bind_eq_some_iff.mp h
  obtain ⟨hmem, rfl⟩ := hv.entry_eq_some.mp hentry
  exact ⟨entry, hmem, rfl, Option.some.inj ((hv.times_entry hmem).symm.trans h)⟩

/-- The paths in the cache are those in the table. -/
theorem Tidy.mem_keys (hv : Tidy v) : path ∈ v.cache.map Prod.fst ↔ v.times path ≠ none := by
  rw [Option.ne_none_iff_exists', List.mem_map]
  constructor
  · rintro ⟨entry, hmem, rfl⟩
    exact ⟨_, hv.times_entry hmem⟩
  · rintro ⟨time, htime⟩
    obtain ⟨entry, hmem, hpath, -⟩ := hv.exists_entry htime
    exact ⟨entry, hmem, hpath⟩

/-- An entry is used now. -/
theorem Tidy.stamp (hv : Tidy v) (hmem : entry ∈ v.cache) (now : Int) :
    Tidy (v.stamp entry.2 now) ∧
      (v.stamp entry.2 now).times = Map.set v.times entry.1 now := by
  obtain ⟨item, hitem⟩ := Option.ne_none_iff_exists'.mp (hv.stored entry hmem)
  have hother : ∀ other ∈ v.cache, other ≠ entry →
      (v.stamp entry.2 now).items other.2 = v.items other.2 := by
    intro other hother hne
    refine Function.update_of_ne (fun hn => hne ?_) ..
    exact List.inj_on_of_nodup_map hv.numbers hother hmem hn
  have hself : (v.stamp entry.2 now).items entry.2 = some (now, item.2) := by
    show Function.update v.items entry.2 _ entry.2 = _
    rw [Function.update_self, hitem, Option.map_some]
  have htidy : Tidy (v.stamp entry.2 now) := by
    refine ⟨hv.keys, hv.numbers, fun other hother' => ?_, hv.numbered⟩
    by_cases heq : other = entry
    · rw [heq, hself]
      exact Option.some_ne_none _
    · rw [hother other hother' heq]
      exact hv.stored other hother'
  refine ⟨htidy, ?_⟩
  funext path
  obtain rfl | hne := eq_or_ne path entry.1
  · rw [Map.set_self, htidy.times_entry (show entry ∈ (v.stamp entry.2 now).cache from hmem)]
    unfold View.lastUsed
    rw [hself]
    rfl
  · rw [Map.set_of_ne _ hne]
    have hentry : (v.stamp entry.2 now).entry path = v.entry path := rfl
    unfold View.times
    rw [hentry]
    cases hfound : v.entry path with
    | none => rfl
    | some found =>
      obtain ⟨hmem', rfl⟩ := hv.entry_eq_some.mp hfound
      rw [Option.bind_some, Option.bind_some, hother found hmem']
      rintro rfl
      exact hne rfl

/-- An entry is erased. -/
theorem Tidy.erase (hv : Tidy v) (hmem : entry ∈ v.cache) :
    Tidy (v.erase entry) ∧ (v.erase entry).times = Map.erase v.times entry.1 := by
  have hnodup : v.cache.Nodup := hv.keys.of_map _
  have hmem_erase : ∀ other, other ∈ (v.erase entry).cache ↔ other ≠ entry ∧ other ∈ v.cache :=
    fun other => hnodup.mem_erase_iff
  have hother : ∀ other ∈ (v.erase entry).cache,
      (v.erase entry).items other.2 = v.items other.2 := by
    intro other hother
    obtain ⟨hne, hother⟩ := (hmem_erase other).mp hother
    refine Function.update_of_ne (fun hn => hne ?_) ..
    exact List.inj_on_of_nodup_map hv.numbers hother hmem hn
  have htidy : Tidy (v.erase entry) := by
    refine ⟨hv.keys.sublist (List.erase_sublist.map _),
      hv.numbers.sublist (List.erase_sublist.map _), fun other hother' => ?_,
      fun other hother' => hv.numbered other ((hmem_erase other).mp hother').2⟩
    rw [hother other hother']
    exact hv.stored other ((hmem_erase other).mp hother').2
  refine ⟨htidy, ?_⟩
  funext path
  obtain rfl | hne := eq_or_ne path entry.1
  · rw [Map.erase_self]
    by_contra hsome
    obtain ⟨other, hother', hpath⟩ := List.mem_map.mp (htidy.mem_keys.mpr hsome)
    obtain ⟨hdiff, hother'⟩ := (hmem_erase other).mp hother'
    exact hdiff (List.inj_on_of_nodup_map hv.keys hother' hmem hpath)
  · rw [Map.erase_of_ne _ hne]
    have hentry : (v.erase entry).entry path = v.entry path := by
      ext1 found
      rw [htidy.entry_eq_some, hv.entry_eq_some, hmem_erase]
      constructor
      · rintro ⟨⟨-, hfound⟩, hpath⟩
        exact ⟨hfound, hpath⟩
      · rintro ⟨hfound, rfl⟩
        exact ⟨⟨fun heq => hne (by rw [heq]), hfound⟩, rfl⟩
    unfold View.times
    rw [hentry]
    cases hfound : v.entry path with
    | none => rfl
    | some found =>
      rw [Option.bind_some, Option.bind_some, hother found (View.entry_mem (hentry.trans hfound))]

/-- A module is loaded that is not in the cache. -/
theorem Tidy.construct (hv : Tidy v) (hnew : v.entry path = none) (handle : Handle)
    {load : Load Handle Fn} {function : Fn} (hfunction : load.function = some function) :
    Tidy (v.construct path handle load) ∧
      (v.construct path handle load).times = Map.set v.times path load.now := by
  let w : View Path Handle Fn := { v with
    cache := (path, v.made) :: v.cache
    items := Function.update v.items v.made (some (load.now, handle, function))
    made := v.made + 1 }
  have hconstruct : (v.construct path handle load).cache = w.cache ∧
      (v.construct path handle load).items = w.items ∧
      (v.construct path handle load).made = w.made := by
    unfold View.construct
    rw [hfunction]
    dsimp only
    unfold View.pair
    split <;> exact ⟨rfl, rfl, rfl⟩
  obtain ⟨hcache, hitems, hmade⟩ := hconstruct
  have hself : w.items v.made = some (load.now, handle, function) := Function.update_self ..
  have hother : ∀ other ∈ v.cache, w.items other.2 = v.items other.2 :=
    fun other hother => Function.update_of_ne (hv.numbered other hother).ne ..
  have hnotin : path ∉ v.cache.map Prod.fst := by
    intro hmem
    obtain ⟨other, hother', rfl⟩ := List.mem_map.mp hmem
    rw [hv.entry_eq_some.mpr ⟨hother', rfl⟩] at hnew
    exact nomatch hnew
  have htidy : Tidy w := by
    refine ⟨List.nodup_cons.mpr ⟨hnotin, hv.keys⟩, List.nodup_cons.mpr ⟨?_, hv.numbers⟩, ?_, ?_⟩
    · intro hmem
      obtain ⟨other, hother', hn⟩ := List.mem_map.mp hmem
      exact absurd hn (hv.numbered other hother').ne
    · rintro other hother'
      rcases List.mem_cons.mp hother' with rfl | hother'
      · rw [hself]
        exact Option.some_ne_none _
      · rw [hother other hother']
        exact hv.stored other hother'
    · rintro other hother'
      rcases List.mem_cons.mp hother' with rfl | hother'
      · exact Nat.lt_succ_self _
      · exact Nat.lt_succ_of_lt (hv.numbered other hother')
  refine ⟨htidy.congr hcache hitems hmade, ?_⟩
  rw [times_congr hcache hitems]
  funext path'
  obtain rfl | hne := eq_or_ne path' path
  · rw [Map.set_self, htidy.times_entry (show (path', v.made) ∈ _ from List.mem_cons_self)]
    unfold View.lastUsed
    rw [hself]
    rfl
  · rw [Map.set_of_ne _ hne]
    have hentry : w.entry path' = v.entry path' := by
      show List.find? _ ((path, v.made) :: v.cache) = _
      rw [List.find?_cons_of_neg (by simpa using Ne.symm hne)]
      rfl
    unfold View.times
    rw [hentry]
    cases hfound : v.entry path' with
    | none => rfl
    | some found => rw [Option.bind_some, Option.bind_some, hother found (View.entry_mem hfound)]

end Times

/-! ## The list of what was used last -/

/-- The view's table is ordered as the list is. -/
structure Lists (v : View Path Handle Fn) [DecidableEq Path] (l : List Path) : Prop where
  tidy : Tidy v
  ordered : Ordered v.times l

section Lists

variable [DecidableEq Path] [DecidableEq Handle] {v w : View Path Handle Fn} {l : List Path}
  {path : Path} {load : Load Handle Fn} {maxSize : Nat}

omit [DecidableEq Handle] in
/-- The paths in the cache are those in the list. -/
theorem Lists.perm (h : Lists v l) : (v.cache.map Prod.fst).Perm l :=
  (List.perm_ext_iff_of_nodup h.tidy.keys h.ordered.nodup).mpr fun path =>
    h.tidy.mem_keys.trans (h.ordered.mem path).symm

omit [DecidableEq Handle] in
theorem Lists.length (h : Lists v l) : v.cache.length = l.length := by
  rw [← h.perm.length_eq, List.length_map]

omit [DecidableEq Handle] in
theorem Lists.entry_eq_none (h : Lists v l) : v.entry path = none ↔ path ∉ l := by
  rw [← h.perm.mem_iff]
  cases hentry : v.entry path with
  | none =>
    refine iff_of_true rfl fun hin => ?_
    obtain ⟨entry, hmem, rfl⟩ := List.mem_map.mp hin
    rw [h.tidy.entry_eq_some.mpr ⟨hmem, rfl⟩] at hentry
    exact nomatch hentry
  | some entry =>
    obtain ⟨hmem, rfl⟩ := h.tidy.entry_eq_some.mp hentry
    exact iff_of_false (fun hnone => nomatch hnone) fun hnot =>
      hnot (List.mem_map_of_mem hmem)

omit [DecidableEq Handle] in
theorem Lists.congr (h : Lists v l) (hcache : w.cache = v.cache) (hitems : w.items = v.items)
    (hmade : w.made = v.made) : Lists w l := by
  refine ⟨h.tidy.congr hcache hitems hmade, ?_⟩
  rw [times_congr hcache hitems]
  exact h.ordered

omit [DecidableEq Path] in
theorem View.close_same (v : View Path Handle Fn) (entry : Path × Nat) :
    (v.close entry).cache = v.cache ∧ (v.close entry).items = v.items ∧
      (v.close entry).made = v.made := by
  unfold View.close
  split <;> exact ⟨rfl, rfl, rfl⟩

omit [DecidableEq Path] [DecidableEq Handle] in
theorem View.pair_same (v : View Path Handle Fn) (n : Nat) :
    (v.pair n).cache = v.cache ∧ (v.pair n).items = v.items ∧ (v.pair n).made = v.made := by
  unfold View.pair
  split <;> exact ⟨rfl, rfl, rfl⟩

/-- An item is closed and erased. -/
theorem Lists.drop (h : Lists v l) {entry : Path × Nat} (hmem : entry ∈ v.cache) :
    Lists ((v.close entry).erase entry) (l.erase entry.1) ∧
      ((v.close entry).erase entry).times = Map.erase v.times entry.1 := by
  obtain ⟨hcache, hitems, hmade⟩ := v.close_same entry
  have htidy : Tidy (v.close entry) := h.tidy.congr hcache hitems hmade
  obtain ⟨htidy', htimes⟩ := htidy.erase (show entry ∈ _ by rw [hcache]; exact hmem)
  rw [times_congr hcache hitems] at htimes
  refine ⟨⟨htidy', ?_⟩, htimes⟩
  rw [htimes]
  exact h.ordered.erase entry.1

/-- `remove` takes the path out of the list. -/
theorem Lists.remove (h : Lists v l) (path : Path) :
    Lists (v.remove path) (l.erase path) ∧
      ∀ k a, (v.remove path).times k = some a → v.times k = some a := by
  cases hentry : v.entry path with
  | none =>
    rw [View.remove_missing hentry, List.erase_of_not_mem (h.entry_eq_none.mp hentry)]
    exact ⟨h, fun k a hk => hk⟩
  | some entry =>
    rw [View.remove_found hentry]
    obtain ⟨hmem, rfl⟩ := h.tidy.entry_eq_some.mp hentry
    obtain ⟨hlists, htimes⟩ := h.drop hmem
    refine ⟨hlists, fun k a hk => ?_⟩
    rw [htimes] at hk
    exact (Map.erase_eq_some.mp hk).1

/-- `makeSpace` drops the last of a full list. -/
theorem Lists.makeSpace (h : Lists v l) (hsize : 1 ≤ maxSize) (path : Path) :
    Lists (v.makeSpace maxSize path) (if l.length < maxSize then l else l.dropLast) ∧
      ∀ k a, (v.makeSpace maxSize path).times k = some a → v.times k = some a := by
  have hlength := h.length
  unfold View.makeSpace
  by_cases hroom : l.length < maxSize
  · rw [if_pos (.inr (by omega)), if_pos hroom]
    exact ⟨h, fun k a hk => hk⟩
  · have hne : v.cache ≠ [] := by
      intro hnil
      rw [hnil] at hlength
      simp only [List.length_nil] at hlength
      omega
    have hfull : ¬(v.cache = [] ∨ v.cache.length < maxSize) := not_or.mpr ⟨hne, by omega⟩
    have hmem := View.least_mem hne path
    rw [if_neg hfull, if_neg hroom]
    obtain ⟨hlists, htimes⟩ := h.drop hmem
    refine ⟨?_, fun k a hk => ?_⟩
    · have hlast : l.erase (v.least path).1 = l.dropLast := by
        refine h.ordered.erase_least (h.tidy.times_entry hmem) fun k b hb => ?_
        obtain ⟨entry, hentry, -, rfl⟩ := h.tidy.exists_entry hb
        exact View.lastUsed_least path hentry
      rw [hlast] at hlists
      exact hlists
    · rw [htimes] at hk
      exact (Map.erase_eq_some.mp hk).1

/-- A look-up puts its path in front of the list. -/
theorem Lists.get (h : Lists v l) (hsize : 1 ≤ maxSize) (path : Path)
    (hloads : load.handle ≠ none ∧ load.function ≠ none)
    (hnow : ∀ k a, v.times k = some a → a < load.now) :
    Lists (v.get maxSize path load) (touch maxSize l path) ∧
      ∀ k a, (v.get maxSize path load).times k = some a → a = load.now ∨ v.times k = some a := by
  have hset : ∀ {times : Map Path Int}, (∀ k a, times k = some a → v.times k = some a) →
      ∀ k a, Map.set times path load.now k = some a → a = load.now ∨ v.times k = some a := by
    intro times htimes k a hk
    obtain rfl | hne := eq_or_ne k path
    · rw [Map.set_self] at hk
      exact .inl (Option.some.inj hk).symm
    · rw [Map.set_of_ne _ hne] at hk
      exact .inr (htimes k a hk)
  unfold touch
  cases hentry : v.entry path with
  | some entry =>
    rw [View.get_found hentry]
    obtain ⟨hmem, rfl⟩ := h.tidy.entry_eq_some.mp hentry
    have hin : entry.1 ∈ l := by
      rw [← h.perm.mem_iff]
      exact List.mem_map_of_mem hmem
    obtain ⟨htidy, htimes⟩ := h.tidy.stamp hmem load.now
    obtain ⟨hcache, hitems, hmade⟩ := (v.stamp entry.2 load.now).pair_same entry.2
    rw [if_pos hin, times_congr hcache hitems, htimes]
    refine ⟨⟨htidy.congr hcache hitems hmade, ?_⟩, hset fun k a hk => hk⟩
    rw [times_congr hcache hitems, htimes]
    exact h.ordered.set _ hnow
  | none =>
    have hnotin := h.entry_eq_none.mp hentry
    obtain ⟨handle, hhandle⟩ := Option.ne_none_iff_exists'.mp hloads.1
    obtain ⟨function, hfunction⟩ := Option.ne_none_iff_exists'.mp hloads.2
    obtain ⟨hlists, hkept⟩ := h.makeSpace hsize path
    have hnotin' : path ∉ if l.length < maxSize then l else l.dropLast := by
      split
      · exact hnotin
      · exact fun hmem => hnotin (List.mem_of_mem_dropLast hmem)
    have hopened : Lists ((v.makeSpace maxSize path).dlopen handle) _ := hlists.congr rfl rfl rfl
    obtain ⟨htidy, htimes⟩ :=
      hopened.tidy.construct (hopened.entry_eq_none.mpr hnotin') handle hfunction
    have htable : ((v.makeSpace maxSize path).dlopen handle).times =
        (v.makeSpace maxSize path).times := times_congr rfl rfl
    rw [htable] at htimes
    rw [if_neg hnotin, View.get_missing hentry, View.load_some _ path hhandle, htimes]
    refine ⟨⟨htidy, ?_⟩, hset hkept⟩
    have hset' := hlists.ordered.set path fun k a hk => hnow k a (hkept k a hk)
    rw [htimes]
    rwa [List.erase_of_not_mem hnotin'] at hset'

/-- After any calls the table is ordered as the list is, and its times are those of the calls. -/
theorem lists_calls (hsize : 1 ≤ maxSize) {calls : List (Call Path Handle Fn)}
    (hloads : ∀ call ∈ calls, call.Loads)
    (hclock : (calls.filterMap Call.time).Pairwise (· < ·)) :
    Lists (calls.foldl (View.call maxSize) { cache := [] })
        (lru maxSize (calls.filterMap Call.use)) ∧
      ∀ k a, (calls.foldl (View.call maxSize) { cache := [] }).times k = some a →
        a ∈ calls.filterMap Call.time := by
  induction calls using List.reverseRecOn with
  | nil => exact ⟨⟨tidy_empty, ordered_nil⟩, fun k a hk => nomatch hk⟩
  | append_singleton calls call ih =>
    rw [List.filterMap_append] at hclock ⊢
    obtain ⟨hearlier, -, hlater⟩ := List.pairwise_append.mp hclock
    obtain ⟨hlists, htimes⟩ := ih (fun call hcall => hloads call (List.mem_append_left _ hcall))
      hearlier
    rw [List.foldl_append, List.foldl_cons, List.foldl_nil, List.filterMap_append]
    have hcall := hloads call (List.mem_append_right _ List.mem_cons_self)
    cases call with
    | get path load =>
      have huse : [Call.get path load].filterMap Call.use = [.get path] := rfl
      have htime : [Call.get path load].filterMap Call.time = [load.now] := rfl
      rw [htime] at hlater ⊢
      obtain ⟨hget, hkept⟩ := hlists.get hsize path hcall
        fun k a hk => hlater a (htimes k a hk) load.now List.mem_cons_self
      rw [huse, lru_concat]
      refine ⟨hget, fun k a hk => ?_⟩
      rcases hkept k a hk with rfl | hk
      · exact List.mem_append_right _ List.mem_cons_self
      · exact List.mem_append_left _ (htimes k a hk)
    | remove path =>
      have huse : [(Call.remove path : Call Path Handle Fn)].filterMap Call.use = [.drop path] :=
        rfl
      obtain ⟨hremove, hkept⟩ := hlists.remove path
      rw [huse, lru_concat]
      exact ⟨hremove, fun k a hk => List.mem_append_left _ (htimes k a (hkept k a hk))⟩
    | letGo =>
      have huse : [(Call.letGo : Call Path Handle Fn)].filterMap Call.use = [] := rfl
      rw [huse, List.append_nil]
      exact ⟨hlists.congr rfl rfl rfl, fun k a hk => List.mem_append_left _ (htimes k a hk)⟩

end Lists

/-! ## Calls return -/

/-- How many steps a call takes from a place on, at most. -/
def Place.steps : Place Path Handle → Nat
  | .outside | .fault => 0
  | .leave _ => 1
  | .pair .. => 2
  | .stamp .. | .construct .. => 3
  | .dlopen _ => 4
  | .erase _ after => match after with | .load _ => 5 | .finish => 2
  | .unlockItem _ after => match after with | .load _ => 6 | .finish => 3
  | .dlclose _ after => match after with | .load _ => 7 | .finish => 4
  | .lockItem _ after => match after with | .load _ => 8 | .finish => 5
  | .makeSpace _ => 9
  | .findAgain _ => 10
  | .lockUnique _ => 11
  | .unlockShared _ => 12
  | .find _ => 13
  | .lockShared _ => 14
  | .findRemoved _ => 6
  | .lockRemove _ => 7

section Returns

variable [DecidableEq Path] [DecidableEq Handle] {s s' : ModuleCache Unit Path Handle Fn}
  {path : Path} {load : Load Handle Fn}

/-- The only thread has no lock in hand, but perhaps the one that it was just given. -/
def EmptyHanded (s : ModuleCache Unit Path Handle Fn) : Prop :=
  s.given () = [] ∨ s.place () = .outside ∨ ∃ mode, s.place () = .leave mode

omit [DecidableEq Path] in
/-- `cacheMutex` is free for the only thread. -/
theorem cacheMutex_free (hs : Safe s) (hmode : (s.place ()).mode = none) : s.cacheMutex.Free := by
  refine hs.cacheMutex.free (fun u => ?_) fun u hu => ?_
  · unfold ModuleCache.cacheShares Place.shares
    rw [show s.place u = s.place () from rfl, hmode]
    rfl
  · have hu : (s.place ()).mode = some .unique := hu
    rw [hmode] at hu
    exact nomatch hu

omit [DecidableEq Path] in
/-- So is the mutex of an item, with no lock in hand. -/
theorem itemMutex_free (hs : Safe s) {n : Nat} {item : Item Unit Handle Fn}
    (hitem : s.items n = some item) (howned : (s.place ()).owned = none)
    (hgiven : s.given () = []) : item.mutex.Free := by
  refine (hs.mutexes n item hitem).free (fun u => ?_) fun u hu => ?_
  · unfold ModuleCache.itemShares
    rw [show s.given u = s.given () from rfl, hgiven]
    rfl
  · have hu : (s.place ()).owned = some n := hu
    rw [howned] at hu
    exact nomatch hu

theorem lock_of_free {m : SharedMutex Unit} (h : m.Free) :
    (∃ m', m.lock () = some m') ∧ ∃ m', m.lockShared () = some m' := by
  refine ⟨⟨_, if_pos h⟩, ⟨_, dif_pos h.1⟩⟩

/-- The thread has come nearer to the end of its call. -/
def Nearer (s s' : ModuleCache Unit Path Handle Fn) : Prop :=
  (s'.place ()).steps < (s.place ()).steps ∧ EmptyHanded s'

omit [DecidableEq Path] [DecidableEq Handle] in
/-- Before the last two steps the thread has no lock in hand. -/
theorem EmptyHanded.given (h : EmptyHanded s) (hsteps : 1 < (s.place ()).steps) :
    s.given () = [] := by
  rcases h with hgiven | hout | ⟨mode, hleave⟩
  · exact hgiven
  · rw [hout] at hsteps
    exact absurd hsteps (by simp [Place.steps])
  · rw [hleave] at hsteps
    exact absurd hsteps (by simp [Place.steps])

omit [DecidableEq Path] [DecidableEq Handle] in
/-- A step that gives the thread no lock, and is not the last one. -/
theorem nearer_go (hhands : EmptyHanded s) {old place : Place Path Handle}
    (hplace : s.place () = old) (hsteps : 0 < place.steps ∧ place.steps < old.steps)
    {next : ModuleCache Unit Path Handle Fn} (hgiven : next.given () = s.given ()) :
    Nearer s (next.go () place) := by
  unfold Nearer
  rw [place_go, hplace]
  refine ⟨hsteps.2, .inl (hgiven.trans (hhands.given ?_))⟩
  rw [hplace]
  omega

omit [DecidableEq Path] [DecidableEq Handle] in
theorem leastUsed_least (hne : s.cache ≠ []) : s.LeastUsed ((s.view ()).least path) := by
  have hused : ∀ entry, (s.view ()).lastUsed entry =
      ((s.items entry.2).map Item.lastUsed).getD 0 := by
    intro entry
    unfold View.lastUsed ModuleCache.view
    dsimp only
    rw [Option.map_map]
    rfl
  refine ⟨View.least_mem hne path, fun other hother => ?_⟩
  rw [← hused, ← hused]
  exact View.lastUsed_least path hother

/-- The only thread goes on. -/
theorem advance_returns (path : Path) (load : Load Handle Fn) (hs : Safe s)
    (hout : s.place () ≠ .outside) (hhands : EmptyHanded s) :
    ∃ s', s.advance () (s.answers () path load) = some s' ∧ Nearer s s' := by
  have hstands := hs.stands ()
  have hsafe : ∀ next, s.advance () (s.answers () path load) = some next → Safe next :=
    fun next hstep => hs.advance hstep
  unfold ModuleCache.advance at hsafe ⊢
  cases hplace : s.place () with
  | outside => exact absurd hplace hout
  | fault => exact absurd hplace hs.ne_fault
  | lockShared path' =>
    obtain ⟨m, hm⟩ := (lock_of_free (cacheMutex_free hs (by rw [hplace]; rfl))).2
    simp only [hm, Option.map_some]
    exact ⟨_, rfl, nearer_go hhands hplace (by simp [Place.steps]) rfl⟩
  | find path' =>
    dsimp only
    split
    · exact ⟨_, rfl, nearer_go hhands hplace (by simp [Place.steps]) rfl⟩
    · exact ⟨_, rfl, nearer_go hhands hplace (by simp [Place.steps]) rfl⟩
  | unlockShared path' =>
    simp only [hplace] at hsafe
    obtain ⟨m, heq⟩ := unlockCache_go (hsafe _ rfl)
    dsimp only
    rw [heq]
    exact ⟨_, rfl, nearer_go hhands hplace (by simp [Place.steps]) rfl⟩
  | lockUnique path' =>
    obtain ⟨m, hm⟩ := (lock_of_free (cacheMutex_free hs (by rw [hplace]; rfl))).1
    simp only [hm, Option.map_some]
    exact ⟨_, rfl, nearer_go hhands hplace (by simp [Place.steps]) rfl⟩
  | findAgain path' =>
    dsimp only
    split
    · exact ⟨_, rfl, nearer_go hhands hplace (by simp [Place.steps]) rfl⟩
    · split
      · exact ⟨_, rfl, nearer_go hhands hplace (by simp [Place.steps]) rfl⟩
      · exact ⟨_, rfl, nearer_go hhands hplace (by simp [Place.steps]) rfl⟩
  | makeSpace path' =>
    dsimp only
    split
    · exact ⟨_, rfl, nearer_go hhands hplace (by simp [Place.steps]) rfl⟩
    · rename_i hroom
      have hleast : s.LeastUsed (s.answers () path load).least :=
        leastUsed_least (not_or.mp hroom).1
      rw [if_pos hleast]
      exact ⟨_, rfl, nearer_go hhands hplace (by simp [Place.steps]) rfl⟩
  | stamp mode n =>
    rw [hplace] at hstands
    obtain ⟨item, hitem, -⟩ := hstands
    simp only [withItem_some hitem]
    exact ⟨_, rfl, nearer_go hhands hplace (by simp [Place.steps]) rfl⟩
  | pair mode n =>
    have hgiven := hhands.given (by simp [hplace, Place.steps])
    rw [hplace] at hstands
    obtain ⟨item, hitem, -⟩ := hstands
    obtain ⟨m, hm⟩ :=
      (lock_of_free (itemMutex_free hs hitem (by rw [hplace]; rfl) hgiven)).2
    simp only [withItem_some hitem, hm, Option.map_some]
    refine ⟨_, rfl, ?_, .inr (.inr ⟨mode, place_go ..⟩)⟩
    rw [place_go, hplace]
    simp [Place.steps]
  | leave mode =>
    simp only [hplace] at hsafe
    obtain ⟨m, heq⟩ := unlockCache_go (hsafe _ rfl)
    dsimp only
    rw [heq]
    refine ⟨_, rfl, ?_, .inr (.inl (place_go ..))⟩
    rw [place_go, hplace]
    simp [Place.steps]
  | lockRemove path' =>
    obtain ⟨m, hm⟩ := (lock_of_free (cacheMutex_free hs (by rw [hplace]; rfl))).1
    simp only [hm, Option.map_some]
    exact ⟨_, rfl, nearer_go hhands hplace (by simp [Place.steps]) rfl⟩
  | findRemoved path' =>
    dsimp only
    split
    · exact ⟨_, rfl, nearer_go hhands hplace (by simp [Place.steps]) rfl⟩
    · exact ⟨_, rfl, nearer_go hhands hplace (by simp [Place.steps]) rfl⟩
  | lockItem entry after =>
    have hgiven := hhands.given (by cases after <;> simp [hplace, Place.steps])
    rw [hplace] at hstands
    obtain ⟨-, item, hitem, -⟩ := hstands
    obtain ⟨m, hm⟩ :=
      (lock_of_free (itemMutex_free hs hitem (by rw [hplace]; rfl) hgiven)).1
    simp only [withItem_some hitem, hm, Option.map_some]
    exact ⟨_, rfl, nearer_go hhands hplace (by cases after <;> simp [Place.steps]) rfl⟩
  | dlclose entry after =>
    rw [hplace] at hstands
    obtain ⟨-, item, hitem, hclosed⟩ := hstands
    simp only [withItem_some hitem, if_neg (hs.dlclose hplace hitem hclosed).1]
    exact ⟨_, rfl, nearer_go hhands hplace (by cases after <;> simp [Place.steps]) rfl⟩
  | unlockItem entry after =>
    rw [hplace] at hstands
    obtain ⟨-, item, hitem, -⟩ := hstands
    obtain ⟨m, hunlock, -⟩ := hs.unlockItem hplace hitem
    simp only [withItem_some hitem, hunlock]
    exact ⟨_, rfl, nearer_go hhands hplace (by cases after <;> simp [Place.steps]) rfl⟩
  | erase entry after =>
    rw [hplace] at hstands
    obtain ⟨-, item, hitem, -⟩ := hstands
    simp only [withItem_some hitem, if_pos (hs.erase hplace hitem).1]
    exact ⟨_, rfl, nearer_go hhands hplace (by cases after <;> simp [Place.steps]) rfl⟩
  | dlopen path' =>
    dsimp only
    split
    · exact ⟨_, rfl, nearer_go hhands hplace (by simp [Place.steps]) rfl⟩
    · exact ⟨_, rfl, nearer_go hhands hplace (by simp [Place.steps]) rfl⟩
  | construct path' handle =>
    dsimp only
    split
    · exact ⟨_, rfl, nearer_go hhands hplace (by simp [Place.steps]) rfl⟩
    · exact ⟨_, rfl, nearer_go hhands hplace (by simp [Place.steps]) rfl⟩

/-- With enough steps the call comes to its end. -/
theorem finish_returns (path : Path) (load : Load Handle Fn) (fuel : Nat) (hs : Safe s)
    (hfuel : (s.place ()).steps < fuel) (hhands : EmptyHanded s) :
    ∃ s', finish () path load fuel s = some s' := by
  induction fuel generalizing s with
  | zero => exact absurd hfuel (Nat.not_lt_zero _)
  | succ fuel ih =>
    unfold ModuleCache.finish
    split
    · exact ⟨s, rfl⟩
    · rename_i hout
      obtain ⟨next, hstep, hsteps, hhands'⟩ := advance_returns path load hs hout hhands
      obtain ⟨s', hs'⟩ := ih (hs.advance hstep) (by omega) hhands'
      exact ⟨s', by rw [hstep]; exact hs'⟩

variable [DecidableEq Fn]

/-- A call that is made without a lock in hand returns. -/
theorem call_returns (hs : Safe s) (hout : s.place () = .outside) (hgiven : s.given () = [])
    (call : Call Path Handle Fn) : ∃ s', s.call () call = some s' := by
  cases call with
  | get path load =>
    have hstep : s.step (.lookUp () path) = some (s.go () (.lockShared path)) :=
      step_lookUp_iff.mpr ⟨hout, rfl⟩
    obtain ⟨s', hs'⟩ := finish_returns path load 15 (hs.step hstep)
      (by rw [place_go]; simp [Place.steps]) (.inl hgiven)
    have hget : s.get () path load = some s' := Option.bind_eq_some_iff.mpr ⟨_, hstep, hs'⟩
    exact ⟨s', hget⟩
  | remove path =>
    have hstep : s.step (.remove () path) = some (s.go () (.lockRemove path)) :=
      step_remove_iff.mpr ⟨hout, rfl⟩
    obtain ⟨s', hs'⟩ := finish_returns path ⟨0, none, none⟩ 8 (hs.step hstep)
      (by rw [place_go]; simp [Place.steps]) (.inl hgiven)
    have hremove : s.remove () path = some s' := Option.bind_eq_some_iff.mpr ⟨_, hstep, hs'⟩
    exact ⟨s', hremove⟩
  | letGo =>
    unfold ModuleCache.call
    rw [hgiven]
    exact ⟨s, rfl⟩

end Returns

/-! ## Runs of one thread -/

section Runs

variable [DecidableEq T] [DecidableEq Path] [DecidableEq Handle] [DecidableEq Fn]
  {s s' : ModuleCache T Path Handle Fn} {t : T}

/-- A lock is let go of. -/
theorem letGo_view (hs : Safe s) (hout : s.place t = .outside) (h : s.call t .letGo = some s') :
    Safe s' ∧ s'.place t = .outside ∧ s'.maxSize = s.maxSize ∧
      s'.view t = { s.view t with given := (s.view t).given.tail } := by
  unfold ModuleCache.call at h
  dsimp only at h
  cases hgiven : s.given t with
  | nil =>
    rw [hgiven] at h
    obtain rfl := Option.some.inj h
    refine ⟨hs, hout, rfl, ?_⟩
    have hview : (s.view t).given = [] := hgiven
    ext1 <;> simp [hview]
  | cons pair given =>
    rw [hgiven] at h
    dsimp only at h
    have hsafe := hs.step h
    have hpair : pair ∈ s.given t := by
      rw [hgiven]
      exact List.mem_cons_self
    obtain ⟨item, hitem, -⟩ := hs.given t pair hpair
    obtain ⟨-, -, hrelease⟩ := step_release_iff.mp h
    unfold ModuleCache.release at hrelease
    rw [withItem_some hitem] at hrelease
    split at hrelease
    · rename_i m hunlock
      obtain rfl := Option.some.inj hrelease
      refine ⟨hsafe, hout, rfl, ?_⟩
      have hitems := congrArg View.items
        (view_setItem (t := t) { item with mutex := m } hitem rfl rfl rfl)
      ext1
      · rfl
      · exact hitems
      · rfl
      · rfl
      · show Function.update s.given t ((s.given t).erase pair) t = (s.given t).tail
        rw [Function.update_self, hgiven, List.erase_cons_head]
        rfl
    · obtain rfl := Option.some.inj hrelease
      exact absurd (place_go ..) hsafe.ne_fault

/-- A call that returns has done what the function says. -/
theorem call_view (hs : Safe s) (hout : s.place t = .outside) {call : Call Path Handle Fn}
    (h : s.call t call = some s') : Safe s' ∧ s'.place t = .outside ∧ s'.maxSize = s.maxSize ∧
      s'.view t = (s.view t).call s.maxSize call := by
  cases call with
  | get path load => exact get_view hs h
  | remove path => exact remove_view hs h
  | letGo => exact letGo_view hs hout h

/-- So have all the calls of a run. -/
theorem exec_view {calls : List (Call Path Handle Fn)} (hs : Safe s) (hout : s.place t = .outside)
    (h : exec (ModuleCache.call t) s calls = some s') : Safe s' ∧ s'.place t = .outside ∧
      s'.view t = calls.foldl (View.call s.maxSize) (s.view t) := by
  induction calls generalizing s with
  | nil =>
    obtain rfl := Option.some.inj h
    exact ⟨hs, hout, rfl⟩
  | cons call calls ih =>
    obtain ⟨next, hcall, hrest⟩ := exec_cons h
    obtain ⟨hsafe, hout', hsize, hview⟩ := call_view hs hout hcall
    obtain ⟨hsafe', hout'', hview'⟩ := ih hsafe hout' hrest
    refine ⟨hsafe', hout'', ?_⟩
    rw [hview', hsize, hview, List.foldl_cons]

omit [DecidableEq Path] [DecidableEq Handle] [DecidableEq Fn] in
theorem View.pair_tail {v : View Path Handle Fn} (hgiven : v.given = []) (n : Nat) :
    (v.pair n).given.tail = [] := by
  unfold View.pair
  split
  · exact hgiven
  · rw [hgiven]
    rfl

omit [DecidableEq Fn] in
/-- A call gives no more than one lock. -/
theorem View.call_tail {v : View Path Handle Fn} (hgiven : v.given = []) (maxSize : Nat)
    (call : Call Path Handle Fn) : (v.call maxSize call).given.tail = [] := by
  have htail : v.given.tail = [] := by rw [hgiven, List.tail_nil]
  cases call with
  | get path load =>
    show (v.get maxSize path load).given.tail = []
    cases hentry : v.entry path with
    | some entry =>
      rw [View.get_found hentry]
      exact View.pair_tail (v := v.stamp _ _) hgiven _
    | none =>
      have hspace : (v.makeSpace maxSize path).given = [] := by
        rw [View.makeSpace_given, hgiven]
      rw [View.get_missing hentry]
      unfold View.load
      split
      · unfold View.construct
        split
        · refine View.pair_tail ?_ _
          exact hspace
        · exact congrArg List.tail hspace
      · exact congrArg List.tail hspace
  | remove path =>
    show (v.remove path).given.tail = []
    unfold View.remove
    split
    · rw [View.drop_given, htail]
    · exact htail
  | letGo =>
    show v.given.tail.tail = []
    rw [htail, List.tail_nil]

/-- If every lock is let go of before the next call, all calls return. -/
theorem exec_returns {s : ModuleCache Unit Path Handle Fn} (hs : Safe s)
    (hout : s.place () = .outside) (hgiven : s.given () = []) (calls : List (Call Path Handle Fn)) :
    ∃ s', exec (ModuleCache.call ()) s (calls.flatMap fun call => [call, .letGo]) = some s' := by
  induction calls generalizing s with
  | nil => exact ⟨s, rfl⟩
  | cons call calls ih =>
    obtain ⟨next, hcall⟩ := call_returns hs hout hgiven call
    obtain ⟨hsafe, hout', -, hview⟩ := call_view hs hout hcall
    have htail : (next.view ()).given.tail = [] := by
      rw [hview]
      exact View.call_tail hgiven s.maxSize call
    have hlet : ∃ free, next.call () .letGo = some free := by
      unfold ModuleCache.call
      dsimp only
      cases hnext : next.given () with
      | nil => exact ⟨next, rfl⟩
      | cons pair given =>
        have hpair : pair ∈ next.given () := by
          rw [hnext]
          exact List.mem_cons_self
        obtain ⟨item, hitem, -⟩ := hsafe.given () pair hpair
        unfold ModuleCache.step ModuleCache.release
        simp only [hout', if_pos hpair, withItem_some hitem]
        split <;> exact ⟨_, rfl⟩
    obtain ⟨free, hfree⟩ := hlet
    obtain ⟨hsafe', hout'', -, hview'⟩ := letGo_view hsafe hout' hfree
    have hgiven' : free.given () = [] := by
      have hgiven' := congrArg View.given hview'
      exact hgiven'.trans htail
    obtain ⟨s', hs'⟩ := ih hsafe' hout'' hgiven'
    refine ⟨s', ?_⟩
    rw [List.flatMap_cons, List.cons_append, List.cons_append, List.nil_append, exec, hcall]
    show exec _ next _ = _
    rw [exec, hfree]
    exact hs'

end Runs

/-- One thread looks up modules that load and removes them, in any order, and the clock goes on
    between the look-ups. After calls that have returned, the paths in the cache are those of the
    list of what was used last; there are never more than `maxSize`, and what was looked up not
    long ago is there. And the calls return, if the thread lets go of each lock before it makes the
    next one. -/
theorem keys_lru [DecidableEq Path] [DecidableEq Handle] [DecidableEq Fn] {maxSize : Nat}
    (hsize : 1 ≤ maxSize) {calls : List (Call Path Handle Fn)}
    (hloads : ∀ call ∈ calls, call.Loads)
    (hclock : (calls.filterMap Call.time).Pairwise (· < ·)) :
    (∀ s : ModuleCache Unit Path Handle Fn,
      exec (ModuleCache.call ()) { maxSize := maxSize } calls = some s →
        (s.cache.map Prod.fst).Perm (lru maxSize (calls.filterMap Call.use)) ∧
        s.cache.length ≤ maxSize ∧
        ∀ path, Recent maxSize (calls.filterMap Call.use) path → path ∈ s.cache.map Prod.fst) ∧
    ∃ s : ModuleCache Unit Path Handle Fn, exec (ModuleCache.call ()) { maxSize := maxSize }
      (calls.flatMap fun call => [call, .letGo]) = some s := by
  refine ⟨fun s h => ?_, exec_returns (safe_init maxSize) rfl rfl calls⟩
  obtain ⟨-, -, hview⟩ := exec_view (safe_init maxSize) rfl h
  obtain ⟨hlists, -⟩ := lists_calls hsize hloads hclock
  have hcache := congrArg View.cache hview
  have hcache : s.cache = (calls.foldl (View.call maxSize) { cache := [] }).cache := hcache
  rw [hcache]
  refine ⟨hlists.perm, ?_, fun path hrecent => ?_⟩
  · rw [hlists.length]
    exact length_lru hsize _
  · rw [hlists.perm.mem_iff]
    exact mem_lru_of_recent hrecent

/-- Three modules and a cache for two: the one that was not used again makes room. -/
theorem keys_lru_three : ∃ s : ModuleCache Unit Nat Nat Nat,
    exec (ModuleCache.call ()) { maxSize := 2 }
      [.get 1 ⟨1, some 10, some 100⟩, .letGo, .get 2 ⟨2, some 20, some 200⟩, .letGo,
        .get 1 ⟨3, some 10, some 100⟩, .letGo, .get 3 ⟨4, some 30, some 300⟩, .letGo] = some s ∧
      (s.cache.map Prod.fst).Perm [3, 1] := by
  have hlist : lru 2 ([.get 1 ⟨1, some 10, some 100⟩, .letGo, .get 2 ⟨2, some 20, some 200⟩,
      .letGo, .get 1 ⟨3, some 10, some 100⟩, .letGo, .get 3 ⟨4, some 30, some 300⟩,
      .letGo].filterMap (Call.use : Call Nat Nat Nat → _)) = [3, 1] := by decide
  obtain ⟨hruns, -⟩ := keys_lru (show 1 ≤ 2 by decide)
    (show ∀ call ∈ ([.get 1 ⟨1, some 10, some 100⟩, .letGo, .get 2 ⟨2, some 20, some 200⟩, .letGo,
      .get 1 ⟨3, some 10, some 100⟩, .letGo, .get 3 ⟨4, some 30, some 300⟩,
      .letGo] : List (Call Nat Nat Nat)), call.Loads by simp [Call.Loads]) (by decide)
  -- each of the four look-ups lets go of its lock, so all of them return
  obtain ⟨-, s, hs⟩ := keys_lru (show 1 ≤ 2 by decide)
    (show ∀ call ∈ ([.get 1 ⟨1, some 10, some 100⟩, .get 2 ⟨2, some 20, some 200⟩,
      .get 1 ⟨3, some 10, some 100⟩, .get 3 ⟨4, some 30, some 300⟩] : List (Call Nat Nat Nat)),
      call.Loads by simp [Call.Loads]) (by decide)
  refine ⟨s, hs, ?_⟩
  have hperm := (hruns s hs).1
  rwa [hlist] at hperm

end Algiz.Plugins
