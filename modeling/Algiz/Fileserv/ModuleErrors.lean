/-
  What `operator[]` of `ModuleCache` leaves when it throws.

  It makes space before it opens the module. So when `dlopen` fails, an item may have been closed
  and erased for nothing; and when the module has no symbol, the constructor of `Item` throws, and
  the new handle stays open (`unchanged_iff`).
-/
import Algiz.Fileserv.ModuleCalls

namespace Algiz.Plugins

open Algiz.Lib ModuleCache

variable {T Path Handle Fn : Type*}

/-! ## Calls that throw -/

/-- The entries are as before, and so are the handles that are open. -/
structure Unchanged (s s' : ModuleCache T Path Handle Fn) : Prop where
  cache : s'.cache = s.cache
  items : ∀ n, (s'.items n).map (fun item => (item.lastUsed, item.handle, item.function)) =
    (s.items n).map fun item => (item.lastUsed, item.handle, item.function)
  opened : s'.opened = s.opened

section Throws

variable [DecidableEq Path] [DecidableEq Handle] {v : View Path Handle Fn} {path : Path}
  {load : Load Handle Fn} {maxSize : Nat}

omit [DecidableEq Path] [DecidableEq Handle] in
theorem View.pair_given {n : Nat} {item : Int × Handle × Fn} (h : v.items n = some item) :
    (v.pair n).given ≠ v.given := by
  unfold View.pair
  rw [h]
  exact List.cons_ne_self _ _

omit [DecidableEq Path] in
/-- A call gives no lock when it throws. -/
theorem View.load_given : (v.load path load).given = v.given ↔
    load.handle = none ∨ load.function = none := by
  unfold View.load
  cases hhandle : load.handle with
  | none => exact iff_of_true rfl (.inl rfl)
  | some handle =>
    unfold View.construct
    cases hfunction : load.function with
    | none => exact iff_of_true rfl (.inr rfl)
    | some function =>
      refine iff_of_false ?_ (by simp)
      exact View.pair_given (v := { v.dlopen handle with
        cache := (path, v.made) :: v.cache
        items := Function.update v.items v.made (some (load.now, handle, function))
        made := v.made + 1 }) (Function.update_self ..)

theorem View.get_given (hstored : ∀ entry ∈ v.cache, v.items entry.2 ≠ none) :
    (v.get maxSize path load).given = v.given ↔
      v.entry path = none ∧ (load.handle = none ∨ load.function = none) := by
  cases hentry : v.entry path with
  | some entry =>
    obtain ⟨item, hitem⟩ :=
      Option.ne_none_iff_exists'.mp (hstored entry (View.entry_mem hentry))
    have hstamp : (v.stamp entry.2 load.now).items entry.2 = some (load.now, item.2) := by
      unfold View.stamp
      dsimp only
      rw [Function.update_self, hitem, Option.map_some]
    rw [View.get_found hentry]
    exact iff_of_false (View.pair_given hstamp) fun h => nomatch h.1
  | none =>
    rw [View.get_missing hentry, and_iff_right rfl, ← View.load_given, v.makeSpace_given]

/-- Making space takes an entry out, if the cache is full. -/
theorem View.makeSpace_cache (hroom : ¬(v.cache = [] ∨ v.cache.length < maxSize)) (path : Path) :
    (v.makeSpace maxSize path).cache = v.cache.erase (v.least path) ∧
      (v.makeSpace maxSize path).cache ≠ v.cache := by
  have hcache : (v.makeSpace maxSize path).cache = v.cache.erase (v.least path) := by
    unfold View.makeSpace
    rw [if_neg hroom]
    unfold View.erase View.close
    dsimp only
    split <;> rfl
  refine ⟨hcache, fun heq => ?_⟩
  have hmem := View.least_mem (not_or.mp hroom).1 path
  have hlength := List.length_erase_of_mem hmem
  have hpos := List.length_pos_of_mem hmem
  rw [← hcache, heq] at hlength
  omega

/-- What a call that throws leaves is what it found if and only if there was room, and it is
    `dlopen` that failed. -/
theorem View.get_unchanged_iff (hentry : v.entry path = none)
    (hfails : load.handle = none ∨ load.function = none) :
    ((v.get maxSize path load).cache = v.cache ∧ (v.get maxSize path load).items = v.items ∧
        (v.get maxSize path load).opened = v.opened) ↔
      (v.cache = [] ∨ v.cache.length < maxSize) ∧ load.handle = none := by
  have hload : ∀ w : View Path Handle Fn, (w.load path load).cache = w.cache := by
    intro w
    cases hhandle : load.handle with
    | none => rw [w.load_none path hhandle]
    | some handle =>
      rw [w.load_some path hhandle,
        View.construct_none _ path (hfails.resolve_left (by simp [hhandle]))]
      rfl
  rw [View.get_missing hentry]
  by_cases hroom : v.cache = [] ∨ v.cache.length < maxSize
  · rw [View.makeSpace_room hroom]
    refine Iff.trans ?_ (and_iff_right hroom).symm
    cases hhandle : load.handle with
    | none =>
      rw [v.load_none path hhandle]
      exact iff_of_true ⟨rfl, rfl, rfl⟩ rfl
    | some handle =>
      refine iff_of_false ?_ (by simp)
      rintro ⟨-, -, hopened⟩
      have hfunction := hfails.resolve_left (by simp [hhandle])
      rw [v.load_some path hhandle, View.construct_none _ path hfunction] at hopened
      have hself := congrFun hopened handle
      unfold View.dlopen at hself
      dsimp only at hself
      rw [Function.update_self] at hself
      omega
  · refine iff_of_false ?_ fun h => hroom h.1
    rintro ⟨hcache, -⟩
    rw [hload] at hcache
    exact (View.makeSpace_cache hroom path).2 hcache

variable [DecidableEq T] [DecidableEq Fn] {s s' : ModuleCache T Path Handle Fn} {t : T}

omit [DecidableEq Path] [DecidableEq Handle] [DecidableEq T] [DecidableEq Fn] in
theorem unchanged_iff_view : Unchanged s s' ↔ (s'.view t).cache = (s.view t).cache ∧
    (s'.view t).items = (s.view t).items ∧ (s'.view t).opened = (s.view t).opened :=
  ⟨fun h => ⟨h.cache, funext h.items, h.opened⟩, fun h => ⟨h.1, congrFun h.2.1, h.2.2⟩⟩

/-- `operator[]` has thrown: it gave no lock. The entries and the open handles are as before if and
    only if the cache had room, or nothing in it, and `dlopen` has failed: otherwise an item was
    closed and erased before, or the handle of the module without a symbol stays open. -/
theorem unchanged_iff (hs : Safe s) (hget : s.get t path load = some s')
    (hthrows : s'.given t = s.given t) :
    Unchanged s s' ↔ (s.cache = [] ∨ s.cache.length < s.maxSize) ∧ load.handle = none := by
  obtain ⟨-, -, -, hview⟩ := get_view hs hget
  have hstored : ∀ entry ∈ (s.view t).cache, (s.view t).items entry.2 ≠ none := by
    intro entry hentry
    obtain ⟨item, hitem⟩ := hs.entries entry hentry
    rw [view_items hitem]
    exact Option.some_ne_none _
  have hgiven : ((s.view t).get s.maxSize path load).given = (s.view t).given := by
    rw [← hview]
    exact hthrows
  obtain ⟨hentry, hfails⟩ := (View.get_given hstored).mp hgiven
  rw [unchanged_iff_view (t := t), hview]
  exact View.get_unchanged_iff hentry hfails

/-- A module is in a cache for two. A second one is asked for and is not there, and the first one
    stays. -/
theorem unchanged_iff_stays : ∃ first second : ModuleCache Unit Nat Nat Nat,
    ((ModuleCache.get { maxSize := 2 } () 1 ⟨0, some 7, some 9⟩).bind fun s =>
      s.step (.release () ⟨0, 9⟩)) = some first ∧
      first.cache = [(1, 0)] ∧ first.get () 2 ⟨1, none, none⟩ = some second ∧
      Unchanged first second := by
  have hsome : (((ModuleCache.get ({ maxSize := 2 } : ModuleCache Unit Nat Nat Nat) () 1
      ⟨0, some 7, some 9⟩).bind fun s => s.step (.release () ⟨0, 9⟩)).any fun first =>
    (first.get () 2 ⟨1, none, none⟩).any fun second =>
      first.cache = [(1, 0)] ∧ first.maxSize = 2 ∧ second.given () = first.given ()) = true := by
    decide
  obtain ⟨first, hfirst, hsome⟩ := (Option.any_eq_true _ _).mp hsome
  obtain ⟨second, hsecond, hsome⟩ := (Option.any_eq_true _ _).mp hsome
  obtain ⟨hcache, hsize, hthrows⟩ := of_decide_eq_true hsome
  have hsafe : Safe first := by
    obtain ⟨loaded, hloaded, hreleased⟩ := Option.bind_eq_some_iff.mp hfirst
    exact (get_view (safe_init 2) hloaded).1.step hreleased
  refine ⟨first, second, hfirst, hcache, hsecond,
    (unchanged_iff hsafe hsecond hthrows).mpr ⟨.inr ?_, rfl⟩⟩
  rw [hcache, hsize]
  decide

/-- A module is in a cache for one. A second one is asked for and is not there, and the first is
    gone; a third one has no symbol, and its handle stays open. -/
theorem not_unchanged_full : ∃ first second third : ModuleCache Unit Nat Nat Nat,
    ((ModuleCache.get { maxSize := 1 } () 1 ⟨0, some 7, some 9⟩).bind fun s =>
      s.step (.release () ⟨0, 9⟩)) = some first ∧
      first.get () 2 ⟨1, none, none⟩ = some second ∧ second.given () = first.given () ∧
      first.cache = [(1, 0)] ∧ second.cache = [] ∧ ¬Unchanged first second ∧
      second.get () 3 ⟨2, some 8, none⟩ = some third ∧ third.given () = second.given () ∧
      second.opened 8 = 0 ∧ third.opened 8 = 1 ∧ ¬Unchanged second third := by
  have hsome : (((ModuleCache.get ({ maxSize := 1 } : ModuleCache Unit Nat Nat Nat) () 1
      ⟨0, some 7, some 9⟩).bind fun s => s.step (.release () ⟨0, 9⟩)).any fun first =>
    (first.get () 2 ⟨1, none, none⟩).any fun second =>
      (second.get () 3 ⟨2, some 8, none⟩).any fun third =>
        second.given () = first.given () ∧ first.cache = [(1, 0)] ∧ second.cache = [] ∧
          third.given () = second.given () ∧ second.opened 8 = 0 ∧ third.opened 8 = 1) = true := by
    decide
  obtain ⟨first, hfirst, hsome⟩ := (Option.any_eq_true _ _).mp hsome
  obtain ⟨second, hsecond, hsome⟩ := (Option.any_eq_true _ _).mp hsome
  obtain ⟨third, hthird, hsome⟩ := (Option.any_eq_true _ _).mp hsome
  obtain ⟨hgiven, hcache, hcache', hgiven', hopened, hopened'⟩ := of_decide_eq_true hsome
  refine ⟨first, second, third, hfirst, hsecond, hgiven, hcache, hcache', fun h => ?_, hthird,
    hgiven', hopened, hopened', fun h => ?_⟩
  · have hsame := h.cache
    rw [hcache, hcache'] at hsame
    exact nomatch hsame
  · have hsame := congrFun h.opened 8
    rw [hopened, hopened'] at hsame
    exact nomatch hsame

end Throws

end Algiz.Plugins
