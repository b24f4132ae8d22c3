/-
  Threads that lock mutexes in the order of a rank.

  A thread is the list of what it has still to do to the mutexes. Any thread may do its next
  operation at any time; `lock` waits while another thread owns the mutex, and for ever where the
  thread owns it itself and the mutex is not recursive. Some mutexes belong to one thread, and no
  other locks them; the rest have ranks. A list is `Ranked` if a mutex that is shared is only
  locked above every shared one that is held, or again if it is recursive, and everything is
  unlocked at the end. Then a thread that waits does so, over the owners of the mutexes, for one
  that can go on (`Threads.not_stuck`): the mutexes on the way rise in rank. With finitely many
  threads every run can be carried on until all have finished (`Threads.can_finish`).
-/
import Algiz.Lib.Transition
import Mathlib.Algebra.Order.BigOperators.Group.Finset
import Mathlib.Data.Fintype.EquivFin
import Mathlib.Logic.Relation
import Mathlib.Order.WellFounded

namespace Algiz.Lib

/-- A mutex: free, or locked by its owner once and `again` more times. -/
inductive RecursiveMutex (T : Type*) where
  | free
  | owned (t : T) (again : Nat)
  deriving DecidableEq

namespace RecursiveMutex

variable {T : Type*} [DecidableEq T]

/-- `lock()`; `none` while it blocks. Only a recursive mutex lets its owner in again. -/
def lock (m : RecursiveMutex T) (recursive : Bool) (t : T) : Option (RecursiveMutex T) :=
  match m with
  | .free => some (.owned t 0)
  | .owned u n => if u = t ∧ recursive then some (.owned t (n + 1)) else none

/-- `unlock()`; `none` if the thread does not own the mutex. -/
def unlock (m : RecursiveMutex T) (t : T) : Option (RecursiveMutex T) :=
  match m with
  | .free => none
  | .owned u 0 => if u = t then some .free else none
  | .owned u (n + 1) => if u = t then some (.owned t n) else none

/-- How often the thread has locked it -/
def depth (m : RecursiveMutex T) (t : T) : Nat :=
  match m with
  | .free => 0
  | .owned u n => if u = t then n + 1 else 0

/-- Two threads do not both hold it. -/
theorem depth_alone {m : RecursiveMutex T} {t u : T} (ht : 0 < m.depth t) (hu : 0 < m.depth u) :
    t = u := by
  cases m with
  | free => simp [depth] at ht
  | owned v n =>
    simp only [depth] at ht hu
    split at ht <;> split at hu <;> simp_all

theorem depth_lock {m m' : RecursiveMutex T} {recursive : Bool} {t : T}
    (h : m.lock recursive t = some m') :
    m'.depth t = m.depth t + 1 ∧ ∀ u, u ≠ t → m'.depth u = m.depth u := by
  cases m with
  | free =>
    obtain rfl := Option.some.inj h
    refine ⟨by simp [depth], fun u hu => ?_⟩
    simp [depth, hu.symm]
  | owned v n =>
    rw [lock] at h
    split at h
    · rename_i hv
      obtain rfl := Option.some.inj h
      refine ⟨by simp [depth, hv.1], fun u hu => ?_⟩
      simp [depth, hv.1, hu.symm]
    · cases h

/-- It blocks only while a thread holds it: another one, unless it is not recursive. -/
theorem holder_of_lock {m : RecursiveMutex T} {recursive : Bool} {t : T}
    (h : m.lock recursive t = none) :
    (∃ u, u ≠ t ∧ 0 < m.depth u) ∨ recursive = false ∧ 0 < m.depth t := by
  cases m with
  | free => cases h
  | owned v n =>
    rw [lock] at h
    split at h
    · cases h
    · rename_i hv
      by_cases hvt : v = t
      · refine .inr ⟨?_, by simp [depth, hvt]⟩
        simpa [hvt] using hv
      · exact .inl ⟨v, hvt, by simp [depth]⟩

theorem unlock_held {m : RecursiveMutex T} {t : T} (h : 0 < m.depth t) :
    ∃ m', m.unlock t = some m' := by
  cases m with
  | free => simp [depth] at h
  | owned v n =>
    have hv : v = t := by
      by_contra hne
      simp [depth, hne] at h
    cases n with
    | zero => exact ⟨_, if_pos hv⟩
    | succ n => exact ⟨_, if_pos hv⟩

theorem depth_unlock {m m' : RecursiveMutex T} {t : T} (h : m.unlock t = some m') :
    m'.depth t = m.depth t - 1 ∧ ∀ u, u ≠ t → m'.depth u = m.depth u := by
  cases m with
  | free => cases h
  | owned v n =>
    cases n with
    | zero =>
      rw [unlock] at h
      split at h
      · rename_i hv
        obtain rfl := Option.some.inj h
        refine ⟨by simp [depth, hv], fun u hu => ?_⟩
        simp [depth, hv, hu.symm]
      · cases h
    | succ n =>
      rw [unlock] at h
      split at h
      · rename_i hv
        obtain rfl := Option.some.inj h
        refine ⟨by simp [depth, hv], fun u hu => ?_⟩
        simp [depth, hv, hu.symm]
      · cases h

/-- A recursive mutex that nobody else holds is locked at once, and unlocking it undoes that. -/
theorem lock_alone {m : RecursiveMutex T} {t : T} (h : ∀ u, u ≠ t → m.depth u = 0) :
    ∃ x, m.lock true t = some x ∧ x.unlock t = some m := by
  cases m with
  | free => exact ⟨_, rfl, if_pos rfl⟩
  | owned v n =>
    have hv : v = t := by
      by_contra hne
      simpa [depth] using h v hne
    subst hv
    exact ⟨_, if_pos ⟨rfl, rfl⟩, if_pos rfl⟩

end RecursiveMutex

/-- What a thread does to a mutex -/
inductive LockOp (M : Type*) where
  | lock (m : M)
  | unlock (m : M)
  deriving DecidableEq

/-- Which mutexes may be locked again by their owner, which belong to one thread, and the ranks of
    the others. -/
structure Discipline (T M R : Type*) where
  recursive : M → Bool
  owner : M → Option T
  rank : M → R

namespace Discipline

variable {T M R : Type*}

/-- The mutex is shared, or belongs to thread `t`. -/
def Open (d : Discipline T M R) (t : T) (m : M) : Prop := d.owner m = none ∨ d.owner m = some t

/-- Thread `t` may lock `m` where it holds `held`. -/
def Allows [LT R] (d : Discipline T M R) (t : T) (held : List M) (m : M) : Prop :=
  match d.owner m with
  | some u => u = t ∧ (m ∈ held → d.recursive m = true)
  | none =>
    d.recursive m = true ∧ m ∈ held ∨ ∀ k ∈ held, d.owner k = none → d.rank k < d.rank m

section Allows

variable [Preorder R] {d : Discipline T M R} {t : T} {held : List M} {m : M}

theorem allows_shared (hm : d.owner m = none) : d.Allows t held m ↔
    d.recursive m = true ∧ m ∈ held ∨
      ∀ k ∈ held, d.owner k = none → d.rank k < d.rank m := by
  rw [Allows, hm]

theorem allows_own (hm : d.owner m = some t) :
    d.Allows t held m ↔ (m ∈ held → d.recursive m = true) := by
  rw [Allows, hm]
  exact and_iff_right rfl

theorem Allows.isOpen (h : d.Allows t held m) : d.Open t m := by
  rw [Allows] at h
  split at h
  · rename_i u hm
    exact .inr (h.1 ▸ hm)
  · exact .inl ‹_›

/-- A mutex that another thread may lock too is shared. -/
theorem Allows.shared (h : d.Allows t held m) {u : T} (hut : u ≠ t) (hu : d.Open u m) :
    d.owner m = none := by
  rcases hu with hu | hu
  · exact hu
  · rcases h.isOpen with ht | ht
    · exact ht
    · exact absurd (Option.some.inj (hu.symm.trans ht)) hut

/-- Only a recursive mutex is locked where it is held already. -/
theorem Allows.again (h : d.Allows t held m) (hmem : m ∈ held) : d.recursive m = true := by
  rw [Allows] at h
  split at h
  · exact h.2 hmem
  · rcases h with ⟨hrec, -⟩ | habove
    · exact hrec
    · exact absurd (habove m hmem ‹_›) (lt_irrefl _)

end Allows

end Discipline

/-- What each thread has still to do, and the mutexes. -/
structure Threads (T M : Type*) where
  todo : T → List (LockOp M)
  mutexes : M → RecursiveMutex T

namespace Threads

variable {T M R : Type*}

/-- Nothing is locked yet. -/
def start (programs : T → List (LockOp M)) : Threads T M := ⟨programs, fun _ => .free⟩

variable [DecidableEq T] [DecidableEq M]

/-- Thread `t` has done an operation, which left the mutex `m` as `x`. -/
def after (s : Threads T M) (t : T) (rest : List (LockOp M)) (m : M) (x : RecursiveMutex T) :
    Threads T M :=
  ⟨Function.update s.todo t rest, Function.update s.mutexes m x⟩

@[simp] theorem todo_after (s : Threads T M) (t : T) (rest : List (LockOp M)) (m : M)
    (x : RecursiveMutex T) : (s.after t rest m x).todo = Function.update s.todo t rest := rfl

@[simp] theorem mutexes_after (s : Threads T M) (t : T) (rest : List (LockOp M)) (m : M)
    (x : RecursiveMutex T) : (s.after t rest m x).mutexes = Function.update s.mutexes m x := rfl

/-- Thread `t` does its next operation; `none` if it has none, or waits. -/
def step (recursive : M → Bool) (s : Threads T M) (t : T) : Option (Threads T M) :=
  match s.todo t with
  | [] => none
  | .lock m :: rest => ((s.mutexes m).lock (recursive m) t).map (s.after t rest m)
  | .unlock m :: rest => ((s.mutexes m).unlock t).map (s.after t rest m)

theorem step_lock {recursive : M → Bool} {s : Threads T M} {t : T} {m : M}
    {rest : List (LockOp M)} {x : RecursiveMutex T} (htodo : s.todo t = .lock m :: rest)
    (hx : (s.mutexes m).lock (recursive m) t = some x) :
    s.step recursive t = some (s.after t rest m x) := by
  unfold step
  rw [htodo]
  exact congrArg (Option.map _) hx

theorem step_unlock {recursive : M → Bool} {s : Threads T M} {t : T} {m : M}
    {rest : List (LockOp M)} {x : RecursiveMutex T} (htodo : s.todo t = .unlock m :: rest)
    (hx : (s.mutexes m).unlock t = some x) :
    s.step recursive t = some (s.after t rest m x) := by
  unfold step
  rw [htodo]
  exact congrArg (Option.map _) hx

/-- `t` is about to lock a mutex that `u` holds. -/
def WaitsFor (s : Threads T M) (t u : T) : Prop :=
  ∃ m rest, s.todo t = .lock m :: rest ∧ u ≠ t ∧ 0 < (s.mutexes m).depth u

/-- Nothing is locked any more after these operations of thread `t`, each of which the discipline
    allows, if `held` is locked before them. -/
def Ranked [LT R] (d : Discipline T M R) (t : T) : List M → List (LockOp M) → Prop
  | held, [] => held = []
  | held, .lock m :: rest => d.Allows t held m ∧ Ranked d t (m :: held) rest
  | held, .unlock m :: rest => m ∈ held ∧ Ranked d t (held.erase m) rest

section Order

variable [Preorder R] {d : Discipline T M R}

/-- What the threads hold agrees with the mutexes, and with what they have still to do. -/
def Inv (d : Discipline T M R) (s : Threads T M) : Prop :=
  ∀ t, ∃ held : List M, Ranked d t held (s.todo t) ∧
    (∀ m, (s.mutexes m).depth t = held.count m) ∧ ∀ m ∈ held, d.Open t m

theorem inv_start {programs : T → List (LockOp M)} (h : ∀ t, Ranked d t [] (programs t)) :
    Inv d (start programs) :=
  fun t => ⟨[], h t, fun _ => rfl, fun _ hm => absurd hm List.not_mem_nil⟩

/-- One thread has done an operation on `m`: it holds `held` now, the others what they did. -/
theorem Inv.after {s : Threads T M} (h : Inv d s) {t : T} {rest : List (LockOp M)} {m : M}
    {x : RecursiveMutex T} {held : List M} (hrest : Ranked d t held rest)
    (hself : ∀ k, (Function.update s.mutexes m x k).depth t = held.count k)
    (hopen : ∀ k ∈ held, d.Open t k)
    (hothers : ∀ u, u ≠ t → x.depth u = (s.mutexes m).depth u) :
    Inv d (s.after t rest m x) := by
  intro u
  by_cases hut : u = t
  · subst hut
    refine ⟨held, ?_, hself, hopen⟩
    rw [todo_after, Function.update_self]
    exact hrest
  · obtain ⟨held', hranked, hcount, hopen'⟩ := h u
    refine ⟨held', ?_, fun k => ?_, hopen'⟩
    · rw [todo_after, Function.update_of_ne hut]
      exact hranked
    · rw [mutexes_after]
      by_cases hk : k = m
      · subst hk
        rw [Function.update_self, hothers u hut, hcount]
      · rw [Function.update_of_ne hk, hcount]

theorem inv_step (s : Threads T M) (t : T) (s' : Threads T M) (h : Inv d s)
    (hstep : s.step d.recursive t = some s') : Inv d s' := by
  obtain ⟨held, hranked, hcount, hopen⟩ := h t
  unfold step at hstep
  cases htodo : s.todo t with
  | nil =>
    rw [htodo] at hstep
    cases hstep
  | cons op rest =>
    rw [htodo] at hstep hranked
    cases op with
    | lock m =>
      obtain ⟨x, hx, rfl⟩ := Option.map_eq_some_iff.mp hstep
      obtain ⟨hself, hothers⟩ := RecursiveMutex.depth_lock hx
      refine h.after hranked.2 (fun k => ?_) (fun k hk => ?_) hothers
      · by_cases hk : k = m
        · subst hk
          rw [Function.update_self, hself, hcount, List.count_cons_self]
        · rw [Function.update_of_ne hk, hcount, List.count_cons_of_ne (Ne.symm hk)]
      · rcases List.mem_cons.mp hk with rfl | hk
        · exact hranked.1.isOpen
        · exact hopen k hk
    | unlock m =>
      obtain ⟨x, hx, rfl⟩ := Option.map_eq_some_iff.mp hstep
      obtain ⟨hself, hothers⟩ := RecursiveMutex.depth_unlock hx
      refine h.after hranked.2 (fun k => ?_) (fun k hk => hopen k (List.mem_of_mem_erase hk))
        hothers
      by_cases hk : k = m
      · subst hk
        rw [Function.update_self, hself, hcount, List.count_erase_self]
      · rw [Function.update_of_ne hk, hcount, List.count_erase_of_ne hk]

/-- A thread that cannot go on has finished, or waits for one that has not. -/
theorem Inv.waits {s : Threads T M} (h : Inv d s) {t : T} {op : LockOp M}
    {rest : List (LockOp M)} (htodo : s.todo t = op :: rest)
    (hstep : s.step d.recursive t = none) :
    ∃ m, op = .lock m ∧ d.owner m = none ∧
      ∃ u, u ≠ t ∧ 0 < (s.mutexes m).depth u ∧ s.todo u ≠ [] := by
  obtain ⟨held, hranked, hcount, hopen⟩ := h t
  rw [htodo] at hranked
  unfold step at hstep
  rw [htodo] at hstep
  cases op with
  | lock m =>
    refine ⟨m, rfl, ?_⟩
    obtain ⟨u, hut, hpos⟩ | ⟨hplain, hpos⟩ :=
      RecursiveMutex.holder_of_lock (Option.map_eq_none_iff.mp hstep)
    · obtain ⟨held', hranked', hcount', hopen'⟩ := h u
      have hmem : m ∈ held' := List.count_pos_iff.mp (hcount' m ▸ hpos)
      refine ⟨hranked.1.shared hut (hopen' m hmem), u, hut, hpos, fun hdone => ?_⟩
      rw [hdone] at hranked'
      rw [hranked'] at hmem
      exact List.not_mem_nil hmem
    · have hmem : m ∈ held := List.count_pos_iff.mp (hcount m ▸ hpos)
      exact absurd (hranked.1.again hmem) (by rw [hplain]; decide)
  | unlock m =>
    have hpos : 0 < (s.mutexes m).depth t := by
      rw [hcount]
      exact List.count_pos_iff.mpr hranked.1
    obtain ⟨x, hx⟩ := RecursiveMutex.unlock_held hpos
    rw [Option.map_eq_none_iff.mp hstep] at hx
    cases hx

/-- A thread that waits for a mutex ranks it above every shared mutex that it holds. -/
theorem Inv.above {s : Threads T M} (h : Inv d s) {t : T} {m k : M} {rest : List (LockOp M)}
    (htodo : s.todo t = .lock m :: rest) (hstep : s.step d.recursive t = none)
    (hk : 0 < (s.mutexes k).depth t) (hshared : d.owner k = none) : d.rank k < d.rank m := by
  obtain ⟨held, hranked, hcount, hopen⟩ := h t
  rw [htodo] at hranked
  obtain ⟨m', heq, hm, u, hut, hpos, -⟩ := h.waits htodo hstep
  obtain rfl := LockOp.lock.inj heq
  rcases (Discipline.allows_shared hm).mp hranked.1 with ⟨-, hmem⟩ | habove
  · -- a mutex that the thread holds itself does not block it
    have hself : 0 < (s.mutexes m).depth t := by
      rw [hcount]
      exact List.count_pos_iff.mpr hmem
    exact absurd (RecursiveMutex.depth_alone hpos hself) hut
  · rw [hcount] at hk
    exact habove k (List.count_pos_iff.mp hk) hshared

section Progress

variable [WellFoundedGT R]

theorem Inv.waits_for_one_that_can {s : Threads T M} (h : Inv d s) {r : R} :
    ∀ {t : T} {m : M} {rest : List (LockOp M)}, s.todo t = .lock m :: rest → d.rank m = r →
      ∃ u, Relation.ReflTransGen s.WaitsFor t u ∧ (s.step d.recursive u).isSome := by
  induction r using WellFoundedGT.induction with
  | ind r ih =>
    intro t m rest htodo hrank
    cases hstep : s.step d.recursive t with
    | some s' => exact ⟨t, .refl, by rw [hstep]; rfl⟩
    | none =>
      obtain ⟨m', heq, hshared, u, hut, hpos, hu⟩ := h.waits htodo hstep
      obtain rfl := LockOp.lock.inj heq
      have hwaits : s.WaitsFor t u := ⟨m, rest, htodo, hut, hpos⟩
      cases hustep : s.step d.recursive u with
      | some s' => exact ⟨u, .single hwaits, by rw [hustep]; rfl⟩
      | none =>
        -- the owner waits too, for a mutex of a higher rank
        obtain ⟨op, rest', hutodo⟩ := List.exists_cons_of_ne_nil hu
        obtain ⟨m', rfl, -⟩ := h.waits hutodo hustep
        have hlt := h.above hutodo hustep hpos hshared
        obtain ⟨v, hv, hcan⟩ := ih _ (hrank ▸ hlt) hutodo rfl
        exact ⟨v, .head hwaits hv, hcan⟩

/-- Whoever has not finished waits, over the owners of the mutexes, for a thread that can go
    on. -/
theorem Inv.progress {s : Threads T M} (h : Inv d s) {t : T} (ht : s.todo t ≠ []) :
    ∃ u, Relation.ReflTransGen s.WaitsFor t u ∧ (s.step d.recursive u).isSome := by
  cases hstep : s.step d.recursive t with
  | some s' => exact ⟨t, .refl, by rw [hstep]; rfl⟩
  | none =>
    obtain ⟨op, rest, htodo⟩ := List.exists_cons_of_ne_nil ht
    obtain ⟨m, rfl, -⟩ := h.waits htodo hstep
    exact h.waits_for_one_that_can htodo rfl

theorem not_stuck {programs : T → List (LockOp M)} (h : ∀ t, Ranked d t [] (programs t))
    {s : Threads T M} (hreach : Reachable (step d.recursive) (start programs) s) {t : T}
    (ht : s.todo t ≠ []) :
    ∃ u, Relation.ReflTransGen s.WaitsFor t u ∧ (s.step d.recursive u).isSome :=
  (hreach.invariant inv_step (inv_start h)).progress ht

/-- One operation less is left. -/
theorem step_shorter [Fintype T] {recursive : M → Bool} {s s' : Threads T M} {t : T}
    (h : s.step recursive t = some s') :
    ∑ u, (s'.todo u).length < ∑ u, (s.todo u).length := by
  have hone : ∃ op rest m x, s.todo t = op :: rest ∧ s' = s.after t rest m x := by
    unfold step at h
    split at h
    · cases h
    · obtain ⟨x, -, rfl⟩ := Option.map_eq_some_iff.mp h
      exact ⟨_, _, _, x, ‹_›, rfl⟩
    · obtain ⟨x, -, rfl⟩ := Option.map_eq_some_iff.mp h
      exact ⟨_, _, _, x, ‹_›, rfl⟩
  obtain ⟨op, rest, m, x, htodo, rfl⟩ := hone
  refine Finset.sum_lt_sum (fun u _ => ?_) ⟨t, Finset.mem_univ t, ?_⟩
  · by_cases hut : u = t
    · subst hut
      simp [htodo]
    · simp [Function.update_of_ne hut]
  · simp [htodo]

theorem Inv.can_finish [Fintype T] {n : Nat} : ∀ {s : Threads T M}, Inv d s →
    ∑ u, (s.todo u).length = n →
      ∃ ts s', exec (step d.recursive) s ts = some s' ∧ ∀ t, s'.todo t = [] := by
  induction n using Nat.strong_induction_on with
  | _ n ih =>
    intro s h hn
    by_cases hall : ∀ t, s.todo t = []
    · exact ⟨[], s, rfl, hall⟩
    · obtain ⟨t, ht⟩ := not_forall.mp hall
      obtain ⟨u, -, hcan⟩ := h.progress ht
      obtain ⟨s', hstep⟩ := Option.isSome_iff_exists.mp hcan
      obtain ⟨ts, s'', hexec, hdone⟩ :=
        ih _ (hn ▸ step_shorter hstep) (inv_step s u s' h hstep) rfl
      exact ⟨u :: ts, s'', by rw [exec, hstep]; exact hexec, hdone⟩

theorem can_finish [Finite T] {programs : T → List (LockOp M)}
    (h : ∀ t, Ranked d t [] (programs t)) {s : Threads T M}
    (hreach : Reachable (step d.recursive) (start programs) s) :
    ∃ ts s', exec (step d.recursive) s ts = some s' ∧ ∀ t, s'.todo t = [] := by
  have := Fintype.ofFinite T
  exact (hreach.invariant inv_step (inv_start h)).can_finish rfl

end Progress

end Order

end Threads

end Algiz.Lib
