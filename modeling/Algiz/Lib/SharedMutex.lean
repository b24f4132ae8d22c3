/-
  `std::shared_mutex`: owned by one thread, or shared by any number of them.

  A thread is among the readers as often as it has locked the mutex. `Agrees` compares the mutex
  with what the threads' own states say of it, `shares` and `owns`. Each operation has one rule
  that says how the two change; what an owner can rely on is `Agrees.alone`.
-/
import Mathlib.Data.Multiset.AddSub
import Mathlib.Logic.Function.Basic

namespace Algiz.Lib

theorem none_exclusive {T : Type*} : (none : Option T) ≠ none → (0 : Multiset T) = 0 :=
  fun h => absurd rfl h

/-- Nobody shares a mutex that is owned. -/
structure SharedMutex (T : Type*) where
  writer : Option T := none
  readers : Multiset T := 0
  exclusive : writer ≠ none → readers = 0 := by first | exact none_exclusive | simp

namespace SharedMutex

variable {T : Type*}

/-- Nobody owns it or shares it. -/
def Free (m : SharedMutex T) : Prop := m.writer = none ∧ m.readers = 0

variable [DecidableEq T]

instance (m : SharedMutex T) : Decidable m.Free := inferInstanceAs (Decidable (_ ∧ _))

/-- `lock()`; `none` while it blocks. -/
def lock (m : SharedMutex T) (t : T) : Option (SharedMutex T) :=
  if m.Free then some { writer := some t } else none

/-- `lock_shared()`; `none` while it blocks. -/
def lockShared (m : SharedMutex T) (t : T) : Option (SharedMutex T) :=
  if h : m.writer = none then
    some { m with readers := t ::ₘ m.readers, exclusive := fun hne => absurd h hne }
  else none

/-- `unlock()`; `none` if the thread does not own the mutex. -/
def unlock (m : SharedMutex T) (t : T) : Option (SharedMutex T) :=
  if m.writer = some t then some {} else none

/-- `unlock_shared()`; `none` if the thread does not share the mutex. -/
def unlockShared (m : SharedMutex T) (t : T) : Option (SharedMutex T) :=
  if t ∈ m.readers then
    some { m with
      readers := m.readers.erase t
      exclusive := fun hne => by rw [m.exclusive hne]; rfl }
  else none

/-- Thread `t` has locked it `shares t` times, and owns it if `owns t`. -/
structure Agrees (m : SharedMutex T) (shares : T → Nat) (owns : T → Prop) : Prop where
  count : ∀ t, m.readers.count t = shares t
  owner : ∀ t, m.writer = some t ↔ owns t

namespace Agrees

variable {m m' : SharedMutex T} {shares shares' : T → Nat} {owns owns' : T → Prop} {t : T}

theorem congr (h : m.Agrees shares owns) (hshares : ∀ u, shares' u = shares u)
    (howns : ∀ u, owns' u ↔ owns u) : m.Agrees shares' owns' :=
  ⟨fun u => (h.count u).trans (hshares u).symm, fun u => (h.owner u).trans (howns u).symm⟩

theorem new : ({} : SharedMutex T).Agrees (fun _ => 0) fun _ => False := by
  refine ⟨fun u => Multiset.count_zero u, fun u => ?_⟩
  simp

/-- An owner is alone. -/
theorem alone (h : m.Agrees shares owns) (ht : owns t) :
    (∀ u, owns u → u = t) ∧ ∀ u, shares u = 0 := by
  have hwriter := (h.owner t).mpr ht
  refine ⟨fun u hu => ?_, fun u => ?_⟩
  · rw [(h.owner u).mpr hu] at hwriter
    exact Option.some.inj hwriter
  · rw [← h.count u, m.exclusive (by simp [hwriter]), Multiset.count_zero]

/-- A mutex that nobody uses is free. -/
theorem free (h : m.Agrees shares owns) (hshares : ∀ u, shares u = 0) (howns : ∀ u, ¬ owns u) :
    m.Free := by
  constructor
  · cases hwriter : m.writer with
    | none => rfl
    | some u => exact absurd ((h.owner u).mp hwriter) (howns u)
  · refine Multiset.eq_zero_of_forall_notMem fun u hu => ?_
    have hpos := Multiset.count_pos.mpr hu
    have hcount := h.count u
    have hzero := hshares u
    omega

theorem lock (h : m.Agrees shares owns) (hlock : m.lock t = some m') :
    (∀ u, shares u = 0) ∧ (∀ u, ¬ owns u) ∧ m'.Agrees (fun _ => 0) (· = t) := by
  unfold SharedMutex.lock at hlock
  split at hlock
  · rename_i hfree
    obtain rfl := Option.some.inj hlock
    refine ⟨fun u => ?_, fun u hu => ?_, fun u => Multiset.count_zero u, fun u => ?_⟩
    · rw [← h.count u, hfree.2, Multiset.count_zero]
    · rw [← h.owner u, hfree.1] at hu
      cases hu
    · rw [Option.some_inj, eq_comm]
  · cases hlock

theorem lockShared (h : m.Agrees shares owns) (hlock : m.lockShared t = some m') :
    (∀ u, ¬ owns u) ∧ m'.Agrees (Function.update shares t (shares t + 1)) owns := by
  unfold SharedMutex.lockShared at hlock
  split at hlock
  · rename_i hwriter
    obtain rfl := Option.some.inj hlock
    refine ⟨fun u hu => ?_, fun u => ?_, h.owner⟩
    · rw [← h.owner u, hwriter] at hu
      cases hu
    · by_cases hut : u = t
      · subst hut
        rw [Function.update_self, Multiset.count_cons_self, h.count]
      · rw [Function.update_of_ne hut, Multiset.count_cons_of_ne hut, h.count]
  · cases hlock

theorem unlock (h : m.Agrees shares owns) (ht : owns t) :
    ∃ m', m.unlock t = some m' ∧ m'.Agrees (fun _ => 0) fun _ => False :=
  ⟨{}, if_pos ((h.owner t).mpr ht), new⟩

theorem unlockShared (h : m.Agrees shares owns) (ht : 0 < shares t) :
    ∃ m', m.unlockShared t = some m' ∧
      m'.Agrees (Function.update shares t (shares t - 1)) owns := by
  have hmem : t ∈ m.readers := by
    rwa [← Multiset.count_pos, h.count]
  refine ⟨_, if_pos hmem, fun u => ?_, h.owner⟩
  by_cases hut : u = t
  · subst hut
    rw [Function.update_self, Multiset.count_erase_self, h.count]
  · rw [Function.update_of_ne hut, Multiset.count_erase_of_ne hut, h.count]

end Agrees

end SharedMutex

end Algiz.Lib
