/-
  `std::mutex`: owned by one thread at most, and not recursive.

  `relocked` is set when a thread locks the mutex that it owns: what the program does from there
  is not defined. `Agrees` compares the mutex with what the threads' own states say of it,
  `inside`. A step of one thread enters, leaves or stays where it is, and has one rule for each;
  what a thread that is inside can rely on is `Agrees.alone`.
-/
import Mathlib.Logic.Function.Basic

namespace Algiz.Lib

/-- A mutex. -/
structure Mutex (T : Type*) where
  owner : Option T := none
  relocked : Bool := false
  deriving DecidableEq

namespace Mutex

variable {T : Type*}

/-- `lock()`; `none` while it blocks. -/
def lock [DecidableEq T] (m : Mutex T) (t : T) : Option (Mutex T) :=
  match m.owner with
  | none => some { m with owner := some t }
  | some u => if u = t then some { m with relocked := true } else none

/-- `unlock()` by the owner -/
def unlock (m : Mutex T) : Mutex T := { m with owner := none }

/-- Nobody has locked it twice, and its owner is who is inside. -/
structure Agrees (m : Mutex T) (inside : T → Prop) : Prop where
  once : m.relocked = false
  owner : ∀ t, m.owner = some t ↔ inside t

/-- All but one thread are inside if they were before. -/
def OnlyMoves (t : T) (inside inside' : T → Prop) : Prop := ∀ u, u ≠ t → (inside' u ↔ inside u)

namespace Agrees

variable {m m' : Mutex T} {inside inside' : T → Prop} {t : T}

theorem new (h : ∀ t, ¬ inside t) : ({} : Mutex T).Agrees inside :=
  ⟨rfl, fun t => iff_of_false (fun heq => by cases heq) (h t)⟩

/-- Who is inside is alone there. -/
theorem alone (h : m.Agrees inside) {u : T} (ht : inside t) (hu : inside u) : u = t := by
  have howner := (h.owner t).mpr ht
  rw [(h.owner u).mpr hu] at howner
  exact Option.some.inj howner

/-- The thread stays inside, or outside. -/
theorem stay (h : m.Agrees inside) (hmoves : OnlyMoves t inside inside')
    (hself : inside' t ↔ inside t) : m.Agrees inside' := by
  refine ⟨h.once, fun u => ?_⟩
  by_cases hut : u = t
  · subst hut
    rw [h.owner, hself]
  · rw [h.owner, hmoves u hut]

/-- The thread was outside, and locks the mutex. Nobody was inside. -/
theorem enter [DecidableEq T] (h : m.Agrees inside) (hmoves : OnlyMoves t inside inside')
    (hbefore : ¬ inside t) (hafter : inside' t) (hlock : m.lock t = some m') :
    m'.Agrees inside' := by
  unfold lock at hlock
  cases howner : m.owner with
  | none =>
    rw [howner] at hlock
    obtain rfl := Option.some.inj hlock
    refine ⟨h.once, fun u => ?_⟩
    by_cases hut : u = t
    · subst hut
      exact iff_of_true rfl hafter
    · rw [hmoves u hut, ← h.owner, howner]
      exact iff_of_false (fun heq => hut (Option.some.inj heq).symm) fun heq => by cases heq
  | some u =>
    rw [howner] at hlock
    dsimp only at hlock
    split at hlock
    · rename_i hut
      exact absurd ((h.owner t).mp (hut ▸ howner)) hbefore
    · cases hlock

/-- The thread was inside, and unlocks the mutex. -/
theorem leave (h : m.Agrees inside) (hmoves : OnlyMoves t inside inside') (hbefore : inside t)
    (hafter : ¬ inside' t) : m.unlock.Agrees inside' := by
  refine ⟨h.once, fun u => iff_of_false (fun heq => by cases heq) ?_⟩
  by_cases hut : u = t
  · exact hut ▸ hafter
  · rw [hmoves u hut]
    exact fun hu => hut (h.alone hbefore hu)

/-- A thread that is inside, and locks the mutex again. -/
theorem relock [DecidableEq T] (h : m.Agrees inside) (ht : inside t) :
    m.lock t = some { m with relocked := true } := by
  unfold lock
  rw [(h.owner t).mpr ht]
  exact if_pos rfl

end Agrees

end Mutex

end Algiz.Lib
