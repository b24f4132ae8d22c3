/-
  Functions that hold their locks by scopes.

  `Locking` is what is left of a function when only its locks are looked at: a scope holds a
  mutex and gives it back however it is left, branches and loops go either way, and anything may
  throw. `Runs` says which operations on the mutexes one run does. The check `Locking.Ranked`
  follows the scopes; where it holds, every run keeps to the discipline (`Runs.ranked`).
-/
import Algiz.Lib.LockOrder

namespace Algiz.Lib

/-- The scopes of a function, and how it goes through them. -/
inductive Locking (M : Type*) where
  | skip
  | throwing
  | holding (m : M) (body : Locking M)
  | seq (a b : Locking M)
  | either (a b : Locking M)
  | many (body : Locking M)
  | catching (body handler : Locking M)

namespace Locking

/-- How a run ends. -/
inductive Exit where
  | returned
  | threw
  deriving DecidableEq

variable {M : Type*}

/-- The operations of one run, and how it ends -/
inductive Runs : Locking M → List (LockOp M) → Exit → Prop where
  | skip : Runs skip [] .returned
  | throwing : Runs throwing [] .threw
  | holding {m body ops e} (h : Runs body ops e) :
      Runs (holding m body) (.lock m :: (ops ++ [.unlock m])) e
  | seq {a b ops ops' e} (ha : Runs a ops .returned) (hb : Runs b ops' e) :
      Runs (seq a b) (ops ++ ops') e
  | seq_threw {a b ops} (ha : Runs a ops .threw) : Runs (seq a b) ops .threw
  | left {a b ops e} (ha : Runs a ops e) : Runs (either a b) ops e
  | right {a b ops e} (hb : Runs b ops e) : Runs (either a b) ops e
  | none {body} : Runs (many body) [] .returned
  | more {body ops ops' e} (h : Runs body ops .returned) (hrest : Runs (many body) ops' e) :
      Runs (many body) (ops ++ ops') e
  | more_threw {body ops} (h : Runs body ops .threw) : Runs (many body) ops .threw
  | caught {body handler ops ops' e} (h : Runs body ops .threw) (hh : Runs handler ops' e) :
      Runs (catching body handler) (ops ++ ops') e
  | uncaught {body handler ops} (h : Runs body ops .returned) :
      Runs (catching body handler) ops .returned

/-- It may throw here, or go on. -/
def mayThrow : Locking M := either skip throwing

/-- It may do this, or not. -/
def maybe (a : Locking M) : Locking M := either skip a

/-- One after the other -/
def all : List (Locking M) → Locking M
  | [] => skip
  | a :: as => seq a (all as)

/-- One of them -/
def any : List (Locking M) → Locking M
  | [] => skip
  | a :: as => either a (any as)

section Rank

variable {T R : Type*} [LT R]

/-- Where thread `t` holds `held`, the discipline allows every scope. -/
def Ranked (d : Discipline T M R) (t : T) : List M → Locking M → Prop
  | _, skip => True
  | _, throwing => True
  | held, holding m body => d.Allows t held m ∧ Ranked d t (m :: held) body
  | held, seq a b => Ranked d t held a ∧ Ranked d t held b
  | held, either a b => Ranked d t held a ∧ Ranked d t held b
  | held, many body => Ranked d t held body
  | held, catching body handler => Ranked d t held body ∧ Ranked d t held handler

variable {d : Discipline T M R} {t : T} {held : List M}

@[simp] theorem ranked_mayThrow : Ranked d t held mayThrow := ⟨trivial, trivial⟩

@[simp] theorem ranked_maybe {a : Locking M} :
    Ranked d t held (maybe a) ↔ Ranked d t held a := by
  simp [maybe, Ranked]

@[simp] theorem ranked_all {as : List (Locking M)} :
    Ranked d t held (all as) ↔ ∀ a ∈ as, Ranked d t held a := by
  induction as with
  | nil => simp [all, Ranked]
  | cons a as ih => simp [all, Ranked, ih]

@[simp] theorem ranked_any {as : List (Locking M)} :
    Ranked d t held (any as) ↔ ∀ a ∈ as, Ranked d t held a := by
  induction as with
  | nil => simp [any, Ranked]
  | cons a as ih => simp [any, Ranked, ih]

variable [DecidableEq M]

/-- What the discipline allows after a run it allows before it. -/
theorem Runs.ranked_append {f : Locking M} {ops : List (LockOp M)} {e : Exit} (h : Runs f ops e) :
    ∀ {held : List M}, f.Ranked d t held → ∀ {rest : List (LockOp M)},
      Threads.Ranked d t held rest → Threads.Ranked d t held (ops ++ rest) := by
  induction h with
  | skip => exact fun _ _ hrest => hrest
  | throwing => exact fun _ _ hrest => hrest
  | holding h ih =>
    rename_i m body ops e
    intro held hf rest hrest
    rw [List.cons_append, List.append_assoc]
    refine ⟨hf.1, ih hf.2 ⟨List.mem_cons_self, ?_⟩⟩
    rw [List.erase_cons_head]
    exact hrest
  | seq ha hb iha ihb =>
    intro held hf rest hrest
    rw [List.append_assoc]
    exact iha hf.1 (ihb hf.2 hrest)
  | seq_threw ha ih => exact fun hf _ hrest => ih hf.1 hrest
  | left ha ih => exact fun hf _ hrest => ih hf.1 hrest
  | right hb ih => exact fun hf _ hrest => ih hf.2 hrest
  | none => exact fun _ _ hrest => hrest
  | more h hmore ih ihmore =>
    intro held hf rest hrest
    rw [List.append_assoc]
    exact ih hf (ihmore hf hrest)
  | more_threw h ih => exact fun hf _ hrest => ih hf hrest
  | caught h hh ih ihh =>
    intro held hf rest hrest
    rw [List.append_assoc]
    exact ih hf.1 (ihh hf.2 hrest)
  | uncaught h ih => exact fun hf _ hrest => ih hf.1 hrest

/-- Every run of a function that passes the check keeps to the discipline. -/
theorem Runs.ranked {f : Locking M} {ops : List (LockOp M)} {e : Exit} (h : Runs f ops e)
    (hf : f.Ranked d t []) : Threads.Ranked d t [] ops := by
  have hnone : Threads.Ranked d t ([] : List M) [] := rfl
  have hops := h.ranked_append hf hnone
  rwa [List.append_nil] at hops

end Rank

theorem Runs.maybe {a : Locking M} {ops : List (LockOp M)} {e : Exit} (h : Runs a ops e) :
    Runs (maybe a) ops e := .right h

theorem Runs.not {a : Locking M} : Runs (Locking.maybe a) [] .returned := .left .skip

theorem Runs.goes_on : Runs (mayThrow : Locking M) [] .returned := .left .skip

theorem Runs.any_of_mem {as : List (Locking M)} {a : Locking M} (ha : a ∈ as)
    {ops : List (LockOp M)} {e : Exit} (h : Runs a ops e) : Runs (any as) ops e := by
  induction as with
  | nil => exact absurd ha List.not_mem_nil
  | cons b as ih =>
    rcases List.mem_cons.mp ha with rfl | ha
    · exact .left h
    · exact .right (ih ha)

/-- A loop that is run once -/
theorem Runs.once {body : Locking M} {ops : List (LockOp M)} (h : Runs body ops .returned) :
    Runs (many body) ops .returned := by
  have hmore := Runs.more h .none
  rwa [List.append_nil] at hmore

section Alone

variable {T : Type*} [DecidableEq T] [DecidableEq M] {recursive : M → Bool} {t : T}

/-- Thread `t` runs through these operations without waiting, if all that they lock is recursive
    and not held by another thread, and leaves the mutexes as they were. -/
def Undisturbed (recursive : M → Bool) (t : T) (ops : List (LockOp M)) : Prop :=
  ∀ (s : Threads T M) (rest : List (LockOp M)), s.todo t = ops ++ rest →
    (∀ m, .lock m ∈ ops → recursive m = true ∧ ∀ u, u ≠ t → (s.mutexes m).depth u = 0) →
      exec (Threads.step recursive) s (List.replicate ops.length t) =
        some ⟨Function.update s.todo t rest, s.mutexes⟩

theorem undisturbed_nil : Undisturbed recursive t [] := by
  intro s rest htodo _
  rw [List.nil_append] at htodo
  rw [← htodo, Function.update_eq_self]
  rfl

theorem Undisturbed.append {ops ops' : List (LockOp M)} (ha : Undisturbed recursive t ops)
    (hb : Undisturbed recursive t ops') : Undisturbed recursive t (ops ++ ops') := by
  intro s rest htodo hfree
  rw [List.append_assoc] at htodo
  have hfirst := ha s _ htodo fun m hm => hfree m (List.mem_append_left _ hm)
  have hsecond := hb ⟨Function.update s.todo t (ops' ++ rest), s.mutexes⟩ rest
    (Function.update_self ..) fun m hm => hfree m (List.mem_append_right _ hm)
  rw [List.length_append, List.replicate_add, exec_append hfirst hsecond, Function.update_idem]

/-- Locking a mutex, then `ops`, then unlocking it -/
theorem Undisturbed.holding {m : M} {ops : List (LockOp M)} (h : Undisturbed recursive t ops) :
    Undisturbed recursive t (.lock m :: (ops ++ [.unlock m])) := by
  intro s rest htodo hfree
  obtain ⟨hrec, halone⟩ := hfree m List.mem_cons_self
  obtain ⟨x, hlock, hunlock⟩ := RecursiveMutex.lock_alone halone
  rw [List.cons_append, List.append_assoc] at htodo
  have hfirst : s.step recursive t = some (s.after t (ops ++ (.unlock m :: rest)) m x) :=
    Threads.step_lock htodo (hrec ▸ hlock)
  have hbody := h (s.after t (ops ++ (.unlock m :: rest)) m x) (.unlock m :: rest)
    (by rw [Threads.todo_after, Function.update_self]) fun k hk => by
      -- the others hold what they held
      refine (hfree k (by simp [hk])).imp_right fun hk u hut => ?_
      rw [Threads.mutexes_after]
      by_cases hkm : k = m
      · subst hkm
        rw [Function.update_self, (RecursiveMutex.depth_lock hlock).2 u hut, halone u hut]
      · rw [Function.update_of_ne hkm, hk u hut]
  rw [Threads.todo_after, Threads.mutexes_after, Function.update_idem] at hbody
  have hlast : Threads.step recursive
      ⟨Function.update s.todo t (.unlock m :: rest), Function.update s.mutexes m x⟩ t = some _ :=
    Threads.step_unlock (Function.update_self ..) (by simpa using hunlock)
  rw [List.length_cons, List.length_append, List.replicate_succ, List.replicate_add, exec, hfirst]
  refine exec_append hbody ?_
  rw [List.length_singleton, List.replicate_one, exec, hlast]
  simp [exec, Threads.after]

end Alone

end Locking

end Algiz.Lib
