/-
  Joining the workers of a `ThreadPool`.

  `notify_all` wakes the workers that are blocked. A worker that has found `joining` false and is
  not blocked yet does not hear it, for `join` does not take `workMutex`. If there is none, the
  `join` returns, and while it waits for the threads each takes at most five steps
  (`join_returns`). A job is one step of its worker: it returns. If there is one, with
  nothing to find that would keep it awake and nobody left to notify it, the `join` never returns
  (`join_hangs`).
-/
import Mathlib.Algebra.Order.BigOperators.Group.Finset
import Algiz.Threading.Lifetime

namespace Algiz.Threading

open Algiz.Lib

variable {J : Type*} {size : Nat}

/-- It has found `joining` false, and it is not blocked yet. -/
def Point.Between : Point J → Prop
  | .testingReady _ | .comparing _ => True
  | .gone | .entered | .looping _ | .testing _ | .blocked _ | .awake _ | .taking _ | .taken _
  | .running _ | .counted _ | .emptyHanded => False

/-- It has found `joining` false, and may be blocked. -/
def Point.Deaf : Point J → Prop
  | .testingReady _ | .comparing _ | .blocked _ => True
  | .gone | .entered | .looping _ | .testing _ | .awake _ | .taking _ | .taken _ | .running _
  | .counted _ | .emptyHanded => False

/-- It has a job, or is about to notify another worker. -/
def Point.Handling : Point J → Prop
  | .taken _ | .running _ | .counted _ => True
  | .gone | .entered | .looping _ | .testing _ | .testingReady _ | .comparing _ | .blocked _
  | .awake _ | .taking _ | .emptyHanded => False

/-- How many steps are left to a worker that is not deaf, once the pool is not active and
    `joining` is set. -/
def Point.stepsLeft : Point J → Nat
  | .gone | .testingReady _ | .comparing _ | .blocked _ => 0
  | .looping _ | .awake _ => 1
  | .entered | .testing _ | .emptyHanded | .counted _ => 2
  | .running _ => 3
  | .taken _ => 4
  | .taking _ => 5

def PoolEvent.isWorker : PoolEvent J size → Bool
  | .advance _ | .notify _ _ => true
  | .start | .join | .owner | .enterAdd | .push _ | .setReady | .tell _ | .wake _ => false

namespace Pool

/-- If this step calls `notify_all`, nobody stands between testing `joining` and blocking. -/
def NobodyBetween (s : Pool J size) : PoolEvent J size → Prop
  | .owner => s.stage = .notifying → ∀ w, ¬ (s.workers w).Between
  | .start | .join | .enterAdd | .push _ | .setReady | .tell _ | .advance _ | .notify _ _
  | .wake _ => True

/-- `join` waits for the threads. -/
def InJoin (s : Pool J size) : Prop := ∃ i, s.stage = .waiting i

/-- While `join` waits for the threads, all of them will see that `joining` is set. -/
def Heard (s : Pool J size) : Prop := s.InJoin → ∀ w, ¬ (s.workers w).Deaf

def stepsLeft (s : Pool J size) : Nat := ∑ w, (s.workers w).stepsLeft

section Joins

variable {s t : Pool J size}

theorem Staged.inJoin (h : s.Staged) (hjoin : s.InJoin) :
    s.active = false ∧ s.joining = true := by
  obtain ⟨i, hstage⟩ := hjoin
  unfold Staged at h
  rw [hstage] at h
  exact ⟨h.1, h.2.1⟩

theorem Heard.setWorker (h : s.Heard) (w : Fin size) {x : Point J} (hx : s.InJoin → ¬ x.Deaf) :
    (s.setWorker w x).Heard := by
  intro hjoin v
  by_cases hv : v = w
  · subst hv
    rw [setWorker_self]
    exact hx hjoin
  · rw [setWorker_of_ne s hv]
    exact h hjoin v

/-- A worker that goes on hears. -/
theorem Goes.not_deaf (hactive : s.active = false) (hjoining : s.joining = true) {x y : Point J}
    (h : Goes s x y) (hx : ¬ x.Deaf) : ¬ y.Deaf := by
  cases h with
  | loop n h => exact absurd (h.symm.trans hactive) (by decide)
  | test n h => exact absurd (hjoining.symm.trans h) (by decide)
  | block n h => exact absurd trivial hx
  | compare n h => exact absurd trivial hx
  | enter | leave | hear | ready | more | quit | resume | empty | back => exact id

theorem Heard.works (h : s.Heard) (hstaged : s.Staged) {w : Fin size} (hworks : Works s w t) :
    t.Heard := by
  cases hworks with
  | go hw hgoes =>
    refine h.setWorker w fun hjoin => ?_
    obtain ⟨hactive, hjoining⟩ := hstaged.inJoin hjoin
    exact hgoes.not_deaf hactive hjoining (hw ▸ h hjoin w)
  | take | clear | finish => exact Heard.setWorker (s := { s with .. }) h w fun _ => id

theorem Heard.notifies (h : s.Heard) (hnotifies : Notifies s t) : t.Heard := by
  cases hnotifies with
  | some hw => exact h.setWorker _ fun _ => id
  | nobody => exact h

theorem notified_not_deaf {x : Point J} (h : ¬ x.Between) : ¬ x.notified.Deaf := by
  cases x with
  | testingReady | comparing => exact absurd trivial h
  | gone | entered | looping | testing | blocked | awake | taking | taken | running | counted
  | emptyHanded => exact id

theorem Heard.owns (h : s.Heard) (hbetween : s.stage = .notifying → ∀ w, ¬ (s.workers w).Between)
    (howns : Owns s t) : t.Heard := by
  cases howns with
  | spawn hstage hi => exact fun hjoin => absurd hjoin (by rintro ⟨j, hj⟩; exact nomatch hj)
  | started | leave | close | clear | ended =>
    exact fun hjoin => absurd hjoin (by rintro ⟨j, hj⟩; exact nomatch hj)
  | notify hstage => exact fun _ w => notified_not_deaf (hbetween hstage w)
  | joined hstage => exact fun _ => h ⟨_, hstage⟩

theorem Heard.step (h : s.Heard) (hstaged : s.Staged) {e : PoolEvent J size}
    (hbetween : s.NobodyBetween e) (hstep : s.step e = some t) : t.Heard := by
  cases step_can hstep with
  | start | join => exact fun hjoin => absurd hjoin (by rintro ⟨j, hj⟩; exact nomatch hj)
  | startNothing | joinNothing | enterAdd | push | setReady => exact h
  | owner howns => exact h.owns hbetween howns
  | tell _ hnotifies => exact Heard.notifies (s := { s with telling := s.telling - 1 }) h hnotifies
  | advance hworks => exact h.works hstaged hworks
  | notify _ hnotifies => exact (h.setWorker _ fun _ => id).notifies hnotifies
  | wake hw => exact h.notifies (.some hw)

/-! ### How long it takes -/

theorem stepsLeft_setWorker (s : Pool J size) (w : Fin size) (x : Point J) :
    (s.setWorker w x).stepsLeft + (s.workers w).stepsLeft = s.stepsLeft + x.stepsLeft :=
  sum_update Point.stepsLeft s.workers w x

theorem stepsLeft_le (s : Pool J size) : s.stepsLeft ≤ 5 * size := by
  have hone : ∀ x : Point J, x.stepsLeft ≤ 5 := by
    intro x
    cases x <;> simp [Point.stepsLeft]
  have hall := Finset.sum_le_card_nsmul Finset.univ (fun w => (s.workers w).stepsLeft) 5
    fun w _ => hone _
  rwa [Finset.card_univ, Fintype.card_fin, Nat.nsmul_eq_mul, Nat.mul_comm] at hall

theorem Goes.stepsLeft_lt (hactive : s.active = false) (hjoining : s.joining = true)
    {x y : Point J} (h : Goes s x y) (hx : ¬ x.Deaf) : y.stepsLeft < x.stepsLeft := by
  cases h with
  | loop n h => exact absurd (h.symm.trans hactive) (by decide)
  | test n h => exact absurd (hjoining.symm.trans h) (by decide)
  | resume n h => exact absurd (hjoining.symm.trans h) (by decide)
  | ready | compare | more | block => exact absurd trivial hx
  | enter | leave | hear | quit | empty | back => simp [Point.stepsLeft]

theorem stepsLeft_setWorker_lt {w : Fin size} {x : Point J}
    (h : x.stepsLeft < (s.workers w).stepsLeft) : (s.setWorker w x).stepsLeft < s.stepsLeft := by
  have hsum := stepsLeft_setWorker s w x
  omega

/-- Every step of a worker that hears leaves fewer. -/
theorem Works.stepsLeft_lt (hactive : s.active = false) (hjoining : s.joining = true)
    {w : Fin size} (hheard : ¬ (s.workers w).Deaf) (h : Works s w t) :
    t.stepsLeft < s.stepsLeft := by
  cases h with
  | go hw hgoes =>
    refine stepsLeft_setWorker_lt ?_
    rw [hw]
    exact hgoes.stepsLeft_lt hactive hjoining (hw ▸ hheard)
  | @take n job rest hw _ =>
    have hlt : (s.setWorker w (.taken job)).stepsLeft < s.stepsLeft :=
      stepsLeft_setWorker_lt (by simp [hw, Point.stepsLeft])
    exact hlt
  | @clear job hw =>
    have hlt : (s.setWorker w (.running job)).stepsLeft < s.stepsLeft :=
      stepsLeft_setWorker_lt (by simp [hw, Point.stepsLeft])
    exact hlt
  | @finish job hw =>
    have hlt : (s.setWorker w (.counted (s.jobsDone + 1))).stepsLeft < s.stepsLeft :=
      stepsLeft_setWorker_lt (by simp [hw, Point.stepsLeft])
    exact hlt

theorem deaf_of_eq {x y : Point J} (h : x = y) (hy : y.Deaf) : x.Deaf := h ▸ hy

/-- Nobody is blocked, so a notification wakes nobody. -/
theorem Notifies.eq_self (h : Notifies s t) (hnone : ∀ w, ¬ (s.workers w).Deaf) : t = s := by
  cases h with
  | some hw => exact absurd (deaf_of_eq hw trivial) (hnone _)
  | nobody => rfl

/-- While `join` waits, a worker's step leaves fewer, and no other step leaves more. -/
theorem inJoin_stepsLeft (hstaged : s.Staged) (hheard : s.Heard) (hjoin : s.InJoin)
    (hjoin' : t.InJoin) {e : PoolEvent J size} (hstep : s.step e = some t) :
    t.stepsLeft + e.isWorker.toNat ≤ s.stepsLeft := by
  obtain ⟨hactive, hjoining⟩ := hstaged.inJoin hjoin
  obtain ⟨i, hstage⟩ := hjoin
  have hdeaf := hheard ⟨i, hstage⟩
  cases step_can hstep with
  | start hidle | startNothing hidle | join hidle | joinNothing hidle =>
    exact nomatch hidle.symm.trans hstage
  | owner howns =>
    cases howns with
    | spawn hother | started hother | leave hother | close hother | clear hother | notify hother =>
      exact nomatch hother.symm.trans hstage
    | joined => exact Nat.le_refl _
    | ended =>
      obtain ⟨j, hj⟩ := hjoin'
      exact nomatch hj
  | enterAdd hopen => exact absurd (hopen.symm.trans hactive) (by decide)
  | push | setReady => exact Nat.le_refl _
  | tell _ hnotifies =>
    rw [Notifies.eq_self (s := { s with telling := s.telling - 1 }) hnotifies hdeaf]
    exact Nat.le_refl _
  | @advance w t hworks => exact hworks.stepsLeft_lt hactive hjoining (hdeaf w)
  | @notify w target n t hw hnotifies =>
    have hquiet : (s.setWorker w (.looping n)).Heard := hheard.setWorker w fun _ => id
    rw [hnotifies.eq_self (hquiet ⟨i, hstage⟩)]
    exact stepsLeft_setWorker_lt (by simp [hw, Point.stepsLeft])
  | wake hw => exact absurd (deaf_of_eq hw trivial) (hdeaf _)

/-- So the workers cannot take more steps than are left to them. -/
theorem countP_isWorker_le {es : List (PoolEvent J size)} (hstaged : s.Staged) (hheard : s.Heard)
    (hall : AllStates step InJoin s es) (hexec : exec step s es = some t) :
    t.stepsLeft + es.countP PoolEvent.isWorker ≤ s.stepsLeft := by
  induction es generalizing s with
  | nil =>
    obtain rfl := Option.some.inj hexec
    exact Nat.le_refl _
  | cons e es ih =>
    obtain ⟨u, hu, hrest⟩ := exec_cons hexec
    have hnext := hall.2 u hu
    have hbetween : s.NobodyBetween e := by
      cases e with
      | owner =>
        obtain ⟨i, hstage⟩ := hall.1
        exact fun hother => nomatch hother.symm.trans hstage
      | start | join | enterAdd | push | setReady | tell | advance | notify | wake => trivial
    have hone := inJoin_stepsLeft hstaged hheard hall.1 hnext.head hu
    have hmore := ih (hstaged.step hu) (hheard.step hstaged hbetween hu) hnext hrest
    rw [List.countP_cons]
    cases hworker : e.isWorker with
    | true =>
      rw [hworker] at hone
      simp only [if_true, Bool.toNat_true] at hone ⊢
      omega
    | false =>
      rw [hworker] at hone
      simp only [Bool.false_eq_true, if_false, Bool.toNat_false] at hone ⊢
      omega

/-! ### That it goes on -/

/-- A worker that hears can go on, unless it is gone. -/
theorem worker_goesOn (hdeaf : ∀ w, ¬ (s.workers w).Deaf) {w : Fin size}
    (hw : s.workers w ≠ .gone) : ∃ e t, PoolEvent.isWorker e = true ∧ s.step e = some t := by
  have hadvance : ∀ t, s.advance w = some t →
      ∃ e t, PoolEvent.isWorker e = true ∧ s.step e = some t := fun t ht => ⟨.advance w, t, rfl, ht⟩
  cases hx : s.workers w with
  | gone => exact absurd hx hw
  | testingReady | comparing | blocked => exact absurd (deaf_of_eq hx trivial) (hdeaf w)
  | counted n =>
    have hnobody : ∀ v, ((s.setWorker w (.looping n)).workers v).isBlocked = false := by
      intro v
      by_cases hv : v = w
      · rw [hv, setWorker_self]
        rfl
      · rw [setWorker_of_ne s hv]
        cases hy : s.workers v with
        | blocked m => exact absurd (deaf_of_eq hy trivial) (hdeaf v)
        | gone | entered | looping | testing | testingReady | comparing | awake | taking | taken
        | running | counted | emptyHanded => rfl
    refine ⟨.notify w none, s.setWorker w (.looping n), rfl, ?_⟩
    rw [step, hx]
    exact if_pos hnobody
  | taking n =>
    cases hqueue : s.workQueue with
    | nil => exact hadvance _ (by rw [advance, hx]; dsimp only; rw [hqueue])
    | cons job rest => exact hadvance _ (by rw [advance, hx]; dsimp only; rw [hqueue])
  | entered | looping | testing | awake | taken | running | emptyHanded =>
    exact hadvance _ (by rw [advance, hx])

/-- When all threads have ended, `join` does not wait any longer. -/
theorem owner_ends (hgone : ∀ w, s.workers w = .gone) {i : Nat} (hstage : s.stage = .waiting i) :
    ∃ n t, exec step s (List.replicate n .owner) = some t ∧ t.stage = .idle := by
  generalize hk : size - i = k
  induction k generalizing s i with
  | zero =>
    have hi : ¬ i < size := by omega
    refine ⟨1, { s with joining := false, stage := .idle }, ?_, rfl⟩
    show (s.owner.bind fun t => some t) = _
    rw [owner, hstage]
    dsimp only
    rw [dif_neg hi]
    rfl
  | succ k ih =>
    have hi : i < size := by omega
    obtain ⟨n, t, hexec, ht⟩ := ih (s := { s with stage := .waiting (i + 1) }) hgone rfl (by omega)
    refine ⟨n + 1, t, ?_, ht⟩
    have howner : s.owner = some { s with stage := .waiting (i + 1) } := by
      rw [owner, hstage]
      dsimp only
      rw [dif_pos hi, hgone]
      rfl
    show (s.owner.bind fun u => exec step u (List.replicate n .owner)) = _
    rw [howner]
    exact hexec

/-- `join` returns, whatever the workers do, as their jobs return: while it waits for the threads
    they can take no more than so many steps, and as long as there are threads one of them can
    take one. -/
structure JoinReturns (s : Pool J size) : Prop where
  bounded : ∀ es t, AllStates step InJoin s es → exec step s es = some t →
    es.countP PoolEvent.isWorker ≤ 5 * size
  goesOn : (∃ w, s.workers w ≠ .gone) → ∃ e t, PoolEvent.isWorker e = true ∧ s.step e = some t
  ends : (∀ w, s.workers w = .gone) →
    ∃ n t, exec step s (List.replicate n .owner) = some t ∧ t.stage = .idle

/-- If no worker ever stands between testing `joining` and blocking when `notify_all` is called,
    and the jobs return, every `join` returns. -/
theorem join_returns (es : List (PoolEvent J size)) (hall : AllSteps step NobodyBetween {} es) :
    AllStates step (fun s => s.InJoin → s.JoinReturns) {} es := by
  have hinit : Staged ({} : Pool J size) ∧ Heard ({} : Pool J size) :=
    ⟨staged_init, fun hjoin => absurd hjoin (by rintro ⟨j, hj⟩; exact nomatch hj)⟩
  have hkeeps : ∀ (s : Pool J size) e t, s.Staged ∧ s.Heard → s.NobodyBetween e →
      s.step e = some t → t.Staged ∧ t.Heard :=
    fun _ _ _ h hbetween hstep => ⟨h.1.step hstep, h.2.step h.1 hbetween hstep⟩
  refine AllStates.of_allSteps hkeeps ?_ hinit hall
  rintro s ⟨hstaged, hheard⟩ hjoin
  refine ⟨fun es t hes hexec => ?_, ?_, fun hgone => ?_⟩
  · have hcount := countP_isWorker_le hstaged hheard hes hexec
    have hbound := s.stepsLeft_le
    omega
  · rintro ⟨w, hw⟩
    exact worker_goesOn (hheard hjoin) hw
  · obtain ⟨i, hstage⟩ := hjoin
    exact owner_ends hgone hstage

/-- The pool is started and joined, and its only worker is blocked when it is notified. -/
theorem join_returns_blocked :
    AllStates step (fun s : Pool Nat 1 => s.InJoin → s.JoinReturns) {}
      ([.start, .owner, .owner] ++ List.replicate 5 (.advance 0) ++ [.join, .owner, .owner, .owner,
        .advance 0, .advance 0, .owner, .owner]) :=
  join_returns _ (by
    simp [AllSteps, step, owner, advance, NobodyBetween, setWorker, notifyAll, List.replicate,
      Point.notified, Point.Between])

/-! ## Joins that do not return -/

/-- Nobody is left to notify a worker, or to set what it reads: the queue is empty, no job is in
    hand, and no `add` is under way. -/
structure Quiet (s : Pool J size) : Prop where
  queue : s.workQueue = []
  ready : s.newJobReady = false
  admitted : s.admitted = 0
  adding : s.adding = 0
  telling : s.telling = 0
  hands : ∀ v, ¬ (s.workers v).Handling

/-- The worker is on its way to being blocked, or is blocked, and nobody is left to wake it. -/
structure Lost (s : Pool J size) (w : Fin size) : Prop where
  staged : s.Staged
  inJoin : s.InJoin
  quiet : s.Quiet
  asleep : ∃ n, s.jobsDone ≤ n ∧ (s.workers w = .testingReady n ∨ s.workers w = .comparing n ∨
    s.workers w = .blocked n)

theorem Lost.ne_gone {w : Fin size} (h : s.Lost w) : s.workers w ≠ .gone := by
  obtain ⟨n, -, hw | hw | hw⟩ := h.asleep
  all_goals
    rw [hw]
    exact nofun

theorem Goes.not_handling {x y : Point J} (h : Goes s x y) : ¬ y.Handling := by
  cases h <;> exact id

theorem Quiet.setWorker (h : s.Quiet) (w : Fin size) {x : Point J} (hx : ¬ x.Handling) :
    (s.setWorker w x).Quiet := by
  refine ⟨h.queue, h.ready, h.admitted, h.adding, h.telling, fun v => ?_⟩
  by_cases hv : v = w
  · subst hv
    rw [setWorker_self]
    exact hx
  · rw [setWorker_of_ne s hv]
    exact h.hands v

theorem Quiet.not_at (h : s.Quiet) {w : Fin size} {x : Point J} (hw : s.workers w = x) :
    ¬ x.Handling := hw ▸ h.hands w

/-- A worker that goes on leaves the lost one lost. -/
theorem Lost.goes {w v : Fin size} (h : s.Lost w) {x y : Point J} (hv : s.workers v = x)
    (hgoes : Goes s x y) : (s.setWorker v y).Lost w := by
  have hsame : SameStage s (s.setWorker v y) := .setWorker (hv ▸ hgoes.ne_gone) y
  refine ⟨h.staged.same hsame, h.inJoin, h.quiet.setWorker v hgoes.not_handling, ?_⟩
  obtain ⟨n, hn, hasleep⟩ := h.asleep
  refine ⟨n, hn, ?_⟩
  by_cases hvw : w = v
  · subst hvw
    rw [setWorker_self]
    rw [hv] at hasleep
    rcases hasleep with rfl | rfl | rfl
    · cases hgoes with
      | ready _ hready => exact absurd (hready.symm.trans h.quiet.ready) (by decide)
      | compare => exact .inr (.inl rfl)
    · cases hgoes with
      | more _ hmore => exact absurd hmore (Nat.not_lt.mpr hn)
      | block => exact .inr (.inr rfl)
    · cases hgoes
  · rwa [setWorker_of_ne s hvw]

theorem Lost.step {w : Fin size} (h : s.Lost w) {e : PoolEvent J size}
    (hwake : ∀ v, e ≠ .wake v) (hstep : s.step e = some t) : t.Lost w := by
  obtain ⟨hactive, -⟩ := h.staged.inJoin h.inJoin
  obtain ⟨i, hstage⟩ := h.inJoin
  cases step_can hstep with
  | start hidle | startNothing hidle | join hidle | joinNothing hidle =>
    exact nomatch hidle.symm.trans hstage
  | owner howns =>
    have hstaged := h.staged.owns howns
    cases howns with
    | spawn hother | started hother | leave hother | close hother | clear hother | notify hother =>
      exact nomatch hother.symm.trans hstage
    | joined => exact ⟨hstaged, ⟨_, rfl⟩, ⟨h.quiet.queue, h.quiet.ready, h.quiet.admitted,
        h.quiet.adding, h.quiet.telling, h.quiet.hands⟩, h.asleep⟩
    | ended =>
      -- all threads have ended, but this one has not
      exact absurd (hstaged.2 hactive w) h.ne_gone
  | enterAdd hopen => exact absurd (hopen.symm.trans hactive) (by decide)
  | push _ hnone => exact absurd h.quiet.admitted hnone
  | setReady hnone => exact absurd h.quiet.adding hnone
  | tell hnone => exact absurd h.quiet.telling hnone
  | @advance v t hworks =>
    cases hworks with
    | go hv hgoes => exact h.goes hv hgoes
    | take _ hqueue => exact nomatch h.quiet.queue.symm.trans hqueue
    | clear hv | finish hv => exact absurd trivial (h.quiet.not_at hv)
  | notify hv => exact absurd trivial (h.quiet.not_at hv)
  | wake => exact absurd rfl (hwake _)

/-- `notify_all` is called while a worker stands between testing `joining` and blocking, with
    nothing to find that would keep it awake, and nobody is left to notify it. Then `join` never
    returns, unless the worker wakes of itself. -/
theorem join_hangs {es : List (PoolEvent J size)} (hexec : exec step {} es = some s)
    (hstep : s.step .owner = some t) (hstage : s.stage = .notifying) (hquiet : s.Quiet)
    {w : Fin size} {n : Nat} (hw : s.workers w = .testingReady n ∨ s.workers w = .comparing n)
    (hn : s.jobsDone ≤ n) (later : List (PoolEvent J size)) (hwake : ∀ v, .wake v ∉ later) :
    AllStates step InJoin t later := by
  have hstaged : s.Staged :=
    exec_invariant (fun _ _ _ h hstep => h.step hstep) staged_init hexec
  have hlost : t.Lost w := by
    have hstaged' := hstaged.step hstep
    cases step_can hstep with
    | owner howns =>
      cases howns with
      | spawn hother | started hother | leave hother | close hother | clear hother | joined hother
      | ended hother => exact nomatch hother.symm.trans hstage
      | notify =>
        refine ⟨hstaged', ⟨0, rfl⟩, ⟨hquiet.queue, hquiet.ready, hquiet.admitted, hquiet.adding,
          hquiet.telling, fun v => ?_⟩, n, hn, ?_⟩
        · have hv := hquiet.hands v
          show ¬ (s.workers v).notified.Handling
          cases hx : s.workers v with
          | blocked m => exact id
          | taken | running | counted => exact absurd trivial (hquiet.not_at hx)
          | gone | entered | looping | testing | testingReady | comparing | awake | taking
          | emptyHanded => exact id
        · show (s.workers w).notified = _ ∨ (s.workers w).notified = _ ∨ _
          rcases hw with hw | hw
          · rw [hw]
            exact .inl rfl
          · rw [hw]
            exact .inr (.inl rfl)
  clear hexec hstep
  induction later generalizing t with
  | nil => exact hlost.inJoin
  | cons e later ih =>
    refine ⟨hlost.inJoin, fun u hu => ?_⟩
    refine ih (fun v hv => hwake v (List.mem_cons_of_mem e hv)) (hlost.step ?_ hu)
    rintro v rfl
    exact hwake v List.mem_cons_self

/-- The pool is started and joined, and its only worker has just found `joining` false when it is
    to be notified. -/
def caught : Pool Nat 1 :=
  (exec step {} [.start, .owner, .owner, .advance only, .advance only, .advance only, .join,
    .owner, .owner]).get (by decide)

/-- The worker is blocked, and stays so. -/
theorem join_hangs_caught :
    AllStates step InJoin ((caught.step .owner).get (by decide)) [.advance 0, .advance 0] := by
  have hquiet : caught.Quiet := by
    refine ⟨rfl, rfl, rfl, rfl, rfl, fun v => ?_⟩
    have hv : v = 0 := Subsingleton.elim _ _
    subst hv
    exact id
  exact join_hangs (s := caught) (w := 0) (n := 0) (Option.some_get _).symm
    (Option.some_get _).symm rfl hquiet (.inl rfl) (Nat.le_refl 0) _ (by simp)

end Joins

end Pool

end Algiz.Threading
