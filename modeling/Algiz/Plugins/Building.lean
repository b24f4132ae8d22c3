/-
  `Game3CI` at work: from the hook to the commands that its jobs run.

  The hook's handlers add jobs to a pool of one worker, whose steps interleave with theirs; a job
  runs one command after another and returns at the first that fails. `runCommand` is not looked
  into: what a command comes to is an input. If a command cannot be run at all the exception ends
  the program; the log is then what it was before. The pool is `Threading.Pool`, and the plugin
  stays loaded (`detach` is left out).

  In every run the jobs' commands never mix, and when a zip is published, the three commands that
  were run right before were the pull, the checkout of a commit that a signed request has asked
  for, and the build, and all of them had succeeded (`publishes_built`).
-/
import Mathlib.Data.List.Infix
import Algiz.Lib.Dialogue
import Algiz.Plugins.Game3CI
import Algiz.Threading.Lifetime

/-! ## What the pool's steps do to a job that is run -/

namespace Algiz.Threading

open Lib

variable {J : Type*} {size : Nat}

/-- The job that a worker runs. -/
def Point.runs : Point J → Option J
  | .running job => some job
  | .gone | .entered | .looping _ | .testing _ | .testingReady _ | .comparing _ | .blocked _
  | .awake _ | .taking _ | .taken _ | .counted _ | .emptyHanded => none

namespace Pool

variable {s t : Pool J size}

/-- No job begins and none ends. -/
def RunsOn (s t : Pool J size) : Prop :=
  t.done = s.done ∧ ∀ w, (t.workers w).runs = (s.workers w).runs

theorem RunsOn.setWorker {w : Fin size} {x : Point J} (hx : x.runs = (s.workers w).runs) :
    RunsOn s (s.setWorker w x) := by
  refine ⟨rfl, fun v => ?_⟩
  rcases eq_or_ne v w with rfl | hv
  · rw [setWorker_self, hx]
  · rw [setWorker_of_ne s hv]

theorem RunsOn.trans {u : Pool J size} (h : RunsOn s t) (h' : RunsOn t u) : RunsOn s u :=
  ⟨h'.1.trans h.1, fun w => (h'.2 w).trans (h.2 w)⟩

theorem Notifies.runsOn (h : Notifies s t) : RunsOn s t := by
  cases h with
  | some hw => exact .setWorker (by rw [hw]; rfl)
  | nobody => exact ⟨rfl, fun _ => rfl⟩

theorem Owns.runsOn (hstaged : s.Staged) (h : Owns s t) : RunsOn s t := by
  cases h with
  | @spawn i hstage hi =>
    unfold Staged at hstaged
    rw [hstage] at hstaged
    refine RunsOn.trans (t := { s with stage := .starting (i + 1) }) ⟨rfl, fun _ => rfl⟩ ?_
    exact .setWorker (by rw [show s.workers ⟨i, hi⟩ = .gone from hstaged.2.2 ⟨i, hi⟩ le_rfl]; rfl)
  | notify =>
    refine ⟨rfl, fun w => ?_⟩
    show ((s.workers w).notified).runs = _
    cases s.workers w <;> rfl
  | started | leave | close | clear | joined | ended => exact ⟨rfl, fun _ => rfl⟩

/-- A step of the pool begins a job, ends one, or does neither. -/
inductive RunStep (s t : Pool J size) : PoolEvent J size → Prop
  | on {e : PoolEvent J size} (h : RunsOn s t)
      (hidle : ∀ w, e = .advance w →
        (∀ job, s.workers w ≠ .taken job) ∧ ∀ job, s.workers w ≠ .running job) : RunStep s t e
  | begins {w : Fin size} {job : J} (hw : s.workers w = .taken job)
      (hdone : t.done = s.done) (hruns : (t.workers w).runs = some job) : RunStep s t (.advance w)
  | ends {w : Fin size} {job : J} (hw : s.workers w = .running job)
      (hdone : t.done = s.done ++ [job]) (hruns : (t.workers w).runs = none) :
      RunStep s t (.advance w)

theorem step_runStep (hstaged : s.Staged) {e : PoolEvent J size} (hstep : s.step e = some t) :
    RunStep s t e := by
  cases step_can hstep with
  | owner howns => exact .on (howns.runsOn hstaged) fun _ heq => nomatch heq
  | tell _ hnotifies =>
    refine .on (RunsOn.trans (t := { s with telling := s.telling - 1 }) ⟨rfl, fun _ => rfl⟩
      hnotifies.runsOn) fun _ heq => nomatch heq
  | advance hworks =>
    cases hworks with
    | go hw hgoes =>
      refine .on (.setWorker (by rw [hw]; cases hgoes <;> rfl)) fun v heq => ?_
      cases heq
      rw [hw]
      cases hgoes <;> exact ⟨fun _ heq => (nomatch heq), fun _ heq => nomatch heq⟩
    | @take n job rest hw hqueue =>
      refine .on (RunsOn.trans (t := { s with
        workQueue := rest
        left := s.left ++ [(Fate.taken, job)] }) ⟨rfl, fun _ => rfl⟩ (.setWorker ?_))
        fun v heq => ?_
      · exact (congrArg Point.runs hw).symm
      · cases heq
        rw [hw]
        exact ⟨fun _ heq => (nomatch heq), fun _ heq => nomatch heq⟩
    | clear hw => exact .begins hw rfl (by rw [setWorker_self]; rfl)
    | finish hw => exact .ends hw rfl (by rw [setWorker_self]; rfl)
  | notify hw hnotifies =>
    exact .on ((RunsOn.setWorker (by rw [hw]; rfl)).trans hnotifies.runsOn) fun _ heq => nomatch heq
  | wake hw => exact .on (.setWorker (by rw [hw]; rfl)) fun _ heq => nomatch heq
  | start | startNothing | join | joinNothing | enterAdd | push | setReady =>
    exact .on ⟨rfl, fun _ => rfl⟩ fun _ heq => nomatch heq

theorem Notifies.pushed (h : Notifies s t) : t.pushed = s.pushed := by
  cases h <;> rfl

/-- What is pushed is what `push` pushes. -/
theorem step_pushed {e : PoolEvent J size} (hstep : s.step e = some t) :
    t.pushed = s.pushed ∧ (∀ job, e ≠ .push job) ∨
      ∃ job, e = .push job ∧ t.pushed = s.pushed ++ [job] := by
  cases step_can hstep with
  | push job => exact .inr ⟨job, rfl, rfl⟩
  | owner howns => exact .inl ⟨by cases howns <;> rfl, fun _ heq => nomatch heq⟩
  | tell _ hnotifies => exact .inl ⟨hnotifies.pushed, fun _ heq => nomatch heq⟩
  | advance hworks => exact .inl ⟨by cases hworks <;> rfl, fun _ heq => nomatch heq⟩
  | notify hw hnotifies => exact .inl ⟨hnotifies.pushed, fun _ heq => nomatch heq⟩
  | start | startNothing | join | joinNothing | enterAdd | setReady | wake =>
    exact .inl ⟨rfl, fun _ heq => nomatch heq⟩

/-- Jobs that have been run, or that a worker has, were pushed. -/
theorem Accounted.done_add_held_le (h : s.Accounted) :
    (s.done : Multiset J) + s.heldJobs ≤ (s.pushed : Multiset J) := by
  rw [← h.held, h.order]
  have hleft : takenJobs s.left ≤ (s.left.map Prod.snd : List J) :=
    Multiset.coe_le.mpr (List.filter_sublist.map Prod.snd).subperm
  exact le_trans hleft (Multiset.coe_le.mpr (List.sublist_append_left _ _).subperm)

end Pool

end Algiz.Threading

namespace Algiz.Plugins

open Lib HTTP Threading

/-- What `runCommand` is called with. -/
structure Command where
  path : Bytes
  args : List Bytes
  deriving DecidableEq

/-- `CommandOutput` -/
structure CommandOutput where
  out : Bytes := []
  err : Bytes := []
  code : Int := -1
  signal : Int := -1
  deriving DecidableEq

namespace Game3CI

/-! ## The jobs -/

/-- The settings that a job copies. -/
structure Settings where
  repoRoot : Bytes
  builddir : Bytes
  force : Bool := false
  quasiMsys2 : Bytes := []

abbrev Job := Dialogue Command CommandOutput

/-- `run(command, args...)`, and the `return` that follows if the command failed. -/
def run (command : Command) (next : CommandOutput → Job) : Job :=
  .ask command fun result => if result.code ≠ 0 then .done else next result

namespace Settings

variable (s : Settings)

def pull : Command :=
  ⟨ascii "git", [ascii "-C", s.builddir, ascii "pull", ascii "origin", ascii "master"]⟩

def checkout (commitHash : Bytes) : Command :=
  ⟨ascii "git", [ascii "-C", s.builddir, ascii "checkout", commitHash]⟩

def build : Command := ⟨ascii "ninja", [ascii "-C", s.builddir]⟩

/-- A Linux zip is produced and published. -/
def publishLinux : Command :=
  ⟨s.repoRoot ++ ascii "/linzip.sh", [s.repoRoot, s.builddir, ascii "publish"]⟩

/-- The same for Windows. -/
def publishWindows : Command :=
  ⟨s.repoRoot ++ ascii "/quasi_msys2.sh", [s.repoRoot, s.quasiMsys2, ascii "publish"]⟩

/-- What `ninja` says if everything is built already. -/
def noWork : Bytes := ascii "ninja: no work to do.\n"

/-- `Game3CI::makeJob` -/
def makeJob (commitHash : Bytes) : Job :=
  run s.pull fun _ =>
  run (s.checkout commitHash) fun _ =>
  run s.build fun result =>
  if !s.force && noWork <:+: result.out then .done
  else run s.publishLinux fun _ =>
    if s.quasiMsys2.isEmpty then .done
    else run s.publishWindows fun _ => .done

end Settings

/-! ## The plugin at work -/

/-- The commits of the jobs that the handler adds for a request. -/
def asked (p : Game3CI) (request : Request) (notDisabled : Bool) : List Bytes :=
  (p.handle request notDisabled).events.filterMap Event.commit

/-- The request is signed, and its content asks for the commit. -/
def Asks (p : Game3CI) (request : Request) (commit : Bytes) : Prop :=
  p.gate request = .ok true ∧ ∃ json after, p.parse request.content = some json ∧
    json.find (ascii "ref") = some (.string (ascii "refs/heads/master")) ∧
    json.find (ascii "after") = some after ∧ after.getString = .ok commit

/-- The pool, the calls of `add`, and what the worker does. -/
structure CI where
  pool : Pool Bytes 1 := {}
  /-- the jobs of the calls of `pool.add` that have not pushed them -/
  adding : List Bytes := []
  /-- what the job that the worker runs has left to do -/
  job : Job := .done
  /-- the requests that were handled, each with what the handler was told -/
  requests : List (Request × Bool) := []
  /-- the commands that were run, in order -/
  log : List (Command × CommandOutput) := []

inductive CIEvent where
  /-- `handle` -/
  | hook (request : Request) (notDisabled : Bool)
  /-- the worker runs the next command of its job -/
  | command (result : CommandOutput)
  | pool (e : PoolEvent Bytes 1)

namespace CI

variable (p : Game3CI) (settings : Settings)

/-- The job that the worker runs, and what is left of it. -/
def running (s : CI) : Option (Bytes × Job) :=
  (s.pool.workers Pool.only).runs.map fun commit => (commit, s.job)

/-- One event; `none` if it cannot happen. A job is pushed by a call of `add`, a worker begins a
    job at its first command, and it ends the job when no command is left. -/
def step (s : CI) : CIEvent → Option CI
  | .hook request notDisabled => some { s with
      adding := s.adding ++ p.asked request notDisabled
      requests := s.requests ++ [(request, notDisabled)] }
  | .command result =>
    match s.running with
    | some (_, .ask command next) =>
      some { s with job := next result, log := s.log ++ [(command, result)] }
    | _ => none
  | .pool (.push commit) =>
    if s.adding.contains commit then
      (s.pool.step (.push commit)).map fun pool =>
        { s with pool := pool, adding := s.adding.erase commit }
    else none
  | .pool (.advance w) =>
    match s.pool.workers w with
    | .taken commit => (s.pool.step (.advance w)).map fun pool =>
        { s with pool := pool, job := settings.makeJob commit }
    | .running _ =>
      match s.job with
      | .done => (s.pool.step (.advance w)).map fun pool => { s with pool := pool }
      | .ask _ _ => none
    | _ => (s.pool.step (.advance w)).map fun pool => { s with pool := pool }
  | .pool e => (s.pool.step e).map fun pool => { s with pool := pool }

/-- The last three commands have pulled, checked out a commit that a signed request has asked for,
    and built it. -/
def JustBuilt (requests : List (Request × Bool)) (log : List (Command × CommandOutput)) : Prop :=
  ∃ before commit pulled checkedOut built,
    log = before ++ [(settings.pull, pulled), (settings.checkout commit, checkedOut),
      (settings.build, built)] ∧
    pulled.code = 0 ∧ checkedOut.code = 0 ∧ built.code = 0 ∧
    (settings.force = true ∨ ¬ Settings.noWork <:+: built.out) ∧
    ∃ request ∈ requests, p.Asks request.1 commit

/-- What holds of the commands that were run. -/
structure Sound (s : CI) : Prop where
  /-- they are those of the jobs that were run, one job after another -/
  serial : Dialogue.Serial settings.makeJob s.pool.done s.running s.log
  /-- each job was asked for by a request of its own -/
  once : (s.pool.done : Multiset Bytes) ≤
    (s.requests.flatMap fun request => p.asked request.1 request.2 : List Bytes)
  linux : ∀ front result back, s.log = front ++ (settings.publishLinux, result) :: back →
    JustBuilt p settings s.requests front
  windows : ∀ front result back, s.log = front ++ (settings.publishWindows, result) :: back →
    ∃ front' published, front = front' ++ [(settings.publishLinux, published)] ∧
      published.code = 0 ∧ JustBuilt p settings s.requests front'

end CI

/-! ## What a job has run -/

section Jobs

variable {settings : Settings} {commit : Bytes} {command : Command}
  {next : CommandOutput → Job} {a x : Command × CommandOutput}
  {own behind trace : List (Command × CommandOutput)} {rest : Job}

theorem ran_head (h : Dialogue.Ran (run command next) (x :: behind) rest) : x.1 = command :=
  (Dialogue.ran_ask_cons_iff.mp h).1

/-- A command behind another: the other has succeeded. -/
theorem ran_next (h : Dialogue.Ran (run command next) (a :: (own ++ x :: behind)) rest) :
    a = (command, a.2) ∧ a.2.code = 0 ∧ Dialogue.Ran (next a.2) (own ++ x :: behind) rest := by
  obtain ⟨hcommand, hran⟩ := Dialogue.ran_ask_cons_iff.mp h
  split at hran
  · obtain ⟨hnil, -⟩ := Dialogue.ran_done_iff.mp hran
    exact absurd hnil (by simp)
  · rename_i hcode
    exact ⟨Prod.ext hcommand rfl, not_not.mp hcode, hran⟩

/-- The commands that have built the commit. -/
def Builds (settings : Settings) (commit : Bytes) (own : List (Command × CommandOutput)) : Prop :=
  ∃ pulled checkedOut built, own = [(settings.pull, pulled), (settings.checkout commit, checkedOut),
      (settings.build, built)] ∧ pulled.code = 0 ∧ checkedOut.code = 0 ∧ built.code = 0 ∧
    (settings.force = true ∨ ¬ Settings.noWork <:+: built.out)

/-- Where a command stands in its job. -/
theorem ran_makeJob (h : Dialogue.Ran (settings.makeJob commit) (own ++ x :: behind) rest) :
    (x.1 = settings.pull ∨ x.1 = settings.checkout commit ∨ x.1 = settings.build) ∨
      (x.1 = settings.publishLinux ∧ Builds settings commit own) ∨
      x.1 = settings.publishWindows ∧ ∃ front published,
        own = front ++ [(settings.publishLinux, published)] ∧ published.code = 0 ∧
          Builds settings commit front := by
  unfold Settings.makeJob at h
  cases own with
  | nil => exact .inl (.inl (ran_head h))
  | cons pulled own =>
  obtain ⟨hpull, hpulled, h⟩ := ran_next h
  cases own with
  | nil => exact .inl (.inr (.inl (ran_head h)))
  | cons checkedOut own =>
  obtain ⟨hcheckout, hcheckedOut, h⟩ := ran_next h
  cases own with
  | nil => exact .inl (.inr (.inr (ran_head h)))
  | cons built own =>
  obtain ⟨hbuild, hbuilt, h⟩ := ran_next h
  split at h
  · obtain ⟨hnil, -⟩ := Dialogue.ran_done_iff.mp h
    exact absurd hnil (by simp)
  · rename_i hwork
    have hforce : settings.force = true ∨ ¬ Settings.noWork <:+: built.2.out := by
      simpa [or_iff_not_imp_left] using hwork
    have hbuilds : Builds settings commit [pulled, checkedOut, built] :=
      ⟨_, _, _, by rw [← hpull, ← hcheckout, ← hbuild], hpulled, hcheckedOut, hbuilt, hforce⟩
    cases own with
    | nil => exact .inr (.inl ⟨ran_head h, hbuilds⟩)
    | cons published own =>
    obtain ⟨hpublish, hpublished, h⟩ := ran_next h
    split at h
    · obtain ⟨hnil, -⟩ := Dialogue.ran_done_iff.mp h
      exact absurd hnil (by simp)
    · cases own with
      | nil =>
        refine .inr (.inr ⟨ran_head h, [pulled, checkedOut, built], published.2, ?_, hpublished,
          hbuilds⟩)
        rw [← hpublish]
        rfl
      | cons last own =>
        obtain ⟨-, -, h⟩ := ran_next h
        obtain ⟨hnil, -⟩ := Dialogue.ran_done_iff.mp h
        exact absurd hnil (by simp)

theorem linzip_suffix : ascii "/linzip.sh" <:+ settings.publishLinux.path :=
  List.suffix_append _ _

theorem quasi_msys2_suffix : ascii "/quasi_msys2.sh" <:+ settings.publishWindows.path :=
  List.suffix_append _ _

/-- The commands before a publication have other names. -/
theorem notBuilder {name : Bytes} {c : Command} (hc : name <:+ c.path)
    (hgit : ¬ name <:+ ascii "git") (hninja : ¬ name <:+ ascii "ninja") :
    ¬ (c = settings.pull ∨ c = settings.checkout commit ∨ c = settings.build) := by
  rintro (rfl | rfl | rfl)
  · exact hgit hc
  · exact hgit hc
  · exact hninja hc

theorem publishLinux_notBuilder : ¬ (settings.publishLinux = settings.pull ∨
    settings.publishLinux = settings.checkout commit ∨
    settings.publishLinux = settings.build) :=
  notBuilder linzip_suffix (by decide) (by decide)

theorem publishWindows_notBuilder : ¬ (settings.publishWindows = settings.pull ∨
    settings.publishWindows = settings.checkout commit ∨
    settings.publishWindows = settings.build) :=
  notBuilder quasi_msys2_suffix (by decide) (by decide)

theorem publishLinux_ne_publishWindows : settings.publishLinux ≠ settings.publishWindows := by
  intro heq
  have hlinux : ascii "/linzip.sh" <:+ settings.publishLinux.path := linzip_suffix
  rw [heq] at hlinux
  have hsuffix := List.suffix_of_suffix_length_le hlinux quasi_msys2_suffix (by decide)
  exact absurd hsuffix (by decide)

end Jobs

/-! ## One event -/

theorem added_mem_addJob {json : Json} {commit : Bytes}
    (h : Event.added commit ∈ (addJob json).events) : ∃ after,
      json.find (ascii "ref") = some (.string (ascii "refs/heads/master")) ∧
      json.find (ascii "after") = some after ∧ after.getString = .ok commit := by
  unfold addJob at h
  split at h
  · rename_i ref href
    split at h
    · rename_i hmaster
      split at h
      · exact absurd h List.not_mem_nil
      · rename_i after hafter
        split at h
        · exact absurd h List.not_mem_nil
        · rename_i name hname
          cases List.mem_singleton.mp h
          exact ⟨after, hmaster ▸ href, hafter, hname⟩
    · exact absurd h List.not_mem_nil
  · exact absurd h List.not_mem_nil

/-- A job is added for a request that is signed and asks for it. -/
theorem asks_of_asked {p : Game3CI} {request : Request} {notDisabled : Bool} {commit : Bytes}
    (h : commit ∈ p.asked request notDisabled) : p.Asks request commit := by
  obtain ⟨event, hevent, hcommit⟩ := List.mem_filterMap.mp h
  obtain rfl : event = .added commit := by
    cases event with
    | added other => rw [Option.some.inj hcommit]
    | respond | closed => exact nomatch hcommit
  unfold handle at hevent
  split at hevent
  · exact absurd hevent List.not_mem_nil
  split at hevent
  · exact absurd hevent List.not_mem_nil
  split at hevent
  · exact absurd hevent (added_notMem_answer _ _ _)
  rcases Trace.mem_bind.mp hevent with hevent | ⟨signed, hsigned, hevent⟩
  · exact absurd hevent List.not_mem_nil
  split at hevent
  · exact absurd hevent (added_notMem_answer _ _ _)
  rename_i hpasses
  obtain rfl : signed = true := by simpa using hpasses
  split at hevent
  · exact absurd hevent (added_notMem_answer _ _ _)
  rename_i json hjson
  rcases Trace.mem_bind.mp hevent with hevent | ⟨-, -, hevent⟩
  · obtain ⟨after, href, hafter, hcommit⟩ := added_mem_addJob hevent
    exact ⟨hsigned, json, after, hjson, href, hafter, hcommit⟩
  · exact absurd hevent (added_notMem_answer _ _ _)

namespace CI

section Steps

variable {p : Game3CI} {settings : Settings} {s t : CI}

/-- What becomes of the rest when the pool takes a step. -/
inductive PoolStep (settings : Settings) (s : CI) : PoolEvent Bytes 1 → CI → Prop
  | push {commit : Bytes} {pool : Pool Bytes 1} (hmem : commit ∈ s.adding)
      (hpool : s.pool.step (.push commit) = some pool) :
      PoolStep settings s (.push commit)
        { s with pool := pool, adding := s.adding.erase commit }
  | begins {w : Fin 1} {commit : Bytes} {pool : Pool Bytes 1}
      (hw : s.pool.workers w = .taken commit)
      (hpool : s.pool.step (.advance w) = some pool) :
      PoolStep settings s (.advance w) { s with pool := pool, job := settings.makeJob commit }
  | ends {w : Fin 1} {commit : Bytes} {pool : Pool Bytes 1}
      (hw : s.pool.workers w = .running commit) (hjob : s.job = .done)
      (hpool : s.pool.step (.advance w) = some pool) :
      PoolStep settings s (.advance w) { s with pool := pool }
  | other {e : PoolEvent Bytes 1} {pool : Pool Bytes 1} (hpush : ∀ commit, e ≠ .push commit)
      (hadvance : ∀ w, e = .advance w → (∀ commit, s.pool.workers w ≠ .taken commit) ∧
        ∀ commit, s.pool.workers w ≠ .running commit)
      (hpool : s.pool.step e = some pool) : PoolStep settings s e { s with pool := pool }

theorem step_poolStep {e : PoolEvent Bytes 1} (hstep : s.step p settings (.pool e) = some t) :
    PoolStep settings s e t := by
  cases e with
  | push commit =>
    rw [step] at hstep
    split at hstep
    · rename_i hmem
      obtain ⟨pool, hpool, rfl⟩ := Option.map_eq_some_iff.mp hstep
      exact .push (List.contains_iff_mem.mp hmem) hpool
    · exact nomatch hstep
  | advance w =>
    rw [step] at hstep
    split at hstep
    · rename_i commit hw
      obtain ⟨pool, hpool, rfl⟩ := Option.map_eq_some_iff.mp hstep
      exact .begins hw hpool
    · rename_i commit hw
      split at hstep
      · rename_i hjob
        obtain ⟨pool, hpool, rfl⟩ := Option.map_eq_some_iff.mp hstep
        exact .ends hw hjob hpool
      · exact nomatch hstep
    · rename_i htaken hrunning
      obtain ⟨pool, hpool, rfl⟩ := Option.map_eq_some_iff.mp hstep
      refine .other (fun _ heq => nomatch heq) (fun v heq => ?_) hpool
      cases heq
      exact ⟨htaken, hrunning⟩
  | start | join | owner | enterAdd | setReady | tell | notify | wake =>
    obtain ⟨pool, hpool, rfl⟩ := Option.map_eq_some_iff.mp hstep
    exact .other (fun _ heq => nomatch heq) (fun _ heq => nomatch heq) hpool

/-- The invariant. -/
structure Working (p : Game3CI) (settings : Settings) (s : CI) : Prop where
  staged : s.pool.Staged
  accounted : s.pool.Accounted
  serial : Dialogue.Serial settings.makeJob s.pool.done s.running s.log
  asked : (s.adding : Multiset Bytes) + s.pool.pushed =
    (s.requests.flatMap fun request => p.asked request.1 request.2 : List Bytes)

theorem Working.hook (h : s.Working p settings) (request : Request) (notDisabled : Bool) :
    ({ s with
      adding := s.adding ++ p.asked request notDisabled
      requests := s.requests ++ [(request, notDisabled)] } : CI).Working p settings := by
  refine ⟨h.staged, h.accounted, h.serial, ?_⟩
  dsimp only
  rw [List.flatMap_append, List.flatMap_singleton, ← Multiset.coe_add, ← Multiset.coe_add,
    ← h.asked, add_right_comm]

/-- The worker runs a command. -/
theorem Working.command (h : s.Working p settings) {commit : Bytes} {command : Command}
    {next : CommandOutput → Job} (hrunning : s.running = some (commit, .ask command next))
    (result : CommandOutput) :
    ({ s with job := next result, log := s.log ++ [(command, result)] } : CI).Working
      p settings := by
  have hserial := h.serial
  rw [hrunning] at hserial
  have hnext : ({ s with job := next result, log := s.log ++ [(command, result)] } : CI).running =
      some (commit, next result) := by
    obtain ⟨runs, hruns, heq⟩ := Option.map_eq_some_iff.mp hrunning
    obtain ⟨rfl, -⟩ := Prod.mk.inj heq
    exact Option.map_eq_some_iff.mpr ⟨runs, hruns, rfl⟩
  exact ⟨h.staged, h.accounted, hnext ▸ hserial.answered result, h.asked⟩

/-- The commands go on when the pool does something else. -/
theorem Working.serial_runsOn (h : s.Working p settings) (hruns : Pool.RunsOn s.pool t.pool)
    (hjob : t.job = s.job) (hlog : t.log = s.log) :
    Dialogue.Serial settings.makeJob t.pool.done t.running t.log := by
  have hrunning : t.running = s.running := by
    unfold running
    rw [hruns.2, hjob]
  rw [hruns.1, hrunning, hlog]
  exact h.serial

/-- The pool takes a step. -/
theorem Working.pool (h : s.Working p settings) {e : PoolEvent Bytes 1}
    (hstep : PoolStep settings s e t) : t.Working p settings := by
  cases hstep with
  | @push commit pool hmem hpool =>
    refine ⟨h.staged.step hpool, h.accounted.step h.staged hpool, ?_, ?_⟩
    · cases Pool.step_runStep h.staged hpool with
      | on hruns => exact h.serial_runsOn hruns rfl rfl
    · rcases Pool.step_pushed hpool with ⟨-, hnone⟩ | ⟨job, heq, hpushed⟩
      · exact absurd rfl (hnone commit)
      · cases heq
        have hadding : (s.adding : Multiset Bytes) =
            commit ::ₘ (s.adding.erase commit : List Bytes) :=
          Multiset.coe_eq_coe.mpr (List.perm_cons_erase hmem)
        have hasked := h.asked
        rw [hadding, Multiset.cons_add, ← Multiset.add_cons] at hasked
        have hlast : (pool.pushed : Multiset Bytes) = commit ::ₘ s.pool.pushed := by
          rw [hpushed]
          exact Multiset.coe_eq_coe.mpr (List.perm_append_singleton commit _)
        rw [← hasked, hlast]
  | @begins w commit pool hw hpool =>
    obtain rfl : w = Pool.only := Subsingleton.elim _ _
    refine ⟨h.staged.step hpool, h.accounted.step h.staged hpool, ?_, ?_⟩
    · have hidle : s.running = none := by
        unfold running
        rw [hw]
        rfl
      have hserial := h.serial
      rw [hidle] at hserial
      cases Pool.step_runStep h.staged hpool with
      | on _ hadvance => exact absurd hw ((hadvance Pool.only rfl).1 commit)
      | ends hw' => exact nomatch hw.symm.trans hw'
      | begins hw' hdone hruns =>
        cases hw.symm.trans hw'
        have hrunning : ({ s with pool := pool, job := settings.makeJob commit } : CI).running =
            some (commit, settings.makeJob commit) := by
          unfold running
          rw [hruns]
          rfl
        rw [hrunning]
        exact hdone.symm ▸ hserial.start
    · rcases Pool.step_pushed hpool with ⟨hsame, -⟩ | ⟨job, heq, -⟩
      · exact hsame.symm ▸ h.asked
      · exact nomatch heq
  | @ends w commit pool hw hjob hpool =>
    obtain rfl : w = Pool.only := Subsingleton.elim _ _
    refine ⟨h.staged.step hpool, h.accounted.step h.staged hpool, ?_, ?_⟩
    · have hlast : s.running = some (commit, .done) := by
        unfold running
        rw [hw, hjob]
        rfl
      have hserial := h.serial
      rw [hlast] at hserial
      cases Pool.step_runStep h.staged hpool with
      | on _ hadvance => exact absurd hw ((hadvance Pool.only rfl).2 commit)
      | begins hw' => exact nomatch hw.symm.trans hw'
      | ends hw' hdone hruns =>
        cases hw.symm.trans hw'
        have hrunning : ({ s with pool := pool } : CI).running = none := by
          unfold running
          rw [hruns]
          rfl
        rw [hrunning]
        exact hdone.symm ▸ hserial.finished
    · rcases Pool.step_pushed hpool with ⟨hsame, -⟩ | ⟨job, heq, -⟩
      · exact hsame.symm ▸ h.asked
      · exact nomatch heq
  | @other _ pool hpush hadvance hpool =>
    refine ⟨h.staged.step hpool, h.accounted.step h.staged hpool, ?_, ?_⟩
    · cases Pool.step_runStep h.staged hpool with
      | on hruns => exact h.serial_runsOn hruns rfl rfl
      | begins hw => exact absurd hw ((hadvance _ rfl).1 _)
      | ends hw => exact absurd hw ((hadvance _ rfl).2 _)
    · rcases Pool.step_pushed hpool with ⟨hsame, -⟩ | ⟨job, heq, -⟩
      · exact hsame.symm ▸ h.asked
      · exact absurd heq (hpush job)

theorem Working.step (h : s.Working p settings) {e : CIEvent}
    (hstep : s.step p settings e = some t) : t.Working p settings := by
  cases e with
  | hook request notDisabled =>
    obtain rfl := Option.some.inj hstep
    exact h.hook request notDisabled
  | command result =>
    rw [CI.step] at hstep
    split at hstep
    · rename_i commit command next hrunning
      obtain rfl := Option.some.inj hstep
      exact h.command hrunning result
    · exact nomatch hstep
  | pool e => exact h.pool (step_poolStep hstep)

theorem working_init : ({} : CI).Working p settings := by
  refine ⟨Pool.staged_init, ⟨rfl, ?_⟩, Dialogue.Serial.nil, rfl⟩
  show (0 : Multiset Bytes) = 0 + ∑ _w : Fin 1, 0
  simp

/-! ## What was published -/

/-- Jobs that were run, or are, were asked for. -/
theorem Working.done_add_held_le (h : s.Working p settings) :
    (s.pool.done : Multiset Bytes) + s.pool.heldJobs ≤
      (s.requests.flatMap fun request => p.asked request.1 request.2 : List Bytes) := by
  rw [← h.asked]
  exact le_trans h.accounted.done_add_held_le (Multiset.le_add_left _ _)

theorem Working.requested (h : s.Working p settings) {commit : Bytes}
    (hcommit : commit ∈ s.pool.done ∨ ∃ job, s.running = some (commit, job)) :
    ∃ request ∈ s.requests, p.Asks request.1 commit := by
  have hmem : commit ∈ (s.pool.done : Multiset Bytes) + s.pool.heldJobs := by
    rw [Multiset.mem_add]
    refine hcommit.imp Multiset.mem_coe.mpr ?_
    rintro ⟨job, hrunning⟩
    obtain ⟨runs, hruns, heq⟩ := Option.map_eq_some_iff.mp hrunning
    obtain ⟨rfl, -⟩ := Prod.mk.inj heq
    have hheld : s.pool.heldJobs = (s.pool.workers Pool.only).held := by
      unfold Pool.heldJobs
      exact Fintype.sum_unique _
    rw [hheld]
    cases hw : s.pool.workers Pool.only with
    | running other =>
      rw [hw] at hruns
      rw [Option.some.inj hruns]
      exact Multiset.mem_singleton_self runs
    | _ =>
      rw [hw] at hruns
      exact nomatch hruns
  obtain ⟨request, hrequest, hasked⟩ := List.mem_flatMap.mp
    (Multiset.mem_coe.mp (Multiset.mem_of_le h.done_add_held_le hmem))
  exact ⟨request, hrequest, asks_of_asked hasked⟩

theorem Working.justBuilt (h : s.Working p settings) {commit : Bytes}
    (hcommit : commit ∈ s.pool.done ∨ ∃ job, s.running = some (commit, job))
    {own : List (Command × CommandOutput)} (hbuilds : Builds settings commit own)
    (before : List (Command × CommandOutput)) :
    JustBuilt p settings s.requests (before ++ own) := by
  obtain ⟨pulled, checkedOut, built, rfl, hpulled, hcheckedOut, hbuilt, hwork⟩ := hbuilds
  exact ⟨before, commit, pulled, checkedOut, built, rfl, hpulled, hcheckedOut, hbuilt, hwork,
    h.requested hcommit⟩

theorem Working.soundly (h : s.Working p settings) : s.Sound p settings := by
  refine ⟨h.serial, le_trans (Multiset.le_add_right _ _) h.done_add_held_le, ?_, ?_⟩
  · intro front result back hlog
    obtain ⟨commit, own, behind, rest, before, hcommit, rfl, hran⟩ := h.serial.split hlog
    rcases ran_makeJob hran with hother | ⟨-, hbuilds⟩ | ⟨hwindows, -⟩
    · exact absurd hother publishLinux_notBuilder
    · exact h.justBuilt hcommit hbuilds before
    · exact absurd hwindows publishLinux_ne_publishWindows
  · intro front result back hlog
    obtain ⟨commit, own, behind, rest, before, hcommit, rfl, hran⟩ := h.serial.split hlog
    rcases ran_makeJob hran with hother | ⟨hlinux, -⟩ | ⟨-, mine, published, rfl, hcode, hbuilds⟩
    · exact absurd hother publishWindows_notBuilder
    · exact absurd hlinux.symm publishLinux_ne_publishWindows
    · exact ⟨before ++ mine, published, (List.append_assoc ..).symm, hcode,
        h.justBuilt hcommit hbuilds before⟩

end Steps

/-- In every state of every run: the jobs run one after another, each was asked for by a request
    of its own, and what is published was built right before, from a commit that a signed request
    has asked for. -/
theorem publishes_built (p : Game3CI) (settings : Settings) (es : List CIEvent) :
    AllStates (step p settings) (Sound p settings) {} es :=
  .of_invariant (fun _ _ _ h hstep => h.step hstep) (fun _ h => h.soundly) es working_init

/-- A push that is signed, and all commands succeed. -/
def signedPush : List CIEvent :=
  [.pool .start, .pool .owner, .pool .owner,
    .hook (pushRequest [(ascii "x-hub-signature-256",
      ascii "sha256=" ++ hexString pushedHash)]) true,
    .pool .enterAdd, .pool (.push (ascii "c0ffee")), .pool .setReady] ++
  List.replicate 7 (.pool (.advance Pool.only)) ++ List.replicate 4 (.command { code := 0 }) ++
  [.pool (.advance Pool.only)]

/-- It is published -/
example : (exec (step secretHook { repoRoot := ascii "r", builddir := ascii "b" }) {}
    signedPush).map (fun s => s.log.map fun entry => entry.1.path) =
      some [ascii "git", ascii "git", ascii "ninja", ascii "r/linzip.sh"] := by decide +kernel

end CI

end Game3CI

end Algiz.Plugins
