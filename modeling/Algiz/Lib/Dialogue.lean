/-
  Programs that ask one question after another, and go on as they are answered.

  `Ran p trace q` says that the answers in the trace lead from `p` to `q`. A log is `Serial` when
  programs have written it one at a time: it is their traces in a row, and the trace of the one
  that has not ended. Then everything that the log says before an entry ends with what the entry's
  own program has asked before it (`Serial.split`).
-/
import Mathlib.Data.List.Basic
import Mathlib.Tactic.TypeStar

namespace Algiz.Lib

/-- A program that asks questions of type `Q` and gets answers of type `A`. -/
inductive Dialogue (Q A : Type*) where
  | done
  | ask (question : Q) (next : A → Dialogue Q A)

namespace Dialogue

variable {Q A J : Type*}

/-- The answers in the trace lead from one program to the other. -/
inductive Ran : Dialogue Q A → List (Q × A) → Dialogue Q A → Prop
  | nil (p : Dialogue Q A) : Ran p [] p
  | cons {question : Q} {next : A → Dialogue Q A} {answer : A} {trace : List (Q × A)}
      {q : Dialogue Q A} (h : Ran (next answer) trace q) :
      Ran (ask question next) ((question, answer) :: trace) q

section Ran

variable {p q : Dialogue Q A} {question asked : Q} {next : A → Dialogue Q A} {answer : A}
  {trace : List (Q × A)}

theorem Ran.concat (h : Ran p trace (ask question next)) (answer : A) :
    Ran p (trace ++ [(question, answer)]) (next answer) := by
  generalize hq : ask question next = q at h
  induction h with
  | nil p =>
    subst hq
    exact .cons (.nil _)
  | cons h ih => exact .cons (ih hq)

theorem ran_done_iff : Ran (done : Dialogue Q A) trace q ↔ trace = [] ∧ q = done := by
  constructor
  · intro h
    cases h
    exact ⟨rfl, rfl⟩
  · rintro ⟨rfl, rfl⟩
    exact .nil done

theorem ran_ask_cons_iff : Ran (ask question next) ((asked, answer) :: trace) q ↔
    asked = question ∧ Ran (next answer) trace q := by
  constructor
  · intro h
    cases h with
    | cons h => exact ⟨rfl, h⟩
  · rintro ⟨rfl, h⟩
    exact .cons h

end Ran

/-! ## One program at a time -/

/-- The trace of the program that runs, if one does. -/
def RunsOn (program : J → Dialogue Q A) : Option (J × Dialogue Q A) → List (Q × A) → Prop
  | none, trace => trace = []
  | some (job, rest), trace => Ran (program job) trace rest

/-- The programs of these jobs have ended, and the log is what they and the one that runs have
    asked and heard, one after another. -/
structure Serial (program : J → Dialogue Q A) (ended : List J)
    (running : Option (J × Dialogue Q A)) (log : List (Q × A)) : Prop where
  traces : ∃ (traces : List (J × List (Q × A))) (trace : List (Q × A)),
    traces.map Prod.fst = ended ∧ (∀ t ∈ traces, Ran (program t.1) t.2 done) ∧
      RunsOn program running trace ∧ log = (traces.map Prod.snd).flatten ++ trace

namespace Serial

variable {program : J → Dialogue Q A} {ended : List J} {running : Option (J × Dialogue Q A)}
  {job : J} {log : List (Q × A)}

theorem nil : Serial program [] none ([] : List (Q × A)) :=
  ⟨[], [], rfl, fun _ h => absurd h List.not_mem_nil, rfl, rfl⟩

theorem start (h : Serial program ended none log) :
    Serial program ended (some (job, program job)) log := by
  obtain ⟨traces, trace, hjobs, hended, rfl, hlog⟩ := h.traces
  exact ⟨traces, [], hjobs, hended, .nil _, hlog⟩

theorem answered {question : Q} {next : A → Dialogue Q A}
    (h : Serial program ended (some (job, ask question next)) log) (answer : A) :
    Serial program ended (some (job, next answer)) (log ++ [(question, answer)]) := by
  obtain ⟨traces, trace, hjobs, hended, hran, rfl⟩ := h.traces
  exact ⟨traces, trace ++ [(question, answer)], hjobs, hended, hran.concat answer,
    List.append_assoc ..⟩

theorem finished (h : Serial program ended (some (job, done)) log) :
    Serial program (ended ++ [job]) none log := by
  obtain ⟨traces, trace, hjobs, hended, hran, rfl⟩ := h.traces
  refine ⟨traces ++ [(job, trace)], [], ?_, ?_, rfl, ?_⟩
  · rw [List.map_append, hjobs]
    rfl
  · intro t ht
    rcases List.mem_append.mp ht with ht | ht
    · exact hended t ht
    · exact List.mem_singleton.mp ht ▸ hran
  · rw [List.map_append, List.flatten_append, List.append_nil]
    exact congrArg _ (List.append_nil trace).symm

/-- What stands before an entry of the log ends with what its own program has asked before. -/
theorem split (h : Serial program ended running log) {front back : List (Q × A)} {x : Q × A}
    (hlog : log = front ++ x :: back) :
    ∃ job own behind rest before, (job ∈ ended ∨ ∃ q, running = some (job, q)) ∧
      front = before ++ own ∧ Ran (program job) (own ++ x :: behind) rest := by
  obtain ⟨traces, trace, hjobs, hended, hruns, rfl⟩ := h.traces
  have hflat : (traces.map Prod.snd ++ [trace]).flatten = front ++ x :: back := by
    rw [List.flatten_append, List.flatten_singleton, hlog]
  -- the trace in which the entry stands, with what is before and behind it
  obtain ⟨before, own, behind, hmem, hfront⟩ : ∃ before own behind,
      own ++ x :: behind ∈ traces.map Prod.snd ++ [trace] ∧ front = before ++ own := by
    rcases List.flatten_eq_append_iff.mp hflat with
      ⟨some, others, hsplit, hfront, hback⟩ | ⟨some, own, c, cs, others, hsplit, hfront, hback⟩
    · obtain ⟨nils, behind, others', hothers, -, -⟩ := List.flatten_eq_cons_iff.mp hback.symm
      refine ⟨front, [], behind, ?_, (List.append_nil _).symm⟩
      rw [hsplit, hothers]
      exact List.mem_append_right _ (List.mem_append_right _ List.mem_cons_self)
    · rw [List.cons_append, List.cons.injEq] at hback
      refine ⟨some.flatten, own, cs, ?_, hfront⟩
      rw [hsplit, hback.1]
      exact List.mem_append_right _ List.mem_cons_self
  rcases List.mem_append.mp hmem with hmem | hmem
  · obtain ⟨t, ht, hown⟩ := List.mem_map.mp hmem
    have hjob : t.1 ∈ ended := hjobs ▸ List.mem_map_of_mem ht
    exact ⟨t.1, own, behind, done, before, .inl hjob, hfront, hown ▸ hended t ht⟩
  · rw [List.mem_singleton] at hmem
    subst hmem
    cases running with
    | none =>
      have hnil : own ++ x :: behind = [] := hruns
      exact absurd hnil (by simp)
    | some runs =>
      exact ⟨runs.1, own, behind, runs.2, before, .inr ⟨runs.2, rfl⟩, hfront, hruns⟩

end Serial

end Dialogue

end Algiz.Lib
