/-
  What runs do, under conditions on their steps.

  `Ensures ok good o Q` says of a section of code: if all of its steps meet `ok`, all of them are
  `good`, and `Q` holds of the connection if it falls through. Sections one after another are
  dealt with one by one (`Ensures.andThen`), and a run by its passes (`run_ensures`): what one pass
  of the read loop ensures, from one state to the next, every run ensures.
-/
import Algiz.Net.HandleRead

namespace Algiz.Net

variable {σ : Type*}

/-- If all steps of `o` meet `ok`, they are all `good`, and if it falls through `Q` holds. -/
def Ensures (ok good : Step σ → Prop) (o : Out σ) (Q : Conn σ → Prop) : Prop :=
  (∀ s ∈ o.trace, ok s) → (∀ s ∈ o.trace, good s) ∧ (o.flow = .next → Q o.conn)

section Rules

variable {ok good : Step σ → Prop} {Q R : Conn σ → Prop}

theorem Ensures.ret {c : Conn σ} (h : Q c) : Ensures ok good (.ret c) Q :=
  fun _ => ⟨fun _ hmem => absurd hmem List.not_mem_nil, fun _ => h⟩

/-- A section that takes no steps and does not fall through. -/
theorem Ensures.stop {c : Conn σ} {flow : Flow} (h : flow ≠ .next) :
    Ensures ok good { conn := c, flow := flow } Q :=
  fun _ => ⟨fun _ hmem => absurd hmem List.not_mem_nil, fun hnext => absurd hnext h⟩

theorem Ensures.andThen {o : Out σ} {k : Conn σ → Out σ} (ho : Ensures ok good o Q)
    (hk : ∀ c, Q c → Ensures ok good (k c) R) : Ensures ok good (o.andThen k) R := by
  by_cases hflow : o.flow = .next
  · rw [Out.andThen_of_next hflow]
    intro hok
    have hok : ∀ s ∈ o.trace ++ (k o.conn).trace, ok s := hok
    obtain ⟨hgood, hnext⟩ := ho fun s hs => hok s (List.mem_append_left _ hs)
    obtain ⟨hgood', hnext'⟩ :=
      hk o.conn (hnext hflow) fun s hs => hok s (List.mem_append_right _ hs)
    refine ⟨fun s hs => ?_, hnext'⟩
    rcases List.mem_append.mp hs with hs | hs
    · exact hgood s hs
    · exact hgood' s hs
  · rw [Out.andThen_of_ne_next hflow]
    intro hok
    exact ⟨(ho hok).1, fun hnext => absurd hnext hflow⟩

/-- One more step before the others. -/
theorem Ensures.step {o : Out σ} {s : Step σ} (hs : ok s → good s)
    (ho : ok s → Ensures ok good o Q) :
    Ensures ok good { o with trace := s :: o.trace } Q := by
  intro hok
  obtain ⟨hfirst, hrest⟩ := List.forall_mem_cons.mp hok
  obtain ⟨hgood, hnext⟩ := ho hfirst hrest
  exact ⟨List.forall_mem_cons.mpr ⟨hs hfirst, hgood⟩, hnext⟩

theorem Ensures.weaken {o : Out σ} (ho : Ensures ok good o Q) (h : ∀ c, Q c → R c) :
    Ensures ok good o R := fun hok => ⟨(ho hok).1, fun hnext => h _ ((ho hok).2 hnext)⟩

/-- After a touch the connection is registered. -/
theorem Ensures.touch {p : Part} {c : Conn σ} (h : c.registered = true → Q c) :
    Ensures ok good (Net.touch p c) fun c => c.registered = true ∧ Q c := by
  cases hreg : c.registered with
  | true =>
    rw [touch_registered p hreg]
    exact .ret ⟨hreg, h hreg⟩
  | false =>
    unfold Net.touch
    rw [hreg]
    exact .stop Flow.noConfusion

/-- The acts of a handler, if acts are good. -/
theorem Ensures.perform (hacts : ∀ before a, good (.act before a)) {as : List Act} {c : Conn σ}
    (hQ : Q (Conn.perform as c).conn) : Ensures ok good (Conn.perform as c) Q := by
  induction as generalizing c with
  | nil => exact .ret hQ
  | cons a as ih => exact .step (fun _ => hacts c a) fun _ => ih hQ

/-- A call of the handler, if acts are good. -/
theorem Ensures.handleMessage (h : Handler σ) {message rest : Bytes} {c : Conn σ}
    (hacts : ∀ before a, good (.act before a)) (hcall : good (.call c message rest))
    (hQ : ok (.call c message rest) → Q (Net.handleMessage h message rest c).conn) :
    Ensures ok good (Net.handleMessage h message rest c) Q := by
  have hperform : ok (.call c message rest) → Ensures ok good
      (Conn.perform (h.handleMessage c.app message).acts
        { c with app := (h.handleMessage c.app message).state }) Q :=
    fun hfirst => .perform hacts (hQ hfirst)
  intro hok
  obtain ⟨hgood, hnext⟩ := Ensures.step (fun _ => hcall) hperform hok
  exact ⟨hgood, fun _ => hnext (Conn.perform_flow _ _)⟩

end Rules

/-! ## Runs -/

section Runs

variable {ok good : Step σ → Prop} {J : Conn σ → Prop} (h : Handler σ) (bufferSize : Nat)
  (hpass : ∀ c, c.registered = true → J c → Ensures ok good (iteration h bufferSize c) J)
include hpass

theorem readLoop_ensures (fuel : Nat) {c : Conn σ} (hreg : c.registered = true) (hc : J c) :
    Ensures ok good (readLoop h bufferSize fuel c) J := by
  induction fuel generalizing c with
  | zero =>
    rw [readLoop]
    split
    · exact .stop Flow.noConfusion
    · exact .ret hc
  | succ fuel ih =>
    rw [readLoop]
    split
    · have hiteration : Ensures ok good (iteration h bufferSize c)
          fun c => c.registered = true ∧ J c := by
        intro hok
        obtain ⟨hgood, hnext⟩ := hpass c hreg hc hok
        exact ⟨hgood, fun hflow => ⟨iteration_registered h hflow, hnext hflow⟩⟩
      exact hiteration.andThen fun c hc => ih hc.1 hc.2
    · exact .ret hc

/-- `handleRead` removes the connection when it catches something. -/
theorem handleRead_ensures (fuel : Nat) {c : Conn σ} (hreg : c.registered = true) (hc : J c) :
    Ensures ok good (handleRead h bufferSize fuel c) fun c => c.registered = true → J c := by
  have hloop := readLoop_ensures h bufferSize hpass fuel hreg hc
  unfold handleRead
  generalize readLoop h bufferSize fuel c = o at hloop
  intro hok
  rw [catchRuntimeError_trace] at hok ⊢
  refine ⟨(hloop hok).1, fun hnext hreg' => ?_⟩
  cases hflow : o.flow with
  | next =>
    rw [catchRuntimeError_of_next hflow] at hreg' ⊢
    exact (hloop hok).2 hflow
  | fault p =>
    rw [catchRuntimeError_of_fault hflow, hflow] at hnext
    cases hnext
  | running =>
    have hsame : catchRuntimeError o = o := by
      unfold catchRuntimeError
      rw [hflow]
    rw [hsame, hflow] at hnext
    cases hnext
  | threw e =>
    -- what is caught removes the connection, and what is not caught does not fall through
    unfold catchRuntimeError at hnext hreg'
    rw [hflow] at hnext hreg'
    dsimp only at hnext hreg'
    split at hnext
    · rename_i he
      rw [if_pos he] at hreg'
      split at hnext
      · rename_i hwas
        rw [if_pos hwas] at hreg'
        cases hreg'
      · cases hnext
    · rw [hflow] at hnext
      cases hnext

/-- Every run, of a property that neither arrival nor draining touches. -/
theorem run_ensures (hinput : ∀ c input, J c → J { c with input := input })
    (hdrained : ∀ c, J c → J { c with output := [] }) (es : List NetEvent) {c : Conn σ}
    (hc : c.registered = true → J c) :
    Ensures ok good (run h bufferSize es c) fun c => c.registered = true → J c := by
  induction es generalizing c with
  | nil => exact .ret hc
  | cons e es ih =>
    rw [run]
    split
    · rename_i hreg
      have hevent : Ensures ok good (onEvent h bufferSize c e)
          fun c => c.registered = true → J c := by
        cases e with
        | readable data =>
          exact handleRead_ensures h bufferSize hpass _ hreg (hinput c _ (hc hreg))
        | writeEmpty =>
          refine .ret fun hreg' => ?_
          unfold handleWriteEmpty at hreg' ⊢
          split at hreg'
          · cases hreg'
          · rename_i hqueued
            rw [if_neg hqueued]
            exact hdrained c (hc hreg)
        | eof => exact .ret fun hreg' => by cases hreg'
        | error => exact .ret fun hreg' => by cases hreg'
      exact hevent.andThen fun c hc => ih hc
    · exact .ret hc

end Runs

end Algiz.Net
