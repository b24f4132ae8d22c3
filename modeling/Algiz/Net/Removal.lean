/-
  What `handleRead` does with a connection that was removed while it ran.

  Two steps can remove the connection under the loop: a chunk that makes the buffered text longer
  than `maxLineSize`, and a handler call that closes the client with nothing waiting in the
  output. `handleRead` then goes on with the next statement and uses what was freed, unless an
  exception that it does not catch takes it past the loop (`handleRead_safe_iff`).
-/
import Algiz.Net.HandleRead

namespace Algiz.Net

variable {σ : Type*}

/-- The step leaves the connection registered, or an exception that `handleRead` does not catch
    ends the call. It is read off the state before the step, and the handler's acts there. -/
def StepKeeps (h : Handler σ) : Step σ → Prop
  | .chunk before data =>
    before.client.lineMode = true →
      before.client.maxLineSize < before.readBuffer.length + data.length →
        Conn.closesAtOnce before.output (h.onMaxLineSizeExceeded before.app) = true
  | .call before message _ =>
    Conn.closesAtOnce before.output (h.handleMessage before.app message).acts = true →
      ∃ e, (h.handleMessage before.app message).thrown = some e ∧ e.isRuntimeError = false
  | .act _ _ => True

/-- Some step of the trace removes the connection under the loop. -/
def Removes (h : Handler σ) (t : List (Step σ)) : Prop := ∃ s ∈ t, ¬ StepKeeps h s

/-- The section used a freed part, or its caller goes on with a removed connection. -/
def Lost (o : Out σ) : Prop :=
  (∃ p, o.flow = .fault p) ∨
    (o.conn.registered = false ∧
      (o.flow = .next ∨ ∃ e, o.flow = .threw e ∧ e.isRuntimeError = true))

/-! ## Sections -/

section Sections

variable (h : Handler σ)

theorem removes_append (s t : List (Step σ)) :
    Removes h (s ++ t) ↔ Removes h s ∨ Removes h t := by
  simp only [Removes, List.mem_append]
  constructor
  · rintro ⟨x, hx | hx, hn⟩
    · exact Or.inl ⟨x, hx, hn⟩
    · exact Or.inr ⟨x, hx, hn⟩
  · rintro (⟨x, hx, hn⟩ | ⟨x, hx, hn⟩)
    · exact ⟨x, Or.inl hx, hn⟩
    · exact ⟨x, Or.inr hx, hn⟩

theorem not_removes_nil : ¬ Removes h [] := by
  rintro ⟨s, hs, -⟩
  exact List.not_mem_nil hs

theorem lost_of_unregistered {o : Out σ} (hflow : o.flow = .next)
    (hreg : o.conn.registered = false) : Lost o :=
  Or.inr ⟨hreg, Or.inl hflow⟩

theorem not_lost_of_registered {o : Out σ} (hflow : ∀ p, o.flow ≠ .fault p)
    (hreg : o.conn.registered = true) : ¬ Lost o := by
  rintro (⟨p, hp⟩ | ⟨hu, -⟩)
  · exact hflow p hp
  · rw [hreg] at hu
    exact Bool.noConfusion hu

/-- Sections in sequence: if the first loses the connection without ending the call, the second
    runs into it. -/
theorem lost_andThen {o : Out σ} {k : Conn σ → Out σ} (ho : Lost o ↔ Removes h o.trace)
    (hk : ∀ c, c.registered = true → (Lost (k c) ↔ Removes h (k c).trace))
    (hu : o.flow = .next → o.conn.registered = false → Lost (k o.conn)) :
    Lost (o.andThen k) ↔ Removes h (o.andThen k).trace := by
  by_cases hflow : o.flow = .next
  · rw [Out.andThen_of_next hflow]
    simp only [removes_append, ← ho]
    change Lost (k o.conn) ↔ _
    cases hreg : o.conn.registered with
    | false => exact iff_of_true (hu hflow hreg) (Or.inl (lost_of_unregistered hflow hreg))
    | true =>
      have hnot : ¬ Lost o := not_lost_of_registered (by simp [hflow]) hreg
      rw [hk _ hreg, or_iff_right hnot]
  · rw [Out.andThen_of_ne_next hflow]
    exact ho

theorem lost_ret {c : Conn σ} (hreg : c.registered = true) :
    Lost (Out.ret c) ↔ Removes h (Out.ret c).trace :=
  iff_of_false (not_lost_of_registered (by simp) hreg) (not_removes_nil h)

theorem lost_touch_andThen (p : Part) {k : Conn σ → Out σ}
    {c : Conn σ} (hreg : c.registered = false) : Lost ((touch p c).andThen k) := by
  refine Or.inl ⟨p, ?_⟩
  simp [touch, hreg, Out.andThen]

theorem not_removes_perform (as : List Act) (c : Conn σ) :
    ¬ Removes h (Conn.perform as c).trace := by
  induction as generalizing c with
  | nil => exact not_removes_nil h
  | cons a as ih =>
    rintro ⟨s, hs, hn⟩
    rw [Conn.perform_cons_trace, List.mem_cons] at hs
    rcases hs with rfl | hs
    · exact hn trivial
    · exact ih (c.act a) ⟨s, hs, hn⟩

theorem lost_handleMessage (message rest : Bytes) {c : Conn σ} (hreg : c.registered = true) :
    Lost (handleMessage h message rest c) ↔ Removes h (handleMessage h message rest c).trace := by
  have htrace : Removes h (handleMessage h message rest c).trace ↔
      ¬ StepKeeps h (.call c message rest) := by
    constructor
    · rintro ⟨s, hs, hn⟩
      rcases List.mem_cons.mp hs with rfl | hs
      · exact hn
      · exact absurd ⟨s, hs, hn⟩ (not_removes_perform h _ _)
    · exact fun hn => ⟨_, List.mem_cons_self, hn⟩
  have hr := handleMessage_registered h message rest hreg
  rw [htrace, StepKeeps]
  unfold Lost
  rw [hr]
  cases hthrown : (h.handleMessage c.app message).thrown with
  | none => simp [handleMessage, hthrown]
  | some e => simp [handleMessage, hthrown]

theorem lost_eraseFront (toErase : Nat) {c : Conn σ} (hreg : c.registered = true) :
    Lost (eraseFront toErase c) ↔ Removes h (eraseFront toErase c).trace := by
  unfold eraseFront
  split
  · rw [touch_registered _ hreg, Out.ret_andThen]
    exact lost_ret h hreg
  · exact lost_ret h hreg

theorem lost_eraseFront_unregistered (toErase : Nat) {c : Conn σ} (hreg : c.registered = false) :
    Lost (eraseFront toErase c) := by
  unfold eraseFront
  split
  · exact lost_touch_andThen .readBuffer hreg
  · exact lost_of_unregistered rfl hreg

theorem lost_lineLoop (fuel : Nat) (view : Bytes) (toErase : Nat) {c : Conn σ}
    (hreg : c.registered = true) :
    Lost (lineLoop h fuel view toErase c) ↔ Removes h (lineLoop h fuel view toErase c).trace := by
  induction fuel generalizing view toErase c with
  | zero =>
    rw [lineLoop]
    exact iff_of_false (not_lost_of_registered (by simp) hreg) (not_removes_nil h)
  | succ fuel ih =>
    rw [lineLoop]
    cases isMessageComplete view with
    | none => exact lost_eraseFront h toErase hreg
    | some found =>
      refine lost_andThen h (lost_handleMessage h _ _ hreg) (fun c' hreg' => ?_)
        (fun _ hreg' => ?_)
      · rw [if_pos hreg']
        exact ih _ _ hreg'
      · rw [if_neg (by simp [hreg'])]
        exact lost_eraseFront_unregistered toErase hreg'

theorem lost_leftOver {c : Conn σ} (hreg : c.registered = true) :
    Lost (leftOver h c) ↔ Removes h (leftOver h c).trace := by
  rw [leftOver, touch_registered _ hreg, Out.ret_andThen]
  split
  · exact lost_ret h hreg
  · split
    · exact iff_of_false (not_lost_of_registered (by simp) hreg) (not_removes_nil h)
    · exact lost_handleMessage h _ _ hreg

/-- Reading a chunk and then handling it: the size check is the chunk's own step. -/
theorem lost_handleChunk (bufferSize : Nat) {c : Conn σ} (hreg : c.registered = true) :
    Lost (handleChunk h (nextChunk bufferSize c) (readChunk bufferSize c)) ↔
      ¬ StepKeeps h (.chunk c (nextChunk bufferSize c)) ∨
        Removes h (handleChunk h (nextChunk bufferSize c) (readChunk bufferSize c)).trace := by
  have hreg' : (readChunk bufferSize c).registered = true := hreg
  unfold handleChunk
  by_cases hline : c.client.lineMode = true
  · have hline' : (readChunk bufferSize c).client.lineMode = true := hline
    rw [if_neg (by simp [hline'])]
    by_cases hsize : c.client.maxLineSize < c.readBuffer.length + (nextChunk bufferSize c).length
    · have hsize' : (readChunk bufferSize c).client.maxLineSize <
          (readChunk bufferSize c).readBuffer.length + (nextChunk bufferSize c).length := hsize
      rw [if_pos hsize', Out.andThen_of_next (Conn.perform_flow ..)]
      have hacts := Conn.perform_registered hreg' (h.onMaxLineSizeExceeded c.app)
      have hnot : ¬ Removes h (Conn.perform (h.onMaxLineSizeExceeded c.app)
          (readChunk bufferSize c)).trace := not_removes_perform h _ _
      have happ : (readChunk bufferSize c).app = c.app := rfl
      have hout : (readChunk bufferSize c).output = c.output := rfl
      rw [happ, StepKeeps, removeDescriptor, hacts, hout]
      cases hclose : Conn.closesAtOnce c.output (h.onMaxLineSizeExceeded c.app) with
      | true =>
        refine iff_of_false ?_ ?_
        · rintro (⟨p, hp⟩ | ⟨-, hp⟩)
          · simp at hp
          · simp [Exception.isRuntimeError] at hp
        · rintro (hn | hr)
          · exact hn fun _ _ => rfl
          · rw [removes_append] at hr
            exact hr.elim hnot (not_removes_nil h)
      | false =>
        refine iff_of_true ?_ (Or.inl ?_)
        · exact lost_of_unregistered rfl rfl
        · intro hn
          exact Bool.noConfusion (hn hline hsize)
    · have hsize' : ¬ (readChunk bufferSize c).client.maxLineSize <
          (readChunk bufferSize c).readBuffer.length + (nextChunk bufferSize c).length := hsize
      rw [if_neg hsize', or_iff_right (fun hn => hn fun _ hlt => absurd hlt hsize)]
      exact lost_lineLoop h _ _ _ hreg'
  · have hline' : ¬ (readChunk bufferSize c).client.lineMode = true := hline
    rw [if_pos (by simp [hline']), or_iff_right (fun hn => hn fun hl => absurd hl hline)]
    refine lost_andThen h (lost_handleMessage h _ _ hreg') (fun c' hreg'' => ?_)
      (fun _ hu => lost_touch_andThen .readBuffer hu)
    rw [touch_registered _ hreg'', Out.ret_andThen]
    exact lost_ret h hreg''

theorem lost_afterChunk {c : Conn σ} (hreg : c.registered = true) :
    Lost ((leftOver h c).andThen (touch .input)) ↔
      Removes h ((leftOver h c).andThen (touch .input)).trace := by
  refine lost_andThen h (lost_leftOver h hreg) (fun c' hreg' => ?_) (fun _ hu => ?_)
  · rw [touch_registered _ hreg']
    exact lost_ret h hreg'
  · exact Or.inl ⟨.input, by simp [touch, hu]⟩

theorem removes_cons (s : Step σ) (t : List (Step σ)) :
    Removes h (s :: t) ↔ ¬ StepKeeps h s ∨ Removes h t := by
  simp only [Removes, List.mem_cons, exists_eq_or_imp]

theorem lost_iteration (bufferSize : Nat) {c : Conn σ} (hreg : c.registered = true) :
    Lost (iteration h bufferSize c) ↔ Removes h (iteration h bufferSize c).trace := by
  have hchunk := lost_handleChunk h bufferSize hreg
  rw [iteration_eq, removes_cons]
  change Lost (pass h _ _) ↔ _
  unfold pass
  by_cases hflow : (handleChunk h (nextChunk bufferSize c) (readChunk bufferSize c)).flow = .next
  · rw [Out.andThen_of_next hflow, removes_append, ← or_assoc, ← hchunk]
    generalize handleChunk h (nextChunk bufferSize c) (readChunk bufferSize c) = o at hflow ⊢
    change Lost ((leftOver h o.conn).andThen (touch .input)) ↔ _
    cases hreg' : o.conn.registered with
    | false =>
      have hleft : (leftOver h o.conn).flow = .fault .readBuffer := by
        simp [leftOver, touch, hreg', Out.andThen]
      rw [Out.andThen_of_ne_next (by rw [hleft]; exact Flow.noConfusion)]
      exact iff_of_true (Or.inl ⟨_, hleft⟩) (Or.inl (lost_of_unregistered hflow hreg'))
    | true =>
      rw [or_iff_right (not_lost_of_registered (by simp [hflow]) hreg')]
      exact lost_afterChunk h hreg'
  · rw [Out.andThen_of_ne_next hflow]
    exact hchunk

theorem lost_readLoop (bufferSize fuel : Nat) {c : Conn σ} (hreg : c.registered = true) :
    Lost (readLoop h bufferSize fuel c) ↔ Removes h (readLoop h bufferSize fuel c).trace := by
  induction fuel generalizing c with
  | zero =>
    rw [readLoop]
    split
    · exact iff_of_false (not_lost_of_registered (by simp) hreg) (not_removes_nil h)
    · exact lost_ret h hreg
  | succ fuel ih =>
    rw [readLoop]
    split
    · refine lost_andThen h (lost_iteration h bufferSize hreg) (fun c' hreg' => ih hreg')
        (fun hflow hu => ?_)
      rw [iteration_registered h hflow] at hu
      exact Bool.noConfusion hu
    · exact lost_ret h hreg

/-- The read loop never falls through with a removed connection. -/
theorem readLoop_registered (bufferSize fuel : Nat) {c : Conn σ} (hreg : c.registered = true)
    (hflow : (readLoop h bufferSize fuel c).flow = .next) :
    (readLoop h bufferSize fuel c).conn.registered = true := by
  induction fuel generalizing c with
  | zero =>
    rw [readLoop]
    split
    · exact hreg
    · exact hreg
  | succ fuel ih =>
    rw [readLoop] at hflow ⊢
    by_cases hpos : 0 < c.input.length
    · rw [if_pos hpos] at hflow ⊢
      by_cases hi : (iteration h bufferSize c).flow = .next
      · rw [Out.andThen_of_next hi] at hflow ⊢
        exact ih (iteration_registered h hi) hflow
      · rw [Out.andThen_of_ne_next hi] at hflow
        exact absurd hflow hi
    · rw [if_neg hpos]
      exact hreg

end Sections

/-! ## The call -/

/-- `handleRead` uses no freed part, and removes no connection twice, if and only if no step
    under its loop removes the connection: neither a chunk that is too long, nor a handler call
    that closes with nothing waiting in the output. -/
theorem handleRead_safe_iff (h : Handler σ) (bufferSize fuel : Nat) {c : Conn σ}
    (hreg : c.registered = true) :
    (∀ p, (handleRead h bufferSize fuel c).flow ≠ .fault p) ↔
      ∀ s ∈ (handleRead h bufferSize fuel c).trace, StepKeeps h s := by
  have hlost := lost_readLoop h bufferSize fuel hreg
  have hnext := readLoop_registered h bufferSize fuel hreg
  unfold handleRead
  generalize readLoop h bufferSize fuel c = o at hlost hnext
  have hkeeps : (∀ s ∈ o.trace, StepKeeps h s) ↔ ¬ Removes h o.trace := by
    simp only [Removes, not_exists, not_and, not_not]
  rw [catchRuntimeError_trace, hkeeps, ← hlost]
  unfold Lost
  cases hflow : o.flow with
  | next => simp [catchRuntimeError_of_next hflow, hflow, hnext hflow]
  | fault p => simp [catchRuntimeError_of_fault hflow, hflow]
  | running => simp [catchRuntimeError, hflow]
  | threw e =>
    cases he : e.isRuntimeError with
    | false => simp [catchRuntimeError_of_uncaught hflow he, hflow, he]
    | true =>
      cases hr : o.conn.registered with
      | false => simp [catchRuntimeError, hflow, he, hr]
      | true => simp [catchRuntimeError_of_threw hflow he hr]

/-- A line that the handler takes no notice of. -/
theorem handleRead_safe_iff_silent :
    (∀ p, (handleRead silent 1024 4 { connected 8192 with input := ascii "abc\n" }).flow ≠
        .fault p) ↔
      ∀ s ∈ (handleRead silent 1024 4 { connected 8192 with input := ascii "abc\n" }).trace,
        StepKeeps silent s :=
  handleRead_safe_iff silent 1024 4 rfl

/-- A handler that closes at once, and a line longer than `maxLineSize`: `handleRead` goes on to
    the read buffer of the connection that it has just removed. -/
theorem handleRead_uses_removed :
    (handleRead closing 1024 4 { connected 8192 with input := ascii "abc\n" }).flow =
        .fault .readBuffer ∧
      (handleRead silent 1024 4 { connected 2 with input := ascii "abc\n" }).flow =
        .fault .readBuffer := by
  decide

end Algiz.Net
