/-
  A connection whose close is queued, while the read loop keeps running on it.

  `Server::close` on a connection with something still to write puts its bufferevent in
  `closeQueue`, and the connection is removed when the output has drained. Until then nothing
  stops `handleRead`: the line loop goes on with the lines it holds, what is left over is handed
  over, and later reads are dispatched as before. `Heeds` is the condition on a step, read off
  the state before it and the handler's acts there, under which what follows the step leaves the
  client alone; in a run whose steps all meet it the client is left alone (`run_leavesAlone`).
-/
import Algiz.Net.HandleRead

namespace Algiz.Net

variable {σ : Type*}

namespace Conn

/-- Do these acts write to the client after its close was queued? `queued` says whether it was
    queued before them. A close with nothing to write removes the connection, and no act after
    it reaches it. -/
def sendsLate : Bool → Bytes → List Act → Bool
  | _, _, [] => false
  | queued, output, .send data :: as => queued || sendsLate queued (output ++ data) as
  | _, output, .close :: as => !output.isEmpty && sendsLate true output as
  | queued, output, .leaveLineMode :: as => sendsLate queued output as
  | queued, output, .setMaxRead _ :: as => sendsLate queued output as

/-- Do these acts queue the close of a connection whose output is `output`? -/
def queuesClose : Bytes → List Act → Bool
  | _, [] => false
  | output, .send data :: as => queuesClose (output ++ data) as
  | output, .close :: _ => !output.isEmpty
  | output, .leaveLineMode :: as => queuesClose output as
  | output, .setMaxRead _ :: as => queuesClose output as

end Conn

/-! ## The property and the condition -/

/-- The step dispatches no input of a client whose close is queued and writes nothing to it. -/
def LeavesAlone : Step σ → Prop
  | .call before _ _ => before.closeQueued = false
  | .act before (.send _) => before.registered = true → before.closeQueued = false
  | .act _ (.close) | .act _ (.leaveLineMode) | .act _ (.setMaxRead _) => True
  | .chunk _ _ => True

/-- The condition on a step. A call that queues the close and returns is made with no newline
    among what the line loop still holds, and with nothing there at all if the client is then in
    raw mode; a chunk that arrives while the close is queued arrives in line mode and completes
    no line; and nothing is sent after the close is queued. -/
def Heeds (h : Handler σ) : Step σ → Prop
  | .call before message rest =>
    let r := h.handleMessage before.app message
    Conn.sendsLate before.closeQueued before.output r.acts = false ∧
      (Conn.queuesClose before.output r.acts = true → r.thrown = none →
        newline ∉ rest ∧
          (before.client.lineMode = false ∨ .leaveLineMode ∈ r.acts → rest = []))
  | .chunk before data =>
    (before.client.lineMode = true →
      before.client.maxLineSize < before.readBuffer.length + data.length →
        Conn.sendsLate before.closeQueued before.output
          (h.onMaxLineSizeExceeded before.app) = false) ∧
      (before.closeQueued = true →
        before.client.lineMode = true ∧
          (before.readBuffer.length + data.length ≤ before.client.maxLineSize →
            newline ∉ before.readBuffer ++ data))
  | .act _ _ => True

/-- Every step leaves the client alone. -/
def AllAlone (t : List (Step σ)) : Prop := ∀ s ∈ t, LeavesAlone s

/-- Every step meets the condition. -/
def AllHeed (h : Handler σ) (t : List (Step σ)) : Prop := ∀ s ∈ t, Heeds h s

instance : DecidablePred (@LeavesAlone σ)
  | .call before _ _ => inferInstanceAs (Decidable (before.closeQueued = false))
  | .act before (.send _) =>
    inferInstanceAs (Decidable (before.registered = true → before.closeQueued = false))
  | .act _ .close | .act _ .leaveLineMode | .act _ (.setMaxRead _) => isTrue trivial
  | .chunk _ _ => isTrue trivial

instance (h : Handler σ) : DecidablePred (Heeds h)
  | .call before message rest => inferInstanceAs (Decidable (
      Conn.sendsLate before.closeQueued before.output
          (h.handleMessage before.app message).acts = false ∧
        (Conn.queuesClose before.output (h.handleMessage before.app message).acts = true →
          (h.handleMessage before.app message).thrown = none →
            newline ∉ rest ∧ (before.client.lineMode = false ∨
              .leaveLineMode ∈ (h.handleMessage before.app message).acts → rest = []))))
  | .chunk before data => inferInstanceAs (Decidable (
      (before.client.lineMode = true →
        before.client.maxLineSize < before.readBuffer.length + data.length →
          Conn.sendsLate before.closeQueued before.output
            (h.onMaxLineSizeExceeded before.app) = false) ∧
        (before.closeQueued = true →
          before.client.lineMode = true ∧
            (before.readBuffer.length + data.length ≤ before.client.maxLineSize →
              newline ∉ before.readBuffer ++ data))))
  | .act _ _ => isTrue trivial

instance (t : List (Step σ)) : Decidable (AllAlone t) :=
  inferInstanceAs (Decidable (∀ s ∈ t, LeavesAlone s))

instance (h : Handler σ) (t : List (Step σ)) : Decidable (AllHeed h t) :=
  inferInstanceAs (Decidable (∀ s ∈ t, Heeds h s))

theorem allAlone_nil : AllAlone ([] : List (Step σ)) := by
  intro s hs
  exact absurd hs List.not_mem_nil

theorem allAlone_cons (s : Step σ) (t : List (Step σ)) :
    AllAlone (s :: t) ↔ LeavesAlone s ∧ AllAlone t := List.forall_mem_cons

theorem allAlone_append {s t : List (Step σ)} (hs : AllAlone s) (ht : AllAlone t) :
    AllAlone (s ++ t) := by
  intro x hx
  rcases List.mem_append.mp hx with hx | hx
  · exact hs x hx
  · exact ht x hx

theorem allHeed_append (h : Handler σ) {s t : List (Step σ)} (hst : AllHeed h (s ++ t)) :
    AllHeed h s ∧ AllHeed h t :=
  ⟨fun x hx => hst x (List.mem_append_left t hx), fun x hx => hst x (List.mem_append_right s hx)⟩

/-! ## Acts -/

theorem queueClose_of_ne_nil {c : Conn σ} (hout : c.output ≠ []) :
    c.queueClose = { c with closeQueued := true } := by
  unfold Conn.queueClose
  rw [if_neg]
  intro hlen
  exact hout (List.eq_nil_of_length_eq_zero hlen)

theorem queueClose_of_nil {c : Conn σ} (hout : c.output = []) : c.queueClose = c.remove := by
  unfold Conn.queueClose
  rw [if_pos (by rw [hout]; rfl)]

theorem perform_alone_of_unregistered {c : Conn σ} (hreg : c.registered = false)
    (as : List Act) : AllAlone (Conn.perform as c).trace := by
  induction as with
  | nil => exact allAlone_nil
  | cons a as ih =>
    rw [Conn.perform_cons_trace, Conn.act_unregistered hreg, allAlone_cons]
    refine ⟨?_, ih⟩
    cases a with
    | send data =>
      intro hback
      rw [hreg] at hback
      exact Bool.noConfusion hback
    | close => exact trivial
    | leaveLineMode => exact trivial
    | setMaxRead n => exact trivial

/-- Acts that send nothing late leave the client alone. -/
theorem perform_alone (as : List Act) (c : Conn σ) (hreg : c.registered = true)
    (hlate : Conn.sendsLate c.closeQueued c.output as = false) :
    AllAlone (Conn.perform as c).trace := by
  induction as generalizing c with
  | nil => exact allAlone_nil
  | cons a as ih =>
    rw [Conn.perform_cons_trace, allAlone_cons]
    cases a with
    | send data =>
      rw [Conn.sendsLate, Bool.or_eq_false_iff] at hlate
      rw [Conn.act_send hreg]
      exact ⟨fun _ => hlate.1, ih { c with output := c.output ++ data } hreg hlate.2⟩
    | close =>
      rw [Conn.act_close hreg]
      refine ⟨trivial, ?_⟩
      by_cases hout : c.output = []
      · rw [queueClose_of_nil hout]
        exact perform_alone_of_unregistered rfl as
      · rw [queueClose_of_ne_nil hout]
        refine ih { c with closeQueued := true } hreg ?_
        have hne : c.output.isEmpty = false := by rwa [List.isEmpty_eq_false_iff]
        rw [Conn.sendsLate, hne] at hlate
        exact hlate
    | leaveLineMode =>
      rw [Conn.act_leaveLineMode hreg]
      exact ⟨trivial, ih { c with client.lineMode := false } hreg hlate⟩
    | setMaxRead n =>
      rw [Conn.act_setMaxRead hreg]
      exact ⟨trivial, ih { c with client.maxRead := n } hreg hlate⟩

/-- A connection whose close is queued after the acts had it queued before them, or the acts
    queued it. -/
theorem perform_closeQueued (as : List Act) (c : Conn σ) (hreg : c.registered = true)
    (hqueued : (Conn.perform as c).conn.closeQueued = true) :
    c.closeQueued = true ∨ Conn.queuesClose c.output as = true := by
  induction as generalizing c with
  | nil => exact Or.inl hqueued
  | cons a as ih =>
    rw [Conn.perform_cons_conn] at hqueued
    cases a with
    | send data =>
      rw [Conn.act_send hreg] at hqueued
      exact ih { c with output := c.output ++ data } hreg hqueued
    | close =>
      rw [Conn.act_close hreg] at hqueued
      by_cases hout : c.output = []
      · rw [queueClose_of_nil hout, Conn.perform_unregistered rfl] at hqueued
        exact Or.inl hqueued
      · right
        have hne : c.output.isEmpty = false := by rwa [List.isEmpty_eq_false_iff]
        rw [Conn.queuesClose, hne]
        rfl
    | leaveLineMode =>
      rw [Conn.act_leaveLineMode hreg] at hqueued
      exact ih { c with client.lineMode := false } hreg hqueued
    | setMaxRead n =>
      rw [Conn.act_setMaxRead hreg] at hqueued
      exact ih { c with client.maxRead := n } hreg hqueued

/-- Acts that leave a client in raw mode found it there, or left line mode. -/
theorem perform_raw (as : List Act) (c : Conn σ)
    (hraw : (Conn.perform as c).conn.client.lineMode = false) :
    c.client.lineMode = false ∨ .leaveLineMode ∈ as := by
  induction as generalizing c with
  | nil => exact Or.inl hraw
  | cons a as ih =>
    rw [Conn.perform_cons_conn] at hraw
    rcases ih (c.act a) hraw with hact | hmem
    · by_cases ha : a = .leaveLineMode
      · exact Or.inr (ha ▸ List.mem_cons_self)
      · left
        unfold Conn.act Conn.queueClose Conn.remove at hact
        split at hact
        · cases a with
          | send data => exact hact
          | close =>
            dsimp only at hact
            split at hact
            · exact hact
            · exact hact
          | leaveLineMode => exact absurd rfl ha
          | setMaxRead n => exact hact
        · exact hact
    · exact Or.inr (List.mem_cons_of_mem _ hmem)

/-! ## Sections -/

/-- Nothing of `bytes`, which the loop still holds, is going to be dispatched if the close is
    queued: no line ends in it, and in raw mode it is empty. -/
def NoMore (c : Conn σ) (bytes : Bytes) : Prop :=
  c.closeQueued = true →
    newline ∉ bytes ∧ (c.client.lineMode = false → bytes = [])

theorem noMore_nil (c : Conn σ) : NoMore c [] := fun _ => ⟨List.not_mem_nil, fun _ => rfl⟩

section Sections

variable (h : Handler σ)

theorem handleMessage_alone (message rest : Bytes) {c : Conn σ} (hreg : c.registered = true)
    (hopen : c.closeQueued = false) (hheed : AllHeed h (handleMessage h message rest c).trace) :
    AllAlone (handleMessage h message rest c).trace ∧
      ((handleMessage h message rest c).flow = .next →
        NoMore (handleMessage h message rest c).conn rest) := by
  obtain ⟨hlate, hquiet⟩ := hheed _ List.mem_cons_self
  constructor
  · show AllAlone (.call c message rest :: _)
    rw [allAlone_cons]
    exact ⟨hopen,
      perform_alone _ { c with app := (h.handleMessage c.app message).state } hreg hlate⟩
  · intro hflow hqueued
    rw [handleMessage_flow_eq_next_iff] at hflow
    have hqueues : Conn.queuesClose c.output (h.handleMessage c.app message).acts = true := by
      rcases perform_closeQueued _ { c with app := (h.handleMessage c.app message).state } hreg
        hqueued with hback | hqueues
      · change c.closeQueued = true at hback
        rw [hopen] at hback
        exact Bool.noConfusion hback
      · exact hqueues
    obtain ⟨hmem, hnil⟩ := hquiet hqueues hflow
    exact ⟨hmem, fun hraw => hnil (perform_raw _
      { c with app := (h.handleMessage c.app message).state } hraw)⟩

theorem eraseFront_alone (toErase : Nat) {c : Conn σ}
    (hmore : c.registered = true → NoMore c (c.readBuffer.drop toErase)) :
    AllAlone (eraseFront toErase c).trace ∧
      ((eraseFront toErase c).conn.registered = true →
        NoMore (eraseFront toErase c).conn (eraseFront toErase c).conn.readBuffer) := by
  cases hreg : c.registered with
  | true =>
    rw [eraseFront_registered toErase hreg]
    exact ⟨allAlone_nil, fun _ => hmore hreg⟩
  | false =>
    unfold eraseFront
    split
    · refine ⟨?_, fun hback => ?_⟩
      · simp [touch, hreg, Out.andThen, allAlone_nil]
      · simp [touch, hreg, Out.andThen] at hback
    · refine ⟨allAlone_nil, fun hback => ?_⟩
      rw [Out.ret_conn, hreg] at hback
      exact Bool.noConfusion hback

theorem lineLoop_alone (fuel : Nat) (view : Bytes) (toErase : Nat) {c : Conn σ}
    (hreg : c.registered = true) (hmore : NoMore c view)
    (hview : c.readBuffer.drop toErase = view)
    (hheed : AllHeed h (lineLoop h fuel view toErase c).trace) :
    AllAlone (lineLoop h fuel view toErase c).trace ∧
      ((lineLoop h fuel view toErase c).flow = .next →
        (lineLoop h fuel view toErase c).conn.registered = true →
        NoMore (lineLoop h fuel view toErase c).conn
          (lineLoop h fuel view toErase c).conn.readBuffer) := by
  induction fuel generalizing view toErase c with
  | zero => exact ⟨allAlone_nil, fun hflow => Flow.noConfusion hflow⟩
  | succ fuel ih =>
    rw [lineLoop] at hheed ⊢
    cases hfound : isMessageComplete view with
    | none =>
      obtain ⟨h1, h2⟩ := eraseFront_alone toErase (c := c) fun _ => by rw [hview]; exact hmore
      exact ⟨h1, fun _ => h2⟩
    | some found =>
      obtain ⟨i, hi, rfl⟩ := Option.map_eq_some_iff.mp hfound
      rw [hfound] at hheed
      dsimp only at hheed ⊢
      have hmem : newline ∈ view := by
        rw [(find_eq_some hi).2]
        exact List.mem_append_right _ List.mem_cons_self
      have hopen : c.closeQueued = false := by
        by_contra hnot
        rw [Bool.not_eq_false] at hnot
        exact (hmore hnot).1 hmem
      by_cases hcall : (handleMessage h (view.take i) (view.drop (i + 1)) c).flow = .next
      · rw [Out.andThen_of_next hcall] at hheed ⊢
        obtain ⟨hheed₁, hheed₂⟩ := allHeed_append h hheed
        obtain ⟨hfirst, hafter⟩ := handleMessage_alone h _ _ hreg hopen hheed₁
        by_cases hconn :
            (handleMessage h (view.take i) (view.drop (i + 1)) c).conn.registered = true
        · have hview' : (handleMessage h (view.take i) (view.drop (i + 1)) c).conn.readBuffer.drop
              (toErase + (i + 1)) = view.drop (i + 1) := by
            rw [handleMessage_readBuffer, ← List.drop_drop, hview]
          rw [if_pos hconn] at hheed₂
          simp only [if_pos hconn]
          obtain ⟨h1, h2⟩ := ih _ _ hconn (hafter hcall) hview' hheed₂
          exact ⟨allAlone_append hfirst h1, h2⟩
        · simp only [if_neg hconn]
          obtain ⟨h1, h2⟩ := eraseFront_alone toErase fun hback => absurd hback hconn
          exact ⟨allAlone_append hfirst h1, fun _ => h2⟩
      · rw [Out.andThen_of_ne_next hcall] at hheed ⊢
        exact ⟨(handleMessage_alone h _ _ hreg hopen hheed).1, fun hflow => absurd hflow hcall⟩

/-- A chunk that meets the condition, and what its handling leaves for `leftOver`. -/
theorem handleChunk_alone (data : Bytes) {c : Conn σ} (hreg : c.registered = true)
    (hchunk : Heeds h (.chunk c data)) (hheed : AllHeed h (handleChunk h data c).trace) :
    AllAlone (handleChunk h data c).trace ∧
      ((handleChunk h data c).flow = .next → (handleChunk h data c).conn.registered = true →
        NoMore (handleChunk h data c).conn (handleChunk h data c).conn.readBuffer) := by
  unfold handleChunk at hheed ⊢
  cases hline : c.client.lineMode with
  | false =>
    have hopen : c.closeQueued = false := by
      by_contra hnot
      rw [Bool.not_eq_false] at hnot
      have hback := (hchunk.2 hnot).1
      rw [hline] at hback
      exact Bool.noConfusion hback
    simp only [hline, Bool.not_false, if_true] at hheed ⊢
    by_cases hcall : (handleMessage h data [] c).flow = .next
    · rw [Out.andThen_of_next hcall] at hheed ⊢
      obtain ⟨hheed₁, -⟩ := allHeed_append h hheed
      have hfirst := (handleMessage_alone h data [] hreg hopen hheed₁).1
      cases hconn : (handleMessage h data [] c).conn.registered with
      | true =>
        rw [touch_registered _ hconn, Out.ret_andThen]
        exact ⟨allAlone_append hfirst allAlone_nil, fun _ _ => noMore_nil _⟩
      | false =>
        refine ⟨allAlone_append hfirst ?_, fun hflow => ?_⟩
        · simp [touch, hconn, Out.andThen, allAlone_nil]
        · simp [touch, hconn, Out.andThen] at hflow
    · rw [Out.andThen_of_ne_next hcall] at hheed ⊢
      exact ⟨(handleMessage_alone h data [] hreg hopen hheed).1, fun hflow => absurd hflow hcall⟩
  | true =>
    simp only [hline, Bool.not_true, Bool.false_eq_true, if_false] at hheed ⊢
    by_cases hsize : c.client.maxLineSize < c.readBuffer.length + data.length
    · simp only [if_pos hsize]
      have hacts := perform_alone (h.onMaxLineSizeExceeded c.app) c hreg (hchunk.1 hline hsize)
      rw [Out.andThen_of_next (Conn.perform_flow ..)]
      refine ⟨allAlone_append hacts ?_, fun _ hback => ?_⟩
      · unfold removeDescriptor
        split
        · exact allAlone_nil
        · exact allAlone_nil
      · change (removeDescriptor _).conn.registered = true at hback
        unfold removeDescriptor at hback
        split at hback
        · exact Bool.noConfusion hback
        · rename_i hnot
          exact absurd hback hnot
    · simp only [if_neg hsize] at hheed ⊢
      refine lineLoop_alone h _ _ 0 (c := { c with readBuffer := c.readBuffer ++ data }) hreg ?_
        List.drop_zero hheed
      intro hqueued
      obtain ⟨-, hmem⟩ := hchunk.2 hqueued
      refine ⟨hmem (by omega), fun hraw => ?_⟩
      change c.client.lineMode = false at hraw
      rw [hline] at hraw
      exact Bool.noConfusion hraw

theorem leftOver_alone {c : Conn σ} (hmore : c.registered = true → NoMore c c.readBuffer)
    (hheed : AllHeed h (leftOver h c).trace) : AllAlone (leftOver h c).trace := by
  cases hreg : c.registered with
  | false => simp [leftOver, touch, hreg, Out.andThen, allAlone_nil]
  | true =>
    rw [leftOver, touch_registered _ hreg, Out.ret_andThen] at hheed ⊢
    by_cases hnil : c.readBuffer = []
    · rw [if_pos hnil]
      exact allAlone_nil
    · rw [if_neg hnil] at hheed ⊢
      cases hline : c.client.lineMode with
      | true =>
        simp only [if_true]
        exact allAlone_nil
      | false =>
        simp only [hline, Bool.false_eq_true, if_false] at hheed ⊢
        have hopen : c.closeQueued = false := by
          by_contra hnot
          rw [Bool.not_eq_false] at hnot
          exact hnil ((hmore hreg hnot).2 hline)
        exact (handleMessage_alone h _ _ hreg hopen hheed).1

theorem touch_trace (p : Part) (c : Conn σ) : (touch p c).trace = [] := by
  unfold touch
  split <;> rfl

theorem pass_alone (data : Bytes) {c : Conn σ} (hreg : c.registered = true)
    (hchunk : Heeds h (.chunk c data)) (hheed : AllHeed h (pass h data c).trace) :
    AllAlone (pass h data c).trace := by
  unfold pass at hheed ⊢
  by_cases hflow : (handleChunk h data c).flow = .next
  · rw [Out.andThen_of_next hflow] at hheed ⊢
    obtain ⟨hheed₁, hheed₂⟩ := allHeed_append h hheed
    obtain ⟨hfirst, hmore⟩ := handleChunk_alone h data hreg hchunk hheed₁
    refine allAlone_append hfirst ?_
    by_cases hleft : (leftOver h (handleChunk h data c).conn).flow = .next
    · rw [Out.andThen_of_next hleft] at hheed₂ ⊢
      obtain ⟨hheed₃, -⟩ := allHeed_append h hheed₂
      refine allAlone_append (leftOver_alone h (hmore hflow) hheed₃) ?_
      rw [touch_trace]
      exact allAlone_nil
    · rw [Out.andThen_of_ne_next hleft] at hheed₂ ⊢
      exact leftOver_alone h (hmore hflow) hheed₂
  · rw [Out.andThen_of_ne_next hflow] at hheed ⊢
    exact (handleChunk_alone h data hreg hchunk hheed).1

theorem iteration_alone (bufferSize : Nat) {c : Conn σ} (hreg : c.registered = true)
    (hheed : AllHeed h (iteration h bufferSize c).trace) :
    AllAlone (iteration h bufferSize c).trace := by
  have hchunk : Heeds h (.chunk c (nextChunk bufferSize c)) := hheed _ List.mem_cons_self
  have hpass : AllHeed h (pass h (nextChunk bufferSize c) (readChunk bufferSize c)).trace :=
    fun s hs => hheed s (List.mem_cons_of_mem _ hs)
  rw [iteration_eq, allAlone_cons]
  -- what was read off the input does not matter to the condition
  exact ⟨trivial, pass_alone h _ (c := readChunk bufferSize c) hreg hchunk hpass⟩

theorem readLoop_alone (bufferSize fuel : Nat) {c : Conn σ} (hreg : c.registered = true)
    (hheed : AllHeed h (readLoop h bufferSize fuel c).trace) :
    AllAlone (readLoop h bufferSize fuel c).trace := by
  induction fuel generalizing c with
  | zero =>
    rw [readLoop]
    split
    · exact allAlone_nil
    · exact allAlone_nil
  | succ fuel ih =>
    rw [readLoop] at hheed ⊢
    by_cases hpos : 0 < c.input.length
    · rw [if_pos hpos] at hheed ⊢
      by_cases hflow : (iteration h bufferSize c).flow = .next
      · rw [Out.andThen_of_next hflow] at hheed ⊢
        obtain ⟨hheed₁, hheed₂⟩ := allHeed_append h hheed
        have hconn := iteration_registered h hflow
        exact allAlone_append (iteration_alone h bufferSize hreg hheed₁) (ih hconn hheed₂)
      · rw [Out.andThen_of_ne_next hflow] at hheed ⊢
        exact iteration_alone h bufferSize hreg hheed
    · rw [if_neg hpos]
      exact allAlone_nil

theorem onEvent_alone (bufferSize : Nat) (e : NetEvent) {c : Conn σ} (hreg : c.registered = true)
    (hheed : AllHeed h (onEvent h bufferSize c e).trace) :
    AllAlone (onEvent h bufferSize c e).trace := by
  cases e with
  | readable data =>
    rw [onEvent, handleRead, catchRuntimeError_trace] at hheed ⊢
    exact readLoop_alone h bufferSize _ (c := { c with input := c.input ++ data }) hreg hheed
  | writeEmpty => exact allAlone_nil
  | eof => exact allAlone_nil
  | error => exact allAlone_nil

end Sections

/-- In a run whose steps all meet the condition, no input of the client is dispatched and nothing
    is written to it once its close is queued. -/
theorem run_leavesAlone (h : Handler σ) (bufferSize : Nat) (es : List NetEvent) (c : Conn σ)
    (hheed : AllHeed h (run h bufferSize es c).trace) :
    AllAlone (run h bufferSize es c).trace := by
  induction es generalizing c with
  | nil => exact allAlone_nil
  | cons e es ih =>
    rw [run] at hheed ⊢
    by_cases hreg : c.registered = true
    · rw [if_pos hreg] at hheed ⊢
      by_cases hflow : (onEvent h bufferSize c e).flow = .next
      · rw [Out.andThen_of_next hflow] at hheed ⊢
        obtain ⟨hheed₁, hheed₂⟩ := allHeed_append h hheed
        exact allAlone_append (onEvent_alone h bufferSize e hreg hheed₁) (ih _ hheed₂)
      · rw [Out.andThen_of_ne_next hflow] at hheed ⊢
        exact onEvent_alone h bufferSize e hreg hheed
    · rw [if_neg hreg]
      exact allAlone_nil

end Algiz.Net
