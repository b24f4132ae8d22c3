/-
  `Worker::handleRead` on one connection, and the events of the event loop around it.

  `handleRead` is called by libevent with the bytes that arrived already in the bufferevent's
  input. It runs on the worker's own loop, so the connection's `accept` is over and its client
  has an instance, and no input arrives while it runs: `readable` is always the length of the
  input. `evbuffer_remove` does not fail on a bufferevent's input (it is never frozen at its
  start) and a read stays far below 2^31 bytes, so `byte_count` is the number of bytes removed.

  The loops take fuel. Each pass of the line loop uses up a line of the view and, with a buffer
  of at least one byte, each pass of the read loop uses up input, so a fuel of the length is
  enough (`handleRead_ne_running`); with `bufferSize = 0` the real loop does not end either.
-/
import Algiz.Net.Connection

namespace Algiz.Net

variable {σ : Type*}

/-- `Server::isMessageComplete`: where the message ends and the size of its delimiter. -/
def isMessageComplete (view : Bytes) : Option (Nat × Nat) :=
  (find view newline).map fun found => (found, 1)

/-- `if (to_erase != 0) str.erase(0, to_erase)` -/
def eraseFront (toErase : Nat) (c : Conn σ) : Out σ :=
  if toErase ≠ 0 then
    (touch .readBuffer c).andThen fun c => .ret { c with readBuffer := c.readBuffer.drop toErase }
  else .ret c

theorem eraseFront_registered (toErase : Nat) {c : Conn σ} (hreg : c.registered = true) :
    eraseFront toErase c = .ret { c with readBuffer := c.readBuffer.drop toErase } := by
  unfold eraseFront
  split
  · rw [touch_registered _ hreg, Out.ret_andThen]
  · rename_i hzero
    rw [not_not.mp hzero, List.drop_zero]

/-- The do-while over the lines of `str`, and the erasure after it. -/
def lineLoop (h : Handler σ) : Nat → Bytes → Nat → Conn σ → Out σ
  | 0, _, _, c => { conn := c, flow := .running }
  | fuel + 1, view, toErase, c =>
    match isMessageComplete view with
    | none => eraseFront toErase c
    | some (index, delimiterSize) =>
      (handleMessage h (view.take index) (view.drop (index + delimiterSize)) c).andThen fun c =>
        if c.registered then
          lineLoop h fuel (view.drop (index + delimiterSize)) (toErase + (index + delimiterSize)) c
        else eraseFront toErase c

/-- `removeDescriptor(descriptor)`: `getBufferEvent` throws if it is not registered. -/
def removeDescriptor (c : Conn σ) : Out σ :=
  if c.registered then .ret c.remove else { conn := c, flow := .threw .outOfRange }

/-- How many bytes the next `evbuffer_remove` asks for. -/
def toRead (bufferSize : Nat) (c : Conn σ) : Nat :=
  let readable := c.input.length
  if 0 < c.client.maxRead then min (min bufferSize readable) c.client.maxRead
  else min bufferSize readable

/-- The bytes the next `evbuffer_remove` returns. -/
def nextChunk (bufferSize : Nat) (c : Conn σ) : Bytes := c.input.take (toRead bufferSize c)

/-- `evbuffer_remove(input, buffer.get(), to_read)`, and `client.maxRead -= byte_count`. -/
def readChunk (bufferSize : Nat) (c : Conn σ) : Conn σ :=
  { c with
    input := c.input.drop (toRead bufferSize c)
    client.maxRead := c.client.maxRead -
      (if 0 < c.client.maxRead then (nextChunk bufferSize c).length else 0) }

/-- What is done with a chunk: raw, too long, or a piece of line mode text. -/
def handleChunk (h : Handler σ) (data : Bytes) (c : Conn σ) : Out σ :=
  if !c.client.lineMode then
    (handleMessage h data [] c).andThen fun c =>
      (touch .readBuffer c).andThen fun c => .ret { c with readBuffer := [] }
  else if c.client.maxLineSize < c.readBuffer.length + data.length then
    (Conn.perform (h.onMaxLineSizeExceeded c.app) c).andThen removeDescriptor
  else
    let str := c.readBuffer ++ data
    lineLoop h (str.length + 1) str 0 { c with readBuffer := str }

/-- The text of the `ParseError`, which the catch clause drops. -/
def leftOverText : Bytes := ascii "Text is left over in the buffer"

/-- `if (!str.empty())` -/
def leftOver (h : Handler σ) (c : Conn σ) : Out σ :=
  (touch .readBuffer c).andThen fun c =>
    if c.readBuffer = [] then .ret c
    else if c.client.lineMode then { conn := c, flow := .threw (.parseError leftOverText) }
    else handleMessage h c.readBuffer [] c

/-- One pass of `while (0 < readable)`, from the chunk on. The last touch is
    `readable = evbuffer_get_length(input)`. -/
def pass (h : Handler σ) (data : Bytes) (c : Conn σ) : Out σ :=
  (handleChunk h data c).andThen fun c => (leftOver h c).andThen (touch .input)

/-- One pass of `while (0 < readable)`. -/
def iteration (h : Handler σ) (bufferSize : Nat) (c : Conn σ) : Out σ :=
  let data := nextChunk bufferSize c
  let o := pass h data (readChunk bufferSize c)
  { o with trace := .chunk c data :: o.trace }

theorem iteration_eq (h : Handler σ) (bufferSize : Nat) (c : Conn σ) :
    iteration h bufferSize c =
      { pass h (nextChunk bufferSize c) (readChunk bufferSize c) with
        trace := .chunk c (nextChunk bufferSize c) ::
          (pass h (nextChunk bufferSize c) (readChunk bufferSize c)).trace } := rfl

/-- `while (0 < readable)` -/
def readLoop (h : Handler σ) (bufferSize : Nat) : Nat → Conn σ → Out σ
  | 0, c => if 0 < c.input.length then { conn := c, flow := .running } else .ret c
  | fuel + 1, c =>
    if 0 < c.input.length then
      (iteration h bufferSize c).andThen (readLoop h bufferSize fuel)
    else .ret c

/-- The catch clauses: both remove the connection. An exception that is not a
    `std::runtime_error` goes on to the event loop. -/
def catchRuntimeError (o : Out σ) : Out σ :=
  match o.flow with
  | .threw e =>
    if e.isRuntimeError then
      if o.conn.registered then { o with conn := o.conn.remove, flow := .next }
      else { o with flow := .fault .self }
    else o
  | .next | .fault _ | .running => o

section Catch

variable {o : Out σ}

@[simp] theorem catchRuntimeError_trace : (catchRuntimeError o).trace = o.trace := by
  unfold catchRuntimeError
  repeat' split
  all_goals rfl

theorem catchRuntimeError_of_next (h : o.flow = .next) : catchRuntimeError o = o := by
  unfold catchRuntimeError
  rw [h]

theorem catchRuntimeError_of_fault {p : Part} (h : o.flow = .fault p) :
    catchRuntimeError o = o := by
  unfold catchRuntimeError
  rw [h]

theorem catchRuntimeError_of_threw {e : Exception} (h : o.flow = .threw e)
    (he : e.isRuntimeError = true) (hreg : o.conn.registered = true) :
    catchRuntimeError o = { o with conn := o.conn.remove, flow := .next } := by
  unfold catchRuntimeError
  rw [h]
  simp [he, hreg]

theorem catchRuntimeError_of_uncaught {e : Exception} (h : o.flow = .threw e)
    (he : e.isRuntimeError = false) : catchRuntimeError o = o := by
  unfold catchRuntimeError
  rw [h]
  simp [he]

end Catch

/-- `Worker::handleRead` -/
def handleRead (h : Handler σ) (bufferSize fuel : Nat) (c : Conn σ) : Out σ :=
  catchRuntimeError (readLoop h bufferSize fuel c)

/-! ## The line loop, one line at a time -/

theorem lineLoop_tail (h : Handler σ) (fuel : Nat) {view : Bytes} (hview : newline ∉ view)
    (toErase : Nat) (c : Conn σ) :
    lineLoop h (fuel + 1) view toErase c = eraseFront toErase c := by
  rw [lineLoop, isMessageComplete, find_eq_none.mpr hview]
  rfl

theorem lineLoop_line (h : Handler σ) (fuel : Nat) {line : Bytes} (hline : newline ∉ line)
    (rest : Bytes) (toErase : Nat) (c : Conn σ) :
    lineLoop h (fuel + 1) (line ++ newline :: rest) toErase c =
      (handleMessage h line rest c).andThen fun c =>
        if c.registered then lineLoop h fuel rest (toErase + (line.length + 1)) c
        else eraseFront toErase c := by
  have hdrop : (line ++ newline :: rest).drop (line.length + 1) = rest := by
    rw [← List.drop_drop, List.drop_left]
    rfl
  rw [lineLoop, isMessageComplete, find_append_cons hline]
  simp only [Option.map_some, List.take_left, hdrop]

/-! ## The loops end -/

section Loops

variable (h : Handler σ)

theorem andThen_input {o : Out σ} {k : Conn σ → Out σ} {input : Bytes}
    (ho : o.conn.input = input) (hk : ∀ c, c.input = input → (k c).conn.input = input) :
    (o.andThen k).conn.input = input := by
  by_cases hflow : o.flow = .next
  · rw [Out.andThen_of_next hflow]
    exact hk o.conn ho
  · rw [Out.andThen_of_ne_next hflow]
    exact ho

theorem andThen_ne_running {o : Out σ} {k : Conn σ → Out σ} (ho : o.flow ≠ .running)
    (hk : ∀ c, (k c).flow ≠ .running) : (o.andThen k).flow ≠ .running := by
  by_cases hflow : o.flow = .next
  · rw [Out.andThen_of_next hflow]
    exact hk o.conn
  · rw [Out.andThen_of_ne_next hflow]
    exact ho

@[simp] theorem touch_conn (p : Part) (c : Conn σ) : (touch p c).conn = c := by
  unfold touch
  split <;> rfl

theorem touch_ne_running (p : Part) (c : Conn σ) : (touch p c).flow ≠ .running := by
  unfold touch
  split <;> exact Flow.noConfusion

theorem handleMessage_ne_running (message rest : Bytes) (c : Conn σ) :
    (handleMessage h message rest c).flow ≠ .running := by
  unfold handleMessage
  cases hthrown : (h.handleMessage c.app message).thrown <;> simp [hthrown]

theorem eraseFront_input (toErase : Nat) (c : Conn σ) :
    (eraseFront toErase c).conn.input = c.input := by
  unfold eraseFront
  split
  · exact andThen_input (by rw [touch_conn]) fun _ hin => hin
  · rfl

theorem eraseFront_ne_running (toErase : Nat) (c : Conn σ) :
    (eraseFront toErase c).flow ≠ .running := by
  unfold eraseFront
  split
  · exact andThen_ne_running (touch_ne_running _ _) fun _ => Flow.noConfusion
  · exact Flow.noConfusion

theorem lineLoop_input (fuel : Nat) (view : Bytes) (toErase : Nat) (c : Conn σ) :
    (lineLoop h fuel view toErase c).conn.input = c.input := by
  induction fuel generalizing view toErase c with
  | zero => rfl
  | succ fuel ih =>
    rw [lineLoop]
    cases isMessageComplete view with
    | none => exact eraseFront_input ..
    | some found =>
      refine andThen_input (handleMessage_input ..) fun c' hin => ?_
      split
      · rw [ih, hin]
      · rw [eraseFront_input, hin]

/-- Each pass of the line loop shortens the view. -/
theorem lineLoop_ne_running (fuel : Nat) (view : Bytes) (toErase : Nat) (c : Conn σ)
    (hfuel : view.length < fuel) : (lineLoop h fuel view toErase c).flow ≠ .running := by
  induction fuel generalizing view toErase c with
  | zero => omega
  | succ fuel ih =>
    rw [lineLoop]
    cases hfound : isMessageComplete view with
    | none => exact eraseFront_ne_running _ _
    | some found =>
      obtain ⟨i, hi, rfl⟩ := Option.map_eq_some_iff.mp hfound
      have hmem : newline ∈ view := by
        by_contra hnot
        rw [find_eq_none.mpr hnot] at hi
        exact nomatch hi
      have hpos := List.length_pos_of_mem hmem
      refine andThen_ne_running (handleMessage_ne_running h _ _ _) fun c' => ?_
      split
      · refine ih _ _ _ ?_
        rw [List.length_drop]
        omega
      · exact eraseFront_ne_running _ _

theorem removeDescriptor_input (c : Conn σ) : (removeDescriptor c).conn.input = c.input := by
  unfold removeDescriptor
  split <;> rfl

theorem handleChunk_input (data : Bytes) (c : Conn σ) :
    (handleChunk h data c).conn.input = c.input := by
  unfold handleChunk
  split
  · refine andThen_input (handleMessage_input ..) fun c' hin => ?_
    refine andThen_input (by rwa [touch_conn]) fun c'' hin' => hin'
  · split
    · refine andThen_input (Conn.perform_input ..) fun c' hin => ?_
      rw [removeDescriptor_input, hin]
    · exact lineLoop_input ..

theorem handleChunk_ne_running (data : Bytes) (c : Conn σ) :
    (handleChunk h data c).flow ≠ .running := by
  unfold handleChunk
  split
  · refine andThen_ne_running (handleMessage_ne_running h _ _ _) fun c' => ?_
    exact andThen_ne_running (touch_ne_running _ _) fun _ => Flow.noConfusion
  · split
    · refine andThen_ne_running (by rw [Conn.perform_flow]; exact Flow.noConfusion) fun c' => ?_
      unfold removeDescriptor
      split <;> exact Flow.noConfusion
    · exact lineLoop_ne_running h _ _ _ _ (Nat.lt_succ_self _)

theorem leftOver_input (c : Conn σ) : (leftOver h c).conn.input = c.input := by
  refine andThen_input (by rw [touch_conn]) fun c' hin => ?_
  split
  · exact hin
  · split
    · exact hin
    · rw [handleMessage_input, hin]

theorem leftOver_ne_running (c : Conn σ) : (leftOver h c).flow ≠ .running := by
  refine andThen_ne_running (touch_ne_running _ _) fun c' => ?_
  split
  · exact Flow.noConfusion
  · split
    · exact Flow.noConfusion
    · exact handleMessage_ne_running h _ _ _

theorem iteration_input (bufferSize : Nat) (c : Conn σ) :
    (iteration h bufferSize c).conn.input = c.input.drop (toRead bufferSize c) := by
  refine andThen_input (handleChunk_input ..) fun c' hin => ?_
  refine andThen_input ?_ fun c'' hin' => by rwa [touch_conn]
  rw [leftOver_input, hin]

theorem iteration_ne_running (bufferSize : Nat) (c : Conn σ) :
    (iteration h bufferSize c).flow ≠ .running :=
  andThen_ne_running (handleChunk_ne_running h _ _) fun _ =>
    andThen_ne_running (leftOver_ne_running h _) fun _ => touch_ne_running _ _

/-- A sequence that falls through does so after its last section did. -/
theorem andThen_registered {o : Out σ} {k : Conn σ → Out σ}
    (hk : ∀ c, (k c).flow = .next → (k c).conn.registered = true)
    (hflow : (o.andThen k).flow = .next) : (o.andThen k).conn.registered = true := by
  by_cases ho : o.flow = .next
  · rw [Out.andThen_of_next ho] at hflow ⊢
    exact hk o.conn hflow
  · rw [Out.andThen_of_ne_next ho] at hflow
    exact absurd hflow ho

theorem touch_next {p : Part} {c : Conn σ} (hflow : (touch p c).flow = .next) :
    (touch p c).conn.registered = true := by
  cases hreg : c.registered with
  | true => rwa [touch_registered _ hreg]
  | false => simp [touch, hreg] at hflow

/-- A pass that falls through has just used the connection's input. -/
theorem iteration_registered {bufferSize : Nat} {c : Conn σ}
    (hflow : (iteration h bufferSize c).flow = .next) :
    (iteration h bufferSize c).conn.registered = true :=
  andThen_registered (o := handleChunk h (nextChunk bufferSize c) (readChunk bufferSize c))
    (fun _ hnext => andThen_registered (fun _ => touch_next) hnext) hflow

theorem toRead_pos {bufferSize : Nat} (hbuf : 0 < bufferSize) {c : Conn σ}
    (hin : 0 < c.input.length) : 0 < toRead bufferSize c := by
  unfold toRead
  dsimp only
  split
  · omega
  · omega

/-- With a buffer of at least one byte each pass of the read loop uses up input. -/
theorem readLoop_ne_running {bufferSize : Nat} (hbuf : 0 < bufferSize) (fuel : Nat) (c : Conn σ)
    (hfuel : c.input.length ≤ fuel) : (readLoop h bufferSize fuel c).flow ≠ .running := by
  induction fuel generalizing c with
  | zero =>
    rw [readLoop, if_neg (by omega)]
    exact Flow.noConfusion
  | succ fuel ih =>
    rw [readLoop]
    split
    · rename_i hin
      by_cases hflow : (iteration h bufferSize c).flow = .next
      · rw [Out.andThen_of_next hflow]
        have hpos := toRead_pos hbuf hin
        refine ih _ ?_
        rw [iteration_input, List.length_drop]
        omega
      · rw [Out.andThen_of_ne_next hflow]
        exact iteration_ne_running h _ _
    · exact Flow.noConfusion

/-- `handleRead` ends: its fuel need be no more than the length of the input. -/
theorem handleRead_ne_running {bufferSize : Nat} (hbuf : 0 < bufferSize) {fuel : Nat}
    {c : Conn σ} (hfuel : c.input.length ≤ fuel) :
    (handleRead h bufferSize fuel c).flow ≠ .running := by
  have hloop := readLoop_ne_running h hbuf fuel c hfuel
  unfold handleRead catchRuntimeError
  split
  · split
    · split
      · exact Flow.noConfusion
      · exact Flow.noConfusion
    · exact hloop
  all_goals exact hloop

end Loops

/-! ## The events of the loop -/

/-- What libevent reports about a connection. -/
inductive NetEvent where
  /-- bytes arrived: `conn_readcb` -/
  | readable (data : Bytes)
  /-- the socket took all of the output: `conn_writecb` -/
  | writeEmpty
  /-- `conn_eventcb` with `BEV_EVENT_EOF` -/
  | eof
  /-- `conn_eventcb` with `BEV_EVENT_ERROR` or `BEV_EVENT_TIMEOUT` -/
  | error
  deriving DecidableEq

/-- `Worker::handleWriteEmpty` -/
def handleWriteEmpty (c : Conn σ) : Conn σ :=
  if c.closeQueued then { c with closeQueued := false }.remove else c

/-- The callback of one event. -/
def onEvent (h : Handler σ) (bufferSize : Nat) (c : Conn σ) : NetEvent → Out σ
  | .readable data =>
    let c := { c with input := c.input ++ data }
    handleRead h bufferSize c.input.length c
  | .writeEmpty => .ret (handleWriteEmpty { c with output := [] })
  | .eof => .ret c.remove
  | .error => .ret c.remove

/-- The events of a connection, up to its removal. -/
def run (h : Handler σ) (bufferSize : Nat) : List NetEvent → Conn σ → Out σ
  | [], c => .ret c
  | e :: es, c =>
    if c.registered then (onEvent h bufferSize c e).andThen (run h bufferSize es) else .ret c

theorem run_unregistered (h : Handler σ) (bufferSize : Nat) (es : List NetEvent) {c : Conn σ}
    (hreg : c.registered = false) : run h bufferSize es c = .ret c := by
  cases es with
  | nil => rfl
  | cons e es => simp [run, hreg]

/-! ## The smallest handlers -/

/-- A handler that takes no notice of its messages. -/
def silent : Handler Unit where
  handleMessage s _ := { state := s }

/-- A handler that closes the client at its first message. -/
def closing : Handler Unit where
  handleMessage s _ := { state := s, acts := [.close] }

/-- A client that has just connected. -/
def connected (maxLineSize : Nat) : Conn Unit :=
  { client := { id := 0, maxLineSize := maxLineSize }, app := () }

end Algiz.Net
