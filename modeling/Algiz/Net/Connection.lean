/-
  One connection of a worker, as `Worker::handleRead` sees it.

  `Conn` is what the server keeps for the connection: its entries in the client and descriptor
  maps (`registered`), its bufferevent's input and output, its read buffer, its client, and its
  place in the worker's `closeQueue`. A message handler reaches the connection through four
  calls only (`Act`): it sends, it closes, it leaves line mode, it sets `maxRead`. `Conn.remove`
  frees the bufferevent, the read buffer and the client; a section of code that uses one of
  them afterwards ends in `Flow.fault` and goes no further.

  Every section returns the steps it took, each with the state before it (`Out.trace`). The
  trace is history only: nothing reads it.
-/
import Algiz.Bytes

namespace Algiz

/-- The exceptions thrown, by the class a catch clause sees. `ParseError` and
    `UnsupportedMethod` are `std::runtime_error`s; `std::invalid_argument` and
    `std::out_of_range` are not. -/
inductive Exception where
  | parseError (what : Bytes)
  | unsupportedMethod (what : Bytes)
  | runtimeError (what : Bytes)
  | invalidArgument (what : Bytes)
  | outOfRange
  | other
  deriving DecidableEq

/-- Is it caught by `catch (const std::runtime_error &)`? -/
def Exception.isRuntimeError : Exception → Bool
  | .parseError _ | .unsupportedMethod _ | .runtimeError _ => true
  | .invalidArgument _ | .outOfRange | .other => false

end Algiz

namespace Algiz.Net

/-- `GenericClient`. -/
structure GenericClient where
  id : Int := -1
  lineMode : Bool := true
  maxLineSize : Nat := 2 ^ 64 - 1
  /-- If nonzero, no more than this many bytes are read at a time. -/
  maxRead : Nat := 0
  deriving DecidableEq

/-- What a message handler does to its own client. -/
inductive Act where
  /-- `server->send(client.id, data)` -/
  | send (data : Bytes)
  /-- `server->close(client.id)` -/
  | close
  /-- `client.lineMode = false` -/
  | leaveLineMode
  /-- `client.maxRead = n` -/
  | setMaxRead (n : Nat)
  deriving DecidableEq

/-- What a handler call comes to: the handler's new state, its acts in order, and the exception
    it ended in. -/
structure Reaction (σ : Type*) where
  state : σ
  acts : List Act := []
  thrown : Option Exception := none

/-- What the application puts above the sockets: `server.messageHandler`, and the client's
    `onMaxLineSizeExceeded`. -/
structure Handler (σ : Type*) where
  handleMessage : σ → Bytes → Reaction σ
  onMaxLineSizeExceeded : σ → List Act := fun _ => []

/-- One connection of a worker. -/
structure Conn (σ : Type*) where
  /-- the connection is in `clients`, `descriptors`, `allClients`, `bufferEvents` and
      `bufferEventDescriptors` -/
  registered : Bool := true
  /-- its bufferevent is in the worker's `closeQueue` -/
  closeQueued : Bool := false
  /-- `bufferevent_get_input` -/
  input : Bytes := []
  /-- `bufferevent_get_output`: written, not yet taken by the socket -/
  output : Bytes := []
  /-- `readBuffers[descriptor]` -/
  readBuffer : Bytes := []
  client : GenericClient
  /-- the handler's own state -/
  app : σ

/-- A part of a connection that `remove` frees. `self` is the connection `remove` is called
    on. -/
inductive Part where
  | client | readBuffer | input | self
  deriving DecidableEq

/-- How a section of code ends. `running` is a loop cut off by its fuel. -/
inductive Flow where
  | next
  | threw (e : Exception)
  | fault (p : Part)
  | running
  deriving DecidableEq

/-- One step of a run, with the connection before it. -/
inductive Step (σ : Type*) where
  /-- `evbuffer_remove` returned `data` -/
  | chunk (before : Conn σ) (data : Bytes)
  /-- `handleMessage` was called on `message`; the line loop still holds `rest` -/
  | call (before : Conn σ) (message rest : Bytes)
  /-- the handler did `a` -/
  | act (before : Conn σ) (a : Act)

/-- What a section of code leaves behind. -/
structure Out (σ : Type*) where
  conn : Conn σ
  trace : List (Step σ) := []
  flow : Flow := .next

variable {σ : Type*}

namespace Out

def ret (c : Conn σ) : Out σ := { conn := c }

/-- `o`, and then `k` unless `o` ended otherwise than by falling through. -/
def andThen (o : Out σ) (k : Conn σ → Out σ) : Out σ :=
  match o.flow with
  | .next => { k o.conn with trace := o.trace ++ (k o.conn).trace }
  | .threw _ | .fault _ | .running => o

@[simp] theorem ret_conn (c : Conn σ) : (ret c).conn = c := rfl

@[simp] theorem ret_trace (c : Conn σ) : (ret c).trace = [] := rfl

@[simp] theorem ret_flow (c : Conn σ) : (ret c).flow = .next := rfl

theorem andThen_of_next {o : Out σ} (h : o.flow = .next) (k : Conn σ → Out σ) :
    o.andThen k = { k o.conn with trace := o.trace ++ (k o.conn).trace } := by
  unfold andThen
  rw [h]

theorem andThen_of_ne_next {o : Out σ} (h : o.flow ≠ .next) (k : Conn σ → Out σ) :
    o.andThen k = o := by
  unfold andThen
  cases hf : o.flow <;> simp_all

@[simp] theorem ret_andThen (c : Conn σ) (k : Conn σ → Out σ) : (ret c).andThen k = k c := by
  rw [andThen_of_next rfl]
  simp [ret]

end Out

namespace Conn

/-- `Worker::remove` of a connection that is registered. `closeQueue` is not touched. -/
def remove (c : Conn σ) : Conn σ := { c with registered := false }

/-- `Worker::queueClose(bufferevent *)` -/
def queueClose (c : Conn σ) : Conn σ :=
  if c.output.length = 0 then c.remove else { c with closeQueued := true }

/-- One act of a handler. On a connection that is no longer registered `Server::send` returns
    -1 and `Server::close` returns false: `getDescriptor` throws `std::out_of_range` inside
    them. -/
def act (c : Conn σ) (a : Act) : Conn σ :=
  if c.registered then
    match a with
    | .send data => { c with output := c.output ++ data }
    | .close => c.queueClose
    | .leaveLineMode => { c with client.lineMode := false }
    | .setMaxRead n => { c with client.maxRead := n }
  else c

/-- The acts of a handler, in order. -/
def perform : List Act → Conn σ → Out σ
  | [], c => .ret c
  | a :: as, c =>
    let o := perform as (c.act a)
    { o with trace := .act c a :: o.trace }

/-- Do these acts remove a connection whose output is `output`? `Server::close` does so at
    once when the output is empty, and otherwise leaves it to `closeQueue`. -/
def closesAtOnce : Bytes → List Act → Bool
  | _, [] => false
  | output, .send data :: as => closesAtOnce (output ++ data) as
  | output, .close :: as => output.isEmpty || closesAtOnce output as
  | output, .leaveLineMode :: as => closesAtOnce output as
  | output, .setMaxRead _ :: as => closesAtOnce output as

@[simp] theorem perform_nil (c : Conn σ) : perform [] c = .ret c := rfl

@[simp] theorem perform_cons_conn (a : Act) (as : List Act) (c : Conn σ) :
    (perform (a :: as) c).conn = (perform as (c.act a)).conn := rfl

@[simp] theorem perform_cons_trace (a : Act) (as : List Act) (c : Conn σ) :
    (perform (a :: as) c).trace = .act c a :: (perform as (c.act a)).trace := rfl

@[simp] theorem perform_flow (as : List Act) (c : Conn σ) : (perform as c).flow = .next := by
  induction as generalizing c with
  | nil => rfl
  | cons a as ih => exact ih (c.act a)

section Act

variable {c : Conn σ} (h : c.registered = true)
include h

theorem act_send (data : Bytes) : c.act (.send data) = { c with output := c.output ++ data } := by
  simp [act, h]

theorem act_close : c.act .close = c.queueClose := by
  simp [act, h]

theorem act_leaveLineMode : c.act .leaveLineMode = { c with client.lineMode := false } := by
  simp [act, h]

theorem act_setMaxRead (n : Nat) : c.act (.setMaxRead n) = { c with client.maxRead := n } := by
  simp [act, h]

end Act

theorem act_unregistered {c : Conn σ} (h : c.registered = false) (a : Act) : c.act a = c := by
  simp [act, h]

@[simp] theorem act_input (c : Conn σ) (a : Act) : (c.act a).input = c.input := by
  unfold act queueClose remove
  split
  · cases a <;> dsimp only
    split <;> rfl
  · rfl

@[simp] theorem act_readBuffer (c : Conn σ) (a : Act) : (c.act a).readBuffer = c.readBuffer := by
  unfold act queueClose remove
  split
  · cases a <;> dsimp only
    split <;> rfl
  · rfl

@[simp] theorem act_app (c : Conn σ) (a : Act) : (c.act a).app = c.app := by
  unfold act queueClose remove
  split
  · cases a <;> dsimp only
    split <;> rfl
  · rfl

@[simp] theorem perform_input (as : List Act) (c : Conn σ) :
    (perform as c).conn.input = c.input := by
  induction as generalizing c with
  | nil => rfl
  | cons a as ih => rw [perform_cons_conn, ih, act_input]

@[simp] theorem perform_readBuffer (as : List Act) (c : Conn σ) :
    (perform as c).conn.readBuffer = c.readBuffer := by
  induction as generalizing c with
  | nil => rfl
  | cons a as ih => rw [perform_cons_conn, ih, act_readBuffer]

@[simp] theorem perform_app (as : List Act) (c : Conn σ) : (perform as c).conn.app = c.app := by
  induction as generalizing c with
  | nil => rfl
  | cons a as ih => rw [perform_cons_conn, ih, act_app]

theorem perform_unregistered {c : Conn σ} (h : c.registered = false) (as : List Act) :
    (perform as c).conn = c := by
  induction as with
  | nil => rfl
  | cons a as ih => rw [perform_cons_conn, act_unregistered h, ih]

theorem perform_registered {c : Conn σ} (h : c.registered = true) (as : List Act) :
    (perform as c).conn.registered = !closesAtOnce c.output as := by
  induction as generalizing c with
  | nil => simpa [closesAtOnce] using h
  | cons a as ih =>
    rw [perform_cons_conn]
    cases a with
    | send data =>
      rw [closesAtOnce, act_send h]
      exact ih h
    | close =>
      rw [closesAtOnce, act_close h]
      by_cases hout : c.output = []
      · have hqueue : c.queueClose = c.remove := by simp [queueClose, hout]
        rw [hqueue, perform_unregistered rfl]
        simp [hout, remove]
      · have hqueue : c.queueClose = { c with closeQueued := true } := by
          simp [queueClose, hout]
        rw [hqueue, ih (c := { c with closeQueued := true }) h]
        simp [hout]
    | leaveLineMode =>
      rw [closesAtOnce, act_leaveLineMode h]
      exact ih (c := { c with client.lineMode := false }) h
    | setMaxRead n =>
      rw [closesAtOnce, act_setMaxRead h]
      exact ih (c := { c with client.maxRead := n }) h

/-- Acts that do not remove a connection with nothing to write remove no connection. -/
theorem closesAtOnce_of_nil {as : List Act} (h : closesAtOnce [] as = false) (output : Bytes) :
    closesAtOnce output as = false := by
  suffices ∀ out, closesAtOnce out as = false → closesAtOnce (output ++ out) as = false by
    simpa using this [] h
  clear h
  intro out
  induction as generalizing out with
  | nil => exact fun _ => rfl
  | cons a as ih =>
    cases a with
    | send data =>
      intro h
      rw [closesAtOnce, List.append_assoc]
      exact ih _ h
    | close =>
      simp only [closesAtOnce, Bool.or_eq_false_iff]
      rintro ⟨hout, h⟩
      refine ⟨?_, ih _ h⟩
      simp_all
    | leaveLineMode => exact ih out
    | setMaxRead n => exact ih out

end Conn

/-- `server.handleMessage(client, message)`. -/
def handleMessage (h : Handler σ) (message rest : Bytes) (c : Conn σ) : Out σ :=
  let r := h.handleMessage c.app message
  let o := Conn.perform r.acts { c with app := r.state }
  { conn := o.conn
    trace := .call c message rest :: o.trace
    flow := match r.thrown with
      | none => .next
      | some e => .threw e }

section HandleMessage

variable (h : Handler σ) (message rest : Bytes) (c : Conn σ)

@[simp] theorem handleMessage_input : (handleMessage h message rest c).conn.input = c.input :=
  Conn.perform_input ..

@[simp] theorem handleMessage_readBuffer :
    (handleMessage h message rest c).conn.readBuffer = c.readBuffer :=
  Conn.perform_readBuffer ..

@[simp] theorem handleMessage_app :
    (handleMessage h message rest c).conn.app = (h.handleMessage c.app message).state :=
  Conn.perform_app ..

/-- Whether the connection outlives a call is read off the acts and the output before it. -/
theorem handleMessage_registered {c : Conn σ} (hreg : c.registered = true) :
    (handleMessage h message rest c).conn.registered =
      !Conn.closesAtOnce c.output (h.handleMessage c.app message).acts :=
  Conn.perform_registered (c := { c with app := (h.handleMessage c.app message).state }) hreg _

theorem handleMessage_flow_eq_next_iff :
    (handleMessage h message rest c).flow = .next ↔
      (h.handleMessage c.app message).thrown = none := by
  unfold handleMessage
  cases ht : (h.handleMessage c.app message).thrown <;> simp [ht]

end HandleMessage

/-- A use of a part of the connection: undefined once `remove` has freed it. -/
def touch (p : Part) (c : Conn σ) : Out σ :=
  if c.registered then .ret c else { conn := c, flow := .fault p }

@[simp] theorem touch_registered (p : Part) {c : Conn σ} (h : c.registered = true) :
    touch p c = .ret c := by
  simp [touch, h]

/-- The messages handed to the message handler, in order. -/
def messages (t : List (Step σ)) : List Bytes :=
  t.filterMap fun
    | .call _ message _ => some message
    | .chunk _ _ | .act _ _ => none

@[simp] theorem messages_nil : messages ([] : List (Step σ)) = [] := rfl

theorem messages_append (s t : List (Step σ)) : messages (s ++ t) = messages s ++ messages t :=
  List.filterMap_append

end Algiz.Net
