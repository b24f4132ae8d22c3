/-
  Line mode: which lines `handleRead` hands over, for every stream and every way of cutting it.

  The handler, handed the lines of the stream, keeps the client in line mode and its connection
  open (`KeepsLineMode`), so nothing but `handleRead` itself can remove the connection. The lines
  are handed over, and the connection survives, exactly when every chunk the read loop takes
  ends in a newline and is no longer than `maxLineSize` (`handsOverLines_iff`). A chunk that
  ends inside a line runs into the `ParseError` of `leftOver`, and the connection is removed; a
  chunk of several short lines can run into the size check, which measures the chunk and not the
  line.
-/
import Algiz.Lib.Lines
import Algiz.Net.HandleRead

namespace Algiz.Net

open Algiz.Lib

variable {σ : Type*}

/-! ## Handlers that keep the client in line mode -/

/-- A call that keeps the client in line mode and its connection open: it changes neither
    `lineMode` nor `maxRead` (the code sets `maxRead` for the bytes of a body, which are read
    raw), throws nothing, and if it closes it has sent something first, so that the close waits
    for the output to drain. -/
structure Reaction.KeepsLineMode (r : Reaction σ) : Prop where
  lineMode : .leaveLineMode ∉ r.acts
  maxRead : ∀ n, .setMaxRead n ∉ r.acts
  stays : Conn.closesAtOnce [] r.acts = false
  thrown : r.thrown = none

/-- The handler in state `s`, handed these messages one after another, keeps the client in line
    mode and its connection open. -/
def KeepsLineMode (h : Handler σ) : σ → List Bytes → Prop
  | _, [] => True
  | s, message :: ms =>
    (h.handleMessage s message).KeepsLineMode ∧
      KeepsLineMode h (h.handleMessage s message).state ms

/-- The handler's state after these messages. -/
def stateAfter (h : Handler σ) (s : σ) (ms : List Bytes) : σ :=
  ms.foldl (fun s message => (h.handleMessage s message).state) s

@[simp] theorem stateAfter_nil (h : Handler σ) (s : σ) : stateAfter h s [] = s := rfl

@[simp] theorem stateAfter_cons (h : Handler σ) (s : σ) (message : Bytes) (ms : List Bytes) :
    stateAfter h s (message :: ms) = stateAfter h (h.handleMessage s message).state ms := rfl

theorem stateAfter_append (h : Handler σ) (s : σ) (ms ns : List Bytes) :
    stateAfter h s (ms ++ ns) = stateAfter h (stateAfter h s ms) ns := List.foldl_append

theorem keepsLineMode_append (h : Handler σ) (s : σ) (ms ns : List Bytes) :
    KeepsLineMode h s (ms ++ ns) ↔
      KeepsLineMode h s ms ∧ KeepsLineMode h (stateAfter h s ms) ns := by
  induction ms generalizing s with
  | nil => simp [KeepsLineMode]
  | cons message ms ih =>
    rw [List.cons_append, KeepsLineMode, KeepsLineMode, ih, and_assoc, stateAfter_cons]

/-- `c'` is as `c` but for what is written, the pending close and the handler's state. -/
structure Untouched (c c' : Conn σ) : Prop where
  registered : c'.registered = c.registered
  input : c'.input = c.input
  readBuffer : c'.readBuffer = c.readBuffer
  client : c'.client = c.client

theorem messages_perform (as : List Act) (c : Conn σ) :
    messages (Conn.perform as c).trace = [] := by
  induction as generalizing c with
  | nil => rfl
  | cons a as ih =>
    rw [Conn.perform_cons_trace]
    exact ih (c.act a)

theorem messages_handleMessage (h : Handler σ) (message rest : Bytes) (c : Conn σ) :
    messages (handleMessage h message rest c).trace = [message] := by
  have := messages_perform (h.handleMessage c.app message).acts
    { c with app := (h.handleMessage c.app message).state }
  simp only [handleMessage, messages, List.filterMap_cons] at this ⊢
  rw [this]

/-- An act leaves the client alone, unless it is one of the two that change it. -/
theorem act_client {a : Act} (hline : a ≠ .leaveLineMode) (hmax : ∀ n, a ≠ .setMaxRead n)
    (c : Conn σ) : (c.act a).client = c.client := by
  unfold Conn.act Conn.queueClose Conn.remove
  split
  · cases a with
    | send data => rfl
    | close => dsimp only; split <;> rfl
    | leaveLineMode => exact absurd rfl hline
    | setMaxRead n => exact absurd rfl (hmax n)
  · rfl

theorem perform_client {as : List Act} (hline : .leaveLineMode ∉ as)
    (hmax : ∀ n, .setMaxRead n ∉ as) (c : Conn σ) :
    (Conn.perform as c).conn.client = c.client := by
  induction as generalizing c with
  | nil => rfl
  | cons a as ih =>
    simp only [List.mem_cons, not_or] at hline hmax
    rw [Conn.perform_cons_conn, ih hline.2 (fun n => (hmax n).2),
      act_client (Ne.symm hline.1) (fun n => Ne.symm (hmax n).1)]

theorem handleMessage_flow {h : Handler σ} {message : Bytes} {c : Conn σ}
    (hk : (h.handleMessage c.app message).KeepsLineMode) (rest : Bytes) :
    (handleMessage h message rest c).flow = .next := by
  rw [handleMessage_flow_eq_next_iff]
  exact hk.thrown

theorem handleMessage_untouched {h : Handler σ} {message : Bytes} {c : Conn σ}
    (hk : (h.handleMessage c.app message).KeepsLineMode) (rest : Bytes)
    (hreg : c.registered = true) : Untouched c (handleMessage h message rest c).conn := by
  refine ⟨?_, handleMessage_input .., handleMessage_readBuffer ..,
    perform_client hk.lineMode hk.maxRead _⟩
  rw [handleMessage_registered h message rest hreg, hreg, Conn.closesAtOnce_of_nil hk.stays]
  rfl

/-- The line loop hands over the lines of the view and leaves what follows them. -/
theorem lineLoop_keepsLineMode (h : Handler σ) (view : Bytes) (fuel toErase : Nat)
    (hfuel : view.length < fuel) (c : Conn σ) (hk : KeepsLineMode h c.app (lines newline view))
    (hreg : c.registered = true) :
    let o := lineLoop h fuel view toErase c
    o.flow = .next ∧ messages o.trace = lines newline view ∧ o.conn.registered = true ∧
      o.conn.input = c.input ∧ o.conn.client = c.client ∧
      o.conn.readBuffer =
        c.readBuffer.drop (toErase + (view.length - (unfinished newline view).length)) ∧
      o.conn.app = stateAfter h c.app (lines newline view) := by
  induction view using lineInduction newline generalizing fuel toErase c with
  | tail view hview =>
    obtain ⟨fuel, rfl⟩ : ∃ k, fuel = k + 1 := ⟨fuel - 1, by omega⟩
    rw [lineLoop_tail h fuel hview, lines_of_not_mem _ hview, unfinished_of_not_mem _ hview]
    by_cases he : toErase = 0
    · simp [eraseFront, he, hreg]
    · simp [eraseFront, he, hreg]
  | line line rest hline ih =>
    obtain ⟨fuel, rfl⟩ : ∃ k, fuel = k + 1 := ⟨fuel - 1, by omega⟩
    rw [lines_line _ hline] at hk
    have hu := handleMessage_untouched hk.1 rest hreg
    have hreg' := hu.registered.trans hreg
    simp only [List.length_append, List.length_cons] at hfuel
    obtain ⟨h1, h2, h3, h4, h5, h6, h7⟩ := ih fuel (toErase + (line.length + 1)) (by omega)
      (handleMessage h line rest c).conn (by rw [handleMessage_app]; exact hk.2) hreg'
    rw [lineLoop_line h fuel hline, Out.andThen_of_next (handleMessage_flow hk.1 rest),
      if_pos hreg']
    refine ⟨h1, ?_, h3, h4.trans hu.input, h5.trans hu.client, ?_, ?_⟩
    · rw [messages_append, messages_handleMessage, h2, lines_line _ hline]
      rfl
    · have hle := length_unfinished_le newline rest
      rw [h6, hu.readBuffer, unfinished_line _ hline]
      congr 1
      simp only [List.length_append, List.length_cons]
      omega
    · rw [h7, lines_line _ hline, handleMessage_app, stateAfter_cons]

/-! ## Chunks -/

/-- A connection in line mode with nothing left over: between two good chunks. -/
structure Ready (c : Conn σ) : Prop where
  registered : c.registered = true
  lineMode : c.client.lineMode = true
  readBuffer : c.readBuffer = []
  maxRead : c.client.maxRead = 0

/-- A chunk that line mode survives. -/
def GoodChunk (maxLineSize : Nat) (data : Bytes) : Prop :=
  data.getLast? = some newline ∧ data.length ≤ maxLineSize

theorem GoodChunk.unfinished {n : Nat} {data : Bytes} (hgood : GoodChunk n data) :
    unfinished newline data = [] :=
  (unfinished_eq_nil_iff _ _).mpr (Or.inr hgood.1)

theorem Ready.nextChunk {c : Conn σ} (hc : Ready c) (bufferSize : Nat) :
    nextChunk bufferSize c = c.input.take bufferSize := by
  simp only [Net.nextChunk, toRead, hc.maxRead, Nat.lt_irrefl, if_false]
  exact (List.take_eq_take_min ..).symm

theorem Ready.readChunk {c : Conn σ} (hc : Ready c) (bufferSize : Nat) :
    readChunk bufferSize c = { c with input := c.input.drop bufferSize } := by
  have hclient : { c.client with maxRead := 0 } = c.client := by rw [← hc.maxRead]
  simp only [Net.readChunk, toRead, hc.maxRead, Nat.lt_irrefl, if_false, Nat.sub_zero, hclient]
  congr 1
  rcases Nat.le_total bufferSize c.input.length with h | h
  · rw [Nat.min_eq_left h]
  · rw [Nat.min_eq_right h, List.drop_length, List.drop_of_length_le h]

/-- What reading good input comes to: its lines are handed over, and `c'` is ready for `rest`. -/
structure Handed (h : Handler σ) (c : Conn σ) (data rest : Bytes) (o : Out σ) : Prop where
  returned : o.flow = .next
  messages : messages o.trace = lines newline data
  ready : Ready o.conn
  input : o.conn.input = rest
  maxLineSize : o.conn.client.maxLineSize = c.client.maxLineSize
  app : o.conn.app = stateAfter h c.app (lines newline data)

/-- How reading other input ends: in the `ParseError` on the text left over, or in the use of
    the read buffer of a connection whose chunk was too long. -/
def Ends (o : Out σ) : Prop :=
  (o.flow = .threw (.parseError leftOverText) ∧ o.conn.registered = true) ∨
    o.flow = .fault .readBuffer ∨ o.flow = .threw .outOfRange

theorem Ends.flow {o : Out σ} (ho : Ends o) : o.flow ≠ .next := by
  rcases ho with ⟨h, -⟩ | h | h <;> rw [h] <;> exact Flow.noConfusion

theorem Ends.andThen {o : Out σ} {k : Conn σ → Out σ} (hflow : o.flow = .next)
    (hk : Ends (k o.conn)) : Ends (o.andThen k) := by
  rw [Out.andThen_of_next hflow]
  exact hk

section Chunks

variable {h : Handler σ} {bufferSize : Nat}

/-- One pass over a good chunk hands over its lines. -/
theorem iteration_good {c : Conn σ} (hc : Ready c)
    (hk : KeepsLineMode h c.app (lines newline (c.input.take bufferSize)))
    (hgood : GoodChunk c.client.maxLineSize (c.input.take bufferSize)) :
    Handed h c (c.input.take bufferSize) (c.input.drop bufferSize) (iteration h bufferSize c) := by
  obtain ⟨h1, h2, h3, h4, h5, h6, h7⟩ := lineLoop_keepsLineMode h (c.input.take bufferSize)
    ((c.input.take bufferSize).length + 1) 0 (Nat.lt_succ_self _)
    { c with input := c.input.drop bufferSize, readBuffer := c.input.take bufferSize }
    hk hc.registered
  simp only [hgood.unfinished, List.length_nil, Nat.sub_zero, Nat.zero_add,
    List.drop_length] at h6
  simp only [iteration, hc.nextChunk, hc.readChunk, pass, handleChunk, hc.lineMode, hc.readBuffer,
    Bool.not_true, Bool.false_eq_true, if_false, List.length_nil, Nat.zero_add,
    Nat.not_lt.mpr hgood.2, List.nil_append]
  rw [Out.andThen_of_next h1, leftOver, touch_registered _ h3, Out.ret_andThen, if_pos h6,
    Out.ret_andThen, touch_registered _ h3]
  refine ⟨rfl, ?_, ⟨h3, by rw [Out.ret_conn, h5]; exact hc.lineMode, h6,
    by rw [Out.ret_conn, h5]; exact hc.maxRead⟩, h4, by rw [Out.ret_conn, h5], h7⟩
  simpa [messages] using h2

/-- One pass over any other chunk ends the loop. -/
theorem iteration_bad {c : Conn σ} (hc : Ready c)
    (hk : KeepsLineMode h c.app (lines newline (c.input.take bufferSize)))
    (hne : c.input.take bufferSize ≠ [])
    (hbad : ¬ GoodChunk c.client.maxLineSize (c.input.take bufferSize)) :
    Ends (iteration h bufferSize c) := by
  simp only [iteration, hc.nextChunk, hc.readChunk, pass, handleChunk, hc.lineMode, hc.readBuffer,
    Bool.not_true, Bool.false_eq_true, if_false, List.length_nil, Nat.zero_add,
    List.nil_append]
  by_cases hsize : c.client.maxLineSize < (c.input.take bufferSize).length
  · right
    rw [if_pos hsize, Out.andThen_of_next (Conn.perform_flow ..)]
    unfold removeDescriptor
    split
    · left
      rw [Out.andThen_of_next rfl]
      simp [leftOver, touch, Conn.remove, Out.andThen]
    · right
      rw [Out.andThen_of_ne_next (by simp)]
  · left
    have hunf : unfinished newline (c.input.take bufferSize) ≠ [] := by
      rw [ne_eq, unfinished_eq_nil_iff]
      rintro (h | h)
      · exact hne h
      · exact hbad ⟨h, by omega⟩
    obtain ⟨h1, -, h3, -, h5, h6, -⟩ := lineLoop_keepsLineMode h (c.input.take bufferSize)
      ((c.input.take bufferSize).length + 1) 0 (Nat.lt_succ_self _)
      { c with input := c.input.drop bufferSize, readBuffer := c.input.take bufferSize }
      hk hc.registered
    rw [Nat.zero_add, drop_lines] at h6
    rw [if_neg hsize, Out.andThen_of_next h1, leftOver, touch_registered _ h3, Out.ret_andThen,
      if_neg (by rw [h6]; exact hunf), if_pos (by rw [h5]; exact hc.lineMode),
      Out.andThen_of_ne_next (by simp)]
    exact ⟨rfl, h3⟩

/-- Where a good chunk ends, the lines of the input part. -/
theorem GoodChunk.lines_take {n : Nat} {input : Bytes}
    (hgood : GoodChunk n (input.take bufferSize)) :
    lines newline input =
      lines newline (input.take bufferSize) ++ lines newline (input.drop bufferSize) := by
  conv => lhs; rw [← List.take_append_drop bufferSize input, lines_append, hgood.unfinished]
  rfl

/-- Without a good chunk in front: the lines of the chunk come first all the same. -/
theorem keepsLineMode_take {s : σ} {input : Bytes}
    (hk : KeepsLineMode h s (lines newline input)) (n : Nat) :
    KeepsLineMode h s (lines newline (input.take n)) := by
  rw [← List.take_append_drop n input, lines_append, keepsLineMode_append] at hk
  exact hk.1

theorem GoodChunk.keepsLineMode_drop {n : Nat} {s : σ} {input : Bytes}
    (hgood : GoodChunk n (input.take bufferSize))
    (hk : KeepsLineMode h s (lines newline input)) :
    KeepsLineMode h (stateAfter h s (lines newline (input.take bufferSize)))
      (lines newline (input.drop bufferSize)) := by
  rw [hgood.lines_take, keepsLineMode_append] at hk
  exact hk.2

/-- The read loop over chunks that are all good hands over the lines of the input. -/
theorem readLoop_good (hbuf : 0 < bufferSize) (fuel : Nat) {c : Conn σ} (hc : Ready c)
    (hk : KeepsLineMode h c.app (lines newline c.input)) (hfuel : c.input.length ≤ fuel)
    (hgood : ∀ data ∈ chunks bufferSize c.input, GoodChunk c.client.maxLineSize data) :
    Handed h c c.input [] (readLoop h bufferSize fuel c) ∧ unfinished newline c.input = [] := by
  induction fuel generalizing c with
  | zero =>
    have hnil : c.input = [] := List.eq_nil_of_length_eq_zero (by omega)
    rw [readLoop, hnil]
    exact ⟨⟨rfl, rfl, hc, hnil, rfl, rfl⟩, rfl⟩
  | succ fuel ih =>
    by_cases hnil : c.input = []
    · rw [readLoop, hnil]
      exact ⟨⟨rfl, rfl, hc, hnil, rfl, rfl⟩, rfl⟩
    · have hpos := List.length_pos_of_ne_nil hnil
      rw [chunks_of_ne_nil hbuf hnil, List.forall_mem_cons] at hgood
      have hi := iteration_good hc (keepsLineMode_take hk bufferSize) hgood.1
      obtain ⟨hr, hunf⟩ := ih (c := (iteration h bufferSize c).conn) hi.ready
        (by rw [hi.app, hi.input]; exact hgood.1.keepsLineMode_drop hk)
        (by rw [hi.input, List.length_drop]; omega)
        (by rw [hi.input, hi.maxLineSize]; exact hgood.2)
      rw [readLoop, if_pos hpos, Out.andThen_of_next hi.returned]
      refine ⟨⟨hr.returned, ?_, hr.ready, hr.input, hr.maxLineSize.trans hi.maxLineSize, ?_⟩, ?_⟩
      · rw [messages_append, hi.messages, hr.messages, hi.input, hgood.1.lines_take]
      · rw [hr.app, hi.app, hi.input, hgood.1.lines_take, stateAfter_append]
      · rw [← List.take_append_drop bufferSize c.input, unfinished_append, hgood.1.unfinished,
          ← hi.input]
        exact hunf

/-- The read loop over input with another chunk does not fall through. -/
theorem readLoop_bad (hbuf : 0 < bufferSize) (fuel : Nat) {c : Conn σ} (hc : Ready c)
    (hk : KeepsLineMode h c.app (lines newline c.input)) (hfuel : c.input.length ≤ fuel)
    (hbad : ∃ data ∈ chunks bufferSize c.input, ¬ GoodChunk c.client.maxLineSize data) :
    Ends (readLoop h bufferSize fuel c) := by
  have hnil : c.input ≠ [] := by
    rintro h
    simp [h, chunks_nil] at hbad
  have hpos := List.length_pos_of_ne_nil hnil
  induction fuel generalizing c with
  | zero => omega
  | succ fuel ih =>
    rw [chunks_of_ne_nil hbuf hnil, List.exists_mem_cons_iff] at hbad
    rw [readLoop, if_pos hpos]
    by_cases hgood : GoodChunk c.client.maxLineSize (c.input.take bufferSize)
    · have hi := iteration_good hc (keepsLineMode_take hk bufferSize) hgood
      have hrest := hbad.resolve_left (not_not_intro hgood)
      have hnil' : c.input.drop bufferSize ≠ [] := by
        rintro h
        simp [h, chunks_nil] at hrest
      refine Ends.andThen hi.returned (ih hi.ready ?_ ?_ ?_ ?_ ?_)
      · rw [hi.app, hi.input]
        exact hgood.keepsLineMode_drop hk
      · rw [hi.input, List.length_drop]
        omega
      · rw [hi.input, hi.maxLineSize]
        exact hrest
      · rw [hi.input]
        exact hnil'
      · rw [hi.input]
        exact List.length_pos_of_ne_nil hnil'
    · have htake : c.input.take bufferSize ≠ [] := by
        rw [ne_eq, List.take_eq_nil_iff]
        rintro (h | h)
        · omega
        · exact hnil h
      have hends := iteration_bad hc (keepsLineMode_take hk bufferSize) htake hgood
      rw [Out.andThen_of_ne_next hends.flow]
      exact hends

end Chunks

/-! ## Runs of reads -/

/-- `handleRead` returned after each read and has handed over exactly the lines of `stream`; the
    connection is there, and what follows the last line waits in its read buffer. -/
structure HandsOverLines (stream : Bytes) (o : Out σ) : Prop where
  returned : o.flow = .next
  messages : messages o.trace = lines newline stream
  readBuffer : o.conn.readBuffer = unfinished newline stream
  registered : o.conn.registered = true

section Run

variable {h : Handler σ} {bufferSize : Nat} (hbuf : 0 < bufferSize)
include hbuf

theorem onEvent_good {c : Conn σ} (hc : Ready c) (hin : c.input = []) (data : Bytes)
    (hk : KeepsLineMode h c.app (lines newline data))
    (hgood : ∀ chunk ∈ chunks bufferSize data, GoodChunk c.client.maxLineSize chunk) :
    Handed h c data [] (onEvent h bufferSize c (.readable data)) ∧
      unfinished newline data = [] := by
  have hc' : Ready { c with input := data } :=
    ⟨hc.registered, hc.lineMode, hc.readBuffer, hc.maxRead⟩
  obtain ⟨hr, hunf⟩ := readLoop_good hbuf data.length hc' hk (Nat.le_refl _) hgood
  rw [onEvent, handleRead, hin, List.nil_append, catchRuntimeError_of_next hr.returned]
  exact ⟨⟨hr.returned, hr.messages, hr.ready, hr.input, hr.maxLineSize, hr.app⟩, hunf⟩

theorem onEvent_bad {c : Conn σ} (hc : Ready c) (hin : c.input = []) (data : Bytes)
    (hk : KeepsLineMode h c.app (lines newline data))
    (hbad : ∃ chunk ∈ chunks bufferSize data, ¬ GoodChunk c.client.maxLineSize chunk) :
    let o := onEvent h bufferSize c (.readable data)
    o.flow ≠ .next ∨ o.conn.registered = false := by
  have hc' : Ready { c with input := data } :=
    ⟨hc.registered, hc.lineMode, hc.readBuffer, hc.maxRead⟩
  have hends := readLoop_bad hbuf data.length hc' hk (Nat.le_refl _) hbad
  rw [onEvent, handleRead, hin, List.nil_append]
  rcases hends with ⟨hflow, hreg⟩ | hflow | hflow
  · right
    rw [catchRuntimeError_of_threw hflow rfl hreg]
    rfl
  · left
    rw [catchRuntimeError_of_fault hflow, hflow]
    exact Flow.noConfusion
  · left
    rw [catchRuntimeError_of_uncaught hflow rfl, hflow]
    exact Flow.noConfusion

theorem run_good (reads : List Bytes) {c : Conn σ} (hc : Ready c) (hin : c.input = [])
    (hk : KeepsLineMode h c.app (lines newline reads.flatten))
    (hgood : ∀ data ∈ reads, ∀ chunk ∈ chunks bufferSize data,
      GoodChunk c.client.maxLineSize chunk) :
    HandsOverLines reads.flatten (run h bufferSize (reads.map .readable) c) := by
  induction reads generalizing c with
  | nil => exact ⟨rfl, rfl, hc.readBuffer, hc.registered⟩
  | cons data reads ih =>
    rw [List.forall_mem_cons] at hgood
    rw [List.flatten_cons, lines_append, keepsLineMode_append] at hk
    obtain ⟨he, hunf⟩ := onEvent_good hbuf hc hin data hk.1 hgood.1
    have hr := ih he.ready he.input (by rw [he.app]; rw [hunf, List.nil_append] at hk; exact hk.2)
      (by rw [he.maxLineSize]; exact hgood.2)
    rw [List.map_cons, run, if_pos hc.registered, Out.andThen_of_next he.returned]
    refine ⟨hr.returned, ?_, ?_, hr.registered⟩
    · rw [messages_append, he.messages, hr.messages, List.flatten_cons, lines_append, hunf,
        List.nil_append]
    · rw [hr.readBuffer, List.flatten_cons, unfinished_append, hunf, List.nil_append]

theorem run_bad (reads : List Bytes) {c : Conn σ} (hc : Ready c) (hin : c.input = [])
    (hk : KeepsLineMode h c.app (lines newline reads.flatten))
    (hbad : ∃ data ∈ reads, ∃ chunk ∈ chunks bufferSize data,
      ¬ GoodChunk c.client.maxLineSize chunk) :
    let o := run h bufferSize (reads.map .readable) c
    o.flow ≠ .next ∨ o.conn.registered = false := by
  induction reads generalizing c with
  | nil => simp at hbad
  | cons data reads ih =>
    rw [List.flatten_cons, lines_append, keepsLineMode_append] at hk
    rw [List.map_cons, run, if_pos hc.registered]
    by_cases hgood : ∀ chunk ∈ chunks bufferSize data, GoodChunk c.client.maxLineSize chunk
    · obtain ⟨he, hunf⟩ := onEvent_good hbuf hc hin data hk.1 hgood
      rw [List.exists_mem_cons_iff] at hbad
      have hrest := hbad.resolve_left (by push Not; exact hgood)
      rw [Out.andThen_of_next he.returned]
      exact ih he.ready he.input
        (by rw [he.app]; rw [hunf, List.nil_append] at hk; exact hk.2)
        (by rw [he.maxLineSize]; exact hrest)
    · push Not at hgood
      rcases onEvent_bad hbuf hc hin data hk.1 hgood with hflow | hreg
      · rw [Out.andThen_of_ne_next hflow]
        exact Or.inl hflow
      · by_cases hflow : (onEvent h bufferSize c (.readable data)).flow = .next
        · rw [Out.andThen_of_next hflow, run_unregistered h bufferSize _ hreg]
          exact Or.inr hreg
        · rw [Out.andThen_of_ne_next hflow]
          exact Or.inl hflow

/-- For every stream and every way of cutting it into reads: the lines are handed over and the
    connection stays, if and only if every chunk of every read ends in a newline and is no
    longer than `maxLineSize`. -/
theorem handsOverLines_iff (reads : List Bytes) {c : Conn σ} (hc : Ready c)
    (hin : c.input = []) (hk : KeepsLineMode h c.app (lines newline reads.flatten)) :
    HandsOverLines reads.flatten (run h bufferSize (reads.map .readable) c) ↔
      ∀ data ∈ reads, ∀ chunk ∈ chunks bufferSize data,
        GoodChunk c.client.maxLineSize chunk := by
  refine ⟨fun ho => ?_, run_good hbuf reads hc hin hk⟩
  by_contra hbad
  push Not at hbad
  rcases run_bad hbuf reads hc hin hk hbad with hflow | hreg
  · exact hflow ho.returned
  · rw [ho.registered] at hreg
    exact Bool.noConfusion hreg

end Run

theorem silent_keepsLineMode (ms : List Bytes) : KeepsLineMode silent () ms := by
  induction ms with
  | nil => trivial
  | cons message ms ih => exact ⟨⟨by simp [silent], by simp [silent], rfl, rfl⟩, ih⟩

theorem connected_ready (maxLineSize : Nat) : Ready (connected maxLineSize) :=
  ⟨rfl, rfl, rfl, rfl⟩

/-- A request line that arrives in one read. -/
theorem handsOverLines_iff_oneRead :
    HandsOverLines [ascii "GET / HTTP/1.1\n"].flatten
        (run silent 1024 ([ascii "GET / HTTP/1.1\n"].map .readable) (connected 8192)) ↔
      ∀ data ∈ [ascii "GET / HTTP/1.1\n"], ∀ chunk ∈ chunks 1024 data,
        GoodChunk (connected 8192).client.maxLineSize chunk :=
  handsOverLines_iff (by decide) _ (connected_ready 8192) rfl (silent_keepsLineMode _)

/-- The same line in two reads: no line is longer than `maxLineSize`, and the connection is
    removed for the `ParseError` after the first read. -/
theorem not_handsOverLines_twoReads :
    (∀ line ∈ lines newline [ascii "GET / HT", ascii "TP/1.1\n"].flatten, line.length ≤ 8192) ∧
      KeepsLineMode silent () (lines newline [ascii "GET / HT", ascii "TP/1.1\n"].flatten) ∧
      ¬ HandsOverLines [ascii "GET / HT", ascii "TP/1.1\n"].flatten
        (run silent 1024 ([ascii "GET / HT", ascii "TP/1.1\n"].map .readable)
          (connected 8192)) := by
  refine ⟨by decide, silent_keepsLineMode _, fun ho => ?_⟩
  have hremoved : (run silent 1024 ([ascii "GET / HT", ascii "TP/1.1\n"].map .readable)
      (connected 8192)).conn.registered = false := by decide
  rw [ho.registered] at hremoved
  exact Bool.noConfusion hremoved

end Algiz.Net
