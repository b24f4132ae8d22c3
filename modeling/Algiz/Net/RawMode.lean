/-
  Raw mode: what becomes of the bytes of a stream when a handler leaves line mode.

  A call made in line mode accounts for its message and the newline after it (`lineText`), a call
  made in raw mode for its message alone (`rawBytes`). `Hands` says of a section that it accounts
  for what it takes off the front of the bytes still to come, and it is the induction invariant
  of every loop. A connection that lives through its events has handed over the rest of the
  stream unchanged exactly when no handler call leaves line mode with a newline among the bytes
  that the line loop still holds (`rawBytes_eq_iff`): the line loop goes on cutting at newlines
  after the switch, and each newline it cuts at is dropped.
-/
import Algiz.Lib.Lines
import Algiz.Net.HandleRead

namespace Algiz.Net

open Algiz.Lib

variable {σ : Type*}

/-! ## The bytes a trace accounts for -/

/-- The stream text of the calls made in line mode. -/
def lineText (t : List (Step σ)) : Bytes :=
  t.flatMap fun
    | .call before message _ => if before.client.lineMode then message ++ [newline] else []
    | .chunk _ _ | .act _ _ => []

/-- The messages of the calls made after line mode was left, joined. -/
def rawBytes (t : List (Step σ)) : Bytes :=
  t.flatMap fun
    | .call before message _ => if before.client.lineMode then [] else message
    | .chunk _ _ | .act _ _ => []

/-- How far into the stream the lines reach. -/
def lineBytes (t : List (Step σ)) : Nat := (lineText t).length

/-- The step does not leave line mode while the line loop holds another newline. -/
def LeavesCleanly (h : Handler σ) : Step σ → Prop
  | .call before message rest =>
    before.client.lineMode = true →
      .leaveLineMode ∈ (h.handleMessage before.app message).acts → newline ∉ rest
  | .chunk _ _ | .act _ _ => True

/-- Line mode is left with no newline in hand. -/
def Clean (h : Handler σ) (t : List (Step σ)) : Prop := ∀ s ∈ t, LeavesCleanly h s

instance (h : Handler σ) : DecidablePred (LeavesCleanly h)
  | .call before message rest => inferInstanceAs (Decidable (before.client.lineMode = true →
      .leaveLineMode ∈ (h.handleMessage before.app message).acts → newline ∉ rest))
  | .chunk _ _ | .act _ _ => isTrue trivial

instance (h : Handler σ) (t : List (Step σ)) : Decidable (Clean h t) :=
  inferInstanceAs (Decidable (∀ s ∈ t, LeavesCleanly h s))

@[simp] theorem lineText_nil : lineText ([] : List (Step σ)) = [] := rfl

@[simp] theorem rawBytes_nil : rawBytes ([] : List (Step σ)) = [] := rfl

theorem clean_nil (h : Handler σ) : Clean h [] := by
  intro s hs
  exact absurd hs List.not_mem_nil

theorem lineText_append (s t : List (Step σ)) : lineText (s ++ t) = lineText s ++ lineText t :=
  List.flatMap_append

theorem rawBytes_append (s t : List (Step σ)) : rawBytes (s ++ t) = rawBytes s ++ rawBytes t :=
  List.flatMap_append

theorem clean_append (h : Handler σ) (s t : List (Step σ)) :
    Clean h (s ++ t) ↔ Clean h s ∧ Clean h t := by
  unfold Clean
  constructor
  · intro hall
    exact ⟨fun x hx => hall x (List.mem_append_left t hx),
      fun x hx => hall x (List.mem_append_right s hx)⟩
  · intro hall x hx
    rcases List.mem_append.mp hx with hx | hx
    · exact hall.1 x hx
    · exact hall.2 x hx

theorem perform_accounts (h : Handler σ) (as : List Act) (c : Conn σ) :
    lineText (Conn.perform as c).trace = [] ∧ rawBytes (Conn.perform as c).trace = [] ∧
      Clean h (Conn.perform as c).trace := by
  induction as generalizing c with
  | nil => exact ⟨rfl, rfl, clean_nil h⟩
  | cons a as ih =>
    obtain ⟨htext, hraw, hclean⟩ := ih (c.act a)
    refine ⟨htext, hraw, ?_⟩
    intro s hs
    rw [Conn.perform_cons_trace] at hs
    rcases List.mem_cons.mp hs with rfl | hs
    · exact trivial
    · exact hclean s hs

theorem lineText_handleMessage (h : Handler σ) (message rest : Bytes) (c : Conn σ) :
    lineText (handleMessage h message rest c).trace =
      if c.client.lineMode then message ++ [newline] else [] := by
  have hperform := (perform_accounts h (h.handleMessage c.app message).acts
    { c with app := (h.handleMessage c.app message).state }).1
  unfold lineText at hperform
  simp only [handleMessage, lineText, List.flatMap_cons, hperform, List.append_nil]

theorem rawBytes_handleMessage (h : Handler σ) (message rest : Bytes) (c : Conn σ) :
    rawBytes (handleMessage h message rest c).trace =
      if c.client.lineMode then [] else message := by
  have hperform := (perform_accounts h (h.handleMessage c.app message).acts
    { c with app := (h.handleMessage c.app message).state }).2.1
  unfold rawBytes at hperform
  simp only [handleMessage, rawBytes, List.flatMap_cons, hperform, List.append_nil]

theorem clean_handleMessage (h : Handler σ) (message rest : Bytes) (c : Conn σ) :
    Clean h (handleMessage h message rest c).trace ↔
      LeavesCleanly h (.call c message rest) := by
  have hperform := (perform_accounts h (h.handleMessage c.app message).acts
    { c with app := (h.handleMessage c.app message).state }).2.2
  constructor
  · intro hall
    exact hall _ List.mem_cons_self
  · intro hcall s hs
    rcases List.mem_cons.mp hs with rfl | hs
    · exact hcall
    · exact hperform s hs

/-- What the acts make of the line mode of a connection that outlives them. -/
theorem perform_lineMode {as : List Act} {c : Conn σ}
    (hreg : (Conn.perform as c).conn.registered = true) :
    (Conn.perform as c).conn.client.lineMode =
      (c.client.lineMode && decide (.leaveLineMode ∉ as)) := by
  induction as generalizing c with
  | nil => simp
  | cons a as ih =>
    rw [Conn.perform_cons_conn] at hreg ⊢
    have hact : (c.act a).registered = true := by
      by_contra hnot
      rw [Bool.not_eq_true] at hnot
      rw [Conn.perform_unregistered hnot, hnot] at hreg
      exact Bool.noConfusion hreg
    have hc : c.registered = true := by
      by_contra hnot
      rw [Bool.not_eq_true] at hnot
      rw [Conn.act_unregistered hnot, hnot] at hact
      exact Bool.noConfusion hact
    rw [ih hreg]
    cases a with
    | send data => simp [Conn.act_send hc]
    | setMaxRead n => simp [Conn.act_setMaxRead hc]
    | leaveLineMode => simp [Conn.act_leaveLineMode hc]
    | close =>
      have hclient : c.queueClose.client = c.client := by
        unfold Conn.queueClose
        split <;> rfl
      simp [Conn.act_close hc, hclient]

theorem handleMessage_lineMode {h : Handler σ} {message rest : Bytes} {c : Conn σ}
    (hreg : (handleMessage h message rest c).conn.registered = true) :
    (handleMessage h message rest c).conn.client.lineMode =
      (c.client.lineMode &&
        decide (.leaveLineMode ∉ (h.handleMessage c.app message).acts)) :=
  perform_lineMode hreg

/-! ## Sections -/

/-- `o` takes the bytes `before` down to `after` and accounts for what it took: exactly, or with
    a byte missing if line mode was not left cleanly. -/
structure Hands (h : Handler σ) (c : Conn σ) (before : Bytes) (o : Out σ) (after : Bytes) :
    Prop where
  stays : c.client.lineMode = false → o.conn.client.lineMode = false
  text : c.client.lineMode = false → lineText o.trace = []
  raw : o.conn.client.lineMode = true → rawBytes o.trace = []
  exact : Clean h o.trace → before = lineText o.trace ++ rawBytes o.trace ++ after
  short : ¬ Clean h o.trace →
    (lineText o.trace).length + (rawBytes o.trace).length + after.length < before.length

section Hands

variable {h : Handler σ} {c : Conn σ} {before after : Bytes} {o : Out σ}

theorem Hands.length_le (hh : Hands h c before o after) :
    (lineText o.trace).length + (rawBytes o.trace).length + after.length ≤ before.length := by
  by_cases hclean : Clean h o.trace
  · have hlen := congrArg List.length (hh.exact hclean)
    simp only [List.length_append] at hlen
    omega
  · exact Nat.le_of_lt (hh.short hclean)

/-- A section with nothing in its trace and the client's mode as it was. -/
theorem Hands.ret (c c' : Conn σ) (hmode : c'.client.lineMode = c.client.lineMode)
    (bytes : Bytes) : Hands h c bytes (.ret c') bytes :=
  ⟨fun hraw => hmode.trans hraw, fun _ => rfl, fun _ => rfl, fun _ => rfl,
    fun hnot => absurd (clean_nil h) hnot⟩

theorem Hands.frame (hh : Hands h c before o after) (later : Bytes) :
    Hands h c (before ++ later) o (after ++ later) := by
  refine ⟨hh.stays, hh.text, hh.raw, fun hclean => ?_, fun hnot => ?_⟩
  · rw [← List.append_assoc, ← hh.exact hclean]
  · have := hh.short hnot
    simp only [List.length_append]
    omega

/-- Sections in sequence. -/
theorem Hands.andThen {k : Conn σ → Out σ} {between : Bytes} (hflow : o.flow = .next)
    (hfirst : Hands h c before o between) (hsecond : Hands h o.conn between (k o.conn) after) :
    Hands h c before (o.andThen k) after := by
  rw [Out.andThen_of_next hflow]
  constructor
  · intro hraw
    exact hsecond.stays (hfirst.stays hraw)
  · intro hraw
    show lineText (o.trace ++ (k o.conn).trace) = []
    rw [lineText_append, hfirst.text hraw, hsecond.text (hfirst.stays hraw)]
    rfl
  · intro hline
    have hmode : o.conn.client.lineMode = true := by
      by_contra hnot
      rw [Bool.not_eq_true] at hnot
      have hback := hsecond.stays hnot
      rw [show (k o.conn).conn.client.lineMode = true from hline] at hback
      exact Bool.noConfusion hback
    show rawBytes (o.trace ++ (k o.conn).trace) = []
    rw [rawBytes_append, hfirst.raw hmode, hsecond.raw hline]
    rfl
  · intro hclean
    obtain ⟨hclean₁, hclean₂⟩ := (clean_append h _ _).mp hclean
    show before = lineText (o.trace ++ (k o.conn).trace) ++
      rawBytes (o.trace ++ (k o.conn).trace) ++ after
    rw [lineText_append, rawBytes_append]
    have h₁ := hfirst.exact hclean₁
    have h₂ := hsecond.exact hclean₂
    -- either nothing raw came first, or no line comes second
    cases hmode : o.conn.client.lineMode with
    | true =>
      rw [hfirst.raw hmode, List.append_nil] at h₁
      rw [hfirst.raw hmode, List.nil_append, h₁, h₂]
      simp only [List.append_assoc]
    | false =>
      rw [hsecond.text hmode, List.nil_append] at h₂
      rw [hsecond.text hmode, List.append_nil, h₁, h₂]
      simp only [List.append_assoc]
  · intro hnot
    show (lineText (o.trace ++ (k o.conn).trace)).length +
      (rawBytes (o.trace ++ (k o.conn).trace)).length + after.length < before.length
    rw [lineText_append, rawBytes_append, List.length_append, List.length_append]
    have h₁ := hfirst.length_le
    have h₂ := hsecond.length_le
    by_cases hclean₁ : Clean h o.trace
    · have hnot₂ : ¬ Clean h (k o.conn).trace := fun hclean₂ =>
        hnot ((clean_append h _ _).mpr ⟨hclean₁, hclean₂⟩)
      have := hsecond.short hnot₂
      omega
    · have := hfirst.short hclean₁
      omega

end Hands

/-- A call made in raw mode. -/
theorem handleMessage_hands_raw (h : Handler σ) (message : Bytes) {c : Conn σ}
    (hraw : c.client.lineMode = false)
    (hreg : (handleMessage h message [] c).conn.registered = true) :
    Hands h c message (handleMessage h message [] c) [] := by
  have hmode := handleMessage_lineMode hreg
  rw [hraw, Bool.false_and] at hmode
  have htext := lineText_handleMessage h message [] c
  have hbytes := rawBytes_handleMessage h message [] c
  simp only [hraw, Bool.false_eq_true, if_false] at htext hbytes
  have hclean : Clean h (handleMessage h message [] c).trace := by
    rw [clean_handleMessage]
    intro hline
    rw [hraw] at hline
    exact Bool.noConfusion hline
  refine ⟨fun _ => hmode, fun _ => htext, fun hline => ?_, fun _ => ?_,
    fun hnot => absurd hclean hnot⟩
  · rw [hmode] at hline
    exact Bool.noConfusion hline
  · rw [htext, hbytes, List.nil_append, List.append_nil]

/-! ## The line loop -/

/-- A connection that the erasure leaves registered was registered before it. -/
theorem registered_of_eraseFront {toErase : Nat} {c : Conn σ}
    (hreg : (eraseFront toErase c).conn.registered = true) : c.registered = true := by
  by_contra hnot
  rw [Bool.not_eq_true] at hnot
  unfold eraseFront at hreg
  split at hreg
  · simp [touch, hnot, Out.andThen] at hreg
  · rw [Out.ret_conn, hnot] at hreg
    exact Bool.noConfusion hreg

/-- A line of the loop, in a loop that falls through with the connection registered: the call
    falls through too, and the loop goes on with the rest. -/
theorem lineLoop_goes_on {h : Handler σ} {fuel : Nat} {line : Bytes} (hline : newline ∉ line)
    {rest : Bytes} {toErase : Nat} {c : Conn σ}
    (hflow : (lineLoop h (fuel + 1) (line ++ newline :: rest) toErase c).flow = .next)
    (hreg : (lineLoop h (fuel + 1) (line ++ newline :: rest) toErase c).conn.registered = true) :
    (handleMessage h line rest c).flow = .next ∧
      (handleMessage h line rest c).conn.registered = true ∧
      lineLoop h (fuel + 1) (line ++ newline :: rest) toErase c =
        (handleMessage h line rest c).andThen
          (lineLoop h fuel rest (toErase + (line.length + 1))) := by
  rw [lineLoop_line h fuel hline] at hflow hreg ⊢
  by_cases hcall : (handleMessage h line rest c).flow = .next
  · rw [Out.andThen_of_next hcall] at hflow hreg
    cases hconn : (handleMessage h line rest c).conn.registered with
    | true =>
      refine ⟨hcall, rfl, ?_⟩
      rw [Out.andThen_of_next hcall, Out.andThen_of_next hcall, if_pos hconn]
    | false =>
      rw [if_neg (by rw [hconn]; exact Bool.noConfusion)] at hreg
      have := registered_of_eraseFront hreg
      rw [hconn] at this
      exact Bool.noConfusion this
  · rw [Out.andThen_of_ne_next hcall] at hflow
    exact absurd hflow hcall

/-- After the switch the loop goes on cutting: it hands over the lines of its view without their
    newlines. -/
theorem lineLoop_raw (h : Handler σ) (view : Bytes) (fuel toErase : Nat)
    (hfuel : view.length < fuel) (c : Conn σ) (hraw : c.client.lineMode = false)
    (hflow : (lineLoop h fuel view toErase c).flow = .next)
    (hreg : (lineLoop h fuel view toErase c).conn.registered = true) :
    (lineLoop h fuel view toErase c).conn.client.lineMode = false ∧
      lineText (lineLoop h fuel view toErase c).trace = [] ∧
      rawBytes (lineLoop h fuel view toErase c).trace = (lines newline view).flatten ∧
      Clean h (lineLoop h fuel view toErase c).trace ∧
      (lineLoop h fuel view toErase c).conn.readBuffer =
        c.readBuffer.drop (toErase + (view.length - (unfinished newline view).length)) := by
  induction view using lineInduction newline generalizing fuel toErase c with
  | tail view hview =>
    obtain ⟨fuel, rfl⟩ : ∃ k, fuel = k + 1 := ⟨fuel - 1, by omega⟩
    rw [lineLoop_tail h fuel hview] at hflow hreg ⊢
    rw [eraseFront_registered toErase (registered_of_eraseFront hreg),
      lines_of_not_mem _ hview, unfinished_of_not_mem _ hview, Nat.sub_self]
    exact ⟨hraw, rfl, rfl, clean_nil h, rfl⟩
  | line line rest hline ih =>
    obtain ⟨fuel, rfl⟩ : ∃ k, fuel = k + 1 := ⟨fuel - 1, by omega⟩
    obtain ⟨hcall, hconn, heq⟩ := lineLoop_goes_on hline hflow hreg
    rw [heq, Out.andThen_of_next hcall] at hflow hreg
    simp only [List.length_append, List.length_cons] at hfuel
    have hmode := handleMessage_lineMode hconn
    rw [hraw, Bool.false_and] at hmode
    obtain ⟨h1, h2, h3, h4, h5⟩ :=
      ih fuel (toErase + (line.length + 1)) (by omega) _ hmode hflow hreg
    have htext := lineText_handleMessage h line rest c
    have hbytes := rawBytes_handleMessage h line rest c
    simp only [hraw, Bool.false_eq_true, if_false] at htext hbytes
    have hle := length_unfinished_le newline rest
    rw [heq, Out.andThen_of_next hcall]
    refine ⟨h1, ?_, ?_, ?_, ?_⟩
    · show lineText (_ ++ _) = []
      rw [lineText_append, htext, h2]
      rfl
    · show rawBytes (_ ++ _) = _
      rw [rawBytes_append, hbytes, h3, lines_line _ hline]
      rfl
    · refine (clean_append h _ _).mpr ⟨(clean_handleMessage h line rest c).mpr ?_, h4⟩
      intro hback
      rw [hraw] at hback
      exact Bool.noConfusion hback
    · show (lineLoop h fuel rest _ _).conn.readBuffer = _
      rw [h5, handleMessage_readBuffer, unfinished_line _ hline]
      congr 1
      simp only [List.length_append, List.length_cons]
      omega

/-- The loop accounts for its view: it ends with what is left of it in the read buffer. -/
theorem lineLoop_hands (h : Handler σ) (view : Bytes) (fuel toErase : Nat)
    (hfuel : view.length < fuel) (c : Conn σ) (hline : c.client.lineMode = true)
    (hview : c.readBuffer.drop toErase = view)
    (hflow : (lineLoop h fuel view toErase c).flow = .next)
    (hreg : (lineLoop h fuel view toErase c).conn.registered = true) :
    Hands h c view (lineLoop h fuel view toErase c)
      (lineLoop h fuel view toErase c).conn.readBuffer := by
  induction view using lineInduction newline generalizing fuel toErase c with
  | tail view hmem =>
    obtain ⟨fuel, rfl⟩ : ∃ k, fuel = k + 1 := ⟨fuel - 1, by omega⟩
    rw [lineLoop_tail h fuel hmem] at hflow hreg ⊢
    rw [eraseFront_registered toErase (registered_of_eraseFront hreg)]
    rw [← hview]
    exact Hands.ret c { c with readBuffer := c.readBuffer.drop toErase } rfl _
  | line line rest hmem ih =>
    obtain ⟨fuel, rfl⟩ : ∃ k, fuel = k + 1 := ⟨fuel - 1, by omega⟩
    obtain ⟨hcall, hconn, heq⟩ := lineLoop_goes_on hmem hflow hreg
    rw [heq, Out.andThen_of_next hcall] at hflow hreg
    simp only [List.length_append, List.length_cons] at hfuel
    have hmode := handleMessage_lineMode hconn
    rw [hline, Bool.true_and] at hmode
    have htext := lineText_handleMessage h line rest c
    have hbytes := rawBytes_handleMessage h line rest c
    simp only [hline, if_true] at htext hbytes
    have hview' : (handleMessage h line rest c).conn.readBuffer.drop
        (toErase + (line.length + 1)) = rest := by
      rw [handleMessage_readBuffer, ← List.drop_drop, hview, ← List.drop_drop, List.drop_left]
      rfl
    rw [heq]
    cases hafter : (handleMessage h line rest c).conn.client.lineMode with
    | true =>
      -- still in line mode: the call accounts for its line, the loop for the rest
      have hstay : .leaveLineMode ∉ (h.handleMessage c.app line).acts := by
        rw [hafter] at hmode
        exact of_decide_eq_true hmode.symm
      have hfirst : Hands h c (line ++ newline :: rest) (handleMessage h line rest c) rest := by
        refine ⟨fun hraw => ?_, fun hraw => ?_, fun _ => hbytes, fun _ => ?_, fun hnot => ?_⟩
        · rw [hline] at hraw
          exact Bool.noConfusion hraw
        · rw [hline] at hraw
          exact Bool.noConfusion hraw
        · rw [htext, hbytes, List.append_nil, List.append_assoc]
          rfl
        · rw [clean_handleMessage] at hnot
          exact absurd (fun _ hmem => absurd hmem hstay) hnot
      have hsecond := ih fuel (toErase + (line.length + 1)) (by omega) _ hafter hview' hflow hreg
      have hboth := Hands.andThen hcall hfirst hsecond
      rw [Out.andThen_of_next hcall] at hboth ⊢
      exact hboth
    | false =>
      -- the switch: the loop drops the newlines of the rest
      have hleave : .leaveLineMode ∈ (h.handleMessage c.app line).acts := by
        rw [hafter] at hmode
        exact not_not.mp (of_decide_eq_false hmode.symm)
      obtain ⟨h1, h2, h3, hcleanLoop, h4⟩ := lineLoop_raw h rest fuel
        (toErase + (line.length + 1)) (by omega) _ hafter hflow hreg
      rw [← List.drop_drop, hview', drop_lines] at h4
      have hclean : Clean h ((handleMessage h line rest c).trace ++
          (lineLoop h fuel rest (toErase + (line.length + 1))
            (handleMessage h line rest c).conn).trace) ↔ newline ∉ rest := by
        rw [clean_append, clean_handleMessage]
        constructor
        · intro hall
          exact hall.1 hline hleave
        · intro hrest
          exact ⟨fun _ _ => hrest, hcleanLoop⟩
      rw [Out.andThen_of_next hcall]
      refine ⟨fun _ => h1, fun hraw => ?_, fun hback => ?_, fun hall => ?_, fun hnot => ?_⟩
      · rw [hline] at hraw
        exact Bool.noConfusion hraw
      · rw [show _ = false from h1] at hback
        exact Bool.noConfusion hback
      · have hrest := hclean.mp hall
        show _ = lineText (_ ++ _) ++ rawBytes (_ ++ _) ++ _
        rw [lineText_append, rawBytes_append, htext, hbytes, h2, h3, h4,
          lines_of_not_mem _ hrest, unfinished_of_not_mem _ hrest]
        simp
      · have hrest : lines newline rest ≠ [] := by
          rw [ne_eq, lines_eq_nil_iff]
          exact fun hmem => hnot (hclean.mpr hmem)
        have hpos := List.length_pos_of_ne_nil hrest
        have hlen := length_lines newline rest
        show (lineText (_ ++ _)).length + (rawBytes (_ ++ _)).length + _ < _
        rw [lineText_append, rawBytes_append, htext, hbytes, h2, h3, h4]
        simp only [List.length_append, List.length_cons, List.length_nil]
        omega

/-! ## Chunks, reads and runs -/

theorem not_next_of_unregistered {c : Conn σ} (h : Handler σ) (hreg : c.registered = false) :
    (leftOver h c).flow ≠ .next := by
  rw [leftOver]
  simp [touch, hreg, Out.andThen]

/-- A chunk, handled on a connection that has nothing left over in line mode. -/
theorem handleChunk_hands (h : Handler σ) (data : Bytes) {c : Conn σ}
    (hbuffer : c.client.lineMode = true → c.readBuffer = [])
    (hflow : (handleChunk h data c).flow = .next)
    (hreg : (handleChunk h data c).conn.registered = true) :
    Hands h c data (handleChunk h data c) (handleChunk h data c).conn.readBuffer := by
  unfold handleChunk at hflow hreg ⊢
  cases hline : c.client.lineMode with
  | false =>
    simp only [hline, Bool.not_false, if_true] at hflow hreg ⊢
    by_cases hcall : (handleMessage h data [] c).flow = .next
    · rw [Out.andThen_of_next hcall] at hflow hreg
      cases hconn : (handleMessage h data [] c).conn.registered with
      | true =>
        refine Hands.andThen hcall (handleMessage_hands_raw h data hline hconn) ?_
        rw [Out.andThen_of_next hcall, touch_registered _ hconn, Out.ret_andThen]
        exact Hands.ret (handleMessage h data [] c).conn
          { (handleMessage h data [] c).conn with readBuffer := [] } rfl []
      | false => simp [touch, hconn, Out.andThen] at hflow
    · rw [Out.andThen_of_ne_next hcall] at hflow
      exact absurd hflow hcall
  | true =>
    simp only [hline, Bool.not_true, Bool.false_eq_true, if_false, hbuffer hline,
      List.nil_append] at hflow hreg ⊢
    by_cases hsize : c.client.maxLineSize < ([] : Bytes).length + data.length
    · rw [if_pos hsize, Out.andThen_of_next (Conn.perform_flow ..)] at hreg
      unfold removeDescriptor at hreg
      dsimp only at hreg
      split at hreg
      · exact Bool.noConfusion hreg
      · rename_i hnot
        exact absurd hreg hnot
    · rw [if_neg hsize] at hflow hreg ⊢
      have hloop := lineLoop_hands h data (data.length + 1) 0 (Nat.lt_succ_self _)
        { c with readBuffer := data } hline List.drop_zero hflow hreg
      exact ⟨hloop.stays, hloop.text, hloop.raw, hloop.exact, hloop.short⟩

/-- What is left over is handed over raw, or ends the loop. -/
theorem leftOver_hands (h : Handler σ) {c : Conn σ} (hflow : (leftOver h c).flow = .next)
    (hreg : (leftOver h c).conn.registered = true) :
    Hands h c c.readBuffer (leftOver h c) [] ∧
      ((leftOver h c).conn.client.lineMode = true → (leftOver h c).conn.readBuffer = []) := by
  have hc : c.registered = true := by
    by_contra hnot
    rw [Bool.not_eq_true] at hnot
    exact not_next_of_unregistered h hnot hflow
  rw [leftOver, touch_registered _ hc, Out.ret_andThen] at hflow hreg ⊢
  by_cases hnil : c.readBuffer = []
  · rw [if_pos hnil] at hflow hreg ⊢
    rw [hnil]
    exact ⟨Hands.ret _ _ rfl [], fun _ => hnil⟩
  · rw [if_neg hnil] at hflow hreg ⊢
    cases hline : c.client.lineMode with
    | true => simp [hline] at hflow
    | false =>
      simp only [hline, Bool.false_eq_true, if_false] at hflow hreg ⊢
      have hhands := handleMessage_hands_raw h c.readBuffer hline hreg
      refine ⟨hhands, fun hback => ?_⟩
      rw [hhands.stays hline] at hback
      exact Bool.noConfusion hback

/-- Between two passes: in line mode nothing is left over. -/
def NothingLeft (c : Conn σ) : Prop := c.client.lineMode = true → c.readBuffer = []

/-- A pass, from the chunk on. -/
theorem pass_hands (h : Handler σ) (data : Bytes) {c : Conn σ} (hc : NothingLeft c)
    (hflow : (pass h data c).flow = .next) :
    Hands h c data (pass h data c) [] ∧ NothingLeft (pass h data c).conn := by
  unfold pass at hflow ⊢
  by_cases hchunk : (handleChunk h data c).flow = .next
  · rw [Out.andThen_of_next hchunk] at hflow
    change ((leftOver h _).andThen (touch .input)).flow = .next at hflow
    have hreg₁ : (handleChunk h data c).conn.registered = true := by
      by_contra hnot
      rw [Bool.not_eq_true] at hnot
      have hleft := not_next_of_unregistered h hnot
      rw [Out.andThen_of_ne_next hleft] at hflow
      exact hleft hflow
    by_cases hleft : (leftOver h (handleChunk h data c).conn).flow = .next
    · rw [Out.andThen_of_next hleft] at hflow
      change (touch .input (leftOver h (handleChunk h data c).conn).conn).flow = .next at hflow
      have hreg₂ : (leftOver h (handleChunk h data c).conn).conn.registered = true := by
        by_contra hnot
        rw [Bool.not_eq_true] at hnot
        simp [touch, hnot] at hflow
      obtain ⟨hhands, hnothing⟩ := leftOver_hands h hleft hreg₂
      have htouch : Hands h (leftOver h (handleChunk h data c).conn).conn []
          (touch .input (leftOver h (handleChunk h data c).conn).conn) [] := by
        rw [touch_registered _ hreg₂]
        exact Hands.ret _ _ rfl []
      have hafter := Hands.andThen hleft hhands htouch
      refine ⟨Hands.andThen hchunk (handleChunk_hands h data hc hchunk hreg₁) hafter, ?_⟩
      rw [Out.andThen_of_next hchunk]
      show NothingLeft ((leftOver h (handleChunk h data c).conn).andThen (touch .input)).conn
      rw [Out.andThen_of_next hleft]
      show NothingLeft (touch .input (leftOver h (handleChunk h data c).conn).conn).conn
      rw [touch_conn]
      exact hnothing
    · rw [Out.andThen_of_ne_next hleft] at hflow
      exact absurd hflow hleft
  · rw [Out.andThen_of_ne_next hchunk] at hflow
    exact absurd hflow hchunk

theorem iteration_hands (h : Handler σ) (bufferSize : Nat) {c : Conn σ} (hc : NothingLeft c)
    (hflow : (iteration h bufferSize c).flow = .next) :
    Hands h c c.input (iteration h bufferSize c) (iteration h bufferSize c).conn.input ∧
      NothingLeft (iteration h bufferSize c).conn := by
  have hinput := iteration_input h bufferSize c
  have hcut : c.input = nextChunk bufferSize c ++ c.input.drop (toRead bufferSize c) :=
    (List.take_append_drop _ _).symm
  obtain ⟨hhands, hleft⟩ := pass_hands h (nextChunk bufferSize c)
    (c := readChunk bufferSize c) hc hflow
  have hframe := hhands.frame (c.input.drop (toRead bufferSize c))
  rw [List.nil_append, ← hcut] at hframe
  rw [hinput]
  refine ⟨⟨hframe.stays, hframe.text, hframe.raw, fun hclean => ?_, fun hnot => ?_⟩, hleft⟩
  · exact hframe.exact fun s hs => hclean s (List.mem_cons_of_mem _ hs)
  · refine hframe.short fun hclean => hnot fun s hs => ?_
    rcases List.mem_cons.mp hs with rfl | hs
    · exact trivial
    · exact hclean s hs

theorem readLoop_hands (h : Handler σ) (bufferSize fuel : Nat) {c : Conn σ} (hc : NothingLeft c)
    (hflow : (readLoop h bufferSize fuel c).flow = .next) :
    Hands h c c.input (readLoop h bufferSize fuel c) [] ∧
      NothingLeft (readLoop h bufferSize fuel c).conn ∧
      (readLoop h bufferSize fuel c).conn.input = [] := by
  induction fuel generalizing c with
  | zero =>
    rw [readLoop] at hflow ⊢
    by_cases hpos : 0 < c.input.length
    · rw [if_pos hpos] at hflow
      exact Flow.noConfusion hflow
    · have hnil : c.input = [] := List.eq_nil_of_length_eq_zero (by omega)
      rw [if_neg hpos, hnil]
      exact ⟨Hands.ret _ _ rfl [], hc, hnil⟩
  | succ fuel ih =>
    rw [readLoop] at hflow ⊢
    by_cases hpos : 0 < c.input.length
    · rw [if_pos hpos] at hflow ⊢
      by_cases hi : (iteration h bufferSize c).flow = .next
      · obtain ⟨hfirst, hleft⟩ := iteration_hands h bufferSize hc hi
        rw [Out.andThen_of_next hi] at hflow
        obtain ⟨hsecond, hnothing, hinput⟩ := ih hleft hflow
        refine ⟨Hands.andThen hi hfirst hsecond, ?_⟩
        rw [Out.andThen_of_next hi]
        exact ⟨hnothing, hinput⟩
      · rw [Out.andThen_of_ne_next hi] at hflow
        exact absurd hflow hi
    · have hnil : c.input = [] := List.eq_nil_of_length_eq_zero (by omega)
      rw [if_neg hpos, hnil]
      exact ⟨Hands.ret _ _ rfl [], hc, hnil⟩

/-- A `handleRead` that leaves the connection registered is its read loop: nothing was caught. -/
theorem handleRead_eq_readLoop {h : Handler σ} {bufferSize fuel : Nat} {c : Conn σ}
    (hflow : (handleRead h bufferSize fuel c).flow = .next)
    (hreg : (handleRead h bufferSize fuel c).conn.registered = true) :
    handleRead h bufferSize fuel c = readLoop h bufferSize fuel c := by
  unfold handleRead catchRuntimeError at hflow hreg ⊢
  split
  · rename_i e hthrown
    rw [hthrown] at hflow hreg
    dsimp only at hflow hreg
    split at hflow
    · rename_i he
      rw [if_pos he] at hreg
      split at hreg
      · exact Bool.noConfusion hreg
      · rename_i hnot
        exact absurd hreg hnot
    · rw [hthrown] at hflow
      exact Flow.noConfusion hflow
  all_goals rfl

/-- The bytes that the events bring. -/
def received (es : List NetEvent) : Bytes :=
  es.flatMap fun
    | .readable data => data
    | .writeEmpty | .eof | .error => []

theorem received_cons (e : NetEvent) (es : List NetEvent) :
    received (e :: es) = received [e] ++ received es := by
  unfold received
  rw [List.flatMap_cons, List.flatMap_singleton]

theorem onEvent_hands (h : Handler σ) (bufferSize : Nat) (e : NetEvent) {c : Conn σ}
    (hc : NothingLeft c) (hin : c.input = [])
    (hflow : (onEvent h bufferSize c e).flow = .next)
    (hreg : (onEvent h bufferSize c e).conn.registered = true) :
    Hands h c (received [e]) (onEvent h bufferSize c e) [] ∧
      NothingLeft (onEvent h bufferSize c e).conn ∧ (onEvent h bufferSize c e).conn.input = [] := by
  cases e with
  | readable data =>
    have hdata : received [.readable data] = data := List.append_nil _
    rw [onEvent, hin, List.nil_append] at hflow hreg ⊢
    have hloop := handleRead_eq_readLoop hflow hreg
    rw [hloop] at hflow
    rw [hloop, hdata]
    obtain ⟨hhands, hnothing, hinput⟩ :=
      readLoop_hands h bufferSize data.length (c := { c with input := data }) hc hflow
    exact ⟨⟨hhands.stays, hhands.text, hhands.raw, hhands.exact, hhands.short⟩, hnothing, hinput⟩
  | writeEmpty =>
    have hclose : c.closeQueued = false := by
      by_contra hnot
      rw [Bool.not_eq_false] at hnot
      simp [onEvent, handleWriteEmpty, hnot, Conn.remove] at hreg
    have hconn : onEvent h bufferSize c .writeEmpty = .ret { c with output := [] } := by
      simp [onEvent, handleWriteEmpty, hclose]
    rw [hconn]
    exact ⟨Hands.ret c { c with output := [] } rfl [], hc, hin⟩
  | eof => exact Bool.noConfusion hreg
  | error => exact Bool.noConfusion hreg

/-- Events that the connection lives through account for every byte they bring. -/
theorem run_hands (h : Handler σ) (bufferSize : Nat) (es : List NetEvent) {c : Conn σ}
    (hc : NothingLeft c) (hin : c.input = [])
    (hflow : (run h bufferSize es c).flow = .next)
    (hreg : (run h bufferSize es c).conn.registered = true) :
    Hands h c (received es) (run h bufferSize es c) [] := by
  induction es generalizing c with
  | nil => exact Hands.ret _ _ rfl []
  | cons e es ih =>
    have hconn : c.registered = true := by
      by_contra hnot
      rw [Bool.not_eq_true] at hnot
      rw [run_unregistered h bufferSize _ hnot, Out.ret_conn, hnot] at hreg
      exact Bool.noConfusion hreg
    rw [run, if_pos hconn] at hflow hreg ⊢
    by_cases he : (onEvent h bufferSize c e).flow = .next
    · rw [Out.andThen_of_next he] at hflow hreg
      have hafter : (onEvent h bufferSize c e).conn.registered = true := by
        by_contra hnot
        rw [Bool.not_eq_true] at hnot
        change (run h bufferSize es _).conn.registered = true at hreg
        rw [run_unregistered h bufferSize es hnot, Out.ret_conn, hnot] at hreg
        exact Bool.noConfusion hreg
      obtain ⟨hfirst, hnothing, hinput⟩ := onEvent_hands h bufferSize e hc hin he hafter
      have hframe := hfirst.frame (received es)
      rw [List.nil_append, ← received_cons] at hframe
      exact Hands.andThen he hframe (ih hnothing hinput hflow hreg)
    · rw [Out.andThen_of_ne_next he] at hflow
      exact absurd hflow he

/-- For every stream and every way of cutting it: on a connection that lives through its events,
    the messages handed over after line mode was left are, joined, the rest of the stream, if and
    only if no call leaves line mode while the line loop holds another newline. -/
theorem rawBytes_eq_iff (h : Handler σ) (bufferSize : Nat) (es : List NetEvent) {c : Conn σ}
    (hc : NothingLeft c) (hin : c.input = [])
    (hflow : (run h bufferSize es c).flow = .next)
    (hreg : (run h bufferSize es c).conn.registered = true) :
    rawBytes (run h bufferSize es c).trace =
        (received es).drop (lineBytes (run h bufferSize es c).trace) ↔
      Clean h (run h bufferSize es c).trace := by
  have hhands := run_hands h bufferSize es hc hin hflow hreg
  constructor
  · intro heq
    by_contra hnot
    have hshort := hhands.short hnot
    have hlen := congrArg List.length heq
    rw [List.length_drop, lineBytes] at hlen
    simp only [List.length_nil] at hshort
    omega
  · intro hclean
    have hexact := hhands.exact hclean
    rw [List.append_nil] at hexact
    rw [hexact, lineBytes, List.drop_left]

end Algiz.Net
