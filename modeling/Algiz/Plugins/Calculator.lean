/-
  `Calculator`: an operator and two numbers in the path of a request.

  The operands saturate where they are read, and the operations are those of `int64_t`. The answer
  is the exact value of what was written in few cases beyond those where the operands and the
  value are in range (`calculates_iff`).
-/
import Algiz.HTTP.Server
import Algiz.Lib.Trace
import Algiz.Numbers

namespace Algiz.Plugins.Calculator

open Lib HTTP

/-- What the handler does. -/
inductive Event where
  /-- `http.server->send(client.id, response)` -/
  | respond (response : Response)
  /-- `http.server->close(client.id)` -/
  | closed

/-- Why it does not come to an end: a value that is no `int64_t`. In a division that is
    `SIGFPE`. -/
inductive Stop where
  | overflow

/-- The operators. -/
inductive Operator where
  | plus | min | mult | div
  deriving DecidableEq

/-- `oper` -/
def Operator.of (oper : Bytes) : Option Operator :=
  if oper = ascii "+" ∨ oper = ascii "plus" then some .plus
  else if oper = ascii "-" ∨ oper = ascii "min" then some .min
  else if oper = ascii "*" ∨ oper = ascii "mult" then some .mult
  else if oper = ascii "/" ∨ oper = ascii "div" then some .div
  else none

/-- `std::to_string` of what an operation gives. -/
def toString (value : Int) : Except Stop Bytes :=
  if Fits longLimit value then .ok (decimalText value) else .error .overflow

/-- `out` -/
def Operator.out (left right : Int) : Operator → Except Stop Bytes
  | .plus => toString (left + right)
  | .min => toString (left - right)
  | .mult => toString (left * right)
  | .div => if right = 0 then .ok (ascii "Division by zero") else toString (left.tdiv right)

/-- `HTTP::Response(200, out).setMIME("text/plain")` -/
def response (out : Bytes) : Response :=
  { code := 200, content := out, mime := ascii "text/plain" }

/-- `Calculator::handle` -/
def handle (parts : List Bytes) (notDisabled : Bool) : Trace Event Stop CancelableResult :=
  if !notDisabled then pure .pass
  else match parts with
    | [oper, first, second] =>
      match parseLong first, parseLong second with
      | .ok left, .ok right =>
        match Operator.of oper with
        | some operator => do
          let out ← Trace.lift (operator.out left right)
          Trace.emit (.respond (response out))
          Trace.emit .closed
          pure .approve
        | none => pure .pass
      | _, _ => pure .pass
    | _ => pure .pass

/-! ## What should be answered -/

/-- The parts ask for this operation on these numbers. -/
structure Asks (parts : List Bytes) (operator : Operator) (left right : Int) : Prop where
  written : ∃ oper first second, parts = [oper, first, second] ∧
    Operator.of oper = some operator ∧ Denotes first left ∧ Denotes second right

/-- The value of an operation, if there is one. -/
def Operator.value (left right : Int) : Operator → Option Int
  | .plus => some (left + right)
  | .min => some (left - right)
  | .mult => some (left * right)
  | .div => if right = 0 then none else some (left.tdiv right)

/-- How the value is reported. -/
def report : Option Int → Bytes
  | none => ascii "Division by zero"
  | some value => decimalText value

/-- The operands that are no trouble. -/
def Operator.Exact (left right : Int) : Operator → Prop
  | .plus => (Fits longLimit left ∧ Fits longLimit right ∧ Fits longLimit (left + right)) ∨
      (¬ Fits longLimit left ∧ ¬ Fits longLimit right ∧ left + right = -1)
  | .min => (Fits longLimit left ∧ Fits longLimit right ∧ Fits longLimit (left - right)) ∨
      left = right
  | .mult => (Fits longLimit left ∧ Fits longLimit right ∧ Fits longLimit (left * right)) ∨
      left = 0 ∨ right = 0
  | .div => right = 0 ∨
      (Fits longLimit left ∧ Fits longLimit right ∧ ¬ (left = -longLimit ∧ right = -1)) ∨
      -- no multiple of the divisor is out of range up to the dividend
      (¬ Fits longLimit left ∧ Fits longLimit right ∧
        ∀ m, right ∣ m → (longLimit ≤ m → left < m) ∧ (m < -longLimit → m < left)) ∨
      (longLimit ≤ right ∧
        (left.natAbs < longLimit - 1 ∨ right ≤ left.natAbs ∧ left.natAbs < 2 * right)) ∨
      (right < -longLimit ∧
        (-longLimit < left ∧ left < -right ∨ 2 * right < left ∧ left ≤ right))

/-- The value is reported, and the connection closed. -/
def Reports (parts : List Bytes) (value : Option Int) : Prop :=
  handle parts true = ⟨[.respond (response (report value)), .closed], .ok .approve⟩

/-! ## What is answered -/

theorem decimalText_negSucc (n : Nat) :
    decimalText (Int.negSucc n) = 45 :: decimalText (n + 1 : Nat) := by
  have htext : (ToString.toString (Int.negSucc n)).toList =
      '-' :: (ToString.toString ((n + 1 : Nat) : Int)).toList := by
    show ("-" ++ (n + 1).repr).toList = '-' :: ((n + 1).repr).toList
    rw [String.toList_append]
    rfl
  unfold decimalText ascii
  rw [htext]
  rfl

/-- Different numbers have different texts. -/
theorem decimalText_inj {m n : Int} (h : decimalText m = decimalText n) : m = n := by
  have hdigits : ∀ k k' : Nat, decimalText k ≠ 45 :: decimalText k' := by
    intro k k' heq
    have hminus := decimalText_digits k 45 (heq ▸ List.mem_cons_self)
    exact absurd hminus (by decide)
  cases m with
  | ofNat m =>
    cases n with
    | ofNat n => exact congrArg Int.ofNat (decimalText_injective h)
    | negSucc n => exact absurd (h.trans (decimalText_negSucc n)) (hdigits m (n + 1))
  | negSucc m =>
    cases n with
    | ofNat n => exact absurd (h.symm.trans (decimalText_negSucc m)) (hdigits n (m + 1))
    | negSucc n =>
      rw [decimalText_negSucc, decimalText_negSucc] at h
      have hsucc := decimalText_injective (List.cons.inj h).2
      rw [Nat.succ.inj hsucc]

/-- The right value is written if it is what was computed. -/
theorem toString_eq_iff {computed value : Int} :
    toString computed = .ok (decimalText value) ↔
      Fits longLimit computed ∧ computed = value := by
  unfold toString
  split
  · rename_i hfits
    rw [Except.ok.injEq, and_iff_right hfits]
    exact ⟨decimalText_inj, fun h => h ▸ rfl⟩
  · rename_i hfits
    exact iff_of_false (fun h => by cases h) fun h => hfits h.1

theorem one_lt_longLimit : 1 < longLimit := by decide

theorem two_lt_longLimit : 2 < longLimit := by decide

/-- What comes of the clamped operands is what should be reported. -/
theorem out_clamp_iff (operator : Operator) (left right : Int) :
    operator.out (clamp longLimit left) (clamp longLimit right) =
        .ok (report (operator.value left right)) ↔
      operator.Exact left right := by
  cases operator with
  | plus => exact toString_eq_iff.trans (clamp_add_iff one_lt_longLimit)
  | min => exact toString_eq_iff.trans (clamp_sub_iff one_lt_longLimit)
  | mult => exact toString_eq_iff.trans (clamp_mul_iff one_lt_longLimit)
  | div =>
    unfold Operator.out Operator.value Operator.Exact
    by_cases hright : right = 0
    · subst hright
      exact iff_of_true rfl (Or.inl rfl)
    · have hclamp : clamp longLimit right ≠ 0 := fun h =>
        hright ((clamp_eq_zero_iff one_lt_longLimit).mp h)
      rw [if_neg hright, if_neg hclamp, or_iff_right hright]
      exact toString_eq_iff.trans (clamp_tdiv_iff two_lt_longLimit hright)

theorem handle_of_asks {parts : List Bytes} {operator : Operator} {left right : Int}
    (h : Asks parts operator left right) : handle parts true =
      match operator.out (clamp longLimit left) (clamp longLimit right) with
      | .ok out => ⟨[.respond (response out), .closed], .ok .approve⟩
      | .error stop => ⟨[], .error stop⟩ := by
  obtain ⟨oper, first, second, rfl, hoper, hfirst, hsecond⟩ := h.written
  unfold handle
  rw [if_neg (by decide)]
  dsimp only
  rw [parseLong_of_denotes hfirst, parseLong_of_denotes hsecond]
  dsimp only
  rw [hoper]
  dsimp only
  cases operator.out (clamp longLimit left) (clamp longLimit right) with
  | ok out => rfl
  | error stop => rfl

theorem reports_iff {parts : List Bytes} {operator : Operator} {left right : Int}
    (h : Asks parts operator left right) :
    Reports parts (operator.value left right) ↔ operator.Exact left right := by
  rw [← out_clamp_iff]
  unfold Reports
  rw [handle_of_asks h]
  cases operator.out (clamp longLimit left) (clamp longLimit right) with
  | ok out =>
    rw [Except.ok.injEq]
    constructor
    · intro heq
      have hevents := congrArg Trace.events heq
      exact congrArg Response.content (Event.respond.inj (List.cons.inj hevents).1)
    · rintro rfl
      rfl
  | error stop => exact iff_of_false (fun heq => by cases heq) fun heq => by cases heq

theorem unescape_ne_nil (ind : Indeterminate) {view : Bytes} (hne : view ≠ [])
    (plusToSpace : Bool) : unescape ind view plusToSpace ≠ [] := by
  obtain ⟨b, view, rfl⟩ := List.exists_cons_of_ne_nil hne
  unfold unescape
  split
  · exact hne
  · rw [List.length_cons, unescapeFrom, List.getElem?_cons_zero]
    dsimp only
    split
    · exact List.cons_ne_nil _ _
    · split
      · exact List.cons_ne_nil _ _
      · split
        · exact List.cons_ne_nil _ _
        · exact List.cons_ne_nil _ _

/-- Only the first part of a path may be empty. -/
theorem ne_nil_of_getParts {σ : Type*} (server : Server σ) {path first : Bytes}
    {rest : List Bytes} (h : server.getParts path = first :: rest) :
    ∀ part ∈ rest, part ≠ [] := by
  unfold Server.getParts split at h
  split at h
  · cases h
  · split at h
    · cases h
    · rename_i piece pieces _
      rw [List.map_cons] at h
      obtain rfl := (List.cons.inj h).2
      intro part hpart
      obtain ⟨view, hview, rfl⟩ := List.mem_map.mp hpart
      have hkept := (List.mem_filter.mp hview).2
      refine unescape_ne_nil _ ?_ _
      rintro rfl
      cases hkept

/-- What is not passed on asks for an operation. -/
theorem asks_of_handle {σ : Type*} (server : Server σ) {path : Bytes}
    (h : handle (server.getParts path) true ≠ pure .pass) :
    ∃ operator left right, Asks (server.getParts path) operator left right := by
  have hnonempty : ∀ first rest, server.getParts path = first :: rest →
      ∀ part ∈ rest, part ≠ [] := fun _ _ => ne_nil_of_getParts server
  generalize server.getParts path = parts at h hnonempty
  unfold handle at h
  rw [if_neg (by decide)] at h
  split at h
  · rename_i oper first second
    have hparts := hnonempty oper [first, second] rfl
    split at h
    · rename_i hleft hright
      split at h
      · rename_i operator hoper
        obtain ⟨left, hfirst⟩ := denotes_of_parseLong (hparts first (by simp)) hleft
        obtain ⟨right, hsecond⟩ := denotes_of_parseLong (hparts second (by simp)) hright
        exact ⟨operator, left, right, ⟨oper, first, second, rfl, hoper, hfirst, hsecond⟩⟩
      · exact absurd rfl h
    · exact absurd rfl h
  · exact absurd rfl h

/-- What is not passed on are the operations on two numbers, and these are answered with their
    values exactly where the operands are no trouble. -/
theorem calculates_iff {σ : Type*} (server : Server σ) (path : Bytes) :
    (handle (server.getParts path) true ≠ pure .pass ↔
      ∃ operator left right, Asks (server.getParts path) operator left right) ∧
    ∀ operator left right, Asks (server.getParts path) operator left right →
      (Reports (server.getParts path) (operator.value left right) ↔
        operator.Exact left right) := by
  refine ⟨⟨asks_of_handle server, ?_⟩, fun operator left right => reports_iff⟩
  rintro ⟨operator, left, right, hasks⟩ hpass
  rw [handle_of_asks hasks] at hpass
  cases hout : operator.out (clamp longLimit left) (clamp longLimit right) with
  | ok out =>
    rw [hout] at hpass
    cases hpass
  | error stop =>
    rw [hout] at hpass
    cases hpass

/-- The least number divided by -1, which ends the process. -/
theorem handle_overflow : ¬ ∀ (path : Bytes) (operator : Operator) (left right : Int),
    Asks ((({} : Server Unit)).getParts path) operator left right →
      Reports ((({} : Server Unit)).getParts path) (operator.value left right) := by
  intro h
  have hasks : Asks ((({} : Server Unit)).getParts (ascii "/div/-9223372036854775808/-1")) .div
      (-2 ^ 63) (-1) := by
    refine ⟨⟨ascii "div", ascii "-9223372036854775808", ascii "-1", by decide, by decide,
      ⟨[], [45], ascii "9223372036854775808", ?_⟩, ⟨[], [45], ascii "1", ?_⟩⟩⟩
    · exact ⟨by decide, List.all_eq_true.mp rfl, by decide, by decide,
        List.all_eq_true.mp (by decide), by decide⟩
    · exact ⟨by decide, List.all_eq_true.mp rfl, by decide, by decide,
        List.all_eq_true.mp (by decide), by decide⟩
  rcases (reports_iff hasks).mp (h _ _ _ _ hasks) with
    hzero | ⟨-, -, hnot⟩ | ⟨hout, -⟩ | ⟨habove, -⟩ | ⟨hbelow, -⟩
  · exact absurd hzero (by decide)
  · exact hnot ⟨by decide, rfl⟩
  · exact hout (by decide)
  · exact absurd habove (by decide)
  · exact absurd hbelow (by decide)

end Algiz.Plugins.Calculator
