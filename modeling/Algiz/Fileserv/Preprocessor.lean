/-
  `preprocessFileservModule`: a template is cut into text and code.

  Each turn of the loop takes the text before an opener, the opener, the code behind it and the
  closer off the view. What a turn writes are the pieces it has cut off, and the pieces give the
  source back (`Cut`). But a turn takes a closer off whether there is one or not: the loop comes to
  its end if and only if every opener that it comes to has a closer behind it
  (`partitions_iff`).
-/
import Mathlib.Data.List.Infix
import Algiz.Lib.Loop
import Algiz.Split

namespace Algiz.Plugins

open Lib

/-! ## Strings -/

/-- `std::find_end`; `none` is the end of the haystack. -/
def findEnd (needle : Bytes) : Bytes → Option Nat
  | [] => none
  | b :: haystack =>
    match findEnd needle haystack with
    | some i => some (i + 1)
    | none => if needle.isPrefixOf (b :: haystack) then some 0 else none

/-- `findLast`; `none` is `npos`. -/
def findLast (haystack needle : Bytes) : Option Nat :=
  if needle.isEmpty then some haystack.length else findEnd needle haystack

/-- What `escape` writes for a byte. -/
def escapeByte (ch : UInt8) : Bytes :=
  if ch = 9 then ascii "\\t"
  else if ch = 13 then ascii "\\r"
  else if ch = 10 then ascii "\\n"
  else if ch = 11 then ascii "\\v"
  else if ch = 8 then ascii "\\b"
  else if ch = 7 then ascii "\\a"
  else if ch = 12 then ascii "\\f"
  else if ch = 0 then ascii "\\0"
  else if ch = 92 then ascii "\\\\"
  else if ch = 34 then ascii "\\\""
  else if ch = 27 then ascii "\\x1b"
  else [ch]

/-- `escape` -/
def escape (view : Bytes) : Bytes := view.flatMap escapeByte

/-- `view.remove_prefix(n)`; `none` if the view has fewer bytes than that. -/
def removePrefix (n : Nat) (view : Bytes) : Option Bytes :=
  if n ≤ view.length then some (view.drop n) else none

theorem findEnd_eq_some {needle haystack : Bytes} {i : Nat} (h : findEnd needle haystack = some i) :
    needle <+: haystack.drop i := by
  induction haystack generalizing i with
  | nil => exact nomatch h
  | cons b haystack ih =>
    unfold findEnd at h
    split at h
    · rename_i j hj
      obtain rfl := Option.some.inj h
      exact ih hj
    · split at h
      · rename_i hprefix
        obtain rfl := Option.some.inj h
        exact List.isPrefixOf_iff_prefix.mp hprefix
      · exact nomatch h

theorem findEnd_eq_none {needle haystack : Bytes} (hne : needle ≠ []) :
    findEnd needle haystack = none ↔ ¬needle <:+: haystack := by
  induction haystack with
  | nil =>
    refine iff_of_true rfl fun h => hne ?_
    exact List.infix_nil.mp h
  | cons b haystack ih =>
    rw [List.infix_cons_iff, not_or, ← ih, findEnd]
    cases findEnd needle haystack with
    | some i => simp
    | none => simp

/-! ## Openers and closers -/

/-- `CODE_START` -/
def CODE_START : Bytes := ascii "<?"

/-- `CODE_END` -/
def CODE_END : Bytes := ascii "?>"

/-- `findCodeEnd`: nothing, or the offset of a closer. -/
structure FindCodeEnd where
  find : Bytes → Option Nat
  closes : ∀ source offset, find source = some offset → CODE_END <+: source.drop offset

/-- What an opener says of the code behind it. -/
inductive Opener where
  | plain
  /-- `use_preamble` -/
  | preamble
  /-- `echo_shorthand` -/
  | echo
  deriving DecidableEq

/-- Which one is it, if this is what stands behind `CODE_START`? -/
def Opener.of (view : Bytes) : Opener :=
  if view.head? = some 58 then .preamble else if view.head? = some 61 then .echo else .plain

/-- `:` or `=` -/
def Opener.mark : Opener → Bytes
  | .plain => []
  | .preamble => [58]
  | .echo => [61]

theorem Opener.mark_append (view : Bytes) :
    (Opener.of view).mark ++ view.drop (Opener.of view).mark.length = view := by
  unfold Opener.of
  split_ifs with hpreamble hecho
  · obtain ⟨rest, rfl⟩ := List.head?_eq_some_iff.mp hpreamble
    rfl
  · obtain ⟨rest, rfl⟩ := List.head?_eq_some_iff.mp hecho
    rfl
  · rfl

/-- `view.substr(0, findLast(view, CODE_END))` -/
def shortened (view : Bytes) : Bytes :=
  match findLast view CODE_END with
  | some i => view.take i
  | none => view

/-- `valid_size` -/
def FindCodeEnd.validSize (f : FindCodeEnd) (view : Bytes) : Nat :=
  (f.find (shortened view)).getD (shortened view).length

section Code

variable {f : FindCodeEnd} {view : Bytes}

theorem findLast_eq_none : findLast view CODE_END = none ↔ ¬CODE_END <:+: view :=
  findEnd_eq_none (by decide)

/-- The place where the code ends, if there is a closer: one stands there. -/
theorem code_end (h : CODE_END <:+: view) :
    CODE_END <+: view.drop (f.validSize view) ∧
      (shortened view).take (f.validSize view) = view.take (f.validSize view) := by
  obtain ⟨i, hi⟩ := Option.ne_none_iff_exists'.mp (mt findLast_eq_none.mp (not_not.mpr h))
  have hlast : CODE_END <+: view.drop i := findEnd_eq_some hi
  have hle : i ≤ view.length := by
    by_contra hlt
    rw [List.drop_eq_nil_of_le (by omega), List.prefix_nil] at hlast
    exact absurd hlast (by decide)
  have hshort : shortened view = view.take i := by
    unfold shortened
    rw [hi]
  unfold FindCodeEnd.validSize
  rw [hshort]
  cases hfind : f.find (view.take i) with
  | none =>
    rw [Option.getD_none, List.length_take_of_le hle, List.take_take, Nat.min_self]
    exact ⟨hlast, rfl⟩
  | some offset =>
    have hcloses := f.closes _ _ hfind
    rw [Option.getD_some]
    have hless : offset ≤ i := by
      by_contra hlt
      rw [List.drop_eq_nil_of_le (by rw [List.length_take]; omega), List.prefix_nil] at hcloses
      exact absurd hcloses (by decide)
    refine ⟨hcloses.trans ?_, ?_⟩
    · exact List.IsPrefix.drop (List.take_prefix i view) offset
    · rw [List.take_take, Nat.min_eq_left hless]

/-- With a closer, the code, a closer and the rest are what there is. -/
theorem code_append (h : CODE_END <:+: view) :
    (shortened view).take (f.validSize view) ++ CODE_END ++
      view.drop (f.validSize view + CODE_END.length) = view := by
  obtain ⟨⟨rest, hrest⟩, htake⟩ := code_end (f := f) h
  have hdrop : view.drop (f.validSize view + CODE_END.length) = rest := by
    rw [← List.drop_drop, ← hrest, List.drop_left]
  rw [hdrop, htake, List.append_assoc, hrest, List.take_append_drop]

/-- Without one, the code is all that there is. -/
theorem validSize_of_not_infix (h : ¬CODE_END <:+: view) : f.validSize view = view.length := by
  have hshort : shortened view = view := by
    unfold shortened
    rw [findLast_eq_none.mpr h]
  unfold FindCodeEnd.validSize
  rw [hshort]
  cases hfind : f.find view with
  | none => rfl
  | some offset =>
    exact absurd ((f.closes _ _ hfind).isInfix.trans (List.drop_suffix offset view).isInfix) h

end Code

/-! ## The loop -/

/-- What a turn cuts off: text, or an opener, the code behind it and a closer. -/
inductive Piece where
  | text (shown : Bytes)
  | code (opener : Opener) (valid : Bytes)
  deriving DecidableEq

namespace Piece

/-- The piece as it stands in the source. -/
def source : Piece → Bytes
  | .text shown => shown
  | .code opener valid => CODE_START ++ opener.mark ++ valid ++ CODE_END

/-- What is written for the piece to `preamble`. -/
def preamble : Piece → Bytes
  | .text _ => []
  | .code .preamble valid => valid ++ [newline]
  | .code .plain _ | .code .echo _ => []

/-- What is written for the piece to `body`. -/
def body : Piece → Bytes
  | .text shown => ascii "echo(\"" ++ escape shown ++ ascii "\");\n"
  | .code .preamble _ => []
  | .code .plain valid => valid ++ [newline]
  | .code .echo valid => ascii "echo(" ++ valid ++ ascii ");\n"

end Piece

/-- What the loop works on, and the pieces that were cut off. -/
structure Preprocessing where
  view : Bytes
  preamble : Bytes := []
  body : Bytes := []
  pieces : List Piece := []
  deriving DecidableEq

namespace Preprocessing

/-- Text is escaped and written to `body`. -/
def echoText (s : Preprocessing) (text : Bytes) : Preprocessing :=
  { s with
    body := s.body ++ ascii "echo(\"" ++ escape text ++ ascii "\");\n"
    pieces := s.pieces ++ [.text text] }

/-- Code is written to `preamble` or `body`. -/
def writeCode (s : Preprocessing) (opener : Opener) (valid : Bytes) : Preprocessing :=
  { s with
    preamble := if opener = .preamble then s.preamble ++ valid ++ [newline] else s.preamble
    body :=
      if opener = .preamble then s.body
      else if opener = .echo then s.body ++ ascii "echo(" ++ valid ++ ascii ");\n"
      else s.body ++ valid ++ [newline]
    pieces := s.pieces ++ [.code opener valid] }

/-- A turn that has found an opener. What clang says of the code is not looked at. -/
def block (f : FindCodeEnd) (s : Preprocessing) (codeStart : Nat) : Option Preprocessing := do
  let s := if codeStart ≠ 0 then s.echoText (s.view.take codeStart) else s
  let view ← removePrefix (codeStart + CODE_START.length) s.view
  let opener := Opener.of view
  let view ← removePrefix opener.mark.length view
  let validSize := f.validSize view
  let s := s.writeCode opener ((shortened view).take validSize)
  let view ← removePrefix (validSize + CODE_END.length) view
  some { s with view := view }

/-- One turn. It goes on, or ends the loop; `none` is a prefix that the view does not have. -/
def turn (f : FindCodeEnd) (s : Preprocessing) : Preprocessing ⊕ Option Preprocessing :=
  match findString CODE_START s.view with
  | none => .inr (some (if s.view.isEmpty then s else s.echoText s.view))
  | some codeStart =>
    match s.block f codeStart with
    | none => .inr none
    | some s => .inl s

/-- That many turns. -/
def turns (f : FindCodeEnd) : Nat → Preprocessing → Option Preprocessing
  | 0, s => some s
  | fuel + 1, s =>
    match s.turn f with
    | .inr ended => ended
    | .inl s => turns f fuel s

/-- What is behind the preamble: the function, around the body. -/
def output (s : Preprocessing) : Bytes :=
  s.preamble ++
    ascii "\n#include \"Module.h\"\n\n#include <sstream>\n\n" ++
    ascii "extern \"C\" void algizModule(HTTP::Server::HandlerArgs &algiz_args, " ++
    ascii "const std::filesystem::path &$path) \x7b\n" ++
    ascii "\tauto &[$http, $client, $request, $parts] = algiz_args;\n" ++
    ascii "\tauto &$get = $request.parameters;\n" ++
    ascii "\tauto &$post = $request.postParameters;\n" ++
    ascii "\tint $code = 200;\n" ++
    ascii "\tstd::stringstream $stream;\n\n" ++
    ascii "\tauto echo = [&](auto &&...things) \x7b\n" ++
    ascii "\t\t($stream << ... << std::forward<decltype(things)>(things));\n\t\x7d;\n\n\t\t" ++
    s.body ++
    ascii "\n\n\t$client.send(HTTP::Response($code, std::move($stream).str()));\n" ++
    ascii "\t// */\n\x7d\n\t\t"

end Preprocessing

open Preprocessing

/-- `preprocessFileservModule` for the source that it has read. -/
def preprocessFileservModule (f : FindCodeEnd) (source : Bytes) : Option Bytes :=
  (turns f (source.length + 1) { view := source }).map output

/-! ## What is cut off -/

namespace Preprocessing

/-- The pieces are the source up to the rest, and what is written is what is written for them. -/
structure Cut (source rest : Bytes) (s : Preprocessing) : Prop where
  source : s.pieces.flatMap Piece.source ++ rest = source
  preamble : s.preamble = s.pieces.flatMap Piece.preamble
  body : s.body = s.pieces.flatMap Piece.body

variable {f : FindCodeEnd} {source rest : Bytes} {s t : Preprocessing} {codeStart : Nat}

theorem cut_piece {p : Piece} (h : Cut source (p.source ++ rest) s)
    (hpieces : t.pieces = s.pieces ++ [p]) (hpreamble : t.preamble = s.preamble ++ p.preamble)
    (hbody : t.body = s.body ++ p.body) : Cut source rest t := by
  refine ⟨?_, ?_, ?_⟩
  · rw [hpieces, List.flatMap_append, List.flatMap_singleton, List.append_assoc]
    exact h.source
  · rw [hpreamble, hpieces, List.flatMap_append, List.flatMap_singleton, h.preamble]
  · rw [hbody, hpieces, List.flatMap_append, List.flatMap_singleton, h.body]

theorem cut_echoText {shown : Bytes} (h : Cut source (shown ++ rest) s) :
    Cut source rest (s.echoText shown) := by
  refine cut_piece (p := .text shown) h rfl (List.append_nil _).symm ?_
  simp [echoText, Piece.body]

theorem cut_writeCode {opener : Opener} {valid : Bytes}
    (h : Cut source (CODE_START ++ opener.mark ++ valid ++ CODE_END ++ rest) s) :
    Cut source rest (s.writeCode opener valid) := by
  refine cut_piece (p := .code opener valid) h rfl ?_ ?_
  · cases opener <;> simp [writeCode, Piece.preamble]
  · cases opener <;> simp [writeCode, Piece.body]

/-- What is behind the opener at `codeStart`. -/
def behind (codeStart : Nat) (view : Bytes) : Bytes :=
  let view := view.drop (codeStart + CODE_START.length)
  view.drop (Opener.of view).mark.length

/-- The opener itself, and what is behind it. -/
theorem opener_append {view : Bytes} (h : findString CODE_START view = some codeStart) :
    CODE_START ++ (Opener.of (view.drop (codeStart + CODE_START.length))).mark ++
      behind codeStart view = view.drop codeStart := by
  obtain ⟨rest, hrest⟩ := ((findString_eq_some_iff (by decide)).mp h).1
  have hdrop : view.drop (codeStart + CODE_START.length) = rest := by
    rw [← List.drop_drop, ← hrest, List.drop_left]
  unfold behind
  dsimp only
  rw [List.append_assoc, Opener.mark_append, hdrop, hrest]

/-- What is written before and for the code of a turn. -/
def written (f : FindCodeEnd) (s : Preprocessing) (codeStart : Nat) : Preprocessing :=
  (if codeStart ≠ 0 then s.echoText (s.view.take codeStart) else s).writeCode
    (Opener.of (s.view.drop (codeStart + CODE_START.length)))
    ((shortened (behind codeStart s.view)).take (f.validSize (behind codeStart s.view)))

/-- A turn that has found an opener takes it off, and then the code and the closer. -/
theorem block_eq (h : findString CODE_START s.view = some codeStart) : s.block f codeStart =
    (removePrefix (f.validSize (behind codeStart s.view) + CODE_END.length)
      (behind codeStart s.view)).map fun view => { s.written f codeStart with view := view } := by
  have hlength := congrArg List.length (opener_append h)
  rw [List.length_append, List.length_append, List.length_drop] at hlength
  have hstart : CODE_START.length = 2 := rfl
  have hbehind : (behind codeStart s.view).length =
      (s.view.drop (codeStart + CODE_START.length)).length -
        (Opener.of (s.view.drop (codeStart + CODE_START.length))).mark.length := List.length_drop
  have hopener : removePrefix (codeStart + CODE_START.length) s.view =
      some (s.view.drop (codeStart + CODE_START.length)) := if_pos (by omega)
  have hmark : removePrefix (Opener.of (s.view.drop (codeStart + CODE_START.length))).mark.length
      (s.view.drop (codeStart + CODE_START.length)) = some (behind codeStart s.view) := by
    refine if_pos ?_
    rw [List.length_drop]
    omega
  have hview : (if codeStart ≠ 0 then s.echoText (s.view.take codeStart) else s).view = s.view := by
    split <;> rfl
  unfold block
  dsimp only
  rw [hview, hopener, Option.bind_eq_bind, Option.bind_some, hmark, Option.map_eq_bind]
  rfl

/-- With a closer behind the opener the turn goes on behind a closer. -/
theorem block_closed (h : findString CODE_START s.view = some codeStart)
    (hend : CODE_END <:+: behind codeStart s.view) : s.block f codeStart =
      some { s.written f codeStart with
        view := (behind codeStart s.view).drop
          (f.validSize (behind codeStart s.view) + CODE_END.length) } := by
  have hle := (code_end (f := f) hend).1.length_le
  rw [List.length_drop] at hle
  have hpos : 0 < CODE_END.length := by decide
  rw [block_eq h, removePrefix, if_pos (by omega)]
  rfl

/-- Without one it takes off more than there is. -/
theorem block_open (h : findString CODE_START s.view = some codeStart)
    (hend : ¬CODE_END <:+: behind codeStart s.view) : s.block f codeStart = none := by
  have hpos : 0 < CODE_END.length := by decide
  rw [block_eq h, validSize_of_not_infix hend, removePrefix, if_neg (by omega)]
  rfl

theorem cut_written (hcut : Cut source s.view s)
    (h : findString CODE_START s.view = some codeStart)
    (hend : CODE_END <:+: behind codeStart s.view) :
    Cut source ((behind codeStart s.view).drop
      (f.validSize (behind codeStart s.view) + CODE_END.length)) (s.written f codeStart) := by
  have htext : Cut source (s.view.drop codeStart)
      (if codeStart ≠ 0 then s.echoText (s.view.take codeStart) else s) := by
    split
    · refine cut_echoText ?_
      rwa [List.take_append_drop]
    · rename_i hzero
      rw [not_not.mp hzero]
      exact hcut
  refine cut_writeCode ?_
  rw [List.append_assoc, List.append_assoc, ← List.append_assoc _ CODE_END, code_append hend,
    opener_append h]
  exact htext

end Preprocessing

/-! ## All of the source -/

open Preprocessing

/-- The loop ends, and nothing is taken off that is not there; what is cut off is the source. -/
def Partitions (f : FindCodeEnd) (source : Bytes) : Prop :=
  ∃ out, Loop (turn f) { view := source } (some out) ∧ Cut source [] out

/-- Every opener that the loop comes to has a closer behind it. -/
inductive Closed (f : FindCodeEnd) : Bytes → Prop
  /-- there is no opener any more -/
  | text {view : Bytes} (h : findString CODE_START view = none) : Closed f view
  /-- the loop goes on behind the code and a closer -/
  | code {view : Bytes} {codeStart : Nat} (h : findString CODE_START view = some codeStart)
      (hend : CODE_END <:+: behind codeStart view)
      (hrest : Closed f ((behind codeStart view).drop
        (f.validSize (behind codeStart view) + CODE_END.length))) : Closed f view

section Whole

variable {f : FindCodeEnd} {source : Bytes} {s t : Preprocessing}

theorem turn_text (h : findString CODE_START s.view = none) :
    turn f s = .inr (some (if s.view.isEmpty then s else s.echoText s.view)) := by
  unfold turn
  rw [h]

theorem turn_code {codeStart : Nat} (h : findString CODE_START s.view = some codeStart) :
    turn f s = match s.block f codeStart with
      | none => .inr none
      | some s => .inl s := by
  unfold turn
  rw [h]

/-- Nothing is cut off yet. -/
theorem cut_start (source : Bytes) : Cut source source { view := source } := ⟨rfl, rfl, rfl⟩

/-- A loop that ends has found a closer behind every opener. -/
theorem closed_of_loop {out : Preprocessing} (h : Loop (turn f) s (some out)) :
    Closed f s.view := by
  generalize hresult : some out = result at h
  induction h with
  | @leave s result hturn =>
    cases hstart : findString CODE_START s.view with
    | none => exact .text hstart
    | some codeStart =>
      subst hresult
      rw [turn_code hstart] at hturn
      split at hturn
      · exact nomatch hturn
      · exact nomatch hturn
  | @again s t result hturn _ ih =>
    cases hstart : findString CODE_START s.view with
    | none =>
      rw [turn_text hstart] at hturn
      exact nomatch hturn
    | some codeStart =>
      rw [turn_code hstart] at hturn
      by_cases hend : CODE_END <:+: behind codeStart s.view
      · rw [block_closed hstart hend] at hturn
        refine .code hstart hend ?_
        have hrest := ih hresult
        rwa [← Sum.inl.inj hturn] at hrest
      · rw [block_open hstart hend] at hturn
        exact nomatch hturn

/-- If every opener has a closer, the loop ends, and all is cut off. -/
theorem loop_of_closed {view : Bytes} (h : Closed f view) (hview : s.view = view)
    (hcut : Cut source s.view s) : ∃ out, Loop (turn f) s (some out) ∧ Cut source [] out := by
  induction h generalizing s with
  | text h =>
    subst hview
    refine ⟨_, .leave (turn_text h), ?_⟩
    split
    · rename_i hempty
      rwa [List.isEmpty_iff.mp hempty] at hcut
    · refine cut_echoText ?_
      rwa [List.append_nil]
  | code h hend hrest ih =>
    subst hview
    have hwritten := cut_written (f := f) hcut h hend
    obtain ⟨out, hloop, hout⟩ := ih (s := { s.written f _ with view := _ }) rfl
      ⟨hwritten.source, hwritten.preamble, hwritten.body⟩
    refine ⟨out, .again ?_ hloop, hout⟩
    rw [turn_code h, block_closed h hend]

/-- A turn that goes on has taken off the opener, at least. -/
theorem turn_less (h : turn f s = .inl t) : t.view.length < s.view.length := by
  cases hstart : findString CODE_START s.view with
  | none =>
    rw [turn_text hstart] at h
    exact nomatch h
  | some codeStart =>
    rw [turn_code hstart] at h
    by_cases hend : CODE_END <:+: behind codeStart s.view
    · rw [block_closed hstart hend] at h
      have hopener := congrArg List.length (opener_append hstart)
      have hpos : 0 < CODE_START.length := by decide
      rw [List.length_append, List.length_append, List.length_drop] at hopener
      rw [← Sum.inl.inj h, List.length_drop]
      omega
    · rw [block_open hstart hend] at h
      exact nomatch h

/-- The loop ends for every source. -/
theorem turns_loop (f : FindCodeEnd) (source : Bytes) :
    Loop (turn f) { view := source } (turns f (source.length + 1) { view := source }) := by
  refine Loop.of_fuel (fun _ => True) (fun s => s.view.length) ?_ ?_ ?_ trivial
    (Nat.lt_succ_self _)
  · intro fuel s ended _ hturn
    rw [turns, hturn]
  · intro fuel s t _ hturn
    rw [turns, hturn]
  · intro s t _ hturn
    exact ⟨trivial, turn_less hturn⟩

/-- There is a module if and only if every opener that the loop comes to has a closer. -/
theorem preprocess_isSome : (preprocessFileservModule f source).isSome ↔ Closed f source := by
  unfold preprocessFileservModule
  rw [Option.isSome_map, Option.isSome_iff_exists]
  constructor
  · intro h
    obtain ⟨out, hout⟩ := h
    exact closed_of_loop (hout ▸ turns_loop f source)
  · intro h
    obtain ⟨out, hloop, -⟩ := loop_of_closed (s := { view := source }) h rfl (cut_start source)
    exact ⟨out, (turns_loop f source).unique hloop⟩

/-- The loop ends with the source cut into pieces, and takes off no more than there is, if and only
    if every opener that it comes to has a closer behind it. -/
theorem partitions_iff (f : FindCodeEnd) (source : Bytes) :
    Partitions f source ↔ Closed f source := by
  constructor
  · rintro ⟨out, hloop, -⟩
    exact closed_of_loop hloop
  · intro h
    exact loop_of_closed (s := { view := source }) h rfl (cut_start source)

/-- A `findCodeEnd` that finds nothing. In code without a question mark nothing is found. -/
def FindCodeEnd.nothing : FindCodeEnd := ⟨fun _ => none, fun _ _ h => nomatch h⟩

/-- Code that is not closed: four bytes are to be taken off the last two. -/
theorem not_partitions_open :
    turn .nothing { view := ascii "<? a" } = .inr none ∧ ¬Partitions .nothing (ascii "<? a") := by
  have hturn : turn .nothing { view := ascii "<? a" } = .inr none := by decide
  refine ⟨hturn, ?_⟩
  rintro ⟨out, hloop, -⟩
  exact nomatch hloop.unique (.leave hturn)

end Whole

end Algiz.Plugins
