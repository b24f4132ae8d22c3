/-
  The head of a request, line by line.

  `feed` hands lines to a `Request` until one is not answered with `Continue`. A head that has
  none of the headers `handleLine` acts upon (`Head`) is read as it says (`feed_texts`): the path
  and the parameters of its target, and under each name in lower case the values of the headers of
  that name, in the order they came in, with a space between two of them. While nothing but empty
  values came the next value replaces them.
-/
import Algiz.HTTP.Request

namespace Algiz.HTTP

/-- The calls of `handleLine` with these lines, up to one that does not return `Continue`. -/
def feed (opts : Options) : List Bytes → Request → List Handled
  | [], _ => []
  | line :: lines, q =>
    let o := q.handleLine opts line
    match o.result with
    | .ok .continue => o :: feed opts lines o.request
    | _ => [o]

theorem feed_continue {opts : Options} {line : Bytes} {q : Request}
    (h : (q.handleLine opts line).result = .ok .continue) (lines : List Bytes) :
    feed opts (line :: lines) q =
      q.handleLine opts line :: feed opts lines (q.handleLine opts line).request := by
  rw [feed, h]

theorem feed_stop {opts : Options} {line : Bytes} {q : Request}
    (h : (q.handleLine opts line).result ≠ .ok .continue) (lines : List Bytes) :
    feed opts (line :: lines) q = [q.handleLine opts line] := by
  rw [feed]
  split
  · rename_i hcontinue
    exact absurd hcontinue h
  · rfl

/-- The first call is made whatever comes of it. -/
theorem feed_cons (opts : Options) (line : Bytes) (lines : List Bytes) (q : Request) :
    ∃ calls, feed opts (line :: lines) q = q.handleLine opts line :: calls := by
  by_cases hcontinue : (q.handleLine opts line).result = .ok .continue
  · exact ⟨_, feed_continue hcontinue lines⟩
  · exact ⟨_, feed_stop hcontinue lines⟩

/-! ## Method lines -/

/-- The name of a method. -/
def Method.name : Method → Bytes
  | .invalid => []
  | .GET => ascii "GET"
  | .HEAD => ascii "HEAD"
  | .PUT => ascii "PUT"
  | .POST => ascii "POST"

theorem Method.ofName_name {m : Method} (h : m ≠ .invalid) : Method.ofName m.name = some m := by
  cases m with
  | invalid => exact absurd rfl h
  | GET => decide
  | HEAD => decide
  | PUT => decide
  | POST => decide

theorem Method.space_not_mem_name (m : Method) : 32 ∉ m.name := by
  cases m <;> decide

/-- The line that opens a request. -/
def methodText (method : Method) (target version : Bytes) : Bytes :=
  method.name ++ ascii " " ++ target ++ ascii " " ++ version

/-- A method line is taken apart at its first two spaces. -/
theorem methodLine_methodText (opts : Options) {method : Method} (hmethod : method ≠ .invalid)
    {target version : Bytes} (htarget : 32 ∉ target)
    (hversion : version = ascii "HTTP/1.1" ∨ version = ascii "HTTP/1.0") (r : Request) :
    r.methodLine opts (methodText method target version) =
      { request := { r with
          mode := .headers
          method := method
          path := getPath target
          parameters := getParameters opts.ind target true
          version := version } } := by
  have hspace : ascii " " = [32] := by decide
  have hline : methodText method target version =
      method.name ++ 32 :: (target ++ 32 :: version) := by
    unfold methodText
    rw [hspace]
    simp
  have hfirst : find (method.name ++ 32 :: (target ++ 32 :: version)) 32 =
      some method.name.length := find_append_cons method.space_not_mem_name
  have hnext : find (target ++ 32 :: version) 32 = some target.length := find_append_cons htarget
  have hdrop : (method.name ++ 32 :: (target ++ 32 :: version)).drop (method.name.length + 1) =
      target ++ 32 :: version := by
    rw [← List.drop_drop, List.drop_left]
    rfl
  have hrest : (target ++ 32 :: version).drop (target.length + 1) = version := by
    rw [← List.drop_drop, List.drop_left]
    rfl
  have hknown : ¬ (version ≠ ascii "HTTP/1.1" ∧ version ≠ ascii "HTTP/1.0") := by
    intro hboth
    exact hversion.elim hboth.1 hboth.2
  rw [hline]
  unfold Request.methodLine
  simp only [hfirst, List.take_left, Method.ofName_name hmethod, hdrop, hnext, hrest]
  rw [if_neg hknown]

/-! ## Lines -/

/-- A line as it may come in: with a carriage return and a newline at its end, or without. -/
def Ended (text line : Bytes) : Prop := line = text ∨ line = text ++ [carriageReturn, newline]

/-- Neither a carriage return nor a newline stands at the end. -/
def Unended (text : Bytes) : Prop :=
  text.getLast? ≠ some newline ∧ text.getLast? ≠ some carriageReturn

theorem stripLine_of_unended {text : Bytes} (h : Unended text) : Request.stripLine text = text := by
  unfold Request.stripLine
  rw [if_neg h.1, if_neg h.2]

/-- The line ending is taken off. -/
theorem Ended.stripLine {text line : Bytes} (h : Ended text line) (htext : Unended text) :
    Request.stripLine line = text := by
  rcases h with rfl | rfl
  · exact stripLine_of_unended htext
  · have hfront : text ++ [carriageReturn, newline] = (text ++ [carriageReturn]) ++ [newline] := by
      simp
    unfold Request.stripLine
    rw [hfront, List.getLast?_concat, if_pos rfl, List.dropLast_concat]
    simp

namespace Request

/-- The line of a header. -/
def headerText (name value : Bytes) : Bytes := name ++ ascii ": " ++ value

/-- A header that has been told from its line, in `handleLine`. -/
def header (opts : Options) (name value : Bytes) (r : Request) : Handled :=
  let r := { r with headers := addHeader r.headers (toLower name) value }
  if name = ascii "Content-Length" then contentLengthHeader opts value r
  else if name = ascii "Range" then
    match parseRange opts.ind value r with
    | (r, some e) => ⟨r, none, none, .error e⟩
    | (r, none) => { request := r }
  else if name = ascii "Connection" then
    { request := r, keepAlive := some (decide (value ≠ ascii "close")) }
  else { request := r }

/-- What stands before the first separator is the name, what follows it the value. -/
theorem headerLine_headerText (opts : Options) {name : Bytes} (hname : ¬ ascii ": " <:+: name)
    (value : Bytes) (r : Request) :
    r.headerLine opts (headerText name value) = r.header opts name value := by
  have hfind : findString (ascii ": ") (headerText name value) = some name.length := by
    unfold headerText
    rw [List.append_assoc]
    exact findString_pair (by decide) hname value
  have htake : (headerText name value).take name.length = name := by
    unfold headerText
    rw [List.append_assoc, List.take_left]
  have hdrop : (headerText name value).drop (name.length + 2) = value := by
    unfold headerText
    rw [← List.drop_drop, List.append_assoc, List.drop_left]
    rfl
  unfold headerLine
  simp only [hfind, htake, hdrop]
  rfl

theorem headerText_ne_nil (name value : Bytes) : (headerText name value).isEmpty = false := by
  have hsep : ascii ": " ≠ [] := by decide
  rw [List.isEmpty_eq_false_iff]
  unfold headerText
  simp [hsep]

/-- A line that is a header's, without its ending. -/
theorem handleLine_headerText (opts : Options) {q : Request} (hmode : q.mode = .headers)
    {name value line : Bytes} (hname : ¬ ascii ": " <:+: name)
    (hline : stripLine line = headerText name value) :
    q.handleLine opts line = q.header opts name value := by
  rw [← headerLine_headerText opts hname]
  unfold handleLine
  simp only [hmode, hline, headerText_ne_nil, Bool.false_eq_true, if_false]

/-- The ending of a header's line is the ending of its value. -/
theorem stripLine_headerText (name value : Bytes) :
    stripLine (headerText name value) = headerText name (stripLine value) := by
  have hchop : ∀ (b : UInt8) (rest : Bytes), b ≠ 32 →
      (if (headerText name rest).getLast? = some b then (headerText name rest).dropLast
        else headerText name rest) =
      headerText name (if rest.getLast? = some b then rest.dropLast else rest) := by
    intro b rest hb
    unfold headerText
    cases rest with
    | nil =>
      have hlast : (name ++ ascii ": " ++ []).getLast? = some 32 := by
        have hsep : ascii ": " = [58, 32] := by decide
        simp [hsep]
      rw [hlast, if_neg (fun heq => hb (Option.some.inj heq).symm)]
      rfl
    | cons c rest =>
      rw [List.getLast?_append_of_ne_nil _ (List.cons_ne_nil c rest),
        List.dropLast_append_of_ne_nil (List.cons_ne_nil c rest)]
      split <;> rfl
  unfold stripLine
  dsimp only
  rw [hchop newline value (by decide), hchop carriageReturn _ (by decide)]

/-- What an accepted header leaves. Its length is assigned if it is spelled `Content-Length`. -/
structure Took (opts : Options) (name value : Bytes) (before after : Request) : Prop where
  mode : after.mode = before.mode
  content : after.content = before.content
  headers : after.headers = addHeader before.headers (toLower name) value
  length : name = ascii "Content-Length" → parseUlong opts.ind value = .ok after.contentLength ∧
    after.lengthRemaining = after.contentLength
  keeps : name ≠ ascii "Content-Length" → after.contentLength = before.contentLength ∧
    after.lengthRemaining = before.lengthRemaining

theorem header_took (opts : Options) {name value : Bytes} {q : Request}
    (h : (q.header opts name value).result = .ok .continue) :
    Took opts name value q (q.header opts name value).request := by
  unfold header at h ⊢
  dsimp only at h ⊢
  by_cases hlength : name = ascii "Content-Length"
  · rw [if_pos hlength] at h ⊢
    unfold contentLengthHeader at h ⊢
    cases hparse : parseUlong opts.ind value with
    | error e =>
      rw [hparse] at h
      cases h
    | ok n =>
      simp only [hparse] at h ⊢
      split at h
      · cases h
      · exact ⟨rfl, rfl, rfl, fun _ => ⟨hparse, rfl⟩, fun hne => absurd hlength hne⟩
  · rw [if_neg hlength] at h ⊢
    by_cases hrange : name = ascii "Range"
    · rw [if_pos hrange] at h ⊢
      have heq := parseRange_eq opts.ind value (r := { q with
        headers := addHeader q.headers (toLower name) value }) rfl rfl
      generalize parseRange opts.ind value _ = o at heq h ⊢
      obtain ⟨r, error⟩ := o
      cases error with
      | some e => cases h
      | none =>
        have heq : r = _ := heq
        show Took opts name value q r
        rw [heq]
        exact ⟨rfl, rfl, rfl, fun heq => absurd heq hlength, fun _ => ⟨rfl, rfl⟩⟩
    · rw [if_neg hrange]
      have hnot : name ≠ ascii "Content-Length" := hlength
      split
      · exact ⟨rfl, rfl, rfl, fun heq => absurd heq hnot, fun _ => ⟨rfl, rfl⟩⟩
      · exact ⟨rfl, rfl, rfl, fun heq => absurd heq hnot, fun _ => ⟨rfl, rfl⟩⟩

/-- The names by which `handleLine` acts. They are compared as they are spelled. -/
def ActedUpon (name : Bytes) : Prop :=
  name = ascii "Content-Length" ∨ name = ascii "Range" ∨ name = ascii "Connection"

instance (name : Bytes) : Decidable (ActedUpon name) :=
  inferInstanceAs (Decidable (_ ∨ _))

/-- Any other header goes into the map, and that is all. -/
theorem header_of_not_actedUpon (opts : Options) {name : Bytes} (h : ¬ ActedUpon name)
    (value : Bytes) (r : Request) :
    r.header opts name value =
      { request := { r with headers := addHeader r.headers (toLower name) value } } := by
  unfold ActedUpon at h
  rw [not_or, not_or] at h
  unfold header
  rw [if_neg h.1, if_neg h.2.1, if_neg h.2.2]

end Request

/-! ## What a head says -/

/-- The values, with a space between two of them; empty ones count only behind another. -/
def joined (values : List Bytes) : Bytes :=
  List.intercalate (ascii " ") (values.dropWhile List.isEmpty)

theorem intercalate_concat {α : Type*} (separator : List α) {front : List (List α)}
    (h : front ≠ []) (last : List α) :
    List.intercalate separator (front ++ [last]) =
      List.intercalate separator front ++ separator ++ last := by
  induction front with
  | nil => exact absurd rfl h
  | cons x front ih =>
    cases front with
    | nil => simp [List.intercalate_cons_cons]
    | cons y front =>
      have hrest := ih (List.cons_ne_nil y front)
      rw [List.cons_append] at hrest
      rw [List.cons_append, List.cons_append, List.intercalate_cons_cons, hrest,
        List.intercalate_cons_cons]
      simp [List.append_assoc]

/-- One more value. -/
theorem joined_concat (values : List Bytes) (value : Bytes) :
    joined (values ++ [value]) =
      if joined values = [] then value else joined values ++ ascii " " ++ value := by
  unfold joined
  rw [List.dropWhile_append]
  cases hd : values.dropWhile List.isEmpty with
  | nil =>
    cases value with
    | nil => rfl
    | cons b value => simp
  | cons x rest =>
    have hx : x.isEmpty = false := by
      have hhead := List.head_dropWhile_not List.isEmpty (l := values) (by rw [hd]; simp)
      simpa [hd] using hhead
    have hne : List.intercalate (ascii " ") (x :: rest) ≠ [] := by
      cases rest with
      | nil => simpa using hx
      | cons y rest =>
        rw [List.intercalate_cons_cons]
        simp at hx
        simp [hx]
    rw [if_neg hne]
    exact intercalate_concat _ (List.cons_ne_nil x rest) value

/-- A head with none of the headers that `handleLine` acts upon. -/
structure Head where
  method : Method
  target : Bytes
  version : Bytes
  headers : List (Bytes × Bytes)
  method_known : method ≠ .invalid
  target_spaces : 32 ∉ target
  version_known : version = ascii "HTTP/1.1" ∨ version = ascii "HTTP/1.0"
  names : ∀ header ∈ headers, ¬ ascii ": " <:+: header.1
  values : ∀ header ∈ headers, carriageReturn ∉ header.2 ∧ newline ∉ header.2
  plain : ∀ header ∈ headers, toLower header.1 ≠ ascii "content-length" ∧
    toLower header.1 ≠ ascii "range" ∧ toLower header.1 ≠ ascii "connection"

namespace Head

variable (head : Head)

/-- The lines of the head, the blank one at its end included. -/
def texts : List Bytes :=
  methodText head.method head.target head.version ::
    head.headers.map (fun header => Request.headerText header.1 header.2) ++ [[]]

/-- The request after the method line. -/
def afterMethod (opts : Options) : Request where
  mode := .headers
  method := head.method
  path := getPath head.target
  parameters := getParameters opts.ind head.target true
  version := head.version

end Head

/-- The values of the headers of this name, in any case, in the order they come in. -/
def valuesOf (headers : List (Bytes × Bytes)) (name : Bytes) : List Bytes :=
  (headers.filter fun header => toLower header.1 = name).map Prod.snd

/-- What is to be kept under a name. -/
def kept (headers : List (Bytes × Bytes)) (name : Bytes) : Option Bytes :=
  if valuesOf headers name = [] then none else some (joined (valuesOf headers name))

/-! ## What the parser keeps -/

/-- The map after these headers. -/
def addHeaders (headers : List (Bytes × Bytes)) (map : StringMap) : StringMap :=
  headers.foldl (fun map header => Request.addHeader map (toLower header.1) header.2) map

theorem addHeader_self (map : StringMap) (name content : Bytes) :
    (Request.addHeader map name content)[name]? = some (match map[name]? with
      | none => content
      | some before => if before = [] then content else before ++ ascii " " ++ content) := by
  unfold Request.addHeader
  cases map[name]? with
  | none => exact Std.ExtTreeMap.getElem?_insert_self
  | some before =>
    cases before with
    | nil => exact Std.ExtTreeMap.getElem?_insert_self
    | cons b before => exact Std.ExtTreeMap.getElem?_insert_self

theorem addHeader_of_ne (map : StringMap) {name key : Bytes} (h : name ≠ key) (content : Bytes) :
    (Request.addHeader map name content)[key]? = map[key]? := by
  have hkey : ¬ compare name key = .eq := by rwa [Std.LawfulEqCmp.compare_eq_iff_eq]
  unfold Request.addHeader
  split
  · rw [Std.ExtTreeMap.getElem?_insert, if_neg hkey]
  · split <;> rw [Std.ExtTreeMap.getElem?_insert, if_neg hkey]

theorem contains_addHeader (map : StringMap) (name content key : Bytes) :
    (Request.addHeader map name content).contains key =
      (decide (name = key) || map.contains key) := by
  have hkey : (compare name key == .eq) = decide (name = key) := by
    rw [Bool.eq_iff_iff, beq_iff_eq, decide_eq_true_iff, Std.LawfulEqCmp.compare_eq_iff_eq]
  unfold Request.addHeader
  split
  · rw [Std.ExtTreeMap.contains_insert, hkey]
  · split <;> rw [Std.ExtTreeMap.contains_insert, hkey]

/-- Under each name the map has the values of that name, joined. -/
theorem addHeaders_get (headers : List (Bytes × Bytes)) (key : Bytes) :
    (addHeaders headers ∅)[key]? = kept headers key := by
  induction headers using List.reverseRecOn with
  | nil => simp [addHeaders, kept, valuesOf]
  | append_singleton headers header ih =>
    have hfold : addHeaders (headers ++ [header]) ∅ =
        Request.addHeader (addHeaders headers ∅) (toLower header.1) header.2 := by
      unfold addHeaders
      rw [List.foldl_append]
      rfl
    by_cases hkey : toLower header.1 = key
    · have hvalues : valuesOf (headers ++ [header]) key = valuesOf headers key ++ [header.2] := by
        simp [valuesOf, List.filter_append, hkey]
      rw [hfold, hkey, addHeader_self, ih, kept, kept, hvalues, joined_concat]
      by_cases hnone : valuesOf headers key = []
      · simp [hnone, joined]
      · simp [hnone]
    · have hvalues : valuesOf (headers ++ [header]) key = valuesOf headers key := by
        simp [valuesOf, List.filter_append, hkey]
      rw [hfold, addHeader_of_ne _ hkey, ih, kept, kept, hvalues]

/-- A name that none of the headers has is not in the map. -/
theorem kept_eq_none {headers : List (Bytes × Bytes)} {name : Bytes}
    (h : ∀ header ∈ headers, toLower header.1 ≠ name) : kept headers name = none := by
  have hvalues : valuesOf headers name = [] := by
    unfold valuesOf
    rw [List.filter_eq_nil_iff.mpr (by simpa using h)]
    rfl
  rw [kept, if_pos hvalues]

theorem Request.not_actedUpon {name : Bytes} (hlength : toLower name ≠ ascii "content-length")
    (hrange : toLower name ≠ ascii "range") (hconnection : toLower name ≠ ascii "connection") :
    ¬ ActedUpon name := by
  rintro (rfl | rfl | rfl)
  · exact hlength (by decide)
  · exact hrange (by decide)
  · exact hconnection (by decide)

theorem headerText_unended {value : Bytes} (h : carriageReturn ∉ value ∧ newline ∉ value)
    (name : Bytes) : Unended (Request.headerText name value) := by
  unfold Request.headerText Unended
  cases value with
  | nil =>
    have hlast : (name ++ ascii ": " ++ []).getLast? = some 32 := by
      have hsep : ascii ": " = [58, 32] := by decide
      simp [hsep]
    rw [hlast]
    decide
  | cons b value =>
    rw [List.getLast?_append_of_ne_nil _ (List.cons_ne_nil b value)]
    exact ⟨fun hlast => h.2 (List.mem_of_getLast? hlast),
      fun hlast => h.1 (List.mem_of_getLast? hlast)⟩

theorem ended_single {text : Bytes} {lines : List Bytes} (h : List.Forall₂ Ended [text] lines) :
    ∃ line, Ended text line ∧ lines = [line] := by
  cases h with
  | cons hline hrest =>
    cases hrest
    exact ⟨_, hline, rfl⟩

/-- The rest of a head, from a header on: each line is taken, and the blank one ends it. -/
theorem feed_headers (opts : Options) {headers : List (Bytes × Bytes)}
    (hnames : ∀ header ∈ headers, ¬ ascii ": " <:+: header.1)
    (hvalues : ∀ header ∈ headers, carriageReturn ∉ header.2 ∧ newline ∉ header.2)
    (hplain : ∀ header ∈ headers, ¬ Request.ActedUpon header.1) {q : Request}
    (hmode : q.mode = .headers)
    (hnone : (addHeaders headers q.headers)[ascii "content-length"]? = none) {lines : List Bytes}
    (hlines : List.Forall₂ Ended
      (headers.map (fun header => Request.headerText header.1 header.2) ++ [[]]) lines) :
    (feed opts lines q).map Handled.result =
        List.replicate headers.length (.ok .continue) ++ [.ok .done] ∧
      (feed opts lines q).getLast?.map Handled.request =
        some { q with mode := .content, headers := addHeaders headers q.headers } := by
  induction headers generalizing q lines with
  | nil =>
    obtain ⟨line, hline, rfl⟩ := ended_single hlines
    have hblank : q.handleLine opts line =
        { request := { q with mode := .content }, result := .ok .done } := by
      have hstrip := hline.stripLine ⟨by decide, by decide⟩
      have hcontains : q.headers.contains (ascii "content-length") = false := by
        rw [← Std.ExtTreeMap.isSome_getElem?_eq_contains]
        exact congrArg Option.isSome hnone
      unfold Request.handleLine Request.blankLine
      simp [hmode, hstrip, hcontains]
    rw [feed_stop (by rw [hblank]; simp), hblank]
    exact ⟨rfl, rfl⟩
  | cons header headers ih =>
    cases hlines with
    | cons hline hrest =>
      rename_i line lines
      obtain ⟨hname, hnames⟩ := List.forall_mem_cons.mp hnames
      obtain ⟨hvalue, hvalues⟩ := List.forall_mem_cons.mp hvalues
      obtain ⟨hacted, hplain⟩ := List.forall_mem_cons.mp hplain
      have hstrip := hline.stripLine (headerText_unended hvalue header.1)
      have hhandled := Request.handleLine_headerText opts hmode hname hstrip
      rw [Request.header_of_not_actedUpon opts hacted] at hhandled
      have hnext := ih hnames hvalues hplain (q := { q with
        headers := Request.addHeader q.headers (toLower header.1) header.2 }) hmode hnone hrest
      rw [feed_continue (by rw [hhandled]), hhandled]
      obtain ⟨last, hlast, hrequest⟩ := Option.map_eq_some_iff.mp hnext.2
      refine ⟨?_, ?_⟩
      · rw [List.map_cons, hnext.1]
        rfl
      · rw [List.getLast?_cons, hlast]
        exact congrArg some hrequest

theorem getPath_eq_takeWhile (target : Bytes) : getPath target = target.takeWhile (· ≠ 63) := by
  unfold getPath
  cases hfound : find target 63 with
  | none =>
    rw [find_eq_none] at hfound
    refine (List.takeWhile_eq_self_iff.mpr fun b hb => ?_).symm
    exact decide_eq_true fun heq => hfound (heq ▸ hb)
  | some i =>
    obtain ⟨hnot, hsplit⟩ := find_eq_some hfound
    have hall : ∀ b ∈ target.take i, decide (b ≠ 63) = true := fun b hb =>
      decide_eq_true fun heq => hnot (heq ▸ hb)
    conv => rhs; rw [hsplit]
    rw [List.takeWhile_append_of_pos hall, List.takeWhile_cons_of_neg (by simp), List.append_nil]

namespace Head

/-- Whatever the line endings, a head is read to its end, and as it says: each line but the last is
    answered with `Continue`, the last with `Done`. -/
theorem feed_texts (opts : Options) (head : Head) {lines : List Bytes}
    (hlines : List.Forall₂ Ended head.texts lines) :
    ∃ q, (feed opts lines {}).map Handled.result =
          List.replicate (lines.length - 1) (.ok .continue) ++ [.ok .done] ∧
      (feed opts lines {}).getLast?.map Handled.request = some q ∧
      q.path = head.target.takeWhile (· ≠ 63) ∧
      q.parameters = getParameters opts.ind head.target true ∧
      ∀ name, q.headers[name]? = kept head.headers name := by
  have hlength := hlines.length_eq
  cases hlines with
  | cons hline hrest =>
    rename_i line lines
    have hunended : Unended (methodText head.method head.target head.version) := by
      unfold Unended methodText
      rcases head.version_known with hversion | hversion
      · rw [hversion, List.getLast?_append_of_ne_nil _ (by decide)]
        decide
      · rw [hversion, List.getLast?_append_of_ne_nil _ (by decide)]
        decide
    have hmethod : Request.handleLine opts line {} = { request := head.afterMethod opts } :=
      (congrArg (Request.methodLine opts · {}) (hline.stripLine hunended)).trans
        (methodLine_methodText opts head.method_known head.target_spaces head.version_known {})
    have hplain : ∀ header ∈ head.headers, ¬ Request.ActedUpon header.1 := fun header hmem =>
      let ⟨hlength, hrange, hconnection⟩ := head.plain header hmem
      Request.not_actedUpon hlength hrange hconnection
    have hnone : (addHeaders head.headers ∅)[ascii "content-length"]? = none := by
      rw [addHeaders_get]
      exact kept_eq_none fun header hmem => (head.plain header hmem).1
    obtain ⟨hresults, hlast⟩ := feed_headers opts head.names head.values hplain
      (q := head.afterMethod opts) rfl hnone hrest
    obtain ⟨last, hlast, hrequest⟩ := Option.map_eq_some_iff.mp hlast
    have hcount : lines.length = head.headers.length + 1 := by
      simpa [texts] using hlength.symm
    rw [feed_continue (by rw [hmethod]), hmethod]
    refine ⟨{ head.afterMethod opts with
        mode := .content
        headers := addHeaders head.headers ∅ }, ?_, ?_, getPath_eq_takeWhile head.target, rfl,
      fun name => ?_⟩
    · rw [List.map_cons, hresults, List.length_cons, hcount]
      rfl
    · rw [List.getLast?_cons, hlast]
      exact congrArg some hrequest
    · exact addHeaders_get head.headers name

/-- A head with a repeated name, its first value empty, and lines that end in both ways. -/
theorem feed_texts_repeated : ∃ head : Head, ∃ lines : List Bytes,
    lines.length = 5 ∧ kept head.headers (ascii "a") = some (ascii "x y") ∧
    ∃ q, (feed {} lines {}).map Handled.result =
          List.replicate (lines.length - 1) (.ok .continue) ++ [.ok .done] ∧
      (feed {} lines {}).getLast?.map Handled.request = some q ∧
      q.path = head.target.takeWhile (· ≠ 63) ∧
      q.parameters = getParameters {} head.target true ∧
      ∀ name, q.headers[name]? = kept head.headers name :=
  let head : Head := {
    method := .GET
    target := ascii "/p?k=v"
    version := ascii "HTTP/1.1"
    headers := [(ascii "A", []), (ascii "a", ascii "x"), (ascii "A", ascii "y")]
    method_known := by decide
    target_spaces := by decide
    version_known := by decide
    names := by decide
    values := by decide
    plain := by decide }
  ⟨head, [ascii "GET /p?k=v HTTP/1.1", ascii "A: \x0d\n", ascii "a: x", ascii "A: y\x0d\n", []],
    rfl, by decide, feed_texts {} head (by
      refine .cons (.inl (by decide)) (.cons (.inr (by decide)) (.cons (.inl (by decide))
        (.cons (.inr (by decide)) (.cons (.inl rfl) .nil)))))⟩

end Head

end Algiz.HTTP
