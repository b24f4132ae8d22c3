/-
  `Redirect`: every request is answered with the place it should have gone to.

  The `Location` header is put together from the base, the path and the parameters, and these
  have been unescaped. It stays on its line, and the head of the response has the headers that
  were set and no others, exactly when no part of it holds a CR or an LF (`handle_iff`).
-/
import Algiz.Fileserv.Sending
import Algiz.HTTP.Parameters
import Algiz.HTTP.ResponseText
import Algiz.Plugins

namespace Algiz.Plugins

open Lib HTTP

/-- `Request::getHeader` -/
def getHeader (request : Request) (name : Bytes) : Bytes :=
  match request.headers[name]? with
  | some value => value
  | none => []

/-- `Redirect` -/
structure Redirect where
  base : Bytes

namespace Redirect

/-- `Redirect::postinit`, with `config["base"]` if it is there and a string. -/
def postinit (config : Option Bytes) : Redirect :=
  match config with
  | none => ⟨ascii "https"⟩
  | some base =>
    if base.isEmpty then ⟨ascii "https"⟩
    else if base.getLast? = some 47 then ⟨base.dropLast⟩
    else ⟨base⟩

/-- `base_view` -/
def baseView (p : Redirect) (request : Request) : Bytes :=
  let host := getHeader request (ascii "host")
  if p.base = ascii "https" ∧ host ≠ [] then ascii "https://" ++ host else p.base

/-- The value of the `Location` header. -/
def location (p : Redirect) (request : Request) : Bytes :=
  if request.path.head? = some 47 then p.baseView request ++ request.pathWithParameters
  else p.baseView request ++ ascii "/" ++ request.pathWithParameters

/-- The response of `Redirect::handle`. -/
def response (p : Redirect) (request : Request) : Response :=
  ({ code := 301, content := [], noContentType := true } : Response).set (ascii "location")
    (p.location request)

/-- `Redirect::handle` -/
def handle (p : Redirect) (request : Request) (notDisabled : Bool) : Run CancelableResult :=
  if !notDisabled then pure .pass
  else do
    Trace.emit (.respond (p.response request) none)
    Trace.emit .closed
    pure .approve

/-! ## The parts of the location -/

/-- What stands in the written path, but for the separators, is from the path or a parameter. -/
theorem mem_pathWithParameters {request : Request} {b : UInt8} (hquestion : b ≠ 63)
    (hampersand : b ≠ 38) (hequals : b ≠ 61) :
    b ∈ request.pathWithParameters ↔
      b ∈ request.path ∨ ∃ entry ∈ request.parameters.toList, b ∈ entry.1 ∨ b ∈ entry.2 := by
  have htext : ∀ entry : Bytes × Bytes, b ∈ parameterText entry ↔ b ∈ entry.1 ∨ b ∈ entry.2 := by
    rintro ⟨key, value⟩
    cases value <;> simp [parameterText, hequals]
  rw [Request.pathWithParameters_eq, List.mem_append]
  refine or_congr_right ?_
  cases request.parameters.toList with
  | nil => simp
  | cons entry entries =>
    rw [if_neg (List.cons_ne_nil _ _), List.map_cons, intercalate_cons]
    simp [hquestion, hampersand, htext]

open Response (OneLine)

theorem oneLine_append_iff (text others : Bytes) :
    OneLine (text ++ others) ↔ OneLine text ∧ OneLine others := by
  unfold OneLine
  rw [List.mem_append, List.mem_append, not_or, not_or]
  tauto

/-- The written path is on a line if the path and the parameters are. -/
theorem oneLine_pathWithParameters (request : Request) :
    OneLine request.pathWithParameters ↔ OneLine request.path ∧
      ∀ entry ∈ request.parameters.toList, OneLine entry.1 ∧ OneLine entry.2 := by
  unfold OneLine
  rw [mem_pathWithParameters (by decide) (by decide) (by decide),
    mem_pathWithParameters (by decide) (by decide) (by decide)]
  constructor
  · rintro ⟨hreturn, hline⟩
    rw [not_or] at hreturn hline
    refine ⟨⟨hreturn.1, hline.1⟩, ?_⟩
    intro entry hentry
    exact ⟨⟨fun hin => hreturn.2 ⟨entry, hentry, Or.inl hin⟩,
      fun hin => hline.2 ⟨entry, hentry, Or.inl hin⟩⟩,
      fun hin => hreturn.2 ⟨entry, hentry, Or.inr hin⟩,
      fun hin => hline.2 ⟨entry, hentry, Or.inr hin⟩⟩
  · rintro ⟨hpath, hentries⟩
    refine ⟨?_, ?_⟩
    · rintro (hin | ⟨entry, hentry, hin | hin⟩)
      · exact hpath.1 hin
      · exact (hentries entry hentry).1.1 hin
      · exact (hentries entry hentry).2.1 hin
    · rintro (hin | ⟨entry, hentry, hin | hin⟩)
      · exact hpath.2 hin
      · exact (hentries entry hentry).1.2 hin
      · exact (hentries entry hentry).2.2 hin

/-- Nothing that the location is made of holds a CR or an LF. -/
structure OneLineParts (p : Redirect) (request : Request) : Prop where
  base : OneLine (p.baseView request)
  path : OneLine request.path
  parameters : ∀ entry ∈ request.parameters.toList, OneLine entry.1 ∧ OneLine entry.2

theorem oneLine_location (p : Redirect) (request : Request) :
    OneLine (p.location request) ↔ p.OneLineParts request := by
  have hslash : OneLine (ascii "/") := by
    unfold OneLine
    decide
  have hparts : OneLine (p.location request) ↔
      OneLine (p.baseView request) ∧ OneLine request.pathWithParameters := by
    unfold location
    split_ifs
    · exact oneLine_append_iff _ _
    · rw [oneLine_append_iff, oneLine_append_iff, and_iff_left hslash]
  rw [hparts, oneLine_pathWithParameters]
  exact ⟨fun h => ⟨h.1, h.2.1, h.2.2⟩, fun h => ⟨h.base, h.path, h.parameters⟩⟩

/-! ## The response -/

/-- The `Location` header is on a line, and the header lines of the head as it is read are the
    headers that were set and the length. -/
def Uninjected (response : Response) : Prop :=
  (∀ value, response.headers[ascii "location"]? = some value → OneLine value) ∧
    ∃ m, readMessage response.toBytes = some m ∧
      m.headerLines = ((ascii "Content-Length", decimalText response.content.length) ::
        response.headers.toList).map fieldLine

theorem response_location (p : Redirect) (request : Request) :
    (p.response request).headers[ascii "location"]? = some (p.location request) :=
  Std.ExtTreeMap.getElem?_insert_self

theorem wellFormed_response {p : Redirect} {request : Request} (h : p.OneLineParts request) :
    (p.response request).WellFormed := by
  have hfield : ∀ field ∈ (p.response request).headers.toList,
      field = (ascii "location", p.location request) ∨
        field = (ascii "connection", ascii "close") := by
    rintro ⟨name, value⟩ hfield
    have hget : (((∅ : StringMap).insert (ascii "connection") (ascii "close")).insert
        (ascii "location") (p.location request))[name]? = some value :=
      Std.ExtTreeMap.mem_toList_iff_getElem?_eq_some.mp hfield
    rw [Std.ExtTreeMap.getElem?_insert, Std.ExtTreeMap.getElem?_insert] at hget
    split_ifs at hget with hlocation hconnection
    · have hname : ascii "location" = name := Std.LawfulEqCmp.eq_of_compare hlocation
      rw [← hname, ← Option.some.inj hget]
      exact Or.inl rfl
    · have hname : ascii "connection" = name := Std.LawfulEqCmp.eq_of_compare hconnection
      rw [← hname, ← Option.some.inj hget]
      exact Or.inr rfl
    · exact nomatch hget
  have hmime : OneLine (ascii "text/html") := by
    unfold OneLine
    decide
  have hlocation : isToken (ascii "location") = true ∧
      toLower (ascii "location") = ascii "location" := by decide
  refine ⟨hmime, ⟨List.not_mem_nil, List.not_mem_nil⟩, ?_, ?_, ?_⟩
  · intro field hin
    rcases hfield field hin with rfl | rfl
    · exact hlocation
    · decide
  · intro field hin
    rcases hfield field hin with rfl | rfl
    · exact (oneLine_location p request).mpr h
    · unfold OneLine
      decide
  · have hnone : (((∅ : StringMap).insert (ascii "connection") (ascii "close")).insert
        (ascii "location") (p.location request)).contains (ascii "content-length") = false := by
      rw [Std.ExtTreeMap.contains_insert, Std.ExtTreeMap.contains_insert]
      rfl
    exact hnone

/-- The response is right exactly when no part of the location holds a CR or an LF. -/
theorem uninjected_response (p : Redirect) (request : Request) :
    Uninjected (p.response request) ↔ p.OneLineParts request := by
  constructor
  · intro h
    exact (oneLine_location p request).mp (h.1 _ (response_location p request))
  · intro h
    have hcode : codeDescription (p.response request).code = some "Moved Permanently" := rfl
    have hread := Response.readMessage_of_description hcode (wellFormed_response h)
    refine ⟨?_, _, hread, rfl⟩
    intro value hvalue
    rw [response_location] at hvalue
    exact Option.some.inj hvalue ▸ (oneLine_location p request).mpr h

/-- No response has a header injected exactly when the location is made of parts without CR and
    LF, or the request is not answered. -/
theorem handle_iff (p : Redirect) (request : Request) (notDisabled : Bool) :
    (∀ response source, Event.respond response source ∈ (p.handle request notDisabled).events →
      Uninjected response) ↔ (notDisabled = true → p.OneLineParts request) := by
  cases notDisabled with
  | false =>
    have hevents : (p.handle request false).events = [] := rfl
    rw [hevents]
    exact ⟨fun _ h => absurd h (by decide), fun _ _ _ h => absurd h List.not_mem_nil⟩
  | true =>
    have hevents : (p.handle request true).events =
      [Event.respond (p.response request) none, Event.closed] := rfl
    rw [hevents, ← uninjected_response]
    constructor
    · intro h _
      exact h (p.response request) none List.mem_cons_self
    · intro h response source hin
      rcases List.mem_cons.mp hin with heq | hin
      · cases heq
        exact h rfl
      · exact nomatch List.mem_singleton.mp hin

/-- A value with an escaped CR LF starts a line of its own. -/
theorem injected_parameter :
    let handled := ({} : Request).handleLine {} (ascii "GET /p?a=%0d%0aX:%20b HTTP/1.1\r\n")
    let p := postinit (some (ascii "https://a/"))
    handled.result = .ok .continue ∧
      p.location handled.request = ascii "https://a/p?a=\r\nX: b" ∧
      ¬ ∀ response source,
        Event.respond response source ∈ (p.handle handled.request true).events →
          Uninjected response := by
  intro handled p
  have hlocation : p.location handled.request = ascii "https://a/p?a=\r\nX: b" := by decide
  refine ⟨rfl, hlocation, ?_⟩
  intro h
  have hvalue := (h (p.response handled.request) none List.mem_cons_self).1 _
    (response_location p handled.request)
  rw [hlocation] at hvalue
  exact hvalue.1 (by decide)

end Redirect

end Algiz.Plugins
