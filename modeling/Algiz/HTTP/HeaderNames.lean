/-
  The names of the headers that a response is written with.

  A name is written once, compared without case, as long as the keys of the map differ without
  case, and those of the two headers that `noContent` adds by itself are in lower case
  (`distinct_iff`). `setHeader`, `setClose`, `setAcceptRanges` and `setLastModified` write keys in
  lower case; `operator[]` and `setHeaders` take them as they are. `distinct_run_iff` says which
  calls keep the names apart.
-/
import Algiz.HTTP.Response
import Algiz.Lib.Transition

namespace Algiz.HTTP.Response

open Lib

/-! ## The calls -/

/-- `Response::setHeader` -/
def setHeader (r : Response) (header value : Bytes) : Response := r.set (toLower header) value

/-- `Response::setHeaders` -/
def setHeaders (r : Response) (headers : StringMap) : Response := { r with headers }

/-- `Response::setClose` -/
def setClose (r : Response) (close : Bool) : Response :=
  if close then r.setHeader (ascii "Connection") (ascii "close")
  else if r.headers[ascii "connection"]? = some (ascii "close") then
    { r with headers := r.headers.erase (ascii "connection") }
  else r

/-- `Response::setAcceptRanges` -/
def setAcceptRanges (r : Response) (value : Bool) : Response :=
  if value then r.set (ascii "accept-ranges") (ascii "bytes")
  else { r with headers := r.headers.erase (ascii "accept-ranges") }

/-- `Response::setLastModified`, with what `formatTime` writes. -/
def setLastModified (r : Response) (formatted : Bytes) : Response :=
  r.set (ascii "last-modified") formatted

/-- `Response::operator[]`, and what is assigned through the reference that it returns. -/
def index (r : Response) (header : Bytes) (assigned : Option Bytes) : Response :=
  match assigned with
  | some value => r.set header value
  | none => if r.headers.contains header then r else r.set header []

/-- A call on a response. -/
inductive Call where
  | setHeader (header value : Bytes)
  | setHeaders (headers : StringMap)
  | setClose (close : Bool)
  | setAcceptRanges (value : Bool)
  | setLastModified (formatted : Bytes)
  | index (header : Bytes) (assigned : Option Bytes)

/-- What the call leaves. -/
def call (r : Response) : Call → Response
  | .setHeader header value => r.setHeader header value
  | .setHeaders headers => r.setHeaders headers
  | .setClose close => r.setClose close
  | .setAcceptRanges value => r.setAcceptRanges value
  | .setLastModified formatted => r.setLastModified formatted
  | .index header assigned => r.index header assigned

/-- Calls never fail. -/
def step (r : Response) (c : Call) : Option Response := some (r.call c)

/-! ## The head as it is written -/

/-- The headers of the head, in order, with the names that are written. -/
def written (r : Response) : List (Bytes × Bytes) :=
  if (codeDescription r.code).isSome then
    (if !r.noContentType && !r.headers.contains (ascii "content-type") then
      [(ascii "Content-Type",
        r.mime ++ if r.charset.isEmpty then [] else ascii "; charset=" ++ r.charset)]
    else []) ++
    (if !r.headers.contains (ascii "content-length") then
      [(ascii "Content-Length", decimalText r.content.length)]
    else []) ++ r.headers.toList
  else [(ascii "Content-Type", ascii "text/html; charset=UTF-8"),
    (ascii "Content-Length", ascii "21"), (ascii "Connection", ascii "close")]

/-- The first line. -/
def statusLine (r : Response) : Bytes :=
  match codeDescription r.code with
  | none => ascii "HTTP/1.1 500 Internal Server Error\r\n"
  | some description =>
    ascii "HTTP/1.1 " ++ decimalText r.code ++ ascii " " ++ ascii description ++ ascii "\r\n"

/-- The body that a generated response has. -/
def generatedBody (r : Response) : Bytes :=
  if (codeDescription r.code).isSome then [] else ascii "Internal Server Error"

/-- The head is the first line, these headers and a blank line. -/
theorem noContent_eq (r : Response) : r.noContent =
    r.statusLine ++ (r.written.map fun header => headerText header.1 header.2).flatten ++
      ascii "\r\n" ++ r.generatedBody := by
  unfold noContent statusLine written generatedBody
  cases hdescription : codeDescription r.code with
  | none =>
    dsimp only
    rw [Option.isSome_none, if_neg Bool.false_ne_true, if_neg Bool.false_ne_true]
    decide +kernel
  | some description =>
    dsimp only
    rw [Option.isSome_some, if_pos rfl, if_pos rfl]
    have hheaders : ∀ (b : Bool) (header : Bytes × Bytes),
        ((if b then [header] else []).map fun header => headerText header.1 header.2).flatten =
          if b then headerText header.1 header.2 else [] := by
      intro b header
      cases b <;> simp
    rw [List.map_append, List.map_append, List.flatten_append, List.flatten_append, hheaders,
      hheaders, List.append_nil]
    simp only [List.append_assoc]

/-- No name is written twice, compared without case. -/
def Distinct (r : Response) : Prop := (r.written.map fun header => toLower header.1).Nodup

/-! ## Keys that are apart -/

/-- The keys differ without case, and are in lower case for the headers that are defaulted. -/
structure Apart (noContentType : Bool) (headers : StringMap) : Prop where
  apart : ∀ name ∈ headers, ∀ other ∈ headers, toLower other = toLower name → other = name
  length : ∀ name ∈ headers, toLower name = ascii "content-length" →
    name = ascii "content-length"
  type : noContentType = false → ∀ name ∈ headers, toLower name = ascii "content-type" →
    name = ascii "content-type"

/-- There is no other spelling of the key, and it is in lower case for the headers that are
    defaulted. -/
structure Fresh (r : Response) (name : Bytes) : Prop where
  apart : ∀ other ∈ r.headers, toLower other = toLower name → other = name
  length : toLower name = ascii "content-length" → name = ascii "content-length"
  type : r.noContentType = false → toLower name = ascii "content-type" →
    name = ascii "content-type"

/-- The key that a call writes, unless it writes all of them. -/
def Call.key : Call → Option Bytes
  | .setHeader header _ => some (toLower header)
  | .setHeaders _ => none
  | .setClose close => if close then some (ascii "connection") else none
  | .setAcceptRanges value => if value then some (ascii "accept-ranges") else none
  | .setLastModified _ => some (ascii "last-modified")
  | .index header _ => some header

/-- The call keeps the names apart. -/
def KeepsApart (r : Response) (c : Call) : Prop :=
  (codeDescription r.code).isSome = true →
    (∀ headers, c = .setHeaders headers → Apart r.noContentType headers) ∧
      ∀ name, c.key = some name → Fresh r name

theorem mem_iff_mem_toList {headers : StringMap} {name : Bytes} :
    name ∈ headers ↔ name ∈ headers.toList.map Prod.fst := by
  rw [Std.ExtTreeMap.map_fst_toList_eq_keys, Std.ExtTreeMap.mem_keys]

/-- A name is there in one spelling only, and is not written by default besides. -/
theorem defaulted_iff {headers : StringMap} {name : Bytes} (hname : toLower name = name)
    (hapart : ∀ name ∈ headers, ∀ other ∈ headers, toLower other = toLower name → other = name) :
    (headers.contains name = false → ∀ other ∈ headers, toLower other ≠ name) ↔
      ∀ other ∈ headers, toLower other = name → other = name := by
  constructor
  · intro h other hother heq
    cases hcontains : headers.contains name with
    | false => exact absurd heq (h hcontains other hother)
    | true =>
      have hmem : name ∈ headers := hcontains
      exact hapart name hmem other hother (heq.trans hname.symm)
  · intro h hnone other hother heq
    have hmem : headers.contains name = true := h other hother heq ▸ hother
    rw [hnone] at hmem
    cases hmem

theorem nodup_defaulted_iff {x y : Bytes} (hxy : x ≠ y) (a b : Bool) (names : List Bytes) :
    ((if a then [x] else []) ++ (if b then [y] else []) ++ names).Nodup ↔
      names.Nodup ∧ (a = true → x ∉ names) ∧ (b = true → y ∉ names) := by
  cases a <;> cases b <;> simp [hxy]
  · exact and_comm
  · exact and_comm
  · tauto

/-- The names as they are compared. -/
theorem written_names {r : Response} (h : (codeDescription r.code).isSome = true) :
    r.written.map (fun header => toLower header.1) =
      (if !r.noContentType && !r.headers.contains (ascii "content-type") then
        [ascii "content-type"] else []) ++
      (if !r.headers.contains (ascii "content-length") then [ascii "content-length"] else []) ++
      (r.headers.toList.map Prod.fst).map toLower := by
  have hone : ∀ (b : Bool) (header : Bytes × Bytes), (if b then [header] else []).map
      (fun header => toLower header.1) = if b then [toLower header.1] else [] := by
    intro b header
    cases b <;> rfl
  unfold written
  rw [if_pos h, List.map_append, List.map_append, hone, hone, List.map_map]
  rfl

/-- The names are written once exactly if the keys of the map are apart. -/
theorem distinct_iff (r : Response) :
    r.Distinct ↔ ((codeDescription r.code).isSome = true → Apart r.noContentType r.headers) := by
  cases hsome : (codeDescription r.code).isSome with
  | false =>
    refine iff_of_true ?_ fun h => by cases h
    unfold Distinct written
    rw [hsome, if_neg Bool.false_ne_true]
    decide
  | true =>
    have hnodup : (r.headers.toList.map Prod.fst).Nodup := by
      rw [Std.ExtTreeMap.map_fst_toList_eq_keys]
      exact Std.ExtTreeMap.nodup_keys
    have hnot : ∀ name, name ∉ (r.headers.toList.map Prod.fst).map toLower ↔
        ∀ other ∈ r.headers, toLower other ≠ name := by
      intro name
      rw [List.mem_map, not_exists]
      refine forall_congr' fun other => ?_
      rw [mem_iff_mem_toList, not_and]
    unfold Distinct
    rw [written_names hsome, nodup_defaulted_iff (by decide), List.nodup_map_iff_inj_on hnodup,
      hnot, hnot, forall_prop_of_true rfl, Bool.and_eq_true_iff, Bool.not_eq_true',
      Bool.not_eq_true', Bool.not_eq_true', and_imp]
    constructor
    · rintro ⟨hapart, htype, hlength⟩
      have hkeys : ∀ name ∈ r.headers, ∀ other ∈ r.headers,
          toLower other = toLower name → other = name := fun name hname other hother =>
        hapart other (mem_iff_mem_toList.mp hother) name (mem_iff_mem_toList.mp hname)
      exact ⟨hkeys, (defaulted_iff (by decide) hkeys).mp hlength,
        fun hnone => (defaulted_iff (by decide) hkeys).mp (htype hnone)⟩
    · intro h
      refine ⟨fun other hother name hname => ?_, fun hnone => ?_, ?_⟩
      · exact h.apart name (mem_iff_mem_toList.mpr hname) other (mem_iff_mem_toList.mpr hother)
      · exact (defaulted_iff (by decide) h.apart).mpr (h.type hnone)
      · exact (defaulted_iff (by decide) h.apart).mpr h.length

/-! ## What the calls do to the keys -/

theorem apart_erase {noContentType : Bool} {headers : StringMap} (h : Apart noContentType headers)
    (name : Bytes) : Apart noContentType (headers.erase name) := by
  have hmem : ∀ other ∈ headers.erase name, other ∈ headers := fun other hother =>
    (Std.ExtTreeMap.mem_erase.mp hother).2
  exact ⟨fun a ha b hb => h.apart a (hmem a ha) b (hmem b hb),
    fun a ha => h.length a (hmem a ha), fun hnone a ha => h.type hnone a (hmem a ha)⟩

/-- A key may be written if it is fresh. -/
theorem apart_insert_iff {r : Response} (h : Apart r.noContentType r.headers)
    (name value : Bytes) :
    Apart r.noContentType (r.headers.insert name value) ↔ Fresh r name := by
  have hmem : ∀ other, other ∈ r.headers.insert name value ↔ other = name ∨ other ∈ r.headers := by
    intro other
    rw [Std.ExtTreeMap.mem_insert, Std.LawfulEqCmp.compare_eq_iff_eq, eq_comm]
  have hself := (hmem name).mpr (Or.inl rfl)
  constructor
  · intro hall
    exact ⟨fun other hother => hall.apart name hself other ((hmem other).mpr (Or.inr hother)),
      hall.length name hself, fun hnone => hall.type hnone name hself⟩
  · intro hfresh
    refine ⟨?_, ?_, ?_⟩
    · intro first hfirst second hsecond heq
      rcases (hmem first).mp hfirst with rfl | hold
      · rcases (hmem second).mp hsecond with rfl | hold
        · rfl
        · exact hfresh.apart second hold heq
      · rcases (hmem second).mp hsecond with rfl | hold'
        · exact (hfresh.apart first hold heq.symm).symm
        · exact h.apart first hold second hold' heq
    · intro other hother heq
      rcases (hmem other).mp hother with rfl | hother
      · exact hfresh.length heq
      · exact h.length other hother heq
    · intro hnone other hother heq
      rcases (hmem other).mp hother with rfl | hother
      · exact hfresh.type hnone heq
      · exact h.type hnone other hother heq

/-- A key that is there already is fresh. -/
theorem fresh_of_mem {r : Response} (h : Apart r.noContentType r.headers) {name : Bytes}
    (hname : name ∈ r.headers) : Fresh r name :=
  ⟨fun other hother => h.apart name hname other hother, h.length name hname,
    fun hnone => h.type hnone name hname⟩

/-- A call leaves the code, and whether there is a default content type. -/
theorem call_frame (r : Response) (c : Call) :
    (r.call c).code = r.code ∧ (r.call c).noContentType = r.noContentType := by
  cases c with
  | setHeader header value => exact ⟨rfl, rfl⟩
  | setHeaders headers => exact ⟨rfl, rfl⟩
  | setClose close =>
    rw [call, setClose]
    split_ifs <;> exact ⟨rfl, rfl⟩
  | setAcceptRanges value =>
    rw [call, setAcceptRanges]
    split_ifs <;> exact ⟨rfl, rfl⟩
  | setLastModified formatted => exact ⟨rfl, rfl⟩
  | index header assigned =>
    cases assigned with
    | some value => exact ⟨rfl, rfl⟩
    | none =>
      rw [call, index]
      split_ifs <;> exact ⟨rfl, rfl⟩

/-- What a call writes and what it erases. -/
theorem call_headers (r : Response) (c : Call) :
    (∃ headers, c = .setHeaders headers ∧ (r.call c).headers = headers) ∨
    (∃ name value, c.key = some name ∧ (r.call c).headers = r.headers.insert name value) ∨
    (c.key = none ∧ (∀ headers, c ≠ .setHeaders headers) ∧
      ((r.call c).headers = r.headers ∨ ∃ name, (r.call c).headers = r.headers.erase name)) ∨
    (∃ name ∈ r.headers, c.key = some name ∧ (r.call c).headers = r.headers) := by
  cases c with
  | setHeader header value => exact .inr (.inl ⟨toLower header, value, rfl, rfl⟩)
  | setHeaders headers => exact .inl ⟨headers, rfl, rfl⟩
  | setClose close =>
    cases close with
    | true => exact .inr (.inl ⟨ascii "connection", ascii "close", rfl, rfl⟩)
    | false =>
      refine .inr (.inr (.inl ⟨rfl, fun headers h => (by cases h), ?_⟩))
      rw [call, setClose, if_neg Bool.false_ne_true]
      split
      · exact .inr ⟨_, rfl⟩
      · exact .inl rfl
  | setAcceptRanges value =>
    cases value with
    | true => exact .inr (.inl ⟨ascii "accept-ranges", ascii "bytes", rfl, rfl⟩)
    | false => exact .inr (.inr (.inl ⟨rfl, fun headers h => (by cases h), .inr ⟨_, rfl⟩⟩))
  | setLastModified formatted => exact .inr (.inl ⟨ascii "last-modified", formatted, rfl, rfl⟩)
  | index header assigned =>
    cases assigned with
    | some value => exact .inr (.inl ⟨header, value, rfl, rfl⟩)
    | none =>
      cases hcontains : r.headers.contains header with
      | true =>
        refine .inr (.inr (.inr ⟨header, hcontains, rfl, ?_⟩))
        rw [call, index, if_pos hcontains]
      | false =>
        refine .inr (.inl ⟨header, [], rfl, ?_⟩)
        rw [call, index, hcontains, if_neg Bool.false_ne_true]
        rfl

/-- A call leaves the keys apart exactly if those that it writes are. -/
theorem apart_call_iff {r : Response} (h : Apart r.noContentType r.headers) (c : Call) :
    Apart r.noContentType (r.call c).headers ↔
      (∀ headers, c = .setHeaders headers → Apart r.noContentType headers) ∧
        ∀ name, c.key = some name → Fresh r name := by
  have hone : ∀ name, c.key = some name → ((Fresh r name) ↔
      (∀ headers, c = .setHeaders headers → Apart r.noContentType headers) ∧
        ∀ name, c.key = some name → Fresh r name) := by
    intro name hkey
    constructor
    · intro hfresh
      refine ⟨fun headers heq => ?_, fun other hother => ?_⟩
      · rw [heq] at hkey
        cases hkey
      · rw [hkey] at hother
        exact Option.some.inj hother ▸ hfresh
    · exact fun hall => hall.2 name hkey
  rcases call_headers r c with ⟨headers, rfl, hheaders⟩ | ⟨name, value, hkey, hheaders⟩ |
    ⟨hkey, hnot, hheaders⟩ | ⟨name, hname, hkey, hheaders⟩
  · rw [hheaders]
    refine ⟨fun hapart => ⟨fun other heq => ?_, fun name hkey => by cases hkey⟩,
      fun hall => hall.1 headers rfl⟩
    cases heq
    exact hapart
  · rw [hheaders, apart_insert_iff h]
    exact hone name hkey
  · have hkept : Apart r.noContentType (r.call c).headers := by
      rcases hheaders with heq | ⟨name, heq⟩
      · rw [heq]
        exact h
      · rw [heq]
        exact apart_erase h name
    refine iff_of_true hkept ⟨fun headers heq => absurd heq (hnot headers), fun name heq => ?_⟩
    rw [hkey] at heq
    cases heq
  · rw [hheaders]
    exact iff_of_true h ((hone name hkey).mp (fresh_of_mem h hname))

/-! ## Runs -/

/-- A constructed response, with any code and content. -/
def constructed (code : Int) (content mime charset : Bytes) (noContentType : Bool) : Response :=
  { code, content, mime, charset, noContentType }

theorem distinct_constructed (code : Int) (content mime charset : Bytes) (noContentType : Bool) :
    (constructed code content mime charset noContentType).Distinct := by
  have hmem : ∀ name, name ∈ (constructed code content mime charset noContentType).headers →
      name = ascii "connection" := by
    intro name hname
    rcases Std.ExtTreeMap.mem_insert.mp hname with heq | hnone
    · exact (Std.LawfulEqCmp.compare_eq_iff_eq.mp heq).symm
    · exact absurd hnone Std.ExtTreeMap.not_mem_empty
  rw [distinct_iff]
  refine fun _ => ⟨fun a ha b hb _ => (hmem b hb).trans (hmem a ha).symm, ?_, ?_⟩
  · intro name hname heq
    rw [hmem name hname] at heq
    exact absurd heq (by decide)
  · intro _ name hname heq
    rw [hmem name hname] at heq
    exact absurd heq (by decide)

/-- Whatever is called on a response, its names are apart all the time exactly if every call
    keeps them apart. -/
theorem distinct_run_iff (code : Int) (content mime charset : Bytes) (noContentType : Bool)
    (calls : List Call) :
    AllStates step Distinct (constructed code content mime charset noContentType) calls ↔
      AllSteps step KeepsApart (constructed code content mime charset noContentType) calls := by
  have hinv : ∀ (r : Response) (c : Call) (t : Response), True → r.Distinct →
      step r c = some t → t.Distinct → True := fun _ _ _ _ _ _ _ => trivial
  refine allStates_iff hinv ?_ calls trivial
    (distinct_constructed code content mime charset noContentType)
  intro r c t _ hdistinct ht
  obtain rfl := Option.some.inj ht
  obtain ⟨hcode, htype⟩ := call_frame r c
  rw [distinct_iff] at hdistinct ⊢
  rw [hcode, htype]
  exact forall_congr' fun hsome => apart_call_iff (hdistinct hsome) c

/-- A length that is set through `operator[]` as it is usually spelled is written twice. -/
theorem distinct_index_contentLength : ¬ ∀ calls : List Call,
    AllStates step Distinct (constructed 200 [] (ascii "text/html") [] false) calls := by
  intro h
  have hrun := h [.index (ascii "Content-Length") (some (ascii "0"))]
  have hlast := (hrun.2 _ rfl).head
  rw [distinct_iff] at hlast
  have hlength := (hlast (by decide)).length (ascii "Content-Length")
    Std.ExtTreeMap.mem_insert_self (by decide)
  exact absurd hlength (by decide)

end Algiz.HTTP.Response
