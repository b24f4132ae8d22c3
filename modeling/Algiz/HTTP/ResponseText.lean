/-
  Responses as they are written, read as HTTP/1.1 messages.

  `readMessage` reads a status line, header lines up to a blank one, and takes the rest for the
  body. What `Response::noContent` writes for a code with a description is such a message with
  exactly the headers that were set and the defaulted ones. For any other code it is a generated
  500 response that is whole already, and the content is written behind it, so that the message is
  framed only where there is no content (`toBytes_iff`).
-/
import Algiz.HTTP.Response
import Algiz.Lib.Reader

namespace Algiz.HTTP

/-! ## Reading messages -/

/-- CR LF -/
def crlf : Bytes := [carriageReturn, newline]

/-- What can stand in the name of a header. -/
def isTokenByte (b : UInt8) : Bool :=
  isDigit b || (65 ≤ b && b ≤ 90) || (97 ≤ b && b ≤ 122) || b = 39 || b = 96 ||
    (ascii "!#$%&*+-.^_|~").contains b

/-- Is it the name of a header? -/
def isToken (name : Bytes) : Bool := !name.isEmpty && name.all isTokenByte

/-- Without the blanks around it. -/
def trimBlanks (value : Bytes) : Bytes :=
  let front := value.dropWhile fun b => b = 32 || b = 9
  (front.reverse.dropWhile fun b => b = 32 || b = 9).reverse

/-- The name and the value of a header line. -/
def readField (line : Bytes) : Option (Bytes × Bytes) :=
  (find line 58).bind fun colon =>
    if isToken (line.take colon) then some (line.take colon, trimBlanks (line.drop (colon + 1)))
    else none

/-- A line, and what follows it. -/
def readLine (input : Bytes) : Option (Bytes × Bytes) :=
  (findString crlf input).map fun i => (input.take i, input.drop (i + 2))

/-- The header lines up to the blank one, and what follows it. -/
def readHeaderLines : Nat → Bytes → Option (List Bytes × Bytes)
  | 0, _ => none
  | fuel + 1, input =>
    (readLine input).bind fun line =>
      if line.1.isEmpty then some ([], line.2)
      else if (readField line.1).isSome then
        (readHeaderLines fuel line.2).map fun rest => (line.1 :: rest.1, rest.2)
      else none

/-- The code in a status line. -/
def readStatus (line : Bytes) : Option Nat :=
  let code := (line.drop 9).take 3
  if line.take 9 = ascii "HTTP/1.1 " ∧ code.length = 3 ∧ code.all isDigit = true ∧
      (line.drop 12).head? = some 32 then some (decimal code)
  else none

/-- A message as it is read. -/
structure Message where
  code : Nat
  headerLines : List Bytes
  body : Bytes

def readMessage (input : Bytes) : Option Message :=
  (readLine input).bind fun status =>
    (readStatus status.1).bind fun code =>
      (readHeaderLines input.length status.2).map fun rest => ⟨code, rest.1, rest.2⟩

/-- The values of the headers of this name, in any case. -/
def Message.values (m : Message) (name : Bytes) : List Bytes :=
  ((m.headerLines.filterMap readField).filter fun field => toLower field.1 = name).map Prod.snd

/-- The length of the body, as its one `Content-Length` header has it. -/
def Message.contentLength (m : Message) : Option Nat :=
  match m.values (ascii "content-length") with
  | [value] => if value ≠ [] ∧ value.all isDigit = true then some (decimal value) else none
  | _ => none

section Reading

theorem readLine_append {line : Bytes} (hline : carriageReturn ∉ line) (rest : Bytes) :
    readLine (line ++ (crlf ++ rest)) = some (line, rest) := by
  have hfind : findString crlf (line ++ (crlf ++ rest)) = some line.length :=
    findString_pair_of_not_mem (by decide : carriageReturn ≠ newline) hline rest
  have hdrop : (line ++ (crlf ++ rest)).drop (line.length + 2) = rest := by
    rw [← List.drop_drop, List.drop_left]
    rfl
  unfold readLine
  rw [hfind, Option.map_some, List.take_left, hdrop]

/-- Header lines, each on a line of its own, and the blank line. -/
theorem readHeaderLines_append {headers : List Bytes}
    (hline : ∀ line ∈ headers, carriageReturn ∉ line)
    (hfield : ∀ line ∈ headers, (readField line).isSome = true) {fuel : Nat}
    (hfuel : headers.length < fuel) (body : Bytes) :
    readHeaderLines fuel ((headers.map (· ++ crlf)).flatten ++ (crlf ++ body)) =
      some (headers, body) := by
  induction headers generalizing fuel with
  | nil =>
    obtain ⟨fuel, rfl⟩ : ∃ n, fuel = n + 1 := ⟨fuel - 1, by simp at hfuel; omega⟩
    have hblank : readLine ([] ++ (crlf ++ body)) = some ([], body) :=
      readLine_append List.not_mem_nil body
    rw [readHeaderLines, List.map_nil, List.flatten_nil, hblank]
    rfl
  | cons line headers ih =>
    obtain ⟨fuel, rfl⟩ : ∃ n, fuel = n + 1 := ⟨fuel - 1, by simp at hfuel; omega⟩
    have hfirst := readLine_append (hline line List.mem_cons_self)
      ((headers.map (· ++ crlf)).flatten ++ (crlf ++ body))
    have hsome := hfield line List.mem_cons_self
    have hnonempty : line.isEmpty = false := by
      cases line with
      | nil => exact absurd hsome (by decide)
      | cons b line => rfl
    have hrest : readHeaderLines fuel ((headers.map (· ++ crlf)).flatten ++ (crlf ++ body)) =
        some (headers, body) :=
      ih (fun l hl => hline l (List.mem_cons_of_mem _ hl))
        (fun l hl => hfield l (List.mem_cons_of_mem _ hl)) (by simp at hfuel; omega)
    rw [readHeaderLines, List.map_cons, List.flatten_cons, List.append_assoc, List.append_assoc,
      hfirst, Option.bind_some]
    dsimp only
    rw [hnonempty, if_neg (by decide), hsome, if_pos rfl, hrest]
    rfl

/-- A line with a token, a colon and a value. -/
theorem readField_append {name : Bytes} (hname : isToken name = true) (value : Bytes) :
    readField (name ++ ascii ": " ++ value) = some (name, trimBlanks (32 :: value)) := by
  have hcolon : (58 : UInt8) ∉ name := by
    intro hmem
    unfold isToken at hname
    obtain ⟨-, hall⟩ := Bool.and_eq_true_iff.mp hname
    have := List.all_eq_true.mp hall 58 hmem
    exact absurd this (by decide)
  have hsep : ascii ": " = [58, 32] := by decide
  have htext : name ++ ascii ": " ++ value = name ++ 58 :: (32 :: value) := by
    rw [hsep]
    simp
  have hdrop : (name ++ 58 :: (32 :: value)).drop (name.length + 1) = 32 :: value := by
    rw [← List.drop_drop, List.drop_left]
    rfl
  unfold readField
  rw [htext, find_append_cons hcolon, Option.bind_some, List.take_left, hdrop, if_pos hname]

/-- The text of a number is trimmed already. -/
theorem trimBlanks_decimalText (n : Nat) : trimBlanks (32 :: decimalText n) = decimalText n := by
  have hblank : ∀ b : UInt8, isDigit b = true → (b = 32 || b = 9) = false := by
    intro b hb
    by_contra hnot
    rw [Bool.not_eq_false, Bool.or_eq_true, decide_eq_true_iff, decide_eq_true_iff] at hnot
    rcases hnot with rfl | rfl
    · exact absurd hb (by decide)
    · exact absurd hb (by decide)
  have htrim : ∀ digits : Bytes, (∀ b ∈ digits, isDigit b = true) →
      digits.dropWhile (fun b => b = 32 || b = 9) = digits := by
    intro digits hdigits
    cases digits with
    | nil => rfl
    | cons b digits =>
      have := hblank b (hdigits b List.mem_cons_self)
      simp [this]
  have hdigits := decimalText_digits n
  have hreverse : ∀ b ∈ (decimalText n).reverse, isDigit b = true := fun b hb =>
    hdigits b (List.mem_reverse.mp hb)
  have hfront : (32 :: decimalText n).dropWhile (fun b => b = 32 || b = 9) = decimalText n :=
    htrim _ hdigits
  unfold trimBlanks
  dsimp only
  rw [hfront, htrim _ hreverse, List.reverse_reverse]

/-- A status line, header lines and a body. -/
theorem readMessage_append {status : Bytes} {code : Nat} (hstatus : carriageReturn ∉ status)
    (hcode : readStatus status = some code) {headers : List Bytes}
    (hline : ∀ line ∈ headers, carriageReturn ∉ line)
    (hfield : ∀ line ∈ headers, (readField line).isSome = true) (body : Bytes) :
    readMessage (status ++ (crlf ++ ((headers.map (· ++ crlf)).flatten ++ (crlf ++ body)))) =
      some ⟨code, headers, body⟩ := by
  generalize hinput : status ++ (crlf ++ ((headers.map (· ++ crlf)).flatten ++ (crlf ++ body))) =
    input
  have hfuel : headers.length < input.length := by
    have hmany : headers.length ≤ (headers.map (· ++ crlf)).flatten.length := by
      apply Lib.length_le_length_flatten
      exact fun line _ => List.append_ne_nil_of_right_ne_nil line (by decide)
    have htwo : crlf.length = 2 := rfl
    rw [← hinput]
    simp only [List.length_append]
    omega
  have hrest := readHeaderLines_append hline hfield hfuel body
  have hfirst := readLine_append hstatus ((headers.map (· ++ crlf)).flatten ++ (crlf ++ body))
  unfold readMessage
  rw [← hinput] at hrest ⊢
  rw [hfirst, Option.bind_some, hcode, Option.bind_some, hrest]
  rfl

end Reading

/-! ## What a response should be read as -/

/-- A header as a line. -/
def fieldLine (field : Bytes × Bytes) : Bytes := field.1 ++ ascii ": " ++ field.2

namespace Response

variable {r : Response}

/-- The body: the content, or that of the generated response. -/
def expectedBody (r : Response) : Bytes :=
  if (codeDescription r.code).isSome then r.content else ascii "Internal Server Error"

/-- The headers that are there unless they have been set, or left out. -/
def defaulted (r : Response) : List (Bytes × Bytes) :=
  (if r.noContentType || r.headers.contains (ascii "content-type") then []
    else [(ascii "Content-Type",
      r.mime ++ if r.charset.isEmpty then [] else ascii "; charset=" ++ r.charset)]) ++
    [(ascii "Content-Length", decimalText r.expectedBody.length)]

/-- It is read as a message whose `Content-Length` is the number of bytes behind the blank line,
    and these are the body. -/
def Framed (r : Response) : Prop :=
  ∃ m, readMessage r.toBytes = some m ∧ m.contentLength = some m.body.length ∧
    m.body = r.expectedBody

/-- The same, and its headers are those that were set and the defaulted ones. -/
def Faithful (r : Response) : Prop :=
  ∃ m, readMessage r.toBytes = some m ∧ m.contentLength = some m.body.length ∧
    m.body = r.expectedBody ∧
    m.headerLines.Perm ((r.defaulted ++ r.headers.toList).map fieldLine)

/-- Free of CR and LF. -/
def OneLine (text : Bytes) : Prop := carriageReturn ∉ text ∧ newline ∉ text

/-- The parts of the response go into lines, and the length is left to `noContent`. -/
structure WellFormed (r : Response) : Prop where
  mime : OneLine r.mime
  charset : OneLine r.charset
  names : ∀ field ∈ r.headers.toList, isToken field.1 = true ∧ toLower field.1 = field.1
  values : ∀ field ∈ r.headers.toList, OneLine field.2
  noLength : r.headers.contains (ascii "content-length") = false

/-! ## A code with a description -/

/-- A code with a description has three digits, and the description is free of CR. -/
theorem codeDescription_spec {code : Int} {description : String}
    (h : codeDescription code = some description) :
    0 ≤ code ∧ (decimalText code).length = 3 ∧ carriageReturn ∉ ascii description := by
  unfold codeDescription at h
  split at h
  all_goals cases h <;> decide +kernel

theorem expectedBody_of_description {description : String}
    (h : codeDescription r.code = some description) : r.expectedBody = r.content := by
  unfold expectedBody
  rw [h]
  rfl

/-- A status line is read as the code that it has. -/
theorem readStatus_append {n : Nat} (hlength : (decimalText n).length = 3) (rest : Bytes) :
    readStatus (ascii "HTTP/1.1 " ++ decimalText n ++ 32 :: rest) = some n := by
  have hversion : (ascii "HTTP/1.1 ").length = 9 := by decide
  have hcode : ((ascii "HTTP/1.1 " ++ decimalText n ++ 32 :: rest).drop 9).take 3 =
      decimalText n := by
    rw [List.append_assoc, List.drop_left' hversion, List.take_left' hlength]
  have hblank : (ascii "HTTP/1.1 " ++ decimalText n ++ 32 :: rest).drop 12 = 32 :: rest := by
    refine List.drop_left' ?_
    rw [List.length_append, hversion, hlength]
  have hfront : (ascii "HTTP/1.1 " ++ decimalText n ++ 32 :: rest).take 9 =
      ascii "HTTP/1.1 " := by
    rw [List.append_assoc, List.take_left' hversion]
  have hdigits : (decimalText n).all isDigit = true :=
    List.all_eq_true.mpr (decimalText_digits n)
  unfold readStatus
  dsimp only
  rw [hcode, hblank, hfront, if_pos ⟨rfl, hlength, hdigits, rfl⟩, decimal_decimalText]

/-- The status line of a code with a description. -/
theorem readStatus_description {code : Int} {description : String}
    (h : codeDescription code = some description) :
    readStatus (ascii "HTTP/1.1 " ++ decimalText code ++ ascii " " ++ ascii description) =
      some code.toNat ∧
      carriageReturn ∉ ascii "HTTP/1.1 " ++ decimalText code ++ ascii " " ++ ascii description := by
  obtain ⟨hpos, hlength, hdescription⟩ := codeDescription_spec h
  obtain ⟨n, rfl⟩ := Int.eq_ofNat_of_zero_le hpos
  constructor
  · have hread := readStatus_append hlength (ascii description)
    rwa [← List.singleton_append, ← List.append_assoc] at hread
  · have hversion : carriageReturn ∉ ascii "HTTP/1.1 " := by decide
    have hblank : carriageReturn ∉ ascii " " := by decide
    have hcode : carriageReturn ∉ decimalText n :=
      fun hmem => absurd (decimalText_digits n _ hmem) (by decide)
    simp only [List.mem_append, not_or]
    exact ⟨⟨⟨hversion, hcode⟩, hblank⟩, hdescription⟩

theorem oneLine_append {text others : Bytes} (htext : OneLine text) (hothers : OneLine others) :
    OneLine (text ++ others) :=
  ⟨fun hmem => (List.mem_append.mp hmem).elim htext.1 hothers.1,
    fun hmem => (List.mem_append.mp hmem).elim htext.2 hothers.2⟩

theorem oneLine_token {name : Bytes} (h : isToken name = true) : OneLine name := by
  unfold isToken at h
  have hall := List.all_eq_true.mp (Bool.and_eq_true_iff.mp h).2
  exact ⟨fun hmem => absurd (hall _ hmem) (by decide), fun hmem => absurd (hall _ hmem) (by decide)⟩

theorem oneLine_decimalText (n : Nat) : OneLine (decimalText n) := by
  have hdigits := decimalText_digits n
  exact ⟨fun hmem => absurd (hdigits _ hmem) (by decide),
    fun hmem => absurd (hdigits _ hmem) (by decide)⟩

/-- The headers that a response should have are tokens with one-line values. -/
theorem WellFormed.fields (h : r.WellFormed) :
    ∀ field ∈ r.defaulted ++ r.headers.toList, isToken field.1 = true ∧ OneLine field.2 := by
  have hcharset : OneLine (if r.charset.isEmpty then [] else ascii "; charset=" ++ r.charset) := by
    split
    · exact ⟨List.not_mem_nil, List.not_mem_nil⟩
    · exact oneLine_append (by unfold OneLine; decide) h.charset
  intro field hfield
  rcases List.mem_append.mp hfield with hdefaulted | hset
  · rcases List.mem_append.mp hdefaulted with htype | hlength
    · split at htype
      · exact absurd htype List.not_mem_nil
      · have hname : isToken (ascii "Content-Type") = true := by decide
        rw [List.mem_singleton.mp htype]
        exact ⟨hname, oneLine_append h.mime hcharset⟩
    · have hname : isToken (ascii "Content-Length") = true := by decide
      rw [List.mem_singleton.mp hlength]
      exact ⟨hname, oneLine_decimalText _⟩
  · exact ⟨(h.names field hset).1, h.values field hset⟩

/-- Headers on lines of their own are read back. -/
theorem readField_fieldLine {fields : List (Bytes × Bytes)}
    (h : ∀ field ∈ fields, isToken field.1 = true ∧ OneLine field.2) :
    (∀ line ∈ fields.map fieldLine, carriageReturn ∉ line) ∧
      (∀ line ∈ fields.map fieldLine, (readField line).isSome = true) ∧
      (fields.map fieldLine).filterMap readField =
        fields.map fun field => (field.1, trimBlanks (32 :: field.2)) := by
  have hread : ∀ field ∈ fields, readField (fieldLine field) =
      some (field.1, trimBlanks (32 :: field.2)) := fun field hfield =>
    readField_append (h field hfield).1 field.2
  refine ⟨fun line hline => ?_, fun line hline => ?_, ?_⟩
  · obtain ⟨field, hfield, rfl⟩ := List.mem_map.mp hline
    obtain ⟨hname, hvalue⟩ := h field hfield
    have hsep : OneLine (ascii ": ") := by unfold OneLine; decide
    exact (oneLine_append (oneLine_append (oneLine_token hname) hsep) hvalue).1
  · obtain ⟨field, hfield, rfl⟩ := List.mem_map.mp hline
    rw [hread field hfield]
    rfl
  · rw [List.filterMap_map, ← List.filterMap_eq_map]
    exact List.filterMap_congr hread

theorem headerText_eq (field : Bytes × Bytes) :
    headerText field.1 field.2 = fieldLine field ++ crlf := by
  have hcrlf : ascii "\r\n" = crlf := by decide
  unfold headerText fieldLine
  rw [hcrlf]

/-- The lines of the defaulted headers. -/
theorem defaulted_text {description : String} (hcode : codeDescription r.code = some description)
    (hlength : r.headers.contains (ascii "content-length") = false) :
    (if !r.noContentType && !r.headers.contains (ascii "content-type") then
      headerText (ascii "Content-Type")
        (r.mime ++ if r.charset.isEmpty then [] else ascii "; charset=" ++ r.charset) else []) ++
      (if !r.headers.contains (ascii "content-length") then
        headerText (ascii "Content-Length") (decimalText r.content.length) else []) =
      ((r.defaulted.map fieldLine).map (· ++ crlf)).flatten := by
  have htype := headerText_eq (ascii "Content-Type",
    r.mime ++ if r.charset.isEmpty then [] else ascii "; charset=" ++ r.charset)
  have hsize := headerText_eq (ascii "Content-Length", decimalText r.content.length)
  dsimp only at htype hsize
  unfold defaulted
  rw [expectedBody_of_description hcode, hlength, htype, hsize, ← Bool.not_or]
  cases r.noContentType || r.headers.contains (ascii "content-type") with
  | true => simp
  | false => simp

/-- Where a code has a description, the message has the headers and the content of the response. -/
theorem readMessage_of_description {description : String}
    (hcode : codeDescription r.code = some description) (h : r.WellFormed) :
    readMessage r.toBytes = some ⟨r.code.toNat,
      (r.defaulted ++ r.headers.toList).map fieldLine, r.content⟩ := by
  obtain ⟨hstatus, hline⟩ := readStatus_description hcode
  obtain ⟨hlines, hfields, -⟩ := readField_fieldLine h.fields
  have hset : (r.headers.toList.map fun header => headerText header.1 header.2) =
      (r.headers.toList.map fieldLine).map (· ++ crlf) := by
    rw [List.map_map]
    exact List.map_congr_left fun header _ => headerText_eq header
  have hcrlf : ascii "\r\n" = crlf := by decide
  have hdefaulted := defaulted_text hcode h.noLength
  rw [← readMessage_append hline hstatus hlines hfields r.content, List.map_append,
    List.map_append, List.flatten_append, ← hdefaulted, ← hset]
  refine congrArg readMessage ?_
  unfold toBytes noContent
  rw [hcode, hcrlf]
  simp only [List.append_assoc]

/-- The one length among the headers is the defaulted one. -/
theorem contentLength_of_fields (h : r.WellFormed) {code : Nat} {body : Bytes} :
    Message.contentLength ⟨code, (r.defaulted ++ r.headers.toList).map fieldLine, body⟩ =
      some r.expectedBody.length := by
  obtain ⟨-, -, hread⟩ := readField_fieldLine h.fields
  have hset : (r.headers.toList.map fun field => (field.1, trimBlanks (32 :: field.2))).filter
      (fun field => toLower field.1 = ascii "content-length") = [] := by
    rw [List.filter_eq_nil_iff]
    intro field hfield
    obtain ⟨header, hheader, rfl⟩ := List.mem_map.mp hfield
    intro hname
    have hkey : header.1 = ascii "content-length" := by
      rw [← (h.names header hheader).2]
      exact of_decide_eq_true hname
    have hmem : r.headers.contains header.1 = true := by
      rw [Std.ExtTreeMap.contains_eq_isSome_getElem?]
      rw [(Std.ExtTreeMap.mem_toList_iff_getElem?_eq_some).mp hheader]
      rfl
    rw [hkey, h.noLength] at hmem
    exact Bool.noConfusion hmem
  have hsize : (r.defaulted.map fun field => (field.1, trimBlanks (32 :: field.2))).filter
      (fun field => toLower field.1 = ascii "content-length") =
      [(ascii "Content-Length", decimalText r.expectedBody.length)] := by
    have htype : toLower (ascii "Content-Type") ≠ ascii "content-length" := by decide
    have hlength : toLower (ascii "Content-Length") = ascii "content-length" := by decide
    have htrim := trimBlanks_decimalText r.expectedBody.length
    unfold defaulted
    split
    · simp [hlength, htrim]
    · simp [hlength, htype, htrim]
  have hvalues : Message.values ⟨code, (r.defaulted ++ r.headers.toList).map fieldLine, body⟩
      (ascii "content-length") = [decimalText r.expectedBody.length] := by
    unfold Message.values
    dsimp only
    rw [hread, List.map_append, List.filter_append, hset, hsize]
    rfl
  unfold Message.contentLength
  rw [hvalues]
  dsimp only
  rw [if_pos ⟨decimalText_ne_nil _, List.all_eq_true.mpr (decimalText_digits _)⟩,
    decimal_decimalText]

/-! ## A code without a description -/

/-- The header lines of the generated response. -/
def generatedLines : List Bytes :=
  [ascii "Content-Type: text/html; charset=UTF-8", ascii "Content-Length: 21",
    ascii "Connection: close"]

/-- The names and values on these lines. -/
def generatedFields : List (Bytes × Bytes) :=
  [(ascii "Content-Type", ascii "text/html; charset=UTF-8"), (ascii "Content-Length", ascii "21"),
    (ascii "Connection", ascii "close")]

theorem generatedLines_eq : generatedLines = generatedFields.map fieldLine := by decide

theorem generatedFields_oneLine :
    ∀ field ∈ generatedFields, isToken field.1 = true ∧ OneLine field.2 := by
  unfold OneLine
  decide

/-- Where a code has no description, the content stands behind the body of the generated
    response. -/
theorem readMessage_of_none (hcode : codeDescription r.code = none) :
    readMessage r.toBytes = some ⟨500, generatedLines,
      ascii "Internal Server Error" ++ r.content⟩ := by
  have hstatus : readStatus (ascii "HTTP/1.1 500 Internal Server Error") = some 500 := by decide
  have hline : carriageReturn ∉ ascii "HTTP/1.1 500 Internal Server Error" := by decide
  obtain ⟨hlines, hfields, -⟩ := readField_fieldLine generatedFields_oneLine
  rw [← generatedLines_eq] at hlines hfields
  have htext : generate500 = ascii "HTTP/1.1 500 Internal Server Error" ++
      (crlf ++ ((generatedLines.map (· ++ crlf)).flatten ++
        (crlf ++ ascii "Internal Server Error"))) := by decide
  rw [← readMessage_append hline hstatus hlines hfields]
  refine congrArg readMessage ?_
  unfold toBytes noContent
  rw [hcode]
  dsimp only
  rw [htext]
  simp only [List.append_assoc]

theorem contentLength_generated {code : Nat} {body : Bytes} :
    Message.contentLength ⟨code, generatedLines, body⟩ = some 21 := by
  obtain ⟨-, -, hread⟩ := readField_fieldLine generatedFields_oneLine
  unfold Message.contentLength Message.values
  rw [generatedLines_eq, hread]
  rfl

theorem framed_of_none (hcode : codeDescription r.code = none) :
    r.Framed ↔ r.content = [] := by
  have hbody : r.expectedBody = ascii "Internal Server Error" := by
    unfold expectedBody
    rw [hcode]
    rfl
  have htext : (ascii "Internal Server Error").length = 21 := by decide
  unfold Framed
  rw [readMessage_of_none hcode, hbody]
  constructor
  · rintro ⟨m, hm, hlength, -⟩
    obtain rfl := Option.some.inj hm
    rw [contentLength_generated] at hlength
    have hsize := Option.some.inj hlength
    dsimp only at hsize
    rw [List.length_append, htext] at hsize
    exact List.length_eq_zero_iff.mp (by omega)
  · intro hcontent
    refine ⟨_, rfl, ?_, ?_⟩
    · rw [contentLength_generated, hcontent, List.append_nil, htext]
    · rw [hcontent, List.append_nil]

/-- The generated response has a header that is not spelled in lower case, nor defaulted. -/
theorem not_perm_generated (h : r.WellFormed) :
    ¬ generatedLines.Perm ((r.defaulted ++ r.headers.toList).map fieldLine) := by
  intro hperm
  have hmem : ascii "Connection: close" ∈ (r.defaulted ++ r.headers.toList).map fieldLine :=
    hperm.subset (by decide)
  obtain ⟨field, hfield, hline⟩ := List.mem_map.mp hmem
  have hname : field.1 = ascii "Connection" := by
    have hread := readField_append (h.fields field hfield).1 field.2
    have hknown : readField (ascii "Connection: close") =
        some (ascii "Connection", ascii "close") := by decide
    have hsame : readField (fieldLine field) = some (ascii "Connection", ascii "close") := by
      rw [hline, hknown]
    exact congrArg Prod.fst (Option.some.inj (hread.symm.trans hsame))
  rcases List.mem_append.mp hfield with hdefaulted | hset
  · have hother : field.1 = ascii "Content-Type" ∨ field.1 = ascii "Content-Length" := by
      rcases List.mem_append.mp hdefaulted with htype | hlength
      · split at htype
        · exact absurd htype List.not_mem_nil
        · exact .inl (congrArg Prod.fst (List.mem_singleton.mp htype))
      · exact .inr (congrArg Prod.fst (List.mem_singleton.mp hlength))
    rw [hname] at hother
    exact absurd hother (by decide)
  · have hlower := (h.names field hset).2
    rw [hname] at hlower
    exact absurd hlower (by decide)

/-! ## Which responses are right -/

/-- A response is read as a message with its headers and its content if and only if its code has
    a description; without one its length and its body are right if and only if it has no
    content. -/
theorem toBytes_iff (r : Response) (h : r.WellFormed) :
    (r.Faithful ↔ (codeDescription r.code).isSome = true) ∧
      (r.Framed ↔ (codeDescription r.code).isSome = true ∨ r.content = []) := by
  cases hcode : codeDescription r.code with
  | none =>
    have hnot : ¬ (none : Option String).isSome = true := by decide
    refine ⟨iff_of_false ?_ hnot, (framed_of_none hcode).trans (or_iff_right hnot).symm⟩
    rintro ⟨m, hm, -, -, hperm⟩
    rw [readMessage_of_none hcode] at hm
    obtain rfl := Option.some.inj hm
    exact not_perm_generated h hperm
  | some description =>
    have hread := readMessage_of_description hcode h
    have hbody : r.expectedBody = r.content := expectedBody_of_description hcode
    have hlength : Message.contentLength ⟨r.code.toNat,
        (r.defaulted ++ r.headers.toList).map fieldLine, r.content⟩ = some r.content.length := by
      rw [contentLength_of_fields h, hbody]
    exact ⟨iff_of_true ⟨_, hread, hlength, hbody.symm, List.Perm.refl _⟩ rfl,
      iff_of_true ⟨_, hread, hlength, hbody.symm⟩ (.inl rfl)⟩

/-- A response of a code and a content only. -/
theorem wellFormed_plain (code : Int) (content : Bytes) :
    ({ code := code, content := content } : Response).WellFormed := by
  let plain : StringMap := (∅ : StringMap).insert (ascii "connection") (ascii "close")
  have hnames : ∀ field ∈ plain.toList, isToken field.1 = true ∧ toLower field.1 = field.1 := by
    decide
  have hvalues : ∀ field ∈ plain.toList, OneLine field.2 := by
    unfold OneLine
    decide
  have hlength : plain.contains (ascii "content-length") = false := by decide
  have hmime : OneLine (ascii "text/html") := by
    unfold OneLine
    decide
  exact ⟨hmime, ⟨List.not_mem_nil, List.not_mem_nil⟩, hnames, hvalues, hlength⟩

theorem toBytes_iff_badRequest :
    ({ code := 400, content := ascii "Invalid request" } : Response).Faithful :=
  (toBytes_iff _ (wellFormed_plain 400 (ascii "Invalid request"))).1.mpr (by decide)

/-- A code without a description: 21 bytes are announced, and the content comes after them. -/
theorem not_framed_299 :
    ({ code := 299, content := ascii "hello" } : Response).WellFormed ∧
      readMessage ({ code := 299, content := ascii "hello" } : Response).toBytes =
        some ⟨500, generatedLines, ascii "Internal Server Errorhello"⟩ ∧
      ¬ ({ code := 299, content := ascii "hello" } : Response).Framed :=
  ⟨wellFormed_plain _ _, readMessage_of_none rfl,
    fun hframed => absurd ((framed_of_none rfl).mp hframed) (by decide)⟩

end Response

end Algiz.HTTP
