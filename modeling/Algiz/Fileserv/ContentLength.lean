/-
  The response to a request for several ranges.

  What is written behind the head is, for each range, a line with the boundary, two headers and
  the bytes, and the boundary once more (`rangeEvents_length`). `serveRange` announces the bytes
  of the file alone. So the `Content-Length` is too small for every such response
  (`serveRange_not_framed`).
-/
import Algiz.Fileserv.Sending

namespace Algiz.Plugins

open Lib HTTP

/-! ## What a client reads -/

/-- The bytes that an event writes behind a head. -/
def Event.bytes : Event → Bytes
  | .body bytes _ => bytes
  | _ => []

/-- What is written behind a head. -/
def bodyOf (events : List Event) : Bytes := events.flatMap Event.bytes

/-- The first response head that is written, and what is written behind it. -/
def headed : List Event → Option (Response × Bytes)
  | [] => none
  | .head response :: events => some (response, bodyOf events)
  | _ :: events => headed events

/-- The boundary that a response announces. -/
def announcedBoundary (response : Response) : Option Bytes :=
  response.headers[ascii "content-type"]?.bind fun value =>
    (findString (ascii "boundary=") value).map fun i => value.drop (i + 9)

/-- The bytes of a part behind its headers. -/
def partBytes (part : Bytes) : Bytes :=
  match findString (ascii "\r\n\r\n") part with
  | none => []
  | some i => part.drop (i + 4)

/-- The parts of a body between the lines with the boundary. -/
def bodyParts (boundary body : Bytes) : List Bytes :=
  ((pieces (ascii "--" ++ boundary) body.length body).drop 1).dropLast.map partBytes

/-- The bytes of a file in a range. -/
def slice (content : Bytes) (range : Nat × Nat) : Bytes :=
  (content.take (range.2 + 1)).drop range.1

/-- The slices that were asked for. -/
def requestedSlices (content : Bytes) (ranges : List (Nat × Nat)) (suffixLength : Nat) :
    List Bytes :=
  ranges.map (slice content) ++
    if suffixLength ≠ 0 then [content.drop (content.length - suffixLength)] else []

/-- Are the ranges and the suffix parts of a file of that size, without a byte in common? -/
def Separate (filesize : Nat) (ranges : List (Nat × Nat)) (suffixLength : Nat) : Prop :=
  (∀ range ∈ ranges, range.1 ≤ range.2 ∧ range.2 + suffixLength < filesize) ∧
    ranges.Pairwise fun range other => range.2 < other.1 ∨ other.2 < range.1

instance (filesize : Nat) (ranges : List (Nat × Nat)) (suffixLength : Nat) :
    Decidable (Separate filesize ranges suffixLength) :=
  inferInstanceAs (Decidable (_ ∧ _))

/-- Does a response say how long its body is, and does the body hold these slices? -/
structure Framed (slices : List Bytes) (response : Response) (body : Bytes) : Prop where
  contentLength : response.headers[ascii "content-length"]? = some (decimalText body.length)
  parts : ∃ boundary, announcedBoundary response = some boundary ∧
    bodyParts boundary body = slices

/-! ## The length of the body -/

section Lengths

variable {chunkSize : Nat}

theorem read_length (stream : Stream) {buffer : Bytes} {n : Nat} (h : n ≤ buffer.length) :
    (stream.read buffer n).2.length = buffer.length := by
  unfold Stream.read
  split
  · rfl
  · dsimp only
    rw [List.length_append, List.length_drop, List.length_take]
    omega

/-- The chunks are as many bytes as were to be sent, whatever was read. -/
theorem sendChunks_length (hpos : 0 < chunkSize) {fuel : Nat} (remaining : Nat) (stream : Stream)
    (buffer : Bytes) (hfuel : remaining ≤ fuel)
    (hbuffer : min chunkSize remaining ≤ buffer.length) :
    (sendChunks chunkSize fuel remaining stream buffer).1.flatten.length = remaining := by
  induction fuel generalizing remaining stream buffer with
  | zero =>
    obtain rfl := Nat.le_zero.mp hfuel
    rfl
  | succ fuel ih =>
    unfold sendChunks
    split
    · rename_i hremaining
      have hread := read_length stream hbuffer
      have hrest := ih (remaining - min chunkSize remaining)
        (stream.read buffer (min chunkSize remaining)).1
        (stream.read buffer (min chunkSize remaining)).2 (by omega) (by omega)
      dsimp only
      rw [List.flatten_cons, List.length_append, List.length_take, hread, hrest]
      omega
    · rename_i hremaining
      dsimp only
      rw [List.flatten_nil, List.length_nil]
      omega

end Lengths

section Body

variable {fileserv : Fileserv}

theorem bodyOf_append (events others : List Event) :
    bodyOf (events ++ others) = bodyOf events ++ bodyOf others := List.flatMap_append

/-- Chunks of a file are written as they are. -/
theorem bodyOf_chunks (sent : List Bytes) (path : Path) :
    bodyOf (sent.map (Event.body · (some path))) = sent.flatten := by
  unfold bodyOf
  rw [List.flatMap_map]
  exact List.flatMap_id'

/-- The length of what goes before the bytes of a range. -/
def startLength (fileserv : Fileserv) (filesize : Nat) (range : Nat × Nat) : Nat :=
  (fileserv.sendStart filesize range.1 range.2).length

theorem bodyOf_startOf (filesize : Nat) (range : Nat × Nat) :
    (bodyOf (fileserv.startOf true filesize range.1 range.2)).length =
      startLength fileserv filesize range := by
  unfold Fileserv.startOf bodyOf startLength
  rw [if_pos rfl, List.flatMap_singleton]
  rfl

theorem sendRange_length (path : Path) (filesize : Nat) (range : Nat × Nat) (stream : Stream)
    (buffer : Bytes) :
    (bodyOf (fileserv.sendRange path true filesize range stream buffer).1).length =
      rangeLength range + startLength fileserv filesize range := by
  unfold Fileserv.sendRange
  dsimp only
  rw [bodyOf_append, List.length_append, bodyOf_startOf, bodyOf_chunks,
    sendChunks_length fileserv.chunkSize_pos _ _ _ (Nat.le_refl _)]
  · exact Nat.add_comm _ _
  · split
    · rename_i hlength
      exact Nat.le_of_eq hlength.symm
    · rw [List.length_replicate]

theorem sendRanges_length (fileserv : Fileserv) (path : Path) (filesize : Nat)
    (ranges : List (Nat × Nat)) (stream : Stream) (buffer : Bytes) :
    (bodyOf (fileserv.sendRanges path true filesize ranges stream buffer).1).length =
      (ranges.map rangeLength).sum + (ranges.map (startLength fileserv filesize)).sum := by
  induction ranges generalizing stream buffer with
  | nil => rfl
  | cons range ranges ih =>
    unfold Fileserv.sendRanges
    dsimp only
    rw [bodyOf_append, List.length_append, sendRange_length, ih, List.map_cons, List.sum_cons,
      List.map_cons, List.sum_cons]
    omega

/-- What is written of the suffix. -/
theorem sendSuffix_length (fileserv : Fileserv) (path : Path) (filesize suffixLength : Nat)
    (stream : Stream) :
    suffixLength ≤
      (bodyOf (fileserv.sendSuffix path true filesize suffixLength stream)).length := by
  unfold Fileserv.sendSuffix
  split
  · dsimp only
    rw [bodyOf_append, bodyOf_chunks, List.length_append,
      sendChunks_length fileserv.chunkSize_pos _ _ _ (Nat.le_refl _)
        (by rw [List.length_replicate])]
    omega
  · omega

/-- What is announced is the bytes of the ranges and of the suffix at most. -/
theorem rangesLength_le (ranges : List (Nat × Nat)) (suffixLength : Nat) :
    rangesLength ranges suffixLength ≤ (ranges.map rangeLength).sum + suffixLength := by
  unfold rangesLength
  induction ranges generalizing suffixLength with
  | nil =>
    rw [List.foldl_nil, List.map_nil, List.sum_nil]
    omega
  | cons range ranges ih =>
    rw [List.foldl_cons, List.map_cons, List.sum_cons]
    have hrest := ih ((suffixLength + rangeLength range) % 2 ^ 64)
    have hmod := Nat.mod_le (suffixLength + rangeLength range) (2 ^ 64)
    omega

end Body

/-! ## What is announced -/

section Announced

variable {fileserv : Fileserv} {path : Path} {file : File} {ranges : List (Nat × Nat)}
  {suffixLength : Nat}

/-- The length that the head of a response in ranges announces. -/
theorem rangeResponse_contentLength (hmany : 2 ≤ ranges.length) :
    (fileserv.rangeResponse file ranges suffixLength).headers[ascii "content-length"]? =
      some (decimalText (rangesLength ranges suffixLength)) := by
  have htype : compare (ascii "content-type") (ascii "content-length") ≠ .eq := by decide
  have hmodified : compare (ascii "last-modified") (ascii "content-length") ≠ .eq := by decide
  unfold Fileserv.rangeResponse
  split
  · simp at hmany
  · simp only [Response.set, Std.ExtTreeMap.getElem?_insert, if_neg htype, if_neg hmodified]
    rw [if_pos (by decide)]

/-- What is written is longer, by the lines with the boundary and the headers of the parts. -/
theorem rangeEvents_length (hmany : 2 ≤ ranges.length) {response : Response} {events : List Event}
    (hevents : fileserv.rangeEvents path file ranges suffixLength = .head response :: events) :
    response = fileserv.rangeResponse file ranges suffixLength ∧
      rangesLength ranges suffixLength +
        (ranges.map (startLength fileserv file.content.length)).sum +
        fileserv.boundary.length + 2 ≤ (bodyOf events).length := by
  unfold Fileserv.rangeEvents at hevents
  have hmulti : decide (1 < ranges.length) = true := decide_eq_true hmany
  rw [hmulti] at hevents
  dsimp only at hevents
  rw [if_pos rfl] at hevents
  obtain ⟨hhead, rfl⟩ := List.cons.inj hevents
  refine ⟨(Event.head.inj hhead).symm, ?_⟩
  have hranges := sendRanges_length fileserv path file.content.length ranges
    { content := file.content } []
  have hsuffix := sendSuffix_length fileserv path file.content.length suffixLength
    (fileserv.sendRanges path true file.content.length ranges { content := file.content } []).2
  have hlast : (bodyOf [.body fileserv.boundary none, .body (ascii "--") none]).length =
      fileserv.boundary.length + 2 := by
    show (fileserv.boundary ++ (ascii "--" ++ [])).length = _
    rw [List.length_append]
    rfl
  have hannounced := rangesLength_le ranges suffixLength
  rw [bodyOf_append, bodyOf_append, List.length_append, List.length_append, hranges, hlast]
  omega

/-- A request that is served got a head and a body in ranges. -/
theorem headed_serveRange {request : Request} {response : Response} {body : Bytes}
    (hserved : headed (fileserv.serveRange request path).events = some (response, body)) :
    ∃ file events, fileserv.fs.regularFile path = some file ∧ body = bodyOf events ∧
      fileserv.rangeEvents path file (fileserv.sort request.ranges) request.suffixLength =
        .head response :: events := by
  unfold Fileserv.serveRange at hserved
  split at hserved
  · exact nomatch hserved
  · rename_i file hfile
    dsimp only at hserved
    split at hserved
    · exact nomatch hserved
    · unfold Fileserv.serveRanges at hserved
      split at hserved
      · exact nomatch hserved
      · split at hserved
        · exact nomatch hserved
        · unfold Fileserv.rangeEvents at hserved
          obtain ⟨hresponse, hbody⟩ := Prod.mk.inj (Option.some.inj hserved)
          refine ⟨file, _, hfile, hbody.symm, ?_⟩
          rw [← hresponse]
          rfl

end Announced

/-- The `Content-Length` of a response to a request for several ranges is never the length of its
    body: the boundary and the headers of the parts are not counted. -/
theorem serveRange_not_framed (fileserv : Fileserv) (request : Request) (path : Path)
    (response : Response) (body : Bytes) (hmany : 2 ≤ request.ranges.length)
    (hserved : headed (fileserv.serveRange request path).events = some (response, body)) :
    ∃ file, fileserv.fs.regularFile path = some file ∧
      ¬Framed (requestedSlices file.content (fileserv.sort request.ranges) request.suffixLength)
        response body := by
  have hsorted : 2 ≤ (fileserv.sort request.ranges).length := by
    rwa [(fileserv.sort_perm request.ranges).length_eq]
  obtain ⟨file, events, hfile, rfl, hevents⟩ := headed_serveRange hserved
  obtain ⟨rfl, hlength⟩ := rangeEvents_length hsorted hevents
  refine ⟨file, hfile, fun hframed => ?_⟩
  have hheader := hframed.contentLength
  rw [rangeResponse_contentLength hsorted] at hheader
  have hequal := decimalText_injective (Option.some.inj hheader)
  omega

/-- A request for the bytes 0 to 2 and 4 to 7, and for the last two. -/
def threeSlices : Request := { ranges := [(0, 2), (4, 7)], suffixLength := 2 }

theorem serveRange_not_framed_threeSlices :
    ∃ response body,
      headed (({ fs := elevenBytes } : Fileserv).serveRange threeSlices
        ⟨true, [ascii "srv", ascii "f"]⟩).events = some (response, body) ∧
      ∃ file, elevenBytes.regularFile ⟨true, [ascii "srv", ascii "f"]⟩ = some file ∧
        ¬Framed (requestedSlices file.content [(0, 2), (4, 7)] 2) response body :=
  ⟨_, _, rfl, serveRange_not_framed { fs := elevenBytes } threeSlices
    ⟨true, [ascii "srv", ascii "f"]⟩ _ _ (by decide) rfl⟩

/-- The parts of the response are right, and nine bytes are announced; 213 are written. -/
theorem contentLength_threeSlices :
    Separate 11 threeSlices.ranges threeSlices.suffixLength ∧ ∃ response body,
      headed (({ fs := elevenBytes } : Fileserv).serveRange threeSlices
        ⟨true, [ascii "srv", ascii "f"]⟩).events = some (response, body) ∧
      response.headers[ascii "content-length"]? = some (ascii "9") ∧ body.length = 213 ∧
      ¬Framed (requestedSlices (ascii "hello world") threeSlices.ranges threeSlices.suffixLength)
        response body := by
  refine ⟨by decide, _, _, rfl, rfl, rfl, fun hframed => ?_⟩
  have hheader : some (ascii "9") = some (decimalText (213 : Nat)) := hframed.contentLength
  exact absurd (Option.some.inj hheader) (by decide)

end Algiz.Plugins
