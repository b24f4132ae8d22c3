/-
  What is sent of a file.

  The chunks are the bytes of the file from where the stream stands, as many as were to be sent,
  whatever the chunk size (`sendChunks_eq`). So a request for one range gets the bytes from its
  start to its end, one without ranges gets the whole file, and the length announced is theirs.
-/
import Algiz.Fileserv.ContentLength
import Algiz.Fileserv.ValidRanges

namespace Algiz.Plugins

open Lib HTTP

/-! ## Chunks -/

/-- Reading what is there: the stream moves on, and the buffer begins with what was read. -/
theorem read_eq {stream : Stream} {n : Nat} (buffer : Bytes) (hgood : stream.failed = false)
    (hthere : stream.position + n ≤ stream.content.length) :
    (stream.read buffer n).1 = { stream with position := stream.position + n } ∧
      (stream.read buffer n).2.take n = (stream.content.drop stream.position).take n := by
  have hlength : ((stream.content.drop stream.position).take n).length = n := by
    rw [List.length_take, List.length_drop]
    omega
  unfold Stream.read
  rw [hgood, if_neg Bool.noConfusion]
  dsimp only
  rw [hlength, decide_eq_false (Nat.lt_irrefl n)]
  refine ⟨?_, ?_⟩
  · rw [← hgood]
  · rw [List.take_left' hlength]

/-- The chunks are the bytes of the file from the position of the stream on. -/
theorem sendChunks_eq {chunkSize : Nat} (hpos : 0 < chunkSize) {fuel remaining : Nat}
    (hfuel : remaining ≤ fuel) (stream : Stream) (hgood : stream.failed = false)
    (hthere : stream.position + remaining ≤ stream.content.length) (buffer : Bytes) :
    (sendChunks chunkSize fuel remaining stream buffer).1.flatten =
      (stream.content.drop stream.position).take remaining := by
  induction fuel generalizing remaining stream buffer with
  | zero =>
    obtain rfl := Nat.le_zero.mp hfuel
    rfl
  | succ fuel ih =>
    unfold sendChunks
    split_ifs with hremaining
    · have hchunk : min chunkSize remaining ≤ remaining := Nat.min_le_right _ _
      have hsome : 0 < min chunkSize remaining := Nat.lt_min.mpr ⟨hpos, hremaining⟩
      generalize min chunkSize remaining = toRead at hchunk hsome ⊢
      obtain ⟨hstream, hread⟩ := read_eq (n := toRead) buffer hgood (by omega)
      have hless : remaining - toRead ≤ fuel := by omega
      have hrest : (sendChunks chunkSize fuel (remaining - toRead)
          { stream with position := stream.position + toRead }
            (stream.read buffer toRead).2).1.flatten =
            (stream.content.drop (stream.position + toRead)).take (remaining - toRead) :=
        ih hless { stream with position := stream.position + toRead } hgood
          (by dsimp only; omega) _
      have hsum : remaining = toRead + (remaining - toRead) := by omega
      dsimp only
      rw [List.flatten_cons, hread, hstream, hrest]
      conv => rhs; rw [hsum, List.take_add, List.drop_drop]
    · obtain rfl : remaining = 0 := by omega
      rfl

/-! ## One range -/

section Bodies

variable {fileserv : Fileserv} {path : Path} {file : File}

/-- The length of a range inside a file. -/
theorem rangeLength_eq {start stop : Nat} (hle : start ≤ stop) (hstop : stop < 2 ^ 63) :
    rangeLength (start, stop) = stop - start + 1 := by
  unfold rangeLength
  dsimp only
  omega

/-- The bytes of a range, as many as it is long. -/
theorem slice_eq (content : Bytes) (start stop : Nat) (hle : start ≤ stop) :
    slice content (start, stop) = (content.drop start).take (stop - start + 1) := by
  unfold slice
  dsimp only
  rw [List.drop_take]
  congr 1
  omega

theorem slice_length {content : Bytes} {start stop : Nat} (hle : start ≤ stop)
    (hstop : stop < content.length) : (slice content (start, stop)).length = stop - start + 1 := by
  rw [slice_eq content start stop hle, List.length_take, List.length_drop]
  omega

/-- What is sent of one range inside the file. -/
theorem bodyOf_sendRange (fileserv : Fileserv) (path : Path) {start stop : Nat} {content : Bytes}
    (hle : start ≤ stop) (hstop : stop < content.length) (hsize : content.length < 2 ^ 63)
    (buffer : Bytes) :
    bodyOf (fileserv.sendRange path false content.length (start, stop) { content := content }
      buffer).1 = slice content (start, stop) := by
  have hseek : ({ content := content } : Stream).seek start =
      { content := content, position := start } := by
    have hstart : start < 2 ^ 63 := by omega
    unfold Stream.seek
    rw [if_neg Bool.noConfusion, if_pos hstart]
  have hthere : start + (stop - start + 1) ≤ content.length := by omega
  unfold Fileserv.sendRange Fileserv.startOf
  dsimp only
  rw [if_neg Bool.noConfusion, List.nil_append, bodyOf_chunks, rangeLength_eq hle (by omega), hseek,
    slice_eq content start stop hle]
  exact sendChunks_eq fileserv.chunkSize_pos le_rfl { content := content, position := start } rfl
    hthere _

/-- The events of a request for one range inside the file. -/
theorem rangeEvents_one (fileserv : Fileserv) (path : Path) (start stop : Nat) :
    fileserv.rangeEvents path file [(start, stop)] 0 =
      .head (fileserv.rangeResponse file [(start, stop)] 0) ::
        (fileserv.sendRange path false file.content.length (start, stop)
          { content := file.content } []).1 := by
  have hevents : fileserv.rangeEvents path file [(start, stop)] 0 =
      .head (fileserv.rangeResponse file [(start, stop)] 0) ::
        ((fileserv.sendRange path false file.content.length (start, stop)
          { content := file.content } []).1 ++ [] ++ [] ++ []) := rfl
  rw [hevents, List.append_nil, List.append_nil, List.append_nil]

/-- The length that is announced for one range. -/
theorem rangeResponse_one (fileserv : Fileserv) (start stop : Nat) :
    (fileserv.rangeResponse file [(start, stop)] 0).headers[ascii "content-length"]? =
      some (decimalText (rangesLength [(start, stop)] 0)) := by
  have htype : compare (ascii "content-type") (ascii "content-length") ≠ .eq := by decide
  have hmodified : compare (ascii "last-modified") (ascii "content-length") ≠ .eq := by decide
  have hrange : compare (ascii "content-range") (ascii "content-length") ≠ .eq := by decide
  unfold Fileserv.rangeResponse
  simp only [Response.set, Std.ExtTreeMap.getElem?_insert, if_neg htype, if_neg hmodified,
    if_neg hrange]
  rw [if_pos (by decide)]

/-- The length of one range inside the file is announced as it is. -/
theorem rangesLength_one {start stop : Nat} (hle : start ≤ stop) (hstop : stop < 2 ^ 63) :
    rangesLength [(start, stop)] 0 = stop - start + 1 := by
  have hlength := rangeLength_eq hle hstop
  unfold rangesLength
  rw [List.foldl_cons, List.foldl_nil, hlength]
  omega

/-! ## What is served -/

/-- An offset in a file is a signed number of 64 bits (`off_t`), and no file is longer than that. -/
def Addressable (file : File) : Prop := file.content.length < 2 ^ 63

/-- Is a response sent with this body behind its head, and with the length of it? -/
def Sends (run : Run Unit) (body : Bytes) : Prop :=
  run.result = .ok () ∧ ∃ response, headed run.events = some (response, body) ∧
    response.headers[ascii "content-length"]? = some (decimalText body.length)

/-- A range inside the file passes, and its bytes are sent. -/
theorem serveRange_sends {request : Request} {start stop : Nat}
    (hfile : fileserv.fs.regularFile path = some file) (hreadable : file.readable = true)
    (hsize : Addressable file) (hranges : request.ranges = [(start, stop)])
    (hsuffix : request.suffixLength = 0) (hle : start ≤ stop)
    (hstop : stop < file.content.length) :
    Sends (fileserv.serveRange request path) (slice file.content (start, stop)) := by
  have hsorted : fileserv.sort [(start, stop)] = [(start, stop)] :=
    List.perm_singleton.mp (fileserv.sort_perm [(start, stop)])
  have hvalid : fileserv.valid request file.content.length = true := by
    unfold Fileserv.valid
    rw [hranges, hsorted, hsuffix, validSorted, Nat.sub_zero, decide_eq_true hstop.le]
    rfl
  have hnone : (!file.readable) ≠ true := by
    rw [hreadable]
    exact Bool.noConfusion
  rw [fileserv.serveRange_eq request hfile, if_pos hvalid, hranges, hsorted, hsuffix]
  unfold Fileserv.serveRanges
  rw [if_neg hnone, rangeEvents_one, if_neg Bool.noConfusion]
  have hbody := bodyOf_sendRange fileserv path hle hstop hsize []
  refine ⟨rfl, fileserv.rangeResponse file [(start, stop)] 0, ?_, ?_⟩
  · rw [← hbody]
    rfl
  · rw [rangeResponse_one, slice_length hle hstop, rangesLength_one hle (hstop.trans hsize)]

/-- The whole file is sent. -/
theorem serveFull_sends (hfile : fileserv.fs.regularFile path = some file)
    (hreadable : file.readable = true) : Sends (fileserv.serveFull path) file.content := by
  have hnone : (!file.readable) ≠ true := by
    rw [hreadable]
    exact Bool.noConfusion
  have hchunks : (sendChunks fileserv.chunkSize file.content.length file.content.length
      { content := file.content }
      (List.replicate (min fileserv.chunkSize file.content.length) 0)).1.flatten =
        file.content := by
    have hall := sendChunks_eq fileserv.chunkSize_pos (Nat.le_refl file.content.length)
      { content := file.content } rfl (Nat.zero_add _).le
      (List.replicate (min fileserv.chunkSize file.content.length) 0)
    rwa [List.drop_zero, List.take_length] at hall
  unfold Fileserv.serveFull
  rw [hfile]
  dsimp only
  rw [if_neg hnone]
  refine ⟨rfl, _, congrArg some (Prod.ext rfl ?_), ?_⟩
  · exact (bodyOf_chunks _ path).trans hchunks
  · have hself : compare (ascii "content-length") (ascii "content-length") = .eq := by decide
    simp only [Response.set, Std.ExtTreeMap.getElem?_insert, if_pos hself]

/-- `serveRange` sends the bytes of the range and `serveFull` those of the file, each with their
    number, so that the range of all bytes and the file have the same body. -/
theorem bodies_eq (fileserv : Fileserv) {path : Path} {file : File}
    (hfile : fileserv.fs.regularFile path = some file) (hreadable : file.readable = true)
    (hsize : Addressable file) :
    (∀ (request : Request) (start stop : Nat), request.ranges = [(start, stop)] →
        request.suffixLength = 0 → start ≤ stop → stop < file.content.length →
        Sends (fileserv.serveRange request path) (slice file.content (start, stop))) ∧
      Sends (fileserv.serveFull path) file.content ∧
      ∀ request : Request, request.ranges = [(0, file.content.length - 1)] →
        request.suffixLength = 0 → 0 < file.content.length →
        ∃ body, Sends (fileserv.serveRange request path) body ∧
          Sends (fileserv.serveFull path) body := by
  have hfull : Sends (fileserv.serveFull path) file.content := serveFull_sends hfile hreadable
  refine ⟨?_, hfull, ?_⟩
  · intro request start stop hranges hsuffix hle hstop
    exact serveRange_sends hfile hreadable hsize hranges hsuffix hle hstop
  · intro request hranges hsuffix hpos
    have hlast : file.content.length - 1 < file.content.length := Nat.sub_one_lt_of_lt hpos
    have hall : slice file.content (0, file.content.length - 1) = file.content := by
      unfold slice
      rw [List.drop_zero, Nat.sub_add_cancel hpos, List.take_length]
    refine ⟨file.content, ?_, hfull⟩
    have hsends := serveRange_sends hfile hreadable hsize hranges hsuffix (Nat.zero_le _) hlast
    rwa [hall] at hsends

/-- All of eleven bytes as a range, and as the file. -/
theorem bodies_eq_eleven :
    ∃ body, Sends (({ fs := elevenBytes, chunkSize := 4 } : Fileserv).serveRange
        { ranges := [(0, 10)] } ⟨true, [ascii "srv", ascii "f"]⟩) body ∧
      Sends (({ fs := elevenBytes, chunkSize := 4 } : Fileserv).serveFull
        ⟨true, [ascii "srv", ascii "f"]⟩) body := by
  have hsize : Addressable { content := ascii "hello world" } := by
    show (ascii "hello world").length < 2 ^ 63
    decide
  have hfile : elevenBytes.regularFile ⟨true, [ascii "srv", ascii "f"]⟩ =
      some { content := ascii "hello world" } := rfl
  exact (bodies_eq { fs := elevenBytes, chunkSize := 4 } hfile rfl hsize).2.2
    { ranges := [(0, 10)] } rfl rfl (by decide)

end Bodies

end Algiz.Plugins
