/-
  `Game3CI`: a hook that builds a commit when it is told to, and who may tell it.

  The signature of a request is what stands behind the seventh byte of a header, cut or padded to
  the length of the digest. So only digests are let through (`gate_iff`), but the seven bytes
  before and all bytes behind it may be anything, and a header of fewer than seven bytes throws
  (`guarded_iff_forged`).
-/
import Algiz.Lib.Loop
import Algiz.Numbers
import Algiz.Plugins.Redirect

namespace Algiz.Plugins

open Lib HTTP

/-- `Game3CI`, and what its code asks of the rest of the world. -/
structure Game3CI where
  secret : Bytes
  /-- `hmacSHA256`, from a key and a message -/
  hmacSHA256 : Bytes → Bytes → Bytes
  hmacSHA256_length : ∀ key message, (hmacSHA256 key message).length = 32
  /-- `nlohmann::json::parse`; `none` if it throws -/
  parse : Bytes → Option Json

namespace Game3CI

/-- What the handler does. -/
inductive Event where
  /-- `client.send(response)` -/
  | respond (response : Response)
  /-- `client.close()` -/
  | closed
  /-- `pool.add(makeJob(commit))` -/
  | added (commit : Bytes)

/-- The commit that a job is added for. -/
def Event.commit : Event → Option Bytes
  | .added commit => some commit
  | _ => none

/-- `compareHMAC` -/
def compareHMAC (one two : Bytes) : Except Exception Bool :=
  if one.length ≠ two.length then
    .error (.runtimeError (ascii "Strings must have same length to be fully compared"))
  else .ok ((one.zip two).foldl (fun sum x => if x.1 = x.2 then sum - 1 else sum + 1)
    (Int.ofNat one.length) = 0)

/-- `view.substr(position)` -/
def substr (view : Bytes) (position : Nat) : Except Exception Bytes :=
  if view.length < position then .error .outOfRange else .ok (view.drop position)

/-- `string.resize(size)` -/
def resize (string : Bytes) (size : Nat) : Bytes :=
  string.take size ++ List.replicate (size - string.length) 0

/-- `new HTTP::Response(code, content, "text/plain")` -/
def plainText (code : Int) (content : Bytes) : Response :=
  { code := code, content := content, mime := ascii "text/plain" }

/-- A response, and `client.close()`. -/
def answer (response : Response) (result : CancelableResult) :
    Trace Event Exception CancelableResult :=
  Trace.emitAll [.respond response, .closed] >>= fun _ => pure result

variable (p : Game3CI)

/-- Is the request signed? -/
def gate (request : Request) : Except Exception Bool := do
  let signature ← substr (getHeader request (ascii "x-hub-signature-256")) 7
  let expected := hexString (p.hmacSHA256 p.secret request.content)
  compareHMAC (resize signature expected.length) expected

/-- The job that the hook's content asks for. The commit is converted to a string. -/
def addJob (json : Json) : Trace Event Exception Unit :=
  match json.find (ascii "ref") with
  | some (.string ref) =>
    if ref = ascii "refs/heads/master" then
      match json.find (ascii "after") with
      | none => pure ()
      | some after =>
        match after.getString with
        | .error _ => Trace.lift (.error .other)
        | .ok commit => Trace.emit (.added commit)
    else pure ()
  | _ => pure ()

/-- `Game3CI::handle` -/
def handle (request : Request) (notDisabled : Bool) : Trace Event Exception CancelableResult :=
  if !notDisabled then pure .pass
  else if request.path ≠ ascii "/ci/hook" then pure .pass
  else if getHeader request (ascii "content-type") ≠ ascii "application/json" then
    answer (plainText 400 (ascii "What?")) .kill
  else Trace.lift (p.gate request) >>= fun signed =>
    if !signed then answer (plainText 403 (ascii "No.")) .kill
    else match p.parse request.content with
      | none => answer (plainText 400 (ascii "Bad JSON")) .kill
      | some json => addJob json >>= fun _ => answer (plainText 200 (ascii "Thanks!")) .approve

/-! ## The comparison -/

/-- Each pair that differs counts two. -/
theorem compare_sum (pairs : List (UInt8 × UInt8)) (sum : Int) :
    pairs.foldl (fun sum x => if x.1 = x.2 then sum - 1 else sum + 1) sum =
      sum - Int.ofNat pairs.length + 2 * Int.ofNat (pairs.countP fun x => x.1 ≠ x.2) := by
  induction pairs generalizing sum with
  | nil => simp
  | cons x pairs ih =>
    rw [List.foldl_cons, ih, List.countP_cons, List.length_cons]
    by_cases hx : x.1 = x.2
    · simp only [hx, if_true, ne_eq, not_true, decide_false, Int.ofNat_eq_natCast]
      simp only [Bool.false_eq_true, if_false]
      omega
    · simp only [hx, if_false, ne_eq, not_false_iff, decide_true, if_true, Int.ofNat_eq_natCast]
      omega

/-- No pair differs if and only if the two are the same. -/
theorem countP_zip_eq_zero {one two : Bytes} (h : one.length = two.length) :
    (one.zip two).countP (fun x => x.1 ≠ x.2) = 0 ↔ one = two := by
  induction one generalizing two with
  | nil => simp [List.length_eq_zero_iff.mp h.symm]
  | cons b one ih =>
    cases two with
    | nil => exact absurd h (Nat.succ_ne_zero _)
    | cons c two =>
      rw [List.zip_cons_cons, List.countP_cons, List.cons.injEq, Nat.add_eq_zero_iff,
        ih (Nat.succ.inj h), and_comm]
      by_cases hbc : b = c <;> simp [hbc]

theorem compareHMAC_eq {one two : Bytes} (h : one.length = two.length) :
    compareHMAC one two = .ok (decide (one = two)) := by
  have hzip : (one.zip two).length = one.length := by
    rw [List.length_zip, h, Nat.min_self]
  have hsum : Int.ofNat one.length - Int.ofNat one.length +
      2 * Int.ofNat ((one.zip two).countP fun x => x.1 ≠ x.2) = 0 ↔ one = two := by
    rw [← countP_zip_eq_zero h]
    simp only [Int.ofNat_eq_natCast]
    omega
  unfold compareHMAC
  rw [if_neg (not_not.mpr h), compare_sum, hzip]
  exact congrArg Except.ok (decide_eq_decide.mpr hsum)

/-- The loop of `compareHMAC`: where it is, and what `sum` is there. -/
structure Comparing where
  i : Nat
  sum : Int

/-- A turn of the loop; `none` if `sum` overflows. -/
def compareTurn (one two : Bytes) (s : Comparing) : Comparing ⊕ Option Bool :=
  if s.i < one.length then
    let sum := if one[s.i]? = two[s.i]? then s.sum - 1 else s.sum + 1
    if Lib.Fits longLimit sum then .inl ⟨s.i + 1, sum⟩ else .inr none
  else .inr (some (s.sum = 0))

/-- What is behind a place in both strings, from there on. -/
theorem drop_zip {one two : Bytes} (h : one.length = two.length) {i : Nat} (hi : i < one.length) :
    (one.zip two).drop i = (one[i], two[i]) :: (one.zip two).drop (i + 1) := by
  have hzip : i < (one.zip two).length := by
    rw [List.length_zip]
    omega
  rw [List.drop_eq_getElem_cons hzip, List.getElem_zip]

/-- Before each turn `sum` is no less than the number of turns that are left, and no more than the
    length of the strings and the number of turns that are done. -/
theorem loop_compareTurn {one two : Bytes} (h : one.length = two.length)
    (hsize : one.length < 2 ^ 62) {left i : Nat} {sum : Int} (hleft : i + left = one.length)
    (hlow : Int.ofNat left ≤ sum) (hhigh : sum ≤ Int.ofNat (one.length + i)) :
    Loop (compareTurn one two) ⟨i, sum⟩
      (some (((one.zip two).drop i).foldl
        (fun sum x => if x.1 = x.2 then sum - 1 else sum + 1) sum = 0)) := by
  induction left generalizing i sum with
  | zero =>
    have hend : (one.zip two).drop i = [] := by
      rw [List.drop_eq_nil_iff, List.length_zip]
      omega
    have hi : ¬ i < one.length := Nat.not_lt.mpr hleft.ge
    rw [hend]
    exact .leave (if_neg hi)
  | succ left ih =>
    have hi : i < one.length := by omega
    have hi' : i < two.length := h ▸ hi
    simp only [Int.ofNat_eq_natCast] at hlow hhigh ih
    rw [drop_zip h hi, List.foldl_cons]
    by_cases hsame : one[i] = two[i]
    · have hfits : Lib.Fits longLimit (sum - 1) := by
        unfold Lib.Fits longLimit
        omega
      rw [if_pos hsame]
      refine .again (t := ⟨i + 1, sum - 1⟩) ?_ (ih (by omega) (by omega) (by omega))
      simp [compareTurn, hi, hi', hsame, hfits]
    · have hfits : Lib.Fits longLimit (sum + 1) := by
        unfold Lib.Fits longLimit
        omega
      rw [if_neg hsame]
      refine .again (t := ⟨i + 1, sum + 1⟩) ?_ (ih (by omega) (by omega) (by omega))
      simp [compareTurn, hi, hi', hsame, hfits]

/-- Two strings of the same length are told apart exactly if they differ, and `sum` does not
    overflow. -/
theorem compareHMAC_decides {one two : Bytes} (h : one.length = two.length)
    (hsize : one.length < 2 ^ 62) :
    compareHMAC one two = .ok (decide (one = two)) ∧
      Loop (compareTurn one two) ⟨0, Int.ofNat one.length⟩ (some (decide (one = two))) := by
  have heq := compareHMAC_eq h
  refine ⟨heq, ?_⟩
  have hloop := loop_compareTurn h hsize (Nat.zero_add _) (Int.le_refl _) (Int.le_refl _)
  unfold compareHMAC at heq
  rw [if_neg (not_not.mpr h)] at heq
  rw [← Except.ok.inj heq]
  exact hloop

/-- Two of the three bytes are the same. -/
theorem compareHMAC_decides_cab :
    compareHMAC (ascii "cab") (ascii "cub") = .ok (decide (ascii "cab" = ascii "cub")) ∧
      Loop (compareTurn (ascii "cab") (ascii "cub")) ⟨0, 3⟩
        (some (decide (ascii "cab" = ascii "cub"))) :=
  compareHMAC_decides (by decide) (by decide)

theorem resize_length (string : Bytes) (size : Nat) : (resize string size).length = size := by
  unfold resize
  rw [List.length_append, List.length_take, List.length_replicate]
  omega

/-- A text without NUL is what it is resized to only if it begins the string. -/
theorem resize_eq {string text : Bytes} (h : 0 ∉ text) :
    resize string text.length = text ↔ string.take text.length = text := by
  unfold resize
  rcases Nat.lt_or_ge string.length text.length with hlt | hge
  · refine iff_of_false (fun heq => h ?_) (fun heq => ?_)
    · rw [← heq]
      refine List.mem_append_right _ (List.mem_replicate.mpr ⟨?_, rfl⟩)
      omega
    · have hlength := congrArg List.length heq
      rw [List.length_take] at hlength
      omega
  · rw [Nat.sub_eq_zero_of_le hge, List.replicate_zero, List.append_nil]

/-! ## Who is let through -/

section Signed

variable {p : Game3CI} {request : Request}

/-- The digest of a request's content, as it is written in a header. -/
def digest (p : Game3CI) (request : Request) : Bytes :=
  hexString (p.hmacSHA256 p.secret request.content)

/-- The signature of a request, with what is before it and behind it. -/
def signatureHeader (request : Request) : Bytes := getHeader request (ascii "x-hub-signature-256")

/-- The header that is signed as it should be. -/
def signed (p : Game3CI) (request : Request) : Bytes := ascii "sha256=" ++ p.digest request

theorem digest_length (p : Game3CI) (request : Request) : (p.digest request).length = 64 := by
  unfold digest
  rw [hexString_length, p.hmacSHA256_length]

/-- The digest has to stand behind the seventh byte of the header. -/
theorem gate_iff : p.gate request =
    if (signatureHeader request).length < 7 then .error .outOfRange
    else .ok (decide (((signatureHeader request).drop 7).take 64 = p.digest request)) := by
  unfold gate substr
  show (if (signatureHeader request).length < 7 then _ else _) >>= _ = _
  split
  · rfl
  · show compareHMAC (resize ((signatureHeader request).drop 7) (p.digest request).length)
      (p.digest request) = _
    rw [compareHMAC_eq (resize_length _ _)]
    have hdigits : 0 ∉ p.digest request := zero_notMem_hexString _
    refine congrArg Except.ok (decide_eq_decide.mpr ?_)
    rw [resize_eq hdigits, digest_length]

/-- A request is refused: there is an answer, no job is added, and the handler returns. -/
structure Refused (run : Trace Event Exception CancelableResult) : Prop where
  answered : ∃ response, response.code = 403 ∧ Event.respond response ∈ run.events
  noJob : ∀ commit, Event.added commit ∉ run.events
  returned : ∃ result, run.result = .ok result

/-- Jobs are added for signed requests only, and all others that have JSON are refused. -/
structure Guarded (p : Game3CI) (request : Request) : Prop where
  jobs : ∀ commit, Event.added commit ∈ (p.handle request true).events →
    signatureHeader request = p.signed request
  refuses : getHeader request (ascii "content-type") = ascii "application/json" →
    signatureHeader request ≠ p.signed request → Refused (p.handle request true)

/-- A header that is long enough for a signature, without the digest behind its seventh byte. -/
def Forged (p : Game3CI) (request : Request) : Prop :=
  7 ≤ (signatureHeader request).length ∧
    ((signatureHeader request).drop 7).take 64 ≠ p.digest request

theorem added_notMem_answer (response : Response) (result : CancelableResult) (commit : Bytes) :
    Event.added commit ∉ (answer response result).events := by
  intro hadded
  rcases List.mem_cons.mp hadded with heq | hadded
  · exact nomatch heq
  · exact nomatch List.mem_singleton.mp hadded

theorem respond_mem_answer {response other : Response} {result : CancelableResult}
    (h : Event.respond other ∈ (answer response result).events) : other = response := by
  rcases List.mem_cons.mp h with heq | h
  · exact Event.respond.inj heq
  · exact nomatch List.mem_singleton.mp h

theorem respond_notMem_addJob (json : Json) (response : Response) :
    Event.respond response ∉ (addJob json).events := by
  intro hrespond
  unfold addJob at hrespond
  repeat' split at hrespond
  all_goals first
    | exact List.not_mem_nil hrespond
    | exact nomatch List.mem_singleton.mp hrespond

/-- What has another type than JSON is told so. -/
theorem handle_of_type (hpath : request.path = ascii "/ci/hook")
    (htype : getHeader request (ascii "content-type") ≠ ascii "application/json") :
    p.handle request true = answer (plainText 400 (ascii "What?")) .kill := by
  unfold handle
  rw [if_neg (by decide), if_neg (not_not.mpr hpath), if_pos htype]

theorem handle_of_short (hpath : request.path = ascii "/ci/hook")
    (htype : getHeader request (ascii "content-type") = ascii "application/json")
    (hshort : (signatureHeader request).length < 7) :
    p.handle request true = Trace.lift (.error .outOfRange) := by
  unfold handle
  rw [if_neg (by decide), if_neg (not_not.mpr hpath), if_neg (not_not.mpr htype), gate_iff,
    if_pos hshort]
  rfl

theorem handle_of_forged (hpath : request.path = ascii "/ci/hook")
    (htype : getHeader request (ascii "content-type") = ascii "application/json")
    (hforged : p.Forged request) :
    p.handle request true = answer (plainText 403 (ascii "No.")) .kill := by
  unfold handle
  rw [if_neg (by decide), if_neg (not_not.mpr hpath), if_neg (not_not.mpr htype), gate_iff,
    if_neg (Nat.not_lt.mpr hforged.1), decide_eq_false hforged.2]
  rfl

/-- A request with the digest is not refused. -/
theorem not_refused_of_digest (hpath : request.path = ascii "/ci/hook")
    (htype : getHeader request (ascii "content-type") = ascii "application/json")
    (hlong : 7 ≤ (signatureHeader request).length)
    (hdigest : ((signatureHeader request).drop 7).take 64 = p.digest request) :
    ¬Refused (p.handle request true) := by
  rintro ⟨⟨response, hcode, hrespond⟩, -, -⟩
  unfold handle at hrespond
  rw [if_neg (by decide), if_neg (not_not.mpr hpath), if_neg (not_not.mpr htype), gate_iff,
    if_neg (Nat.not_lt.mpr hlong), decide_eq_true hdigest] at hrespond
  have hrespond : Event.respond response ∈ (match p.parse request.content with
      | none => answer (plainText 400 (ascii "Bad JSON")) .kill
      | some json => addJob json >>= fun _ =>
        answer (plainText 200 (ascii "Thanks!")) .approve).events := hrespond
  split at hrespond
  · rw [respond_mem_answer hrespond] at hcode
    exact absurd hcode (by decide)
  · rename_i json _
    rcases Trace.mem_bind.mp hrespond with hrespond | ⟨_, -, hrespond⟩
    · exact respond_notMem_addJob json response hrespond
    · rw [respond_mem_answer hrespond] at hcode
      exact absurd hcode (by decide)

/-- A request to the hook is dealt with as it should be if and only if, where it has JSON and is
    not signed, its header is no shorter than seven bytes and does not have the digest behind
    them. -/
theorem guarded_iff_forged (p : Game3CI) (request : Request)
    (hpath : request.path = ascii "/ci/hook") :
    Guarded p request ↔
      (getHeader request (ascii "content-type") = ascii "application/json" →
        signatureHeader request ≠ p.signed request → p.Forged request) := by
  constructor
  · intro hguarded htype hsigned
    have hrefused := hguarded.refuses htype hsigned
    by_cases hlong : 7 ≤ (signatureHeader request).length
    · exact ⟨hlong, fun hdigest => not_refused_of_digest hpath htype hlong hdigest hrefused⟩
    · rw [handle_of_short hpath htype (Nat.not_le.mp hlong)] at hrefused
      obtain ⟨result, hresult⟩ := hrefused.returned
      exact nomatch hresult
  · intro hforged
    refine ⟨fun commit hadded => ?_, fun htype hsigned => ?_⟩
    · by_contra hsigned
      by_cases htype : getHeader request (ascii "content-type") = ascii "application/json"
      · rw [handle_of_forged hpath htype (hforged htype hsigned)] at hadded
        exact added_notMem_answer _ _ _ hadded
      · rw [handle_of_type hpath htype] at hadded
        exact added_notMem_answer _ _ _ hadded
    · rw [handle_of_forged hpath htype (hforged htype hsigned)]
      exact ⟨⟨_, rfl, List.mem_cons_self⟩, added_notMem_answer _ _, .kill, rfl⟩

/-- What is pushed to the repository. -/
def pushed : Bytes := ascii "\x7b\"ref\":\"refs/heads/master\",\"after\":\"c0ffee\"\x7d"

/-- The digest of what is pushed, with `secret` for a key. -/
def pushedHash : Bytes :=
  [228, 120, 199, 239, 227, 222, 112, 104, 169, 36, 149, 144, 47, 250, 7, 214, 172, 71, 154, 230,
    9, 183, 252, 80, 74, 165, 211, 179, 80, 207, 75, 227]

/-- A hook for this push. -/
def secretHook : Game3CI where
  secret := ascii "secret"
  hmacSHA256 := fun key message =>
    if key = ascii "secret" ∧ message = pushed then pushedHash else List.replicate 32 0
  hmacSHA256_length := by
    intro key message
    split <;> rfl
  parse := fun content =>
    if content = pushed then
      some (.object [(ascii "ref", .string (ascii "refs/heads/master")),
        (ascii "after", .string (ascii "c0ffee"))])
    else none

/-- The request that tells of the push. -/
def pushRequest (headers : List (Bytes × Bytes)) : Request where
  path := ascii "/ci/hook"
  content := pushed
  headers := Std.ExtTreeMap.ofList ((ascii "content-type", ascii "application/json") :: headers)

theorem guarded_iff_forged_signed :
    Guarded secretHook (pushRequest [(ascii "x-hub-signature-256", ascii "sha256=" ++
      hexString pushedHash)]) := by
  refine (guarded_iff_forged secretHook _ rfl).mpr fun _ hsigned => absurd ?_ hsigned
  decide

/-- Without a signature the handler throws, and a signature with anything before the digest and
    behind it starts the job. -/
theorem unguarded_push :
    (secretHook.handle (pushRequest []) true).result = .error .outOfRange ∧
      ¬Guarded secretHook (pushRequest []) ∧
      ¬Guarded secretHook (pushRequest [(ascii "x-hub-signature-256", ascii "tiger= " ++
        hexString pushedHash ++ ascii "0")]) := by
  have hthrows : (secretHook.handle (pushRequest []) true).result = .error .outOfRange := by
    decide
  have hadds : (secretHook.handle (pushRequest [(ascii "x-hub-signature-256", ascii "tiger= " ++
      hexString pushedHash ++ ascii "0")]) true).events.filterMap Event.commit =
        [ascii "c0ffee"] := by decide +kernel
  refine ⟨hthrows, fun hguarded => ?_, fun hguarded => ?_⟩
  · obtain ⟨result, hresult⟩ :=
      (hguarded.refuses (by decide) (by decide)).returned
    exact nomatch hthrows.symm.trans hresult
  · obtain ⟨event, hevent, hcommit⟩ := List.mem_filterMap.mp (hadds ▸ List.mem_singleton_self _)
    cases event with
    | respond response => exact nomatch hcommit
    | closed => exact nomatch hcommit
    | added commit => exact absurd (hguarded.jobs commit hevent) (by decide)

end Signed

end Game3CI

end Algiz.Plugins
