/-
  Requests for ranges that a file can satisfy.

  A range without an end is kept with the largest number for its end, which `Request::valid` does
  not take for the last byte, and a range of one byte passes only as the lowest. All other
  requests for disjoint ranges of the file pass, in any order (`valid_complete_iff`). A request for
  a suffix alone passes too, and `serveRange` fails an assertion on it (`serve_asserts_iff`).
-/
import Algiz.Fileserv.Fileserv
import Algiz.Fileserv.ValidRanges
import Algiz.HTTP.RangeGrammar

namespace Algiz.Plugins

open Algiz.HTTP Algiz.HTTP.Request

/-! ## Sorting -/

/-- The comparison that `Request::valid` gives to `std::sort`. -/
def startsBefore (left right : Nat × Nat) : Bool := left.1 < right.2

/-- What `std::sort` is relied on for: if the comparison puts, of every two elements at different
    places, one before the other, in a transitive way, then they come out in that order. -/
def Sorts (sort : List (Nat × Nat) → List (Nat × Nat)) (ranges : List (Nat × Nat)) : Prop :=
  ranges.Pairwise (fun left right => startsBefore left right ≠ startsBefore right left) →
    (∀ a ∈ ranges, ∀ b ∈ ranges, ∀ c ∈ ranges, startsBefore a b = true → startsBefore b c = true →
      startsBefore a c = true) →
    (sort ranges).Pairwise fun left right => startsBefore left right = true

/-! ## Ranges of a file -/

/-- The last byte of a range in a file of that size; a range without an end goes on to the end. -/
def lastByte (totalSize : Nat) (range : Nat × Nat) : Nat :=
  if range.2 = 2 ^ 64 - 1 then totalSize - 1 else range.2

/-- Ranges that lie inside the file and not in its suffix, no two with a byte in common. -/
structure Satisfiable (totalSize suffixLength : Nat) (ranges : List (Nat × Nat)) : Prop where
  within : ∀ range ∈ ranges,
    range.1 ≤ lastByte totalSize range ∧ lastByte totalSize range < totalSize
  suffix : ∀ range ∈ ranges, lastByte totalSize range < totalSize - suffixLength
  disjoint : ranges.Pairwise fun left right =>
    lastByte totalSize left < right.1 ∨ lastByte totalSize right < left.1

namespace Satisfiable

variable {totalSize suffixLength : Nat} {ranges : List (Nat × Nat)}

theorem perm (h : Satisfiable totalSize suffixLength ranges) {others : List (Nat × Nat)}
    (hperm : others.Perm ranges) : Satisfiable totalSize suffixLength others := by
  refine ⟨fun range hrange => h.within range (hperm.subset hrange),
    fun range hrange => h.suffix range (hperm.subset hrange), ?_⟩
  exact hperm.symm.pairwise h.disjoint fun hab => hab.symm

/-- An end that is there is the last byte, and the largest number is behind all of them. -/
theorem lastByte_le (h : Satisfiable totalSize suffixLength ranges) (hsize : totalSize < 2 ^ 64)
    {range : Nat × Nat} (hrange : range ∈ ranges) : lastByte totalSize range ≤ range.2 := by
  have hwithin := (h.within range hrange).2
  unfold lastByte at hwithin ⊢
  split_ifs at hwithin ⊢ <;> omega

/-- Of two ranges the comparison puts the one in front before the other. -/
theorem startsBefore_iff (h : Satisfiable totalSize suffixLength ranges)
    (hsize : totalSize < 2 ^ 64) {left right : Nat × Nat} (hleft : left ∈ ranges)
    (hright : right ∈ ranges)
    (hdisjoint : lastByte totalSize left < right.1 ∨ lastByte totalSize right < left.1) :
    startsBefore left right = true ↔ lastByte totalSize left < right.1 := by
  have hleftIn := h.within left hleft
  have hrightIn := h.within right hright
  have hleftLe := h.lastByte_le hsize hleft
  have hrightLe := h.lastByte_le hsize hright
  unfold startsBefore
  rw [decide_eq_true_iff]
  constructor
  · intro hstart
    refine hdisjoint.resolve_right fun hother => ?_
    -- the end of the right one is its last byte, because the left one lies behind it
    unfold lastByte at *
    split_ifs at * <;> omega
  · intro hfront
    omega

/-- The comparison orders the ranges, each in front of those that lie behind it. -/
theorem sorted (h : Satisfiable totalSize suffixLength ranges) (hsize : totalSize < 2 ^ 64)
    {sort : List (Nat × Nat) → List (Nat × Nat)} (hsort : Sorts sort ranges)
    (hperm : (sort ranges).Perm ranges) :
    (sort ranges).Pairwise fun left right => lastByte totalSize left < right.1 := by
  have hstrict : ranges.Pairwise fun left right =>
      startsBefore left right ≠ startsBefore right left := by
    refine h.disjoint.imp_of_mem ?_
    intro left right hleft hright hdisjoint hsame
    have hleftIn := h.within left hleft
    have hrightIn := h.within right hright
    have hfront := h.startsBefore_iff hsize hleft hright hdisjoint
    have hback := h.startsBefore_iff hsize hright hleft hdisjoint.symm
    rw [hsame] at hfront
    rcases hdisjoint with hlt | hlt
    · have := hback.mp (hfront.mpr hlt)
      omega
    · have := hfront.mp (hback.mpr hlt)
      omega
  have htrans : ∀ a ∈ ranges, ∀ b ∈ ranges, ∀ c ∈ ranges, startsBefore a b = true →
      startsBefore b c = true → startsBefore a c = true := by
    have hsymm : Std.Symm fun left right : Nat × Nat =>
        lastByte totalSize left < right.1 ∨ lastByte totalSize right < left.1 :=
      ⟨fun _ _ hdisjoint => hdisjoint.symm⟩
    have hapart : ∀ left ∈ ranges, ∀ right ∈ ranges, left ≠ right →
        lastByte totalSize left < right.1 ∨ lastByte totalSize right < left.1 :=
      fun left hleft right hright hne => h.disjoint.forall hleft hright hne
    intro a ha b hb c hc hab hbc
    rcases eq_or_ne a b with rfl | hneab
    · exact hbc
    · rcases eq_or_ne b c with rfl | hnebc
      · exact hab
      · have haIn := h.within a ha
        have hbIn := h.within b hb
        have hcIn := h.within c hc
        have hcLe := h.lastByte_le hsize hc
        have hablt := (h.startsBefore_iff hsize ha hb (hapart a ha b hb hneab)).mp hab
        have hbclt := (h.startsBefore_iff hsize hb hc (hapart b hb c hc hnebc)).mp hbc
        unfold startsBefore
        rw [decide_eq_true_iff]
        omega
  have hordered := hsort hstrict htrans
  have hsorted := h.perm hperm
  refine (hordered.and hsorted.disjoint).imp_of_mem ?_
  rintro left right hleft hright ⟨hbefore, hdisjoint⟩
  exact (hsorted.startsBefore_iff hsize hleft hright hdisjoint).mp hbefore

end Satisfiable

/-! ## Which requests pass -/

/-- What `valid` asks of ranges that a file can satisfy: the suffix fits, no range is without an
    end, and none but the lowest is of one byte. A range without an end passes for a file of the
    largest size. -/
structure Passes (totalSize suffixLength : Nat) (ranges : List (Nat × Nat)) : Prop where
  suffix : suffixLength ≤ totalSize
  ended : ∀ range ∈ ranges, range.2 = 2 ^ 64 - 1 → totalSize = 2 ^ 64 - 1 ∧ suffixLength = 0
  lowest : ∀ range ∈ ranges, range.1 = range.2 → ∀ other ∈ ranges, range.1 ≤ other.1

/-- Ranges in order pass the check exactly if they are of that kind. -/
theorem validSorted_iff_passes {totalSize suffixLength : Nat} {ranges : List (Nat × Nat)}
    (hsize : totalSize < 2 ^ 64) (hsuffix : suffixLength ≤ totalSize)
    (h : Satisfiable totalSize suffixLength ranges)
    (hsorted : ranges.Pairwise fun left right => lastByte totalSize left < right.1) :
    validSorted totalSize suffixLength ranges = true ↔ Passes totalSize suffixLength ranges := by
  rw [validSorted_iff hsuffix]
  constructor
  · rintro ⟨hchain, hlast⟩
    cases ranges with
    | nil =>
      exact ⟨hsuffix, fun _ hmem => absurd hmem List.not_mem_nil,
        fun _ hmem => absurd hmem List.not_mem_nil⟩
    | cons first ranges =>
      have hfound := List.getLast?_eq_some_getLast (List.cons_ne_nil first ranges)
      generalize (first :: ranges).getLast _ = last at hfound
      have hend := hlast last hfound
      obtain ⟨hfirst, hothers⟩ := chain_le_last hchain hfound
      refine ⟨hsuffix, ?_, ?_⟩
      · intro range hmem hended
        have hle : range.2 ≤ last.2 := by
          rcases List.mem_cons.mp hmem with rfl | hmem
          · exact hfirst
          · exact (hothers range hmem).2
        omega
      · intro range hmem hone other hother
        have hsame : range = first := by
          refine (List.mem_cons.mp hmem).resolve_right fun hin => ?_
          have := (hothers range hin).1
          omega
        subst hsame
        rcases List.mem_cons.mp hother with rfl | hother
        · exact Nat.le_refl _
        · have hin := (h.within range hmem).1
          have := (List.pairwise_cons.mp hsorted).1 other hother
          omega
  · intro hpasses
    refine ⟨List.Pairwise.isChain (hsorted.imp_of_mem ?_), ?_⟩
    · intro left right hleft hright hfront
      have hleftIn := h.within left hleft
      have hrightIn := h.within right hright
      have hrightLe := h.lastByte_le hsize hright
      have hended : left.2 ≠ 2 ^ 64 - 1 := by
        intro hended
        unfold lastByte at hfront hrightIn
        rw [if_pos hended] at hfront
        omega
      have hone : right.1 ≠ right.2 := by
        intro hone
        have := hpasses.lowest right hright hone left hleft
        omega
      unfold lastByte at hfront
      rw [if_neg hended] at hfront
      omega
    · intro last hlast
      have hmem := List.mem_of_getLast? hlast
      have hin := h.suffix last hmem
      by_cases hended : last.2 = 2 ^ 64 - 1
      · obtain ⟨htotal, hnone⟩ := hpasses.ended last hmem hended
        omega
      · unfold lastByte at hin
        rw [if_neg hended] at hin
        exact hin.le

theorem Passes.perm {totalSize suffixLength : Nat} {ranges others : List (Nat × Nat)}
    (h : Passes totalSize suffixLength ranges) (hperm : others.Perm ranges) :
    Passes totalSize suffixLength others where
  suffix := h.suffix
  ended range hrange := h.ended range (hperm.subset hrange)
  lowest range hrange hone other hother :=
    h.lowest range (hperm.subset hrange) hone other (hperm.subset hother)

namespace Fileserv

/-- A request for ranges that the file can satisfy passes exactly if they are of the kind that
    `valid` asks for. -/
theorem valid_iff_passes {fileserv : Fileserv} {request : Request} {totalSize : Nat}
    (hsize : totalSize < 2 ^ 64) (hsort : Sorts fileserv.sort request.ranges)
    (h : Satisfiable totalSize request.suffixLength request.ranges) :
    fileserv.valid request totalSize = true ↔
      Passes totalSize request.suffixLength request.ranges := by
  have hperm := fileserv.sort_perm request.ranges
  have hsorted := h.sorted hsize hsort hperm
  unfold valid
  rw [Bool.and_eq_true, Bool.not_eq_true', decide_eq_false_iff_not, Nat.not_lt]
  constructor
  · rintro ⟨hsuffix, hvalid⟩
    exact ((validSorted_iff_passes hsize hsuffix (h.perm hperm) hsorted).mp hvalid).perm hperm.symm
  · intro hpasses
    exact ⟨hpasses.suffix, (validSorted_iff_passes hsize hpasses.suffix (h.perm hperm)
      hsorted).mpr (hpasses.perm hperm)⟩

/-- After `parseRange` of a header of the grammar, with ranges that the file can satisfy, `valid`
    returns true exactly if the suffix fits, no range is without an end, and none but the lowest is
    of one byte. -/
theorem valid_complete_iff (fileserv : Fileserv) (ind : Indeterminate) (request : Request)
    {header : Bytes} {items : List RangeItem} {totalSize : Nat} (hheader : InGrammar header items)
    (hsize : totalSize < 2 ^ 64)
    (hsort : Sorts fileserv.sort (items.filterMap RangeItem.range?))
    (hsatisfiable : Satisfiable totalSize (assigned items request).suffixLength
      (items.filterMap RangeItem.range?)) :
    fileserv.valid (parseRange ind header request).1 totalSize = true ↔
      Passes totalSize (assigned items request).suffixLength
        (items.filterMap RangeItem.range?) := by
  rw [parseRange_inGrammar ind hheader]
  exact valid_iff_passes hsize hsort hsatisfiable

/-- The last five bytes of eleven and the first five, in this order. -/
theorem valid_complete_iff_reversed :
    ({ fs := elevenBytes, sort := List.reverse, sort_perm := List.reverse_perm } : Fileserv).valid
      (parseRange {} (ascii "bytes=6-10, 0-4") {}).1 11 = true := by
  have hheader : InGrammar (ascii "bytes=6-10, 0-4") [.range 6 10, .range 0 4] := by
    refine ⟨[ascii "6" ++ 45 :: ascii "10", ascii "0" ++ 45 :: ascii "4"], rfl,
      .cons (.range ?_ ?_) (.cons (.range ?_ ?_) .nil)⟩ <;>
    exact ⟨by decide, by decide +kernel, by decide, by decide⟩
  refine (valid_complete_iff _ {} {} hheader (by decide) ?_ ?_).mpr ?_
  · exact fun _ _ => by decide
  · exact ⟨by decide, by decide, by decide⟩
  · exact ⟨by decide, by decide, by decide⟩

/-- A range without an end, and a range of one byte behind another: both are refused. -/
theorem refuses_satisfiable :
    let refused (header : Bytes) (items : List RangeItem) : Prop :=
      InGrammar header items ∧
        Satisfiable 11 0 (items.filterMap RangeItem.range?) ∧
        Sorts ({ fs := elevenBytes } : Fileserv).sort (items.filterMap RangeItem.range?) ∧
        ({ fs := elevenBytes } : Fileserv).valid (parseRange {} header {}).1 11 = false
    refused (ascii "bytes=5-") [.range 5 (2 ^ 64 - 1)] ∧
      refused (ascii "bytes=0-4, 6-6") [.range 0 4, .range 6 6] := by
  intro refused
  refine ⟨⟨?_, ?_, ?_, ?_⟩, ⟨?_, ?_, ?_, ?_⟩⟩
  · exact ⟨[ascii "5" ++ [45]], rfl,
      .cons (.start ⟨by decide, by decide +kernel, by decide, by decide⟩) .nil⟩
  · exact ⟨by decide, by decide, by decide⟩
  · exact fun _ _ => by decide
  · decide
  · refine ⟨[ascii "0" ++ 45 :: ascii "4", ascii "6" ++ 45 :: ascii "6"], rfl,
      .cons (.range ?_ ?_) (.cons (.range ?_ ?_) .nil)⟩ <;>
    exact ⟨by decide, by decide +kernel, by decide, by decide⟩
  · exact ⟨by decide, by decide, by decide⟩
  · exact fun _ _ => by decide
  · decide

end Fileserv

/-! ## Requests without a range -/

/-- Is there a piece in the header that is read and does not begin with a hyphen? -/
def NamesRange (header : Bytes) : Prop :=
  ∃ parts, header = ascii "bytes=" ++ (ascii ", ").intercalate parts ∧
    (∀ part ∈ parts, ¬ ascii ", " <:+: part) ∧ ∃ part ∈ piecesRead parts, part.head? ≠ some 45

/-- A piece says a suffix exactly if it begins with a hyphen. -/
theorem suffix_iff_hyphen {ind : Indeterminate} {piece : Bytes} {item : RangeItem}
    (h : rangeItem ind piece = .ok item) : item.range? = none ↔ piece.head? = some 45 := by
  obtain hnone | ⟨rest, rfl⟩ | ⟨front, rest, hne, hfront, rfl⟩ := piece_cases piece
  · have hhead : piece.head? ≠ some 45 := fun hhead => hnone (List.mem_of_head? hhead)
    rw [rangeItem_none ind hnone] at h
    cases hnumber : parseUlong ind piece with
    | error e =>
      rw [hnumber] at h
      exact nomatch h
    | ok n =>
      rw [hnumber] at h
      obtain rfl := Except.ok.inj h
      exact iff_of_false nofun hhead
  · by_cases hrest : rest = []
    · subst hrest
      exact nomatch h
    · rw [rangeItem_suffix ind hrest] at h
      cases hnumber : parseUlong ind rest with
      | error e =>
        rw [hnumber] at h
        exact nomatch h
      | ok n =>
        rw [hnumber] at h
        obtain rfl := Except.ok.inj h
        exact iff_of_true rfl rfl
  · have hhead : (front ++ 45 :: rest).head? ≠ some 45 := by
      obtain ⟨b, front, rfl⟩ := List.exists_cons_of_ne_nil hne
      intro hhead
      exact hfront (Option.some.inj hhead ▸ List.mem_cons_self)
    refine iff_of_false ?_ hhead
    rw [rangeItem_hyphen ind hne hfront] at h
    cases hnumber : parseUlong ind front with
    | error e =>
      rw [hnumber] at h
      exact nomatch h
    | ok n =>
      rw [hnumber] at h
      dsimp only at h
      split_ifs at h
      · obtain rfl := Except.ok.inj h
        exact nofun
      · cases hother : parseUlong ind rest with
        | error e =>
          rw [hother] at h
          exact nomatch h
        | ok m =>
          rw [hother] at h
          obtain rfl := Except.ok.inj h
          exact nofun

/-- Pieces that are accepted leave no range exactly if each begins with a hyphen. -/
theorem readPieces_ranges (ind : Indeterminate) {pieces : List Bytes} {r : Request}
    (h : (readPieces ind pieces r).2 = none) :
    (readPieces ind pieces r).1.ranges = [] ↔
      r.ranges = [] ∧ ∀ piece ∈ pieces, piece.head? = some 45 := by
  induction pieces generalizing r with
  | nil =>
    rw [readPieces]
    exact (and_iff_left fun _ hmem => absurd hmem List.not_mem_nil).symm
  | cons piece pieces ih =>
    unfold readPieces rangePiece at h ⊢
    cases hitem : rangeItem ind piece with
    | error e =>
      rw [hitem] at h
      cases h
    | ok item =>
      have hassign : (item.assign r).ranges = [] ↔ r.ranges = [] ∧ piece.head? = some 45 := by
        rw [← suffix_iff_hyphen hitem]
        cases item with
        | suffix length => exact (and_iff_left rfl).symm
        | range start stop => simp [RangeItem.assign, RangeItem.range?]
      rw [hitem] at h
      dsimp only at h ⊢
      rw [ih h, hassign, List.forall_mem_cons, and_assoc]

theorem rangeError_eq_none {e : Option Exception} (h : rangeError e = none) : e = none := by
  cases e with
  | none => rfl
  | some e => cases e <;> exact nomatch h

/-- A header that is accepted leaves a range exactly if it names one. -/
theorem parseRange_ranges {ind : Indeterminate} {header : Bytes} {r : Request}
    (h : (parseRange ind header r).2 = none) :
    (parseRange ind header r).1.ranges ≠ [] ↔ NamesRange header := by
  by_cases hunit : header.take 6 = ascii "bytes="
  · have hheader : header = ascii "bytes=" ++ header.drop 6 := by
      rw [← hunit, List.take_append_drop]
    obtain ⟨parts, hne, htext, hparts⟩ := exists_parts (header.drop 6)
    rw [htext] at hheader
    subst hheader
    rw [parseRange_intercalate ind hparts] at h ⊢
    dsimp only at h ⊢
    rw [ne_eq, readPieces_ranges ind (rangeError_eq_none h)]
    constructor
    · intro hnot
      refine ⟨parts, rfl, hparts, ?_⟩
      by_contra hnone
      refine hnot ⟨rfl, fun piece hpiece => ?_⟩
      by_contra hhead
      exact hnone ⟨piece, hpiece, hhead⟩
    · rintro ⟨others, hsame, hothers, piece, hpiece, hhead⟩ ⟨-, hall⟩
      have hne' : others ≠ [] := by
        rintro rfl
        exact absurd hpiece List.not_mem_nil
      obtain rfl := parts_unique hne hne' hparts hothers (List.append_cancel_left hsame)
      exact hhead (hall piece hpiece)
  · unfold parseRange at h
    rw [if_pos hunit] at h
    exact nomatch h

namespace Fileserv

/-- The condition under which the handlers call `serveRange`. -/
def takesRanges (request : Request) : Bool :=
  !hacksRanges request && (!request.ranges.isEmpty || request.suffixLength ≠ 0)

/-- Where a handler serves ranges that are valid, it fails no assertion exactly if the header names
    a range, or the file cannot be opened. -/
theorem serve_asserts_iff (fileserv : Fileserv) (server : ServerOptions) (ind : Indeterminate)
    (request : Request) (post : Option StringMap) {header : Bytes} {path : Lib.Path} {file : File}
    (haccepted : (parseRange ind header request).2 = none)
    (hfile : fileserv.fs.regularFile path = some file)
    (htemplate : path.extension ≠ ascii ".t")
    (hmodule : fileserv.shouldServeModule server path = .ok false)
    (htaken : takesRanges (parseRange ind header request).1 = true)
    (hvalid : fileserv.valid (parseRange ind header request).1 file.content.length = true) :
    (fileserv.serve server (parseRange ind header request).1 post path).result ≠ .error .aborted ↔
      NamesRange header ∨ file.readable = false := by
  have hserve : fileserv.serve server (parseRange ind header request).1 post path =
      fileserv.serveRange (parseRange ind header request).1 path := by
    have hranges : fileserv.serve server (parseRange ind header request).1 post path =
        if takesRanges (parseRange ind header request).1 then
          fileserv.serveRange (parseRange ind header request).1 path
        else fileserv.serveFull path := by
      unfold serve
      rw [if_neg htemplate, hmodule]
      rfl
    rw [hranges, if_pos htaken]
  rw [← parseRange_ranges haccepted, hserve, serveRange_eq fileserv _ hfile, if_pos hvalid]
  generalize (parseRange ind header request).1 = q
  have hempty : (fileserv.sort q.ranges).isEmpty = true ↔ q.ranges = [] := by
    rw [List.isEmpty_iff]
    exact ⟨fun h => List.nil_perm.mp (h ▸ fileserv.sort_perm q.ranges),
      fun h => List.perm_nil.mp (h ▸ fileserv.sort_perm q.ranges)⟩
  unfold serveRanges
  cases file.readable with
  | false => exact iff_of_true nofun (Or.inr rfl)
  | true =>
    rw [Bool.not_true, if_neg Bool.noConfusion, or_iff_left Bool.noConfusion]
    by_cases hnone : q.ranges = []
    · rw [if_pos (hempty.mpr hnone)]
      exact iff_of_false (fun h => h rfl) (fun h => h hnone)
    · rw [if_neg (fun h => hnone (hempty.mp h))]
      exact iff_of_true nofun hnone

theorem serve_asserts_iff_range :
    (({ fs := elevenBytes } : Fileserv).serve srvOptions
      (parseRange {} (ascii "bytes=0-4") {}).1 none ⟨true, [ascii "srv", ascii "f"]⟩).result ≠
        .error .aborted := by
  have haccepted : (parseRange {} (ascii "bytes=0-4") {}).2 = none := rfl
  refine (serve_asserts_iff _ srvOptions {} {} none haccepted rfl (by decide) rfl (by decide)
    (by decide)).mpr (Or.inl ?_)
  refine ⟨[ascii "0-4"], rfl, ?_, ascii "0-4", List.mem_cons_self, by decide⟩
  intro part hpart
  rw [List.mem_singleton.mp hpart]
  decide

/-- A request for the last five bytes: the handler of GET takes it for a request for ranges, and
    they are valid. -/
theorem asserts_suffix :
    let request := (parseRange {} (ascii "bytes=-5") { path := ascii "/f" }).1
    (parseRange {} (ascii "bytes=-5") { path := ascii "/f" }).2 = none ∧
      ({ fs := elevenBytes } : Fileserv).valid request 11 = true ∧
      (({ fs := elevenBytes } : Fileserv).handleGET srvOptions request true).result =
        .error .aborted := by
  refine ⟨rfl, by decide, ?_⟩
  rfl

end Fileserv

end Algiz.Plugins
