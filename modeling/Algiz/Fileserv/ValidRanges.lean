/-
  `Request::valid`: which ranges it lets through.

  Ends are inclusive, as `serveRange` reads them. The check sorts the ranges and compares each
  with the one before it; nothing is compared with the first one's start, a range may start where
  the one before it ends, and the last may end one byte behind what is there. The ranges that it
  lets through are sound except for these three (`valid_sound_iff`).
-/
import Algiz.Fileserv.Sending

namespace Algiz.Plugins

open Algiz.HTTP

/-- `Request::valid`, which leaves the ranges sorted. -/
def Fileserv.valid (fileserv : Fileserv) (request : Request) (totalSize : Nat) : Bool :=
  !(totalSize < request.suffixLength) &&
    validSorted totalSize request.suffixLength (fileserv.sort request.ranges)

/-- `serveRange` asks `valid` first. -/
theorem Fileserv.serveRange_eq (fileserv : Fileserv) (request : Request) {path : Lib.Path}
    {file : File} (hfile : fileserv.fs.regularFile path = some file) :
    fileserv.serveRange request path =
      if fileserv.valid request file.content.length then
        fileserv.serveRanges path file (fileserv.sort request.ranges) request.suffixLength
      else send400 := by
  unfold Fileserv.serveRange Fileserv.valid
  rw [hfile]
  dsimp only
  cases decide (file.content.length < request.suffixLength) with
  | true => rfl
  | false =>
    cases validSorted file.content.length request.suffixLength (fileserv.sort request.ranges) with
    | true => rfl
    | false => rfl

/-! ## Sound ranges -/

/-- Ranges as `serveRange` may read them: each within the file and in order, none reaching into
    the suffix, all of them sorted and disjoint; and their lengths do not wrap around. -/
structure SoundRanges (totalSize suffixLength : Nat) (ranges : List (Nat × Nat)) : Prop where
  within : ∀ range ∈ ranges, range.1 ≤ range.2 ∧ range.2 < totalSize
  disjoint : ranges.Pairwise fun previous next => previous.2 < next.1
  suffix : ∀ range ∈ ranges, range.2 < totalSize - suffixLength
  length : ∀ range ∈ ranges, rangeLength range = range.2 - range.1 + 1

/-- Ranges that follow one another up to the suffix, and of which the first is reversed, or one
    starts where the one before it ends, or the last ends where the suffix starts. -/
structure SlippedRanges (totalSize suffixLength : Nat) (ranges : List (Nat × Nat)) : Prop where
  size : suffixLength ≤ totalSize
  follow : ranges.IsChain fun previous next => previous.2 ≤ next.1 ∧ next.1 < next.2
  last : ∀ last ∈ ranges.getLast?, last.2 ≤ totalSize - suffixLength
  slip : (∃ first ∈ ranges.head?, first.2 < first.1) ∨
    ¬ ranges.IsChain (fun previous next => previous.2 ≠ next.1) ∨
    ∃ last ∈ ranges.getLast?, last.2 = totalSize - suffixLength

variable {totalSize suffixLength : Nat} {ranges : List (Nat × Nat)}

/-! ## What is let through -/

/-- In a chain of ranges all but the first end behind their start, and at the last one's end at
    the latest. -/
theorem chain_le_last {first : Nat × Nat}
    (hchain : (first :: ranges).IsChain fun previous next => previous.2 ≤ next.1 ∧ next.1 < next.2)
    {last : Nat × Nat} (hlast : (first :: ranges).getLast? = some last) :
    first.2 ≤ last.2 ∧ ∀ range ∈ ranges, range.1 < range.2 ∧ range.2 ≤ last.2 := by
  induction ranges generalizing first with
  | nil =>
    obtain rfl := Option.some.inj hlast
    exact ⟨Nat.le_refl _, fun _ hmem => absurd hmem List.not_mem_nil⟩
  | cons second ranges ih =>
    obtain ⟨hstep, hrest⟩ := List.isChain_cons_cons.mp hchain
    have hsame : (second :: ranges).getLast? = some last := by
      rwa [List.getLast?_cons_cons] at hlast
    obtain ⟨hsecond, hall⟩ := ih hrest hsame
    refine ⟨by omega, fun range hmem => ?_⟩
    rcases List.mem_cons.mp hmem with rfl | hmem
    · exact ⟨hstep.2, hsecond⟩
    · exact hall range hmem

/-- What `valid` lets through: ranges that follow one another, up to the suffix. -/
theorem validSorted_iff (hsize : suffixLength ≤ totalSize) :
    validSorted totalSize suffixLength ranges = true ↔
      ranges.IsChain (fun previous next => previous.2 ≤ next.1 ∧ next.1 < next.2) ∧
        ∀ last ∈ ranges.getLast?, last.2 ≤ totalSize - suffixLength := by
  induction ranges with
  | nil => simp [validSorted]
  | cons first ranges ih =>
    cases ranges with
    | nil => simp [validSorted]
    | cons second ranges =>
      rw [validSorted, Bool.and_eq_true, ih, List.isChain_cons_cons, List.getLast?_cons_cons]
      unfold followsIn
      constructor
      · rintro ⟨hfollows, hchain, hlast⟩
        simp only [Bool.not_eq_true', Bool.or_eq_false_iff, decide_eq_false_iff_not] at hfollows
        obtain ⟨⟨⟨hstop, hstart⟩, -⟩, -⟩ := hfollows
        exact ⟨⟨⟨by omega, by omega⟩, hchain⟩, hlast⟩
      · rintro ⟨⟨⟨hstart, hstop⟩, hchain⟩, hlast⟩
        have hfound := List.getLast?_eq_some_getLast (List.cons_ne_nil second ranges)
        generalize (second :: ranges).getLast _ = last at hfound
        have hend := hlast last hfound
        obtain ⟨hsecond, -⟩ := chain_le_last hchain hfound
        refine ⟨?_, hchain, hlast⟩
        simp only [Bool.not_eq_true', Bool.or_eq_false_iff, decide_eq_false_iff_not]
        exact ⟨⟨⟨by omega, by omega⟩, by omega⟩, by omega⟩

/-- A chain in which no range starts where the one before it ends is one of disjoint ranges. -/
theorem disjoint_of_chain
    (hchain : ranges.IsChain fun previous next => previous.2 ≤ next.1 ∧ next.1 < next.2)
    (hapart : ranges.IsChain fun previous next => previous.2 ≠ next.1) :
    ranges.Pairwise fun previous next => previous.2 < next.1 := by
  have hstrict : ranges.IsChain fun previous next => previous.2 < next.1 ∧ next.1 < next.2 := by
    induction ranges with
    | nil => exact .nil
    | cons first ranges ih =>
      cases ranges with
      | nil => exact .singleton first
      | cons second ranges =>
        obtain ⟨hstep, hrest⟩ := List.isChain_cons_cons.mp hchain
        obtain ⟨hne, hrestApart⟩ := List.isChain_cons_cons.mp hapart
        exact List.isChain_cons_cons.mpr ⟨⟨by omega, hstep.2⟩, ih hrest hrestApart⟩
  have htrans : IsTrans (Nat × Nat) fun previous next =>
      previous.2 < next.1 ∧ next.1 < next.2 := by
    constructor
    intro a b c hab hbc
    omega
  exact hstrict.pairwise.imp And.left

/-- Of the ranges that are let through, the sound ones are those without a slip. -/
theorem soundRanges_iff (htotal : totalSize < 2 ^ 64)
    (hchain : ranges.IsChain fun previous next => previous.2 ≤ next.1 ∧ next.1 < next.2)
    (hlast : ∀ last ∈ ranges.getLast?, last.2 ≤ totalSize - suffixLength) :
    SoundRanges totalSize suffixLength ranges ↔
      ¬ ((∃ first ∈ ranges.head?, first.2 < first.1) ∨
        ¬ ranges.IsChain (fun previous next => previous.2 ≠ next.1) ∨
        ∃ last ∈ ranges.getLast?, last.2 = totalSize - suffixLength) := by
  constructor
  · rintro h (⟨first, hfirst, hreversed⟩ | htouch | ⟨last, hfound, hend⟩)
    · have := h.within first (List.mem_of_mem_head? hfirst)
      omega
    · exact htouch (h.disjoint.isChain.imp fun _ _ hlt => Nat.ne_of_lt hlt)
    · have := h.suffix last (List.mem_of_getLast? hfound)
      omega
  · intro hnot
    obtain ⟨hreversed, hrest⟩ := not_or.mp hnot
    obtain ⟨htouch, hend⟩ := not_or.mp hrest
    have hapart := not_not.mp htouch
    have hall : ∀ range ∈ ranges, range.1 ≤ range.2 ∧ range.2 < totalSize - suffixLength := by
      cases ranges with
      | nil => exact fun _ hmem => absurd hmem List.not_mem_nil
      | cons first ranges =>
        have hfound := List.getLast?_eq_some_getLast (List.cons_ne_nil first ranges)
        generalize (first :: ranges).getLast _ = last at hfound
        have hle := hlast last hfound
        have hne : last.2 ≠ totalSize - suffixLength := fun heq => hend ⟨last, hfound, heq⟩
        obtain ⟨hfirst, hothers⟩ := chain_le_last hchain hfound
        have hordered : ¬ first.2 < first.1 := fun hlt => hreversed ⟨first, rfl, hlt⟩
        intro range hmem
        rcases List.mem_cons.mp hmem with rfl | hmem
        · omega
        · have := hothers range hmem
          omega
    refine ⟨fun range hmem => ?_, disjoint_of_chain hchain hapart,
      fun range hmem => (hall range hmem).2,
      fun range hmem => ?_⟩
    · have := hall range hmem
      omega
    · have := hall range hmem
      unfold rangeLength
      omega

namespace Fileserv

/-- Whatever `valid` accepts is sound, if and only if the ranges are not, once sorted, of the kind
    that it lets slip. -/
theorem valid_sound_iff (fileserv : Fileserv) (request : Request) (totalSize : Nat)
    (htotal : totalSize < 2 ^ 64) :
    (fileserv.valid request totalSize = true →
      SoundRanges totalSize request.suffixLength (fileserv.sort request.ranges)) ↔
      ¬ SlippedRanges totalSize request.suffixLength (fileserv.sort request.ranges) := by
  unfold valid
  by_cases hsize : request.suffixLength ≤ totalSize
  · have hnot : decide (totalSize < request.suffixLength) = false :=
      decide_eq_false (by omega)
    rw [hnot, Bool.not_false, Bool.true_and, validSorted_iff hsize]
    constructor
    · rintro hsound ⟨-, hfollow, hlast, hslip⟩
      exact (soundRanges_iff htotal hfollow hlast).mp (hsound ⟨hfollow, hlast⟩) hslip
    · rintro hslipped ⟨hfollow, hlast⟩
      refine (soundRanges_iff htotal hfollow hlast).mpr fun hslip => ?_
      exact hslipped ⟨hsize, hfollow, hlast, hslip⟩
  · have hnot : decide (totalSize < request.suffixLength) = true := decide_eq_true (by omega)
    rw [hnot, Bool.not_true, Bool.false_and]
    exact iff_of_true (fun h => Bool.noConfusion h) fun hslipped => hsize hslipped.size

/-- The first and the last five bytes of eleven. -/
theorem valid_sound_iff_twoRanges :
    SoundRanges 11 0 [(0, 4), (6, 10)] := by
  refine (valid_sound_iff { fs := elevenBytes } { ranges := [(0, 4), (6, 10)] } 11
    (by decide)).mpr ?_ (by decide)
  rintro ⟨-, -, -, ⟨first, hfirst, hreversed⟩ | htouch | ⟨last, hlast, hend⟩⟩
  · obtain rfl := Option.some.inj hfirst
    exact absurd hreversed (by decide)
  · exact htouch (by decide)
  · obtain rfl := Option.some.inj hlast
    exact absurd hend (by decide)

/-- A reversed range, one that ends behind the file, and two that share a byte: each is what
    `parseRange` makes of a header, and each is accepted. -/
theorem valid_slips :
    let accepted (header : Bytes) (ranges : List (Nat × Nat)) : Prop :=
      (({} : Request).parseRange {} header).1.ranges = ranges ∧
        ({ fs := elevenBytes } : Fileserv).valid { ranges := ranges } 11 = true ∧
        ¬ SoundRanges 11 0 ranges
    accepted (ascii "bytes=7-3") [(7, 3)] ∧ accepted (ascii "bytes=0-11") [(0, 11)] ∧
      accepted (ascii "bytes=0-4, 4-10") [(0, 4), (4, 10)] := by
  intro accepted
  refine ⟨⟨by decide, by decide, fun h => ?_⟩, ⟨by decide, by decide, fun h => ?_⟩,
    ⟨by decide, by decide, fun h => ?_⟩⟩
  · exact absurd (h.within (7, 3) (by decide)) (by decide)
  · exact absurd (h.within (0, 11) (by decide)) (by decide)
  · exact absurd h.disjoint (by decide)

end Fileserv

end Algiz.Plugins
