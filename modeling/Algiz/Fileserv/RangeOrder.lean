/-
  The comparison that `Request::valid` sorts by.

  It compares the start of the left range with the end of the right one, so a range that ends
  behind its start is put before itself, and `std::sort` promises nothing for such a comparison.
  It orders the ranges by their starts exactly if none of them ends behind its start, and none
  starts between the end of another and its start (`sortsByStart_iff`). `valid` refuses two or more
  of these, so where it accepts more than one range it rests on a sort of which nothing is known
  (`accepts_one`).
-/
import Algiz.Lib.Sorting
import Algiz.Fileserv.RangeRequests

namespace Algiz.Plugins

open Algiz.HTTP Algiz.HTTP.Request

/-- The comparison is a strict weak order on the ranges, and a sort puts them in order of their
    starts. -/
def SortsByStart (ranges : List (Nat × Nat)) : Prop :=
  Lib.SortsBy (fun left right => startsBefore left right = true) Prod.fst ranges

variable {ranges : List (Nat × Nat)}

theorem startsBefore_eq :
    (fun left right : Nat × Nat => startsBefore left right = true) =
      fun left right => left.1 < right.2 := by
  funext left right
  exact propext decide_eq_true_iff

/-- A range that is put before itself is one that ends behind its start. -/
theorem startsBefore_self {range : Nat × Nat} :
    startsBefore range range = true ↔ range.1 < range.2 := decide_eq_true_iff

/-- The ranges are sorted by their starts exactly if none ends behind its start, and none starts
    between the end of another one and its start. -/
theorem sortsByStart_iff (ranges : List (Nat × Nat)) :
    SortsByStart ranges ↔ (∀ range ∈ ranges, range.2 ≤ range.1) ∧
      ∀ left ∈ ranges, ∀ right ∈ ranges, left.1 < right.1 → left.1 < right.2 := by
  unfold SortsByStart
  rw [startsBefore_eq]
  exact Lib.sortsBy_crossed_iff

/-- No list with a range that ends behind its start is sorted by the starts. -/
theorem not_sortsByStart {range : Nat × Nat} (hrange : range ∈ ranges)
    (hends : range.1 < range.2) : ¬ SortsByStart ranges :=
  fun h => h.order.irrefl ⟨range, hrange⟩ (startsBefore_self.mpr hends)

/-- The first five bytes and five that overlap them: each of the two is before itself and before
    the other. -/
theorem unordered_ranges :
    (({} : Request).parseRange {} (ascii "bytes=0-4, 2-6")).1.ranges = [(0, 4), (2, 6)] ∧
      startsBefore (0, 4) (0, 4) = true ∧ startsBefore (0, 4) (2, 6) = true ∧
      startsBefore (2, 6) (0, 4) = true ∧ ¬ SortsByStart [(0, 4), (2, 6)] :=
  ⟨by decide, by decide, by decide, by decide,
    not_sortsByStart List.mem_cons_self (by decide)⟩

/-- Of ranges that follow one another, all but the first end behind their start. -/
theorem length_le_one_of_chain
    (hchain : ranges.IsChain fun previous next => previous.2 ≤ next.1 ∧ next.1 < next.2)
    (hends : ∀ range ∈ ranges, range.2 ≤ range.1) : ranges.length ≤ 1 := by
  cases ranges with
  | nil => exact Nat.zero_le 1
  | cons first ranges =>
    cases ranges with
    | nil => exact Nat.le_refl 1
    | cons second ranges =>
      have hstep := (List.isChain_cons_cons.mp hchain).1
      have hle := hends second (List.mem_cons_of_mem _ List.mem_cons_self)
      exact absurd hstep.2 (Nat.not_lt.mpr hle)

/-- A request that is accepted has one range at most, or ranges that the comparison does not
    order. -/
theorem Fileserv.accepts_one {fileserv : Fileserv} {request : Request} {totalSize : Nat}
    (hvalid : fileserv.valid request totalSize = true) (h : SortsByStart request.ranges) :
    request.ranges.length ≤ 1 := by
  have hperm := fileserv.sort_perm request.ranges
  have hends : ∀ range ∈ request.ranges, range.2 ≤ range.1 := by
    intro range hrange
    by_contra hlt
    exact not_sortsByStart hrange (Nat.not_le.mp hlt) h
  unfold valid at hvalid
  rw [Bool.and_eq_true, Bool.not_eq_true', decide_eq_false_iff_not, Nat.not_lt] at hvalid
  obtain ⟨hsuffix, hsorted⟩ := hvalid
  rw [← hperm.length_eq]
  exact length_le_one_of_chain ((validSorted_iff hsuffix).mp hsorted).1
    fun range hrange => hends range (hperm.subset hrange)

end Algiz.Plugins
