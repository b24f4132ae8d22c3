/-
  A map that is published as a list of words about its keys.

  A word says what is stored under a key now, or that nothing is. Who has heard all of them has the
  map that the last word about each key tells (`follow`). Where it is the map that was published, it
  stays so if and only if the last of the words about a change tells it (`follow_append_iff`).
-/
import Algiz.Lib.Map

namespace Algiz.Lib

section Follow

variable {K V : Type*} [DecidableEq K]

/-- What the last word about a key says. -/
def follow (words : List (K × Option V)) : Map K V := fun k =>
  ((words.filter fun word => word.1 = k).getLast?).bind Prod.snd

variable {words more : List (K × Option V)} {k : K}

/-- Words about one key leave the others alone. -/
theorem follow_append_of_ne (hmore : ∀ word ∈ more, word.1 = k) {k' : K} (hne : k' ≠ k) :
    follow (words ++ more) k' = follow words k' := by
  have hnone : (more.filter fun word => word.1 = k') = [] := by
    rw [List.filter_eq_nil_iff]
    intro word hword
    rw [hmore word hword, decide_eq_true_eq]
    exact Ne.symm hne
  unfold follow
  rw [List.filter_append, hnone, List.append_nil]

/-- Of the words about one key, the last counts. -/
theorem follow_append_self (hmore : ∀ word ∈ more, word.1 = k) :
    follow (words ++ more) k = more.getLast?.elim (follow words k) Prod.snd := by
  have hall : (more.filter fun word => word.1 = k) = more := by
    rw [List.filter_eq_self]
    intro word hword
    rw [hmore word hword, decide_eq_true_eq]
  unfold follow
  rw [List.filter_append, hall, List.getLast?_append]
  cases more.getLast? with
  | none => rfl
  | some word => rfl

/-- The map changes at one key, and only that key is spoken of: the words still tell the map if and
    only if the last of them does. -/
theorem follow_append_iff {listed listed' : Map K V} (h : follow words = listed)
    (hmore : ∀ word ∈ more, word.1 = k) (helsewhere : ∀ k', k' ≠ k → listed' k' = listed k') :
    follow (words ++ more) = listed' ↔
      more.getLast?.elim (listed k) Prod.snd = listed' k := by
  rw [← h, ← follow_append_self hmore]
  constructor
  · intro heq
    rw [heq]
  · intro heq
    funext k'
    by_cases hk : k' = k
    · rw [hk, heq]
    · rw [follow_append_of_ne hmore hk, h, helsewhere k' hk]

end Follow

end Algiz.Lib
