/-
  Maps of bounded size that forget their oldest entries.

  `order` lists the keys in the order they were entered. A key that is there already is not entered
  again; a new one goes to the end, and keys are taken off the front while there are too many. The
  order and the map stay in step (`InStep.enter`), what was entered last is found
  (`enter_self`), and the order is the end of the list of all keys that were ever entered
  (`enter_order`).
-/
import Mathlib.Data.List.DropRight
import Mathlib.Data.Set.Card
import Algiz.Lib.Map

namespace Algiz.Lib

/-- A map, and its keys in the order they were entered. -/
structure Fifo (K V : Type*) where
  entries : Map K V
  order : List K

namespace Fifo

variable {K V : Type*} [DecidableEq K]

/-- The oldest keys are dropped until there are no more than `n`. -/
def trim (n : Nat) (entries : Map K V) : List K → Fifo K V
  | [] => ⟨entries, []⟩
  | k :: order =>
    if n < order.length + 1 then trim n (entries.erase k) order else ⟨entries, k :: order⟩

/-- A key that is not there is entered. -/
def enter (n : Nat) (f : Fifo K V) (k : K) (v : V) : Fifo K V :=
  if (f.entries k).isSome then f else trim n (f.entries.set k v) (f.order ++ [k])

/-- The order lists every key of the map once, and there are no more than `n`. -/
structure InStep (n : Nat) (f : Fifo K V) : Prop where
  nodup : f.order.Nodup
  mem_iff : ∀ k, k ∈ f.order ↔ f.entries k ≠ none
  length_le : f.order.length ≤ n

/-! ## Dropping the oldest -/

variable {n : Nat} {entries : Map K V} {order : List K} {k : K}

omit [DecidableEq K] in
/-- The first key is not among the last ones. -/
theorem rtake_cons (h : n ≤ order.length) (k : K) : (k :: order).rtake n = order.rtake n := by
  unfold List.rtake
  rw [List.length_cons, Nat.sub_add_comm h, List.drop_succ_cons]

/-- What is left are the last keys. -/
theorem trim_order : (trim n entries order).order = order.rtake n := by
  induction order generalizing entries with
  | nil => rw [trim, List.rtake_nil]
  | cons k order ih =>
    unfold trim
    split
    · rename_i hmany
      rw [ih, rtake_cons (Nat.le_of_lt_succ hmany)]
    · rename_i hfew
      unfold List.rtake
      rw [List.length_cons, Nat.sub_eq_zero_of_le (not_lt.mp hfew), List.drop_zero]

omit [DecidableEq K] in
theorem length_rtake_le (order : List K) : (order.rtake n).length ≤ n := by
  unfold List.rtake
  rw [List.length_drop]
  omega

/-- A key that is dropped is erased. -/
theorem trim_inStep (hnodup : order.Nodup) (hmem : ∀ k, k ∈ order ↔ entries k ≠ none) :
    InStep n (trim n entries order) := by
  have hkeys : (trim n entries order).order.Nodup ∧
      ∀ k, k ∈ (trim n entries order).order ↔ (trim n entries order).entries k ≠ none := by
    induction order generalizing entries with
    | nil => exact ⟨hnodup, hmem⟩
    | cons k order ih =>
      unfold trim
      split
      · obtain ⟨hk, hrest⟩ := List.nodup_cons.mp hnodup
        refine ih hrest fun k' => ?_
        obtain rfl | hne := eq_or_ne k' k
        · rw [Map.erase_self]
          exact iff_of_false hk (not_not.mpr rfl)
        · rw [Map.erase_of_ne entries hne, ← hmem, List.mem_cons, or_iff_right hne]
      · exact ⟨hnodup, hmem⟩
  refine ⟨hkeys.1, hkeys.2, ?_⟩
  rw [trim_order]
  exact length_rtake_le order

/-- A key that is not dropped has what it had. -/
theorem trim_entries (hnodup : order.Nodup) (hk : k ∈ order.rtake n) :
    (trim n entries order).entries k = entries k := by
  induction order generalizing entries with
  | nil => rfl
  | cons k' order ih =>
    unfold trim
    split
    · rename_i hmany
      have hdrop : (k' :: order).rtake n = order.rtake n := rtake_cons (Nat.le_of_lt_succ hmany) k'
      rw [hdrop] at hk
      obtain ⟨hk', hrest⟩ := List.nodup_cons.mp hnodup
      rw [ih hrest hk]
      refine Map.erase_of_ne entries fun heq => ?_
      exact hk' (heq ▸ List.mem_of_mem_drop hk)
    · rfl

/-! ## Entering -/

variable {f : Fifo K V} {v : V}

theorem enter_of_some (h : f.entries k ≠ none) : f.enter n k v = f :=
  if_pos (Option.isSome_iff_ne_none.mpr h)

theorem enter_of_none (h : f.entries k = none) :
    f.enter n k v = trim n (f.entries.set k v) (f.order ++ [k]) :=
  if_neg (by rw [h]; exact Bool.false_ne_true)

namespace InStep

omit [DecidableEq K] in
/-- A key that is not there is not listed either. -/
theorem nodup_concat (h : f.InStep n) (hnone : f.entries k = none) : (f.order ++ [k]).Nodup := by
  have hk : k ∉ f.order := by
    rw [h.mem_iff, not_not]
    exact hnone
  rw [List.nodup_append]
  refine ⟨h.nodup, List.nodup_singleton k, ?_⟩
  intro k' hk' k'' hk''
  rw [List.mem_singleton.mp hk'']
  exact fun heq => hk (heq ▸ hk')

/-- The order and the map stay in step. -/
theorem enter (h : f.InStep n) (k : K) (v : V) : (f.enter n k v).InStep n := by
  by_cases hnone : f.entries k = none
  · rw [enter_of_none hnone]
    refine trim_inStep (h.nodup_concat hnone) fun k' => ?_
    rw [List.mem_append, List.mem_singleton, h.mem_iff]
    obtain rfl | hne := eq_or_ne k' k
    · rw [Map.set_self]
      exact iff_of_true (.inr rfl) (Option.some_ne_none v)
    · rw [Map.set_of_ne f.entries hne, or_iff_left hne]
  · rwa [enter_of_some hnone]

/-- The key that was entered last is there, with what it had or what it was given. -/
theorem enter_self (h : f.InStep n) (hn : n ≠ 0) (k : K) (v : V) :
    (f.enter n k v).entries k = some ((f.entries k).getD v) := by
  obtain ⟨n, rfl⟩ := Nat.exists_eq_succ_of_ne_zero hn
  by_cases hnone : f.entries k = none
  · have hmem : k ∈ (f.order ++ [k]).rtake (n + 1) := by
      rw [List.rtake_concat_succ]
      exact List.mem_concat_self
    rw [enter_of_none hnone, trim_entries (h.nodup_concat hnone) hmem, Map.set_self, hnone]
    rfl
  · rw [enter_of_some hnone]
    obtain ⟨w, hw⟩ := Option.ne_none_iff_exists'.mp hnone
    rw [hw]
    rfl

/-- There are no more entries than that. -/
theorem encard_le (h : f.InStep n) : {k | f.entries k ≠ none}.encard ≤ n := by
  have hset : {k | f.entries k ≠ none} = (f.order.toFinset : Set K) := by
    ext k
    rw [Finset.mem_coe, List.mem_toFinset]
    exact (h.mem_iff k).symm
  rw [hset, Set.encard_coe_eq_coe_finsetCard]
  exact_mod_cast (List.toFinset_card_le f.order).trans h.length_le

end InStep

omit [DecidableEq K] in
theorem rtake_rtake_concat (log : List K) (k : K) :
    (log.rtake n ++ [k]).rtake n = (log ++ [k]).rtake n := by
  cases n with
  | zero => rw [List.rtake_zero, List.rtake_zero]
  | succ n =>
    have hrest : (log.rtake (n + 1)).rtake n = log.rtake n := by
      unfold List.rtake
      rw [List.drop_drop, List.length_drop]
      congr 1
      omega
    rw [List.rtake_concat_succ, List.rtake_concat_succ, hrest]

/-- The order is the end of the list of all keys that were entered, and stays that. -/
theorem enter_order {log : List K} (h : f.order = log.rtake n) :
    (f.enter n k v).order = (if f.entries k = none then log ++ [k] else log).rtake n := by
  by_cases hnone : f.entries k = none
  · rw [enter_of_none hnone, trim_order, h, if_pos hnone, rtake_rtake_concat]
  · rw [enter_of_some hnone, if_neg hnone, h]

end Fifo

end Algiz.Lib
