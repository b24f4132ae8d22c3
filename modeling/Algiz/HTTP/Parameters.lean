/-
  The parameters of a request: how they are read from its target, and how
  `Request::pathWithParameters` writes them again.

  `getParameters` reads back what was written with `escapeURL` (`getParameters_escapeURL`).
  `pathWithParameters` writes keys and values as they are. Reading them again gives the same
  parameters exactly when each of them is `Preserved`: a weight of the parameters, in which `%`,
  `&`, `+` and an `=` within a key count more than other bytes, falls otherwise.
-/
import Algiz.HTTP.Request
import Algiz.Unescape

namespace Algiz.HTTP

open Lib

/-! ## Reading parameters -/

/-- What a piece between ampersands says: nothing if it is empty. -/
def parameter (ind : Indeterminate) (pair : Bytes) : Option (Bytes × Bytes) :=
  if pair.isEmpty then none
  else match find pair 61 with
    | none => some (unescape ind pair true, [])
    | some equals => some (unescape ind (pair.take equals) true,
        unescape ind (pair.drop (equals + 1)) true)

/-- What a string of pairs says, in its order. -/
def pairs (ind : Indeterminate) (text : Bytes) : List (Bytes × Bytes) :=
  (fields 38 text).filterMap (parameter ind)

theorem addParameter_eq (ind : Indeterminate) (parameters : StringMap) (pair : Bytes) :
    addParameter ind parameters pair =
      (parameter ind pair).elim parameters fun entry => parameters.insert entry.1 entry.2 := by
  unfold addParameter parameter
  split_ifs with hempty
  · rfl
  · cases find pair 61 with
    | none => rfl
    | some equals => rfl

/-- The parameters of a string of pairs are what the pairs say. -/
theorem pairParameters_eq (ind : Indeterminate) (text : Bytes) :
    pairParameters ind text = Std.ExtTreeMap.ofList (pairs ind text) compare := by
  have hfold : ∀ (pieces : List Bytes) (parameters : StringMap),
      pieces.foldl (addParameter ind) parameters =
        (pieces.filterMap (parameter ind)).foldl
          (fun parameters entry => parameters.insert entry.1 entry.2) parameters := by
    intro pieces
    induction pieces with
    | nil => exact fun _ => rfl
    | cons piece pieces ih =>
      intro parameters
      rw [List.foldl_cons, addParameter_eq, ih, List.filterMap_cons]
      cases parameter ind piece with
      | none => rfl
      | some entry => rfl
  rw [Std.ExtTreeMap.ofList_eq_foldl]
  exact hfold (fields 38 text) ∅

/-- What the parameters hold, one of the pairs says. -/
theorem mem_of_getElem?_ofList {entries : List (Bytes × Bytes)} {k v : Bytes}
    (h : (Std.ExtTreeMap.ofList entries compare)[k]? = some v) : (k, v) ∈ entries := by
  rw [Std.ExtTreeMap.ofList_eq_foldl] at h
  induction entries using List.reverseRecOn with
  | nil => exact nomatch Std.ExtTreeMap.getElem?_empty.symm.trans h
  | append_singleton entries entry ih =>
    rw [List.foldl_append, List.foldl_cons, List.foldl_nil, Std.ExtTreeMap.getElem?_insert] at h
    split_ifs at h with hkey
    · have hname : entry.1 = k := Std.LawfulEqCmp.eq_of_compare hkey
      have hentry : entry = (k, v) := by rw [← hname, ← Option.some.inj h]
      exact List.mem_append_right entries (hentry ▸ List.mem_singleton_self entry)
    · exact List.mem_append_left [entry] (ih h)

/-- A map is what its entries say, in any order. -/
theorem ofList_eq {m : StringMap} {entries : List (Bytes × Bytes)} (h : entries.Perm m.toList) :
    Std.ExtTreeMap.ofList entries compare = m := by
  have hdistinct : entries.Pairwise fun a b => ¬ compare a.1 b.1 = .eq := by
    refine h.symm.pairwise Std.ExtTreeMap.distinct_keys_toList ?_
    intro a b hab hba
    exact hab (Std.OrientedCmp.eq_symm hba)
  apply Std.ExtTreeMap.ext_getElem?
  intro k
  cases hk : m[k]? with
  | some v =>
    have hmem : (k, v) ∈ entries :=
      h.mem_iff.mpr (Std.ExtTreeMap.mem_toList_iff_getElem?_eq_some.mpr hk)
    refine Std.ExtTreeMap.getElem?_ofList_of_mem ?_ hdistinct hmem
    exact Std.ReflCmp.compare_self
  | none =>
    cases hof : (Std.ExtTreeMap.ofList entries compare)[k]? with
    | none => rfl
    | some v =>
      have hmem := h.mem_iff.mp (mem_of_getElem?_ofList hof)
      rw [Std.ExtTreeMap.mem_toList_iff_getElem?_eq_some, hk] at hmem
      exact nomatch hmem

/-- A pair with an `=` behind its key. -/
theorem parameter_equals (ind : Indeterminate) {key : Bytes} (h : 61 ∉ key) (value : Bytes) :
    parameter ind (key ++ 61 :: value) = some (unescape ind key true, unescape ind value true) := by
  have hsome : (key ++ 61 :: value).isEmpty = false := by cases key <;> rfl
  have hdrop : (key ++ 61 :: value).drop (key.length + 1) = value := by simp
  unfold parameter
  rw [hsome, if_neg Bool.noConfusion, find_append_cons h]
  dsimp only
  rw [List.take_left, hdrop]

/-- A pair without an `=`. -/
theorem parameter_key (ind : Indeterminate) {key : Bytes} (h : 61 ∉ key) (hne : key ≠ []) :
    parameter ind key = some (unescape ind key true, []) := by
  have hsome : key.isEmpty = false := by rwa [List.isEmpty_eq_false_iff]
  unfold parameter
  rw [hsome, if_neg Bool.noConfusion, find_eq_none.mpr h]

/-- Pieces joined by ampersands say what each of them says. -/
theorem pairs_intercalate (ind : Indeterminate) (parts : List Bytes) :
    pairs ind ([38].intercalate parts) = parts.flatMap (pairs ind) := by
  cases parts with
  | nil => rfl
  | cons part parts =>
    unfold pairs
    rw [fields_intercalate 38 (List.cons_ne_nil part parts), List.filterMap_flatMap]

theorem pairs_of_not_mem (ind : Indeterminate) {text : Bytes} (h : 38 ∉ text) :
    pairs ind text = (parameter ind text).toList := by
  unfold pairs
  rw [fields_of_not_mem 38 h]
  cases hparameter : parameter ind text with
  | none => rw [List.filterMap_cons_none hparameter]; rfl
  | some entry => rw [List.filterMap_cons_some hparameter]; rfl

/-- The parameters behind the first question mark. -/
theorem getParameters_question (ind : Indeterminate) {path : Bytes} (h : 63 ∉ path)
    (text : Bytes) :
    getParameters ind (path ++ 63 :: text) true =
      Std.ExtTreeMap.ofList (pairs ind text) compare := by
  have hdrop : (path ++ 63 :: text).drop (path.length + 1) = text := by simp
  unfold getParameters
  rw [if_pos rfl, find_append_cons h]
  dsimp only
  rw [hdrop, pairParameters_eq]

/-! ## Escaped parameters -/

/-- `getParameters` reads a map that was written with `escapeURL`, in any order, and `unescape`
    undoes `escapeURL`. -/
theorem getParameters_escapeURL (ind : Indeterminate) (m : StringMap)
    (entries : List (Bytes × Bytes)) (h : entries.Perm m.toList) :
    getParameters ind (ascii "/p?" ++ [38].intercalate
        (entries.map fun entry => escapeURL entry.1 ++ 61 :: escapeURL entry.2)) true = m ∧
      ∀ view, unescape ind (escapeURL view) true = view := by
  refine ⟨?_, unescape_escapeURL ind⟩
  have hentry : ∀ entry ∈ entries,
      pairs ind (escapeURL entry.1 ++ 61 :: escapeURL entry.2) = [entry] := by
    intro entry _
    obtain ⟨hkeyAmp, hkeyEquals⟩ := not_mem_escapeURL entry.1
    have hvalueAmp := (not_mem_escapeURL entry.2).1
    have hamp : 38 ∉ escapeURL entry.1 ++ 61 :: escapeURL entry.2 := by
      rw [List.mem_append, List.mem_cons, not_or, not_or]
      exact ⟨hkeyAmp, by decide, hvalueAmp⟩
    rw [pairs_of_not_mem ind hamp, parameter_equals ind hkeyEquals, unescape_escapeURL,
      unescape_escapeURL]
    rfl
  have hpath : ascii "/p?" = ascii "/p" ++ [63] := rfl
  rw [hpath, List.append_assoc, List.singleton_append, getParameters_question ind (by decide),
    pairs_intercalate, List.flatMap_map, List.flatMap_congr hentry, List.flatMap_singleton',
    ofList_eq h]

theorem getParameters_escapeURL_pair :
    getParameters {} (ascii "/p?%26=+") true =
      (∅ : StringMap).insert (ascii "&") (ascii " ") :=
  (getParameters_escapeURL {} ((∅ : StringMap).insert (ascii "&") (ascii " "))
    [(ascii "&", ascii " ")] (List.Perm.of_eq rfl)).1

/-! ## Writing parameters -/

/-- The body of the loop in `pathWithParameters`, on `out` and `first`. -/
def Request.appendParameter : Bytes × Bool → Bytes × Bytes → Bytes × Bool
  | (out, first), (key, value) =>
    let out := (if first then out ++ [63] else out ++ [38]) ++ key
    (if value.isEmpty then out else out ++ [61] ++ value, false)

/-- `Request::pathWithParameters` -/
def Request.pathWithParameters (r : Request) : Bytes :=
  (r.parameters.toList.foldl appendParameter (r.path, true)).1

/-- A parameter as it is written. -/
def parameterText (entry : Bytes × Bytes) : Bytes :=
  entry.1 ++ if entry.2.isEmpty then [] else 61 :: entry.2

theorem Request.appendParameter_eq (out : Bytes) (first : Bool) (entry : Bytes × Bytes) :
    appendParameter (out, first) entry =
      (out ++ (if first then 63 else 38) :: parameterText entry, false) := by
  obtain ⟨key, value⟩ := entry
  unfold appendParameter parameterText
  cases first <;> cases value <;> simp

theorem Request.appendParameters_eq (entries : List (Bytes × Bytes)) (out : Bytes) :
    (entries.foldl appendParameter (out, false)).1 =
      out ++ entries.flatMap fun entry => 38 :: parameterText entry := by
  induction entries generalizing out with
  | nil => simp
  | cons entry entries ih =>
    rw [List.foldl_cons, appendParameter_eq, ih, List.flatMap_cons, List.append_assoc]
    rfl

theorem intercalate_cons (part : Bytes) (parts : List Bytes) :
    [38].intercalate (part :: parts) = part ++ parts.flatMap (38 :: ·) := by
  induction parts generalizing part with
  | nil => simp
  | cons next parts ih =>
    rw [List.intercalate_cons_cons, ih, List.flatMap_cons, List.append_assoc]
    rfl

/-- The path, and the parameters behind a question mark if there are any. -/
theorem Request.pathWithParameters_eq (r : Request) :
    r.pathWithParameters = r.path ++
      if r.parameters.toList = [] then []
      else 63 :: [38].intercalate (r.parameters.toList.map parameterText) := by
  unfold pathWithParameters
  cases r.parameters.toList with
  | nil => simp
  | cons entry entries =>
    rw [List.foldl_cons, appendParameter_eq, appendParameters_eq, if_neg (List.cons_ne_nil _ _),
      List.map_cons, intercalate_cons, List.flatMap_map, List.append_assoc]
    rfl

/-! ## Weights -/

/-- The weight of a byte in a value. -/
def weight (b : UInt8) : Nat :=
  if b = 37 then 4 else if b = 38 then 3 else if b = 43 then 2 else 1

/-- The weight of a byte in a key. -/
def keyWeight (b : UInt8) : Nat := weight b + if b = 61 then 1 else 0

/-- What a string weighs. -/
def size (weight : UInt8 → Nat) (text : Bytes) : Nat := (text.map weight).sum

@[simp] theorem size_nil (weight : UInt8 → Nat) : size weight [] = 0 := rfl

@[simp] theorem size_cons (weight : UInt8 → Nat) (b : UInt8) (text : Bytes) :
    size weight (b :: text) = weight b + size weight text := rfl

@[simp] theorem size_append (weight : UInt8 → Nat) (text text' : Bytes) :
    size weight (text ++ text') = size weight text + size weight text' := by
  unfold size
  rw [List.map_append, List.sum_append]

theorem size_drop_le (weight : UInt8 → Nat) (text : Bytes) (n : Nat) :
    size weight (text.drop n) ≤ size weight text := by
  conv => rhs; rw [← List.take_append_drop n text, size_append]
  exact Nat.le_add_left _ _

/-- The weights for which unescaping makes every string lighter that it changes. -/
structure Falls (weight : UInt8 → Nat) : Prop where
  pos : ∀ b, 0 < weight b
  mark : ∀ b, b ≠ 37 → weight b < weight 37
  plus : weight 32 < weight 43

theorem falls_weight : Falls weight where
  pos b := by
    unfold weight
    split_ifs <;> decide
  mark b hb := by
    have hmark : weight 37 = 4 := rfl
    rw [hmark]
    unfold weight
    rw [if_neg hb]
    split_ifs <;> decide
  plus := by decide

theorem falls_keyWeight : Falls keyWeight where
  pos b := Nat.add_pos_left (falls_weight.pos b) _
  mark b hb := by
    have hweight : b = 61 → weight b = 1 := by
      rintro rfl
      rfl
    have hmark : keyWeight 37 = weight 37 := rfl
    have hlt := falls_weight.mark b hb
    unfold keyWeight at hmark ⊢
    rw [hmark]
    split_ifs with hequals
    · rw [hweight hequals]
      decide
    · exact hlt
  plus := by decide

/-- A string that is the other or weighs less. -/
def Lighter (weight : UInt8 → Nat) (out text : Bytes) : Prop :=
  out = text ∨ size weight out < size weight text

theorem Lighter.le {weight : UInt8 → Nat} {out text : Bytes} (h : Lighter weight out text) :
    size weight out ≤ size weight text := by
  rcases h with rfl | h
  · exact le_rfl
  · exact h.le

theorem Lighter.cons {weight : UInt8 → Nat} {out text : Bytes} (h : Lighter weight out text)
    {b c : UInt8} (hb : b = c ∨ weight b < weight c) : Lighter weight (b :: out) (c :: text) := by
  have hle := h.le
  unfold Lighter
  rw [size_cons, size_cons]
  rcases hb with rfl | hb
  · rcases h with rfl | h
    · exact Or.inl rfl
    · exact Or.inr (by omega)
  · exact Or.inr (by omega)

/-- The loop of `unescape` leaves what is left of the string as it is, or makes it lighter. -/
theorem unescapeReading_lighter (ind : Indeterminate) (plusToSpace : Bool) {weight : UInt8 → Nat}
    (h : Falls weight) (path : Bytes) (fuel i : Nat) (hfuel : path.length ≤ fuel + i) :
    Lighter weight (unescapeReading ind plusToSpace path fuel i).1 (path.drop i) := by
  induction fuel generalizing i with
  | zero =>
    rw [List.drop_of_length_le (by omega)]
    exact Or.inl rfl
  | succ fuel ih =>
    by_cases hi : i < path.length
    · have hnext := ih (i + 1) (by omega)
      have hbehind := ih (i + 3) (by omega)
      rw [List.drop_eq_getElem_cons hi]
      obtain ⟨-, hnow⟩ | ⟨hmark, -, hnow⟩ | ⟨hmark, -, x, -, hnow⟩ | ⟨hmark, -, -, hnow⟩ :=
        unescapeReading_cases ind plusToSpace fuel (List.getElem?_eq_getElem hi)
      · rw [hnow]
        refine hnext.cons ?_
        unfold percent
        dsimp only
        split_ifs with hplus
        · rw [Bool.and_eq_true, beq_iff_eq] at hplus
          exact Or.inr (hplus.2 ▸ h.plus)
        · exact Or.inl rfl
      · rw [hnow, hmark]
        exact hnext.cons (Or.inl rfl)
      · have hx : x = 37 ∨ weight x < weight 37 := or_iff_not_imp_left.mpr (h.mark x)
        rw [hnow, hmark]
        by_cases hroom : i + 1 < path.length
        · -- the bytes behind the `%` are gone
          have hpos := h.pos path[i + 1]
          have hle := hbehind.le
          have hsub : size weight (path.drop (i + 3)) ≤ size weight (path.drop (i + 1 + 1)) := by
            have hdrop : path.drop (i + 3) = (path.drop (i + 1 + 1)).drop 1 := by
              rw [List.drop_drop]
            rw [hdrop]
            exact size_drop_le weight _ 1
          rw [List.drop_eq_getElem_cons hroom]
          refine Or.inr ?_
          rw [size_cons, size_cons, size_cons]
          rcases hx with rfl | hx
          · omega
          · omega
        · have hend : path.drop (i + 1) = path.drop (i + 3) := by
            rw [List.drop_of_length_le (by omega), List.drop_of_length_le (by omega)]
          rw [hend]
          exact hbehind.cons hx
      · rw [hnow, hmark]
        exact hnext.cons (Or.inl rfl)
    · have hnone : path[i]? = none := List.getElem?_eq_none_iff.mpr (by omega)
      rw [List.drop_of_length_le (by omega)]
      exact Or.inl (by rw [unescapeReading, hnone])

/-- Unescaping leaves a string as it is, or makes it lighter. -/
theorem unescape_lighter (ind : Indeterminate) {weight : UInt8 → Nat} (h : Falls weight)
    (path : Bytes) (plusToSpace : Bool) : Lighter weight (unescape ind path plusToSpace) path := by
  unfold unescape
  split_ifs
  · exact Or.inl rfl
  · have hall := unescapeReading_lighter ind plusToSpace h path path.length 0 le_rfl
    rwa [unescapeReading_fst] at hall

/-- The weight of a parameter. -/
def entryWeight (entry : Bytes × Bytes) : Nat := 1 + size keyWeight entry.1 + size weight entry.2

/-- What a list of parameters weighs. -/
def entriesWeight (entries : List (Bytes × Bytes)) : Nat := (entries.map entryWeight).sum

/-- Without an `=` a key weighs what a value weighs. -/
theorem size_keyWeight {text : Bytes} (h : 61 ∉ text) : size keyWeight text = size weight text := by
  unfold size
  refine congrArg List.sum (List.map_congr_left ?_)
  intro b hb
  have hne : b ≠ 61 := fun heq => h (heq ▸ hb)
  unfold keyWeight
  rw [if_neg hne, Nat.add_zero]

theorem size_le_keyWeight (text : Bytes) : size weight text ≤ size keyWeight text := by
  refine List.sum_le_sum ?_
  intro b _
  exact Nat.le_add_right _ _

/-- With an `=` a key weighs more. -/
theorem size_lt_keyWeight {text : Bytes} (h : 61 ∈ text) :
    size weight text < size keyWeight text := by
  obtain ⟨front, back, rfl⟩ := List.append_of_mem h
  have hfront := size_le_keyWeight front
  have hback := size_le_keyWeight back
  have hequals : weight 61 < keyWeight 61 := by decide
  rw [size_append, size_append, size_cons, size_cons]
  omega

/-- The parameters that come back as they are: neither key nor value has an ampersand, the key
    has no `=`, not both are empty, and there is nothing to unescape in them. -/
structure Preserved (ind : Indeterminate) (key value : Bytes) : Prop where
  keyAmpersand : 38 ∉ key
  keyEquals : 61 ∉ key
  valueAmpersand : 38 ∉ value
  nonempty : key ≠ [] ∨ value ≠ []
  keyUnescaped : unescape ind key true = key
  valueUnescaped : unescape ind value true = value

/-- A pair with an `=` weighs no more as a parameter than as it is written. -/
theorem weight_parameter_equals (ind : Indeterminate) {key : Bytes} (h : 61 ∉ key)
    (value : Bytes) :
    entryWeight (unescape ind key true, unescape ind value true) ≤
      size weight (key ++ 61 :: value) := by
  have hkey := (unescape_lighter ind falls_keyWeight key true).le
  have hvalue := (unescape_lighter ind falls_weight value true).le
  have hequals : weight 61 = 1 := rfl
  rw [size_keyWeight h] at hkey
  unfold entryWeight
  rw [size_append, size_cons]
  dsimp only
  omega

/-- A piece between ampersands weighs at most one more as a parameter. -/
theorem weight_parameter_le (ind : Indeterminate) (piece : Bytes) :
    entriesWeight (parameter ind piece).toList ≤ 1 + size weight piece := by
  by_cases hempty : piece = []
  · rw [hempty]
    exact Nat.zero_le _
  · by_cases hequals : 61 ∈ piece
    · obtain ⟨key, value, rfl, hkey⟩ := List.eq_append_cons_of_mem hequals
      have := weight_parameter_equals ind hkey value
      rw [parameter_equals ind hkey]
      unfold entriesWeight
      simp only [Option.toList_some, List.map_cons, List.map_nil, List.sum_cons, List.sum_nil]
      omega
    · have hkey := (unescape_lighter ind falls_keyWeight piece true).le
      rw [size_keyWeight hequals] at hkey
      rw [parameter_key ind hequals hempty]
      unfold entriesWeight entryWeight
      simp only [Option.toList_some, List.map_cons, List.map_nil, List.sum_cons, List.sum_nil,
        size_nil]
      omega

/-- A string with an ampersand weighs more than the parameters in it. -/
theorem weight_pairs_lt (ind : Indeterminate) {text : Bytes} (h : 38 ∈ text) :
    entriesWeight (pairs ind text) < size weight text := by
  have hle : ∀ pieces : List Bytes, entriesWeight (pieces.filterMap (parameter ind)) ≤
      (pieces.map fun piece => size weight piece).sum + pieces.length := by
    intro pieces
    induction pieces with
    | nil => exact Nat.zero_le _
    | cons piece pieces ih =>
      have hpiece := weight_parameter_le ind piece
      have hcons : entriesWeight ((piece :: pieces).filterMap (parameter ind)) =
          entriesWeight (parameter ind piece).toList +
            entriesWeight (pieces.filterMap (parameter ind)) := by
        cases hparameter : parameter ind piece with
        | none =>
          rw [List.filterMap_cons_none hparameter]
          simp [entriesWeight]
        | some entry =>
          rw [List.filterMap_cons_some hparameter]
          simp [entriesWeight]
      rw [hcons, List.map_cons, List.sum_cons, List.length_cons]
      omega
  obtain ⟨front, back, rfl⟩ := List.append_of_mem h
  have hfields : 2 ≤ (fields 38 (front ++ 38 :: back)).length := by
    have hfront : 0 < (fields 38 front).length := by simp [fields]
    have hback : 0 < (fields 38 back).length := by simp [fields]
    rw [fields_append_cons, List.length_append]
    omega
  have hsum : ((fields 38 (front ++ 38 :: back)).map fun piece => size weight piece).sum +
      3 * (fields 38 (front ++ 38 :: back)).length = size weight (front ++ 38 :: back) + 3 :=
    sum_fields 38 weight (front ++ 38 :: back)
  have hpairs := hle (fields 38 (front ++ 38 :: back))
  unfold pairs
  omega

theorem size_parameterText (entry : Bytes × Bytes) :
    size weight (parameterText entry) ≤ 1 + size weight entry.1 + size weight entry.2 := by
  have hequals : weight 61 = 1 := rfl
  unfold parameterText
  rw [size_append]
  split_ifs
  · rw [size_nil]
    omega
  · rw [size_cons]
    omega

/-- A key with an `=` falls apart, so that what is read weighs less. -/
theorem weight_key_equals (ind : Indeterminate) {entry : Bytes × Bytes} (h : 61 ∈ entry.1)
    (hampersand : 38 ∉ parameterText entry) :
    entriesWeight (pairs ind (parameterText entry)) < entryWeight entry := by
  obtain ⟨key, value⟩ := entry
  obtain ⟨front, back, rfl, hfront⟩ := List.eq_append_cons_of_mem h
  have hheavier := size_lt_keyWeight h
  have htext : parameterText (front ++ 61 :: back, value) =
      front ++ 61 :: (back ++ if value.isEmpty then [] else 61 :: value) := by
    unfold parameterText
    rw [List.append_assoc, List.cons_append]
  have hweight := weight_parameter_equals ind hfront
    (back ++ if value.isEmpty then [] else 61 :: value)
  have hsize := size_parameterText (front ++ 61 :: back, value)
  rw [← htext] at hweight
  rw [pairs_of_not_mem ind hampersand, htext, parameter_equals ind hfront]
  unfold entriesWeight
  rw [Option.toList_some, List.map_singleton, List.sum_singleton]
  have hentry : entryWeight (front ++ 61 :: back, value) =
    1 + size keyWeight (front ++ 61 :: back) + size weight value := rfl
  dsimp only at hheavier hsize
  omega

/-- A parameter without separators in it is read as its key and value unescaped. -/
theorem pairs_parameterText (ind : Indeterminate) {entry : Bytes × Bytes} (hkey : 61 ∉ entry.1)
    (hampersand : 38 ∉ parameterText entry) (hne : entry.1 ≠ [] ∨ entry.2 ≠ []) :
    pairs ind (parameterText entry) = [(unescape ind entry.1 true, unescape ind entry.2 true)] := by
  obtain ⟨key, value⟩ := entry
  rw [pairs_of_not_mem ind hampersand]
  unfold parameterText
  cases value with
  | nil =>
    have hempty : unescape ind [] true = [] := rfl
    have hkeyNe : key ≠ [] := hne.resolve_right fun h => h rfl
    dsimp only
    rw [if_pos List.isEmpty_nil, List.append_nil, parameter_key ind hkey hkeyNe, hempty]
    rfl
  | cons b value =>
    dsimp only
    rw [if_neg (by rw [List.isEmpty_cons]; exact Bool.noConfusion), parameter_equals ind hkey]
    rfl

/-- A parameter is preserved, or what is read of it weighs less. -/
theorem preserved_or_lt (ind : Indeterminate) (key value : Bytes) :
    Preserved ind key value ∨
      entriesWeight (pairs ind (parameterText (key, value))) < entryWeight (key, value) := by
  have hentry : entryWeight (key, value) = 1 + size keyWeight key + size weight value := rfl
  by_cases hampersand : 38 ∈ parameterText (key, value)
  · have hpairs := weight_pairs_lt ind hampersand
    have hsize := size_parameterText (key, value)
    have hheavier := size_le_keyWeight key
    dsimp only at hsize
    exact Or.inr (by omega)
  · by_cases hkey : 61 ∈ key
    · exact Or.inr (weight_key_equals ind hkey hampersand)
    · by_cases hne : key ≠ [] ∨ value ≠ []
      · rw [pairs_parameterText ind hkey hampersand hne]
        rcases unescape_lighter ind falls_keyWeight key true with hkeySame | hkeyLess
        · rcases unescape_lighter ind falls_weight value true with hvalueSame | hvalueLess
          · refine Or.inl ⟨?_, hkey, ?_, hne, hkeySame, hvalueSame⟩
            · exact fun hin => hampersand (List.mem_append_left _ hin)
            · intro hin
              refine hampersand (List.mem_append_right _ ?_)
              have hsome : value.isEmpty = false := by cases value <;> [exact nomatch hin; rfl]
              dsimp only
              rw [hsome, if_neg Bool.noConfusion]
              exact List.mem_cons_of_mem 61 hin
          · have hkeyLe : size keyWeight (unescape ind key true) ≤ size keyWeight key :=
              (unescape_lighter ind falls_keyWeight key true).le
            refine Or.inr ?_
            unfold entriesWeight entryWeight
            simp only [List.map_cons, List.map_nil, List.sum_cons, List.sum_nil]
            omega
        · have hvalueLe := (unescape_lighter ind falls_weight value true).le
          refine Or.inr ?_
          unfold entriesWeight entryWeight
          simp only [List.map_cons, List.map_nil, List.sum_cons, List.sum_nil]
          omega
      · have hboth : key = [] ∧ value = [] := by
          rwa [not_or, not_not, not_not] at hne
        have hnone : pairs ind (parameterText ([], [])) = [] := rfl
        rw [hboth.1, hboth.2, hnone]
        exact Or.inr (by decide)

/-- What is preserved holds no ampersand as it is written, and is read again. -/
theorem Preserved.pairs_eq {ind : Indeterminate} {key value : Bytes}
    (h : Preserved ind key value) : pairs ind (parameterText (key, value)) = [(key, value)] := by
  have hampersand : 38 ∉ parameterText (key, value) := by
    unfold parameterText
    rw [List.mem_append, not_or]
    refine ⟨h.keyAmpersand, ?_⟩
    split_ifs
    · exact List.not_mem_nil
    · rw [List.mem_cons, not_or]
      exact ⟨by decide, h.valueAmpersand⟩
  rw [pairs_parameterText ind h.keyEquals hampersand h.nonempty]
  dsimp only
  rw [h.keyUnescaped, h.valueUnescaped]

/-- All the parameters come back exactly when each of them is preserved. -/
theorem ofList_pairs_iff (ind : Indeterminate) (m : StringMap) :
    Std.ExtTreeMap.ofList (m.toList.flatMap fun entry => pairs ind (parameterText entry)) compare =
        m ↔ ∀ entry ∈ m.toList, Preserved ind entry.1 entry.2 := by
  constructor
  · intro h
    have hsub : m.toList ⊆ m.toList.flatMap fun entry => pairs ind (parameterText entry) := by
      rintro ⟨key, value⟩ hentry
      rw [Std.ExtTreeMap.mem_toList_iff_getElem?_eq_some, ← h] at hentry
      exact mem_of_getElem?_ofList hentry
    have hnodup : m.toList.Nodup := by
      refine Std.ExtTreeMap.distinct_keys_toList.imp ?_
      rintro a b hab rfl
      exact hab Std.ReflCmp.compare_self
    have hle : entriesWeight m.toList ≤
        entriesWeight (m.toList.flatMap fun entry => pairs ind (parameterText entry)) := by
      obtain ⟨entries, hperm, hsublist⟩ := hnodup.subperm hsub
      unfold entriesWeight
      rw [← (hperm.map entryWeight).sum_eq]
      exact (hsublist.map entryWeight).sum_le_sum fun _ _ => Nat.zero_le _
    have hflat : entriesWeight (m.toList.flatMap fun entry => pairs ind (parameterText entry)) =
        (m.toList.map fun entry => entriesWeight (pairs ind (parameterText entry))).sum := by
      unfold entriesWeight
      rw [List.flatMap_def, List.map_flatten, List.sum_flatten, List.map_map, List.map_map]
      rfl
    by_contra hnot
    obtain ⟨entry, hentry⟩ := not_forall.mp hnot
    obtain ⟨hmem, hbad⟩ := Classical.not_imp.mp hentry
    have hlt : (m.toList.map fun entry => entriesWeight (pairs ind (parameterText entry))).sum <
        entriesWeight m.toList := by
      refine List.sum_lt_sum _ _ ?_ ⟨entry, hmem, ?_⟩
      · rintro ⟨key, value⟩ -
        rcases preserved_or_lt ind key value with hgood | hless
        · rw [hgood.pairs_eq]
          exact le_rfl
        · exact hless.le
      · exact (preserved_or_lt ind entry.1 entry.2).resolve_left hbad
    omega
  · intro h
    have hsame : ∀ entry ∈ m.toList, pairs ind (parameterText entry) = [entry] :=
      fun entry hentry => (h entry hentry).pairs_eq
    rw [List.flatMap_congr hsame, List.flatMap_singleton']
    exact ofList_eq (List.Perm.refl _)

/-! ## Round trips -/

theorem not_mem_getPath (target : Bytes) : 63 ∉ getPath target := by
  unfold getPath
  cases hfind : find target 63 with
  | none => exact find_eq_none.mp hfind
  | some questionMark => exact (find_eq_some hfind).1

/-- A path without a question mark is found again. -/
theorem getPath_append {path : Bytes} (h : 63 ∉ path) (text : Bytes) :
    getPath path = path ∧ getPath (path ++ 63 :: text) = path := by
  constructor
  · unfold getPath
    rw [find_eq_none.mpr h]
  · unfold getPath
    rw [find_append_cons h]
    exact List.take_left

/-- A method line that is accepted has a target, which says the path. -/
theorem Request.path_of_methodLine {opts : Options} {line : Bytes} {r : Request}
    {result : HandleResult} (h : (r.methodLine opts line).result = .ok result) :
    63 ∉ (r.methodLine opts line).request.path := by
  unfold methodLine at h ⊢
  cases hfirst : find line 32 with
  | none =>
    rw [hfirst] at h
    exact nomatch h
  | some firstSpace =>
    rw [hfirst] at h
    dsimp only at h ⊢
    cases hmethod : Method.ofName (line.take firstSpace) with
    | none =>
      rw [hmethod] at h
      exact nomatch h
    | some method =>
      rw [hmethod] at h
      dsimp only at h ⊢
      cases hnext : find (line.drop (firstSpace + 1)) 32 with
      | none =>
        rw [hnext] at h
        exact nomatch h
      | some nextSpace =>
        dsimp only
        split_ifs
        · exact not_mem_getPath _
        · exact not_mem_getPath _

/-- Reading a target that was accepted and written again gives the same path and the same
    parameters exactly when every parameter is preserved. -/
theorem Request.pathWithParameters_iff {opts : Options} {line : Bytes} {r : Request}
    {result : HandleResult} (hmode : r.mode = .method)
    (haccepted : (r.handleLine opts line).result = .ok result) (ind : Indeterminate) :
    let q := (r.handleLine opts line).request
    (getPath q.pathWithParameters = q.path ∧
        getParameters ind q.pathWithParameters true = q.parameters) ↔
      ∀ entry ∈ q.parameters.toList, Preserved ind entry.1 entry.2 := by
  intro q
  have hpath : 63 ∉ q.path := by
    have hline : r.handleLine opts line = r.methodLine opts (stripLine line) := by
      unfold handleLine
      rw [hmode]
    have hq : q = (r.methodLine opts (stripLine line)).request := congrArg Handled.request hline
    rw [hline] at haccepted
    rw [hq]
    exact path_of_methodLine haccepted
  rw [pathWithParameters_eq]
  by_cases hempty : q.parameters.toList = []
  · have hnone : q.parameters = ∅ := Std.ExtTreeMap.toList_eq_nil_iff.mp hempty
    have hread : getParameters ind q.path true = ∅ := by
      unfold getParameters
      rw [if_pos rfl, find_eq_none.mpr hpath]
    rw [if_pos hempty, List.append_nil, hread, (getPath_append hpath []).1, hempty, hnone]
    exact ⟨fun _ entry hentry => absurd hentry List.not_mem_nil, fun _ => ⟨rfl, rfl⟩⟩
  · rw [if_neg hempty, (getPath_append hpath _).2, getParameters_question ind hpath,
      pairs_intercalate, List.flatMap_map, ofList_pairs_iff, and_iff_right rfl]

theorem Request.pathWithParameters_iff_pair :
    let q := (({} : Request).handleLine {} (ascii "GET /p?a=b HTTP/1.1\r\n")).request
    (getPath q.pathWithParameters = q.path ∧
        getParameters {} q.pathWithParameters true = q.parameters) ↔
      ∀ entry ∈ q.parameters.toList, Preserved {} entry.1 entry.2 :=
  pathWithParameters_iff rfl (show _ = Except.ok HandleResult.continue from rfl) {}

/-- An ampersand in a value is not written as an escape again. -/
theorem Request.pathWithParameters_ampersand :
    let handled := ({} : Request).handleLine {} (ascii "GET /p?a=%26 HTTP/1.1\r\n")
    handled.result = .ok .continue ∧
      getParameters {} handled.request.pathWithParameters true ≠ handled.request.parameters := by
  refine ⟨rfl, ?_⟩
  intro h
  have hget := congrArg (fun m : StringMap => m[ascii "a"]?) h
  exact absurd hget (by decide)

end Algiz.HTTP
