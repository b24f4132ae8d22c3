/-
  The `Range` header, as a grammar says it and as `Request::parseRange` reads it.

  A header of the grammar is a list of items, each a range or a suffix. `parseRange` cuts at the
  same separators and reads each piece only as far as it must: what stands behind the digits of a
  number, a number that is too large, a missing hyphen and a separator at the end are let through
  (`Slips`). But for these it accepts the grammar and nothing else (`parseRange_iff`).
-/
import Algiz.HTTP.Request

namespace Algiz.HTTP

namespace Request

/-! ## The grammar -/

/-- The digits of a number below 2^64. -/
structure Number (digits : Bytes) (n : Nat) : Prop where
  nonempty : digits ≠ []
  digit : ∀ b ∈ digits, isDigit b = true
  value : decimal digits = n
  small : n < 2 ^ 64

/-- An item of the grammar, and what it says. -/
inductive IsItem : Bytes → RangeItem → Prop
  | suffix {digits : Bytes} {n : Nat} (h : Number digits n) : IsItem (45 :: digits) (.suffix n)
  | start {digits : Bytes} {n : Nat} (h : Number digits n) :
    IsItem (digits ++ [45]) (.range n (2 ^ 64 - 1))
  | range {digits others : Bytes} {n m : Nat} (h : Number digits n) (h' : Number others m) :
    IsItem (digits ++ 45 :: others) (.range n m)

/-- A header of the grammar, and what its items say. -/
def InGrammar (content : Bytes) (items : List RangeItem) : Prop :=
  ∃ parts, content = ascii "bytes=" ++ (ascii ", ").intercalate parts ∧
    List.Forall₂ IsItem parts items

def RangeItem.range? : RangeItem → Option (Nat × Nat)
  | suffix _ => none
  | range start stop => some (start, stop)

def RangeItem.suffix? : RangeItem → Option Nat
  | suffix length => some length
  | range _ _ => none

/-- What the items come to: the ranges in order, and the last suffix. -/
def assigned (items : List RangeItem) (r : Request) : Request :=
  { r with
    ranges := items.filterMap RangeItem.range?
    suffixLength := (items.filterMap RangeItem.suffix?).getLast?.getD r.suffixLength }

/-! ## Pieces -/

/-- Does it begin with a digit? -/
def beginsWithDigit (text : Bytes) : Bool := text.head?.any isDigit

/-- A piece that begins as an item, with a digit wherever a number should be. -/
def Readable (piece : Bytes) : Prop :=
  match find piece 45 with
  | none => beginsWithDigit piece = true
  | some 0 => beginsWithDigit (piece.drop 1) = true
  | some hyphen => beginsWithDigit piece = true ∧
      (piece.drop (hyphen + 1) = [] ∨ beginsWithDigit (piece.drop (hyphen + 1)) = true)

/-- The headers that are let through: every piece can be read, but some piece is no item, or a
    separator is at the end. -/
def Slips (content : Bytes) : Prop :=
  ∃ parts ≠ [], (∀ part ∈ parts, ¬ ascii ", " <:+: part ∧ Readable part) ∧
    ((content = ascii "bytes=" ++ (ascii ", ").intercalate parts ∧
        ∃ part ∈ parts, ∀ item, ¬ IsItem part item) ∨
      content = ascii "bytes=" ++ (ascii ", ").intercalate parts ++ ascii ", ")

/-! ## Pieces between separators -/

/-- What holds no separator is a piece of its own. -/
theorem findString_eq_none {text : Bytes} (h : ¬ ascii ", " <:+: text) :
    findString (ascii ", ") text = none := by
  induction text with
  | nil => rfl
  | cons b text ih =>
    have hrest : ¬ ascii ", " <:+: text := fun hin => h (List.infix_cons hin)
    have hnot : (ascii ", ").isPrefixOf (b :: text) = false := by
      rw [Bool.eq_false_iff, ne_eq, List.isPrefixOf_iff_prefix]
      exact fun hprefix => h hprefix.isInfix
    rw [findString, hnot, if_neg Bool.noConfusion, ih hrest]
    rfl

/-- A separator is found behind a piece. -/
theorem findString_separator {part : Bytes} (h : ¬ ascii ", " <:+: part) (rest : Bytes) :
    findString (ascii ", ") (part ++ ascii ", " ++ rest) = some part.length := by
  rw [List.append_assoc]
  exact findString_pair (by decide) h rest

theorem intercalate_cons_cons (b : UInt8) (first : Bytes) (rest : List Bytes) :
    (ascii ", ").intercalate ((b :: first) :: rest) =
      b :: (ascii ", ").intercalate (first :: rest) := by
  cases rest with
  | nil => rw [List.intercalate_singleton, List.intercalate_singleton]
  | cons next rest => rw [List.intercalate_cons_cons, List.intercalate_cons_cons]; rfl

/-- Every string is made of pieces without separators. -/
theorem exists_parts (text : Bytes) : ∃ parts ≠ [], text = (ascii ", ").intercalate parts ∧
    ∀ part ∈ parts, ¬ ascii ", " <:+: part := by
  induction text with
  | nil =>
    refine ⟨[[]], List.cons_ne_nil _ _, rfl, ?_⟩
    intro part hpart
    rw [List.mem_singleton.mp hpart]
    decide
  | cons b text ih =>
    obtain ⟨parts, hne, htext, hparts⟩ := ih
    obtain ⟨first, rest, rfl⟩ := List.exists_cons_of_ne_nil hne
    rw [List.forall_mem_cons] at hparts
    by_cases hseparator : ascii ", " <:+: b :: first
    · have hprefix : ascii ", " <+: b :: first :=
        (List.infix_cons_iff.mp hseparator).resolve_right hparts.1
      obtain ⟨front, hfront⟩ := hprefix
      have hb : b = 44 := (List.cons.inj hfront).1.symm
      have hfirst : first = 32 :: front := (List.cons.inj hfront).2.symm
      refine ⟨[] :: front :: rest, List.cons_ne_nil _ _, ?_, ?_⟩
      · rw [htext, hb, hfirst, intercalate_cons_cons, List.intercalate_cons_cons]
        rfl
      · have hfront : ¬ ascii ", " <:+: front :=
          fun hin => hparts.1 (hfirst ▸ List.infix_cons hin)
        exact List.forall_mem_cons.mpr ⟨by decide, List.forall_mem_cons.mpr ⟨hfront, hparts.2⟩⟩
    · refine ⟨(b :: first) :: rest, List.cons_ne_nil _ _, ?_,
        List.forall_mem_cons.mpr ⟨hseparator, hparts.2⟩⟩
      rw [htext, intercalate_cons_cons]

/-- The pieces are determined by the string. -/
theorem parts_unique {parts others : List Bytes} (hne : parts ≠ []) (hne' : others ≠ [])
    (hparts : ∀ part ∈ parts, ¬ ascii ", " <:+: part)
    (hothers : ∀ part ∈ others, ¬ ascii ", " <:+: part)
    (h : (ascii ", ").intercalate parts = (ascii ", ").intercalate others) : parts = others := by
  induction parts generalizing others with
  | nil => exact absurd rfl hne
  | cons first rest ih =>
    obtain ⟨first', rest', rfl⟩ := List.exists_cons_of_ne_nil hne'
    rw [List.forall_mem_cons] at hparts hothers
    have hone : ∀ {text : Bytes}, ¬ ascii ", " <:+: text → ∀ front back,
        text ≠ front ++ ascii ", " ++ back :=
      fun hnot front back htext => hnot ⟨front, back, htext.symm⟩
    cases rest with
    | nil =>
      cases rest' with
      | nil =>
        rwa [List.intercalate_singleton, List.intercalate_singleton, ← List.singleton_inj] at h
      | cons next' rest' =>
        rw [List.intercalate_singleton, List.intercalate_cons_cons] at h
        exact absurd h (hone hparts.1 _ _)
    | cons next rest =>
      cases rest' with
      | nil =>
        rw [List.intercalate_singleton, List.intercalate_cons_cons] at h
        exact absurd h.symm (hone hothers.1 _ _)
      | cons next' rest' =>
        rw [List.intercalate_cons_cons, List.intercalate_cons_cons] at h
        have hfind := findString_separator hparts.1 ((ascii ", ").intercalate (next :: rest))
        rw [h, findString_separator hothers.1] at hfind
        rw [List.append_assoc, List.append_assoc] at h
        obtain ⟨hfirst, hrest⟩ := List.append_inj h (Option.some.inj hfind).symm
        rw [hfirst, ih (List.cons_ne_nil _ _) (List.cons_ne_nil _ _) hparts.2 hothers.2
          (List.append_cancel_left hrest)]

/-! ## Reading pieces -/

/-- The pieces that are read: an empty one at the end is not. -/
def piecesRead : List Bytes → List Bytes
  | [] => []
  | [piece] => if piece.isEmpty then [] else [piece]
  | piece :: next :: pieces => piece :: piecesRead (next :: pieces)

/-- What the loop of `parseRange` does with the pieces. -/
def readPieces (ind : Indeterminate) : List Bytes → Request → Request × Option Exception
  | [], r => (r, none)
  | piece :: pieces, r =>
    match rangePiece ind piece r with
    | (r, some e) => (r, some e)
    | (r, none) => readPieces ind pieces r

/-- The loop reads the pieces between the separators. -/
theorem rangeLoop_intercalate (ind : Indeterminate) {parts : List Bytes}
    (hparts : ∀ part ∈ parts, ¬ ascii ", " <:+: part) (fuel : Nat)
    (hfuel : ((ascii ", ").intercalate parts).length ≤ fuel) (r : Request) :
    rangeLoop ind fuel ((ascii ", ").intercalate parts) r =
      readPieces ind (piecesRead parts) r := by
  have hempty : ∀ fuel r, rangeLoop ind fuel [] r = (r, none) := by
    intro fuel r
    cases fuel <;> rfl
  induction parts generalizing fuel r with
  | nil => exact hempty fuel r
  | cons piece pieces ih =>
    rw [List.forall_mem_cons] at hparts
    cases pieces with
    | nil =>
      rw [List.intercalate_singleton] at hfuel ⊢
      cases piece with
      | nil => exact hempty fuel r
      | cons b piece =>
        obtain ⟨fuel, rfl⟩ := Nat.exists_eq_add_of_lt (Nat.lt_of_lt_of_le (Nat.succ_pos _) hfuel)
        rw [Nat.zero_add, rangeLoop, findString_eq_none hparts.1]
        rcases hpiece : rangePiece ind (b :: piece) r with ⟨r', _ | e⟩ <;>
          simp [piecesRead, readPieces, hpiece]
    | cons next pieces =>
      rw [List.intercalate_cons_cons] at hfuel ⊢
      have hlong :
          piece.length + 2 + ((ascii ", ").intercalate (next :: pieces)).length ≤ fuel := by
        rwa [List.length_append, List.length_append] at hfuel
      obtain ⟨fuel, rfl⟩ : ∃ n, fuel = n + 1 := ⟨fuel - 1, by omega⟩
      have hsome : (piece ++ ascii ", " ++ (ascii ", ").intercalate (next :: pieces)).isEmpty =
          false := by cases piece <;> rfl
      have htake : (piece ++ ascii ", " ++ (ascii ", ").intercalate (next :: pieces)).take
          piece.length = piece := by rw [List.append_assoc, List.take_left]
      have hdrop : (piece ++ ascii ", " ++ (ascii ", ").intercalate (next :: pieces)).drop
          (piece.length + 2) = (ascii ", ").intercalate (next :: pieces) :=
        List.drop_left' (List.length_append ..)
      rw [rangeLoop, hsome, if_neg Bool.noConfusion, findString_separator hparts.1]
      dsimp only
      rw [htake, hdrop, piecesRead, readPieces]
      rcases rangePiece ind piece r with ⟨r', _ | e⟩
      · exact ih hparts.2 fuel (by omega) r'
      · rfl

/-! ## Numbers -/

theorem parseUlong_number (ind : Indeterminate) {digits : Bytes} {n : Nat}
    (h : Number digits n) : parseUlong ind digits = .ok n := by
  rw [← h.value]
  exact parseUlong_digits ind h.nonempty h.digit (h.value ▸ h.small)

/-- Whatever begins with a digit is read as some number. -/
theorem parseUlong_ok (ind : Indeterminate) {text : Bytes} (h : beginsWithDigit text = true) :
    ∃ n, parseUlong ind text = .ok n := by
  cases text with
  | nil => exact nomatch h
  | cons b text =>
    have hb : isDigit b = true := h
    unfold parseUlong
    rw [List.takeWhile_cons_of_pos hb]
    dsimp only
    rw [List.isEmpty_cons, if_neg Bool.noConfusion]
    split_ifs
    · exact ⟨_, rfl⟩
    · exact ⟨_, rfl⟩

theorem parseUlong_error (ind : Indeterminate) {text : Bytes} (h : beginsWithDigit text ≠ true) :
    ∃ what, parseUlong ind text = .error (.invalidArgument what) := by
  have hdigits : text.takeWhile isDigit = [] := by
    cases text with
    | nil => rfl
    | cons b text => exact List.takeWhile_cons_of_neg h
  unfold parseUlong
  rw [hdigits]
  exact ⟨_, rfl⟩

/-! ## Items -/

/-- A number has no hyphen in it. -/
theorem Number.not_mem {digits : Bytes} {n : Nat} (h : Number digits n) {b : UInt8}
    (hb : isDigit b = false) : b ∉ digits :=
  fun hin => Bool.false_ne_true (hb.symm.trans (h.digit b hin))

/-- A piece with a hyphen behind its start. -/
theorem rangeItem_hyphen (ind : Indeterminate) {front : Bytes} (hne : front ≠ [])
    (hfront : 45 ∉ front) (rest : Bytes) :
    rangeItem ind (front ++ 45 :: rest) =
      match parseUlong ind front with
      | .error e => .error e
      | .ok start =>
        if rest = [] then .ok (.range start (2 ^ 64 - 1))
        else (parseUlong ind rest).map (.range start) := by
  obtain ⟨b, front, rfl⟩ := List.exists_cons_of_ne_nil hne
  have hdrop : (b :: front ++ 45 :: rest).drop ((b :: front).length + 1) = rest := by simp
  have htake : (b :: front ++ 45 :: rest).take (b :: front).length = b :: front := List.take_left
  have hlast : front.length + 1 ≠ (b :: front ++ 45 :: rest).length - 1 ↔ ¬ rest = [] := by
    rw [List.length_append, List.length_cons, List.length_cons, ← List.length_eq_zero_iff]
    omega
  have hfind : find (b :: front ++ 45 :: rest) 45 = some (front.length + 1) :=
    find_append_cons hfront
  have hitem : rangeItem ind (b :: front ++ 45 :: rest) =
      match parseUlong ind ((b :: front ++ 45 :: rest).take (front.length + 1)) with
      | .error e => .error e
      | .ok start =>
        if front.length + 1 ≠ (b :: front ++ 45 :: rest).length - 1 then
          (parseUlong ind ((b :: front ++ 45 :: rest).drop (front.length + 1 + 1))).map
            (.range start)
        else .ok (.range start (2 ^ 64 - 1)) := by
    unfold rangeItem
    rw [hfind]
    rfl
  rw [List.length_cons] at htake hdrop
  rw [hitem, htake, hdrop]
  cases parseUlong ind (b :: front) with
  | error e => rfl
  | ok start =>
    dsimp only
    by_cases hrest : rest = []
    · rw [if_neg (fun h => hlast.mp h hrest), if_pos hrest]
    · rw [if_pos (hlast.mpr hrest), if_neg hrest]

theorem rangeItem_suffix (ind : Indeterminate) {rest : Bytes} (hne : rest ≠ []) :
    rangeItem ind (45 :: rest) = (parseUlong ind rest).map .suffix := by
  have hlength : (45 :: rest).length ≠ 1 := by
    rw [List.length_cons]
    exact fun h => hne (List.length_eq_zero_iff.mp (Nat.succ.inj h))
  have hfind : find (45 :: rest) 45 = some 0 := rfl
  have hitem : rangeItem ind (45 :: rest) =
      if (45 :: rest).length = 1 then .error (.parseError (ascii "parseRange: invalid range"))
      else (parseUlong ind ((45 :: rest).drop 1)).map .suffix := by
    unfold rangeItem
    rw [hfind]
    rfl
  rw [hitem, if_neg hlength]
  rfl

/-- A piece without a hyphen is read twice. -/
theorem rangeItem_none (ind : Indeterminate) {piece : Bytes} (h : 45 ∉ piece) :
    rangeItem ind piece =
      match parseUlong ind piece with
      | .error e => .error e
      | .ok start => (parseUlong ind piece).map (.range start) := by
  have hfind := find_eq_none.mpr h
  cases hnumber : parseUlong ind piece with
  | error e => simp only [rangeItem, hfind, hnumber]
  | ok n => simp only [rangeItem, hfind, hnumber]

/-- An item is read as what it says. -/
theorem rangeItem_of_isItem (ind : Indeterminate) {piece : Bytes} {item : RangeItem}
    (h : IsItem piece item) : rangeItem ind piece = .ok item := by
  cases h with
  | suffix h => rw [rangeItem_suffix ind h.nonempty, parseUlong_number ind h]; rfl
  | start h =>
    rw [rangeItem_hyphen ind h.nonempty (h.not_mem (by decide)), parseUlong_number ind h]
    rfl
  | range h h' =>
    rw [rangeItem_hyphen ind h.nonempty (h.not_mem (by decide)), parseUlong_number ind h]
    dsimp only
    rw [if_neg h'.nonempty, parseUlong_number ind h']
    rfl

/-- The three shapes of a piece. -/
theorem piece_cases (piece : Bytes) :
    45 ∉ piece ∨ (∃ rest, piece = 45 :: rest) ∨
      ∃ front rest, front ≠ [] ∧ 45 ∉ front ∧ piece = front ++ 45 :: rest := by
  by_cases hhyphen : 45 ∈ piece
  · obtain ⟨front, rest, rfl, hfront⟩ := List.eq_append_cons_of_mem hhyphen
    refine Or.inr ?_
    cases front with
    | nil => exact Or.inl ⟨rest, rfl⟩
    | cons b front => exact Or.inr ⟨b :: front, rest, List.cons_ne_nil _ _, hfront, rfl⟩
  · exact Or.inl hhyphen

theorem readable_none {piece : Bytes} (h : 45 ∉ piece) :
    Readable piece ↔ beginsWithDigit piece = true := by
  unfold Readable
  rw [find_eq_none.mpr h]

theorem readable_suffix (rest : Bytes) :
    Readable (45 :: rest) ↔ beginsWithDigit rest = true := by
  have hfind : find (45 :: rest) 45 = some 0 := rfl
  unfold Readable
  rw [hfind]
  rfl

theorem readable_hyphen {front : Bytes} (hne : front ≠ []) (hfront : 45 ∉ front) (rest : Bytes) :
    Readable (front ++ 45 :: rest) ↔
      beginsWithDigit front = true ∧ (rest = [] ∨ beginsWithDigit rest = true) := by
  obtain ⟨b, front, rfl⟩ := List.exists_cons_of_ne_nil hne
  have hdrop : (b :: front ++ 45 :: rest).drop (front.length + 1 + 1) = rest := by simp
  have hfind : find (b :: front ++ 45 :: rest) 45 = some (front.length + 1) :=
    find_append_cons hfront
  have hreadable : Readable (b :: front ++ 45 :: rest) ↔
      beginsWithDigit (b :: front ++ 45 :: rest) = true ∧
        ((b :: front ++ 45 :: rest).drop (front.length + 1 + 1) = [] ∨
          beginsWithDigit ((b :: front ++ 45 :: rest).drop (front.length + 1 + 1)) = true) := by
    unfold Readable
    rw [hfind]
    rfl
  rw [hreadable, hdrop]
  rfl

/-- A piece that can be read is read as something. -/
theorem rangeItem_of_readable (ind : Indeterminate) {piece : Bytes} (h : Readable piece) :
    ∃ item, rangeItem ind piece = .ok item := by
  obtain hnone | ⟨rest, rfl⟩ | ⟨front, rest, hne, hfront, rfl⟩ := piece_cases piece
  · obtain ⟨n, hn⟩ := parseUlong_ok ind ((readable_none hnone).mp h)
    rw [rangeItem_none ind hnone, hn]
    exact ⟨_, rfl⟩
  · have hdigit := (readable_suffix rest).mp h
    obtain ⟨n, hn⟩ := parseUlong_ok ind hdigit
    have hrest : rest ≠ [] := by
      rintro rfl
      exact nomatch hdigit
    rw [rangeItem_suffix ind hrest, hn]
    exact ⟨_, rfl⟩
  · obtain ⟨hdigit, hrest⟩ := (readable_hyphen hne hfront rest).mp h
    obtain ⟨n, hn⟩ := parseUlong_ok ind hdigit
    rw [rangeItem_hyphen ind hne hfront, hn]
    dsimp only
    split_ifs with hempty
    · exact ⟨_, rfl⟩
    · obtain ⟨m, hm⟩ := parseUlong_ok ind (hrest.resolve_left hempty)
      rw [hm]
      exact ⟨_, rfl⟩

/-- A piece that cannot be read is a parse error. -/
theorem rangeItem_of_not_readable (ind : Indeterminate) {piece : Bytes} (h : ¬ Readable piece) :
    ∃ e what, rangeItem ind piece = .error e ∧ rangeError (some e) = some (.parseError what) := by
  obtain hnone | ⟨rest, rfl⟩ | ⟨front, rest, hne, hfront, rfl⟩ := piece_cases piece
  · rw [readable_none hnone] at h
    obtain ⟨what, hwhat⟩ := parseUlong_error ind h
    rw [rangeItem_none ind hnone, hwhat]
    exact ⟨_, _, rfl, rfl⟩
  · rw [readable_suffix] at h
    by_cases hrest : rest = []
    · subst hrest
      exact ⟨_, _, rfl, rfl⟩
    · obtain ⟨what, hwhat⟩ := parseUlong_error ind h
      rw [rangeItem_suffix ind hrest, hwhat]
      exact ⟨_, _, rfl, rfl⟩
  · rw [readable_hyphen hne hfront] at h
    rw [rangeItem_hyphen ind hne hfront]
    by_cases hdigit : beginsWithDigit front = true
    · obtain ⟨n, hn⟩ := parseUlong_ok ind hdigit
      have hrest : ¬ (rest = [] ∨ beginsWithDigit rest = true) := fun hrest => h ⟨hdigit, hrest⟩
      rw [not_or] at hrest
      obtain ⟨what, hwhat⟩ := parseUlong_error ind hrest.2
      rw [hn]
      dsimp only
      rw [if_neg hrest.1, hwhat]
      exact ⟨_, _, rfl, rfl⟩
    · obtain ⟨what, hwhat⟩ := parseUlong_error ind hdigit
      rw [hwhat]
      exact ⟨_, _, rfl, rfl⟩

/-! ## Headers -/

/-- Pieces that can be read are accepted. -/
theorem readPieces_readable (ind : Indeterminate) {pieces : List Bytes}
    (h : ∀ piece ∈ pieces, Readable piece) (r : Request) : (readPieces ind pieces r).2 = none := by
  induction pieces generalizing r with
  | nil => rfl
  | cons piece pieces ih =>
    rw [List.forall_mem_cons] at h
    obtain ⟨item, hitem⟩ := rangeItem_of_readable ind h.1
    unfold readPieces rangePiece
    rw [hitem]
    exact ih h.2 _

/-- A piece that cannot be read is a parse error of the whole header. -/
theorem readPieces_not_readable (ind : Indeterminate) {pieces : List Bytes} {piece : Bytes}
    (hmem : piece ∈ pieces) (h : ¬ Readable piece) (r : Request) :
    ∃ what, rangeError (readPieces ind pieces r).2 = some (.parseError what) := by
  induction pieces generalizing r with
  | nil => exact absurd hmem List.not_mem_nil
  | cons first pieces ih =>
    unfold readPieces rangePiece
    by_cases hfirst : Readable first
    · obtain ⟨item, hitem⟩ := rangeItem_of_readable ind hfirst
      have hrest : piece ∈ pieces := by
        refine (List.mem_cons.mp hmem).resolve_left ?_
        rintro rfl
        exact h hfirst
      rw [hitem]
      exact ih hrest _
    · obtain ⟨e, what, hitem, herror⟩ := rangeItem_of_not_readable ind hfirst
      rw [hitem]
      exact ⟨what, herror⟩

/-- Items are assigned in their order. -/
theorem readPieces_items (ind : Indeterminate) {pieces : List Bytes} {items : List RangeItem}
    (h : List.Forall₂ IsItem pieces items) (r : Request) :
    readPieces ind pieces r = (items.foldl (fun r item => item.assign r) r, none) := by
  induction h generalizing r with
  | nil => rfl
  | cons hitem _ ih =>
    unfold readPieces rangePiece
    rw [rangeItem_of_isItem ind hitem]
    exact ih _

theorem foldl_assign (items : List RangeItem) (r : Request) :
    items.foldl (fun r item => item.assign r) r =
      { r with
        ranges := r.ranges ++ items.filterMap RangeItem.range?
        suffixLength := (items.filterMap RangeItem.suffix?).getLast?.getD r.suffixLength } := by
  induction items generalizing r with
  | nil => simp
  | cons item items ih =>
    rw [List.foldl_cons, ih]
    cases item with
    | suffix length =>
      simp only [RangeItem.assign, List.filterMap_cons, RangeItem.range?, RangeItem.suffix?,
        List.getLast?_cons, Option.getD_some]
    | range start stop =>
      simp only [RangeItem.assign, List.filterMap_cons, RangeItem.range?, RangeItem.suffix?,
        List.append_assoc, List.singleton_append]

/-- An item holds no separator, and something. -/
theorem IsItem.piece {piece : Bytes} {item : RangeItem} (h : IsItem piece item) :
    ¬ ascii ", " <:+: piece ∧ piece ≠ [] := by
  have hcomma : 44 ∉ piece := by
    cases h with
    | suffix h =>
      rw [List.mem_cons, not_or]
      exact ⟨by decide, h.not_mem (by decide)⟩
    | start h =>
      rw [List.mem_append, not_or]
      exact ⟨h.not_mem (by decide), by decide⟩
    | range h h' =>
      rw [List.mem_append, not_or, List.mem_cons, not_or]
      exact ⟨h.not_mem (by decide), by decide, h'.not_mem (by decide)⟩
  refine ⟨fun hin => hcomma (hin.subset List.mem_cons_self), ?_⟩
  rintro rfl
  generalize hpiece : ([] : Bytes) = piece at h
  cases h with
  | suffix h => exact nomatch hpiece
  | start h => exact List.append_ne_nil_of_right_ne_nil _ (List.cons_ne_nil _ _) hpiece.symm
  | range h h' => exact List.append_ne_nil_of_right_ne_nil _ (List.cons_ne_nil _ _) hpiece.symm

/-- An item has a hyphen. -/
theorem IsItem.hyphen {piece : Bytes} {item : RangeItem} (h : IsItem piece item) : 45 ∈ piece := by
  cases h with
  | suffix h => exact List.mem_cons_self
  | start h => exact List.mem_append_right _ List.mem_cons_self
  | range h h' => exact List.mem_append_right _ List.mem_cons_self

/-- The pieces of items hold no separator, and something. -/
theorem pieces_of_items {parts : List Bytes} {items : List RangeItem}
    (h : List.Forall₂ IsItem parts items) :
    (∀ part ∈ parts, ¬ ascii ", " <:+: part ∧ part ≠ []) := by
  intro part hpart
  obtain ⟨i, hi, rfl⟩ := List.getElem_of_mem hpart
  exact (h.get hi (h.length_eq ▸ hi)).piece

/-- If no piece is empty, all are read. -/
theorem piecesRead_eq {parts : List Bytes} (h : ∀ part ∈ parts, part ≠ []) :
    piecesRead parts = parts := by
  induction parts with
  | nil => rfl
  | cons piece pieces ih =>
    rw [List.forall_mem_cons] at h
    cases pieces with
    | nil =>
      have hsome : piece.isEmpty = false := List.isEmpty_eq_false_iff.mpr h.1
      rw [piecesRead, hsome, if_neg Bool.noConfusion]
    | cons next pieces => rw [piecesRead, ih h.2]

/-- An empty piece at the end is not read. -/
theorem piecesRead_append_nil (parts : List Bytes) : piecesRead (parts ++ [[]]) = parts := by
  induction parts with
  | nil => rfl
  | cons piece pieces ih =>
    cases pieces with
    | nil => rfl
    | cons next pieces =>
      rw [List.cons_append, List.cons_append, piecesRead, ← List.cons_append, ih]

theorem piecesRead_cases (parts : List Bytes) :
    parts = piecesRead parts ∨ parts = piecesRead parts ++ [[]] := by
  induction parts with
  | nil => exact Or.inl rfl
  | cons piece pieces ih =>
    cases pieces with
    | nil => cases piece <;> [exact Or.inr rfl; exact Or.inl rfl]
    | cons next pieces =>
      rw [piecesRead]
      exact ih.imp (congrArg (piece :: ·)) (congrArg (piece :: ·))

/-- No separator stands in an empty piece. -/
theorem separated_append_nil {parts : List Bytes} (h : ∀ part ∈ parts, ¬ ascii ", " <:+: part) :
    ∀ part ∈ parts ++ [[]], ¬ ascii ", " <:+: part := by
  intro part hpart
  rcases List.mem_append.mp hpart with hpart | hpart
  · exact h part hpart
  · rw [List.mem_singleton.mp hpart]
    decide

theorem intercalate_append_nil {parts : List Bytes} (hne : parts ≠ []) :
    (ascii ", ").intercalate (parts ++ [[]]) = (ascii ", ").intercalate parts ++ ascii ", " := by
  induction parts with
  | nil => exact absurd rfl hne
  | cons piece pieces ih =>
    cases pieces with
    | nil =>
      rw [List.singleton_append, List.intercalate_cons_cons, List.intercalate_singleton,
        List.intercalate_singleton, List.append_nil]
    | cons next pieces =>
      have hrest := ih (List.cons_ne_nil _ _)
      rw [List.cons_append] at hrest
      rw [List.cons_append, List.cons_append, List.intercalate_cons_cons,
        List.intercalate_cons_cons, hrest, List.append_assoc _ _ (ascii ", ")]

/-- `parseRange` of the pieces. -/
theorem parseRange_intercalate (ind : Indeterminate) {parts : List Bytes}
    (hparts : ∀ part ∈ parts, ¬ ascii ", " <:+: part) (r : Request) :
    parseRange ind (ascii "bytes=" ++ (ascii ", ").intercalate parts) r =
      ((readPieces ind (piecesRead parts) { r with ranges := [] }).1,
        rangeError (readPieces ind (piecesRead parts) { r with ranges := [] }).2) := by
  have htake : (ascii "bytes=" ++ (ascii ", ").intercalate parts).take 6 = ascii "bytes=" := rfl
  have hdrop : (ascii "bytes=" ++ (ascii ", ").intercalate parts).drop 6 =
    (ascii ", ").intercalate parts := rfl
  unfold parseRange
  rw [htake, if_neg (not_not_intro rfl), hdrop]
  dsimp only
  rw [rangeLoop_intercalate ind hparts _ (by rw [List.length_append]; omega)]

/-- A header of the grammar is read as its items. -/
theorem parseRange_inGrammar (ind : Indeterminate) {content : Bytes} {items : List RangeItem}
    (h : InGrammar content items) (r : Request) :
    parseRange ind content r = (assigned items r, none) := by
  obtain ⟨parts, rfl, hitems⟩ := h
  have hparts := pieces_of_items hitems
  rw [parseRange_intercalate ind (fun part hpart => (hparts part hpart).1),
    piecesRead_eq (fun part hpart => (hparts part hpart).2), readPieces_items ind hitems,
    foldl_assign]
  rfl

theorem Readable.ne_nil {piece : Bytes} (h : Readable piece) : piece ≠ [] := by
  rintro rfl
  exact nomatch (readable_none List.not_mem_nil).mp h

/-- What slips through is not of the grammar. -/
theorem Slips.not_inGrammar {content : Bytes} (h : Slips content) :
    ¬ ∃ items, InGrammar content items := by
  rintro ⟨items, others, rfl, hitems⟩
  obtain ⟨parts, hne, hparts, hcontent⟩ := h
  have hothers := pieces_of_items hitems
  rw [List.append_assoc] at hcontent
  simp only [List.append_cancel_left_eq] at hcontent
  by_cases hnone : others = []
  · subst hnone
    rcases hcontent with ⟨hcontent, -⟩ | hcontent
    · have hblank : parts = [[]] := by
        have hblank : ∀ part ∈ [[]], ¬ ascii ", " <:+: part :=
          separated_append_nil fun part hpart => absurd hpart List.not_mem_nil
        exact parts_unique hne (List.cons_ne_nil _ _) (fun part hpart => (hparts part hpart).1)
          hblank hcontent.symm
      exact (hparts [] (hblank ▸ List.mem_singleton_self _)).2.ne_nil rfl
    · exact List.append_ne_nil_of_right_ne_nil _ (by decide) hcontent.symm
  · rcases hcontent with ⟨hcontent, part, hpart, hbad⟩ | hcontent
    · obtain rfl := parts_unique hnone hne (fun part hpart => (hothers part hpart).1)
        (fun part hpart => (hparts part hpart).1) hcontent
      obtain ⟨i, hi, rfl⟩ := List.getElem_of_mem hpart
      exact hbad _ (hitems.get hi (hitems.length_eq ▸ hi))
    · rw [← intercalate_append_nil hne] at hcontent
      have hsplit : ∀ part ∈ parts ++ [[]], ¬ ascii ", " <:+: part :=
        separated_append_nil fun part hpart => (hparts part hpart).1
      have hsame := parts_unique hnone (List.append_ne_nil_of_left_ne_nil hne _)
        (fun part hpart => (hothers part hpart).1) hsplit hcontent
      have hblank : [] ∈ others := hsame ▸ List.mem_append_right parts (List.mem_singleton_self _)
      exact (hothers [] hblank).2 rfl

/-- What slips through is accepted. -/
theorem Slips.accepted {content : Bytes} (h : Slips content) (ind : Indeterminate) (r : Request) :
    (parseRange ind content r).2 = none := by
  obtain ⟨parts, hne, hparts, ⟨rfl, -⟩ | rfl⟩ := h
  · rw [parseRange_intercalate ind (fun part hpart => (hparts part hpart).1),
      piecesRead_eq (fun part hpart => (hparts part hpart).2.ne_nil)]
    dsimp only
    rw [readPieces_readable ind (fun part hpart => (hparts part hpart).2)]
    rfl
  · have hsplit : ∀ part ∈ parts ++ [[]], ¬ ascii ", " <:+: part :=
      separated_append_nil fun part hpart => (hparts part hpart).1
    rw [List.append_assoc, ← intercalate_append_nil hne, parseRange_intercalate ind hsplit,
      piecesRead_append_nil]
    dsimp only
    rw [readPieces_readable ind (fun part hpart => (hparts part hpart).2)]
    rfl

theorem exists_items {parts : List Bytes} (h : ∀ part ∈ parts, ∃ item, IsItem part item) :
    ∃ items, List.Forall₂ IsItem parts items := by
  induction parts with
  | nil => exact ⟨[], List.Forall₂.nil⟩
  | cons part parts ih =>
    rw [List.forall_mem_cons] at h
    obtain ⟨item, hitem⟩ := h.1
    obtain ⟨items, hitems⟩ := ih h.2
    exact ⟨item :: items, List.Forall₂.cons hitem hitems⟩

/-- Pieces all of which can be read are of the grammar, or slip through. -/
theorem inGrammar_or_slips {parts : List Bytes}
    (hparts : ∀ part ∈ parts, ¬ ascii ", " <:+: part)
    (hread : ∀ part ∈ piecesRead parts, Readable part) :
    (∃ items, InGrammar (ascii "bytes=" ++ (ascii ", ").intercalate parts) items) ∨
      Slips (ascii "bytes=" ++ (ascii ", ").intercalate parts) := by
  by_cases hnone : piecesRead parts = []
  · refine Or.inl ⟨[], [], ?_, List.Forall₂.nil⟩
    rcases piecesRead_cases parts with hparts' | hparts'
    · rw [hparts', hnone]
    · rw [hparts', hnone]
      rfl
  · have hsplit : ∀ part ∈ piecesRead parts, ¬ ascii ", " <:+: part := by
      intro part hpart
      refine hparts part ?_
      rcases piecesRead_cases parts with hparts' | hparts'
      · exact hparts' ▸ hpart
      · exact hparts' ▸ List.mem_append_left _ hpart
    have hpieces : ∀ part ∈ piecesRead parts, ¬ ascii ", " <:+: part ∧ Readable part :=
      fun part hpart => ⟨hsplit part hpart, hread part hpart⟩
    rcases piecesRead_cases parts with hparts' | hparts'
    · by_cases hitems : ∀ part ∈ parts, ∃ item, IsItem part item
      · obtain ⟨items, hitems⟩ := exists_items hitems
        exact Or.inl ⟨items, parts, rfl, hitems⟩
      · obtain ⟨part, hpart⟩ := not_forall.mp hitems
        obtain ⟨hpart, hbad⟩ := Classical.not_imp.mp hpart
        refine Or.inr ⟨piecesRead parts, hnone, hpieces, Or.inl ⟨by rw [← hparts'], part, ?_, ?_⟩⟩
        · exact hparts' ▸ hpart
        · exact not_exists.mp hbad
    · refine Or.inr ⟨piecesRead parts, hnone, hpieces, Or.inr ?_⟩
      rw [List.append_assoc, ← intercalate_append_nil hnone, ← hparts']

/-- `parseRange` accepts the headers of the grammar, reads them as their items, and throws a
    `ParseError` for all others, exactly for the strings that do not slip through. -/
theorem parseRange_iff (ind : Indeterminate) (content : Bytes) (r : Request) :
    ((∀ items, InGrammar content items → parseRange ind content r = (assigned items r, none)) ∧
      ((¬ ∃ items, InGrammar content items) →
        ∃ what, (parseRange ind content r).2 = some (.parseError what))) ↔ ¬ Slips content := by
  constructor
  · rintro ⟨-, hother⟩ hslips
    obtain ⟨what, herror⟩ := hother hslips.not_inGrammar
    rw [hslips.accepted] at herror
    exact nomatch herror
  · intro hslips
    refine ⟨fun items hitems => parseRange_inGrammar ind hitems r, fun hnot => ?_⟩
    by_cases hunit : content.take 6 = ascii "bytes="
    · have hcontent : content = ascii "bytes=" ++ content.drop 6 := by
        rw [← hunit, List.take_append_drop]
      obtain ⟨parts, -, htext, hparts⟩ := exists_parts (content.drop 6)
      rw [htext] at hcontent
      rw [hcontent] at hslips hnot ⊢
      have hread : ¬ ∀ part ∈ piecesRead parts, Readable part :=
        fun hread => (inGrammar_or_slips hparts hread).elim hnot hslips
      obtain ⟨part, hpart⟩ := not_forall.mp hread
      obtain ⟨hpart, hbad⟩ := Classical.not_imp.mp hpart
      rw [parseRange_intercalate ind hparts]
      exact readPieces_not_readable ind hpart hbad _
    · unfold parseRange
      rw [if_pos hunit]
      exact ⟨_, rfl⟩

/-- A number without a hyphen is accepted, as a range from and to it. -/
theorem accepts_number :
    (parseRange {} (ascii "bytes=5") {}).2 = none ∧
      (parseRange {} (ascii "bytes=5") {}).1.ranges = [(5, 5)] ∧
      ¬ ∃ items, InGrammar (ascii "bytes=5") items := by
  have hslips : Slips (ascii "bytes=5") := by
    refine ⟨[ascii "5"], List.cons_ne_nil _ _, ?_, Or.inl ⟨rfl, _, List.mem_cons_self, ?_⟩⟩
    · intro part hpart
      rw [List.mem_singleton.mp hpart]
      exact ⟨by decide, (readable_none (by decide)).mpr rfl⟩
    · exact fun item hitem => absurd hitem.hyphen (by decide)
  exact ⟨rfl, rfl, hslips.not_inGrammar⟩

end Request

end Algiz.HTTP
