/-
  Paths as `std::filesystem::path` has them on POSIX: whether there is a root directory, and the
  names in order. A slash at the end is an empty name behind the others, so that equality is that
  of the elements. The names of a path that was made from a string hold no slash.

  An operating system is handed the bytes up to the first NUL. `Path.cut` are the names that it
  sees (`lines_cstring`). A path in normal form is `Normal`: no dots, and no empty name but a last
  one.
-/
import Mathlib.Data.List.TakeWhile
import Mathlib.Data.List.Infix
import Algiz.Lib.Lines

namespace Algiz.Lib

/-- A name in a path. -/
abbrev Name := List UInt8

/-- `.` -/
def dot : Name := [46]

/-- `..` -/
def dotdot : Name := [46, 46]

/-- `std::filesystem::path` -/
structure Path where
  /-- does it begin with a root directory? -/
  absolute : Bool
  names : List Name
  deriving DecidableEq

namespace Path

/-- The path of a string. -/
def ofBytes (text : List UInt8) : Path :=
  let names := (lines 47 text ++ [unfinished 47 text]).filter (· ≠ [])
  { absolute := text.head? = some 47
    names := if names ≠ [] ∧ unfinished 47 text = [] then names ++ [[]] else names }

/-- Names with slashes between them. -/
def join : List Name → List UInt8
  | [] => []
  | [name] => name
  | name :: names => name ++ 47 :: join names

/-- The string of a path. -/
def toBytes (p : Path) : List UInt8 := (if p.absolute then [47] else []) ++ join p.names

/-- What the iterators of a path go over: the root directory, and the names. -/
def elements (p : Path) : List Name := (if p.absolute then [[47]] else []) ++ p.names

/-- `/` -/
def root : Path := ⟨true, []⟩

/-- `empty` -/
def isEmpty (p : Path) : Bool := !p.absolute && p.names.isEmpty

/-- `filename` -/
def filename (p : Path) : Name := p.names.getLastD []

/-- `has_filename` -/
def hasFilename (p : Path) : Bool := p.filename ≠ []

/-- `p.parent_path()` -/
def parentPath (p : Path) : Path := { p with names := p.names.dropLast }

/-- `root_path` -/
def rootPath (p : Path) : Path := ⟨p.absolute, []⟩

/-- `p / q` -/
def append (p q : Path) : Path :=
  if q.absolute then q
  else if q.names = [] then if p.hasFilename then { p with names := p.names ++ [[]] } else p
  else if p.names.getLast? = some [] then { p with names := p.names.dropLast ++ q.names }
  else { p with names := p.names ++ q.names }

/-- The names without a slash at the end. -/
def unslashed (names : List Name) : List Name :=
  if names.getLast? = some [] then names.dropLast else names

/-- The path of what is some names below the path. -/
def below (p : Path) (names : List Name) : Path :=
  if names = [] then p else { p with names := unslashed p.names ++ names }

/-- Where the extension of a file name begins, if it has one. -/
def extensionAt (name : Name) : Option Nat :=
  if name = dot ∨ name = dotdot then none
  else match name.reverse.idxOf? 46 with
    | none => none
    | some i => if i + 1 = name.length then none else some (name.length - (i + 1))

/-- `extension`; it begins with its dot. -/
def extension (p : Path) : Name :=
  match extensionAt p.filename with
  | none => []
  | some i => p.filename.drop i

/-- `stem` -/
def stem (p : Path) : Name :=
  match extensionAt p.filename with
  | none => p.filename
  | some i => p.filename.take i

/-- `replace_extension`, for an extension that begins with its dot. -/
def replaceExtension (p : Path) (extension : Name) : Path :=
  { p with names := p.names.dropLast ++ [p.stem ++ extension] }

/-- One element of a path that is normalized: the names so far, and whether they end in a slash. -/
def normalStep (absolute : Bool) (s : List Name × Bool) (name : Name) : List Name × Bool :=
  if name = [] ∨ name = dot then (s.1, true)
  else if name = dotdot then
    match s.1.getLast? with
    | none => if absolute then s else ([dotdot], false)
    | some last => if last = dotdot then (s.1 ++ [dotdot], false) else (s.1.dropLast, true)
  else (s.1 ++ [name], false)

/-- The names of a normalized path, from those that are left and whether they end in a slash. -/
def normalNames (absolute : Bool) (s : List Name × Bool) : List Name :=
  if s.1 = [] then if absolute then [] else [dot]
  else if s.2 ∧ s.1.getLast? ≠ some dotdot then s.1 ++ [[]]
  else s.1

/-- `lexically_normal` -/
def lexicallyNormal (p : Path) : Path :=
  if p.isEmpty then p
  else { p with
    names := normalNames p.absolute (p.names.foldl (normalStep p.absolute) ([], false)) }

/-- The names in a text that begins with a slash. -/
def components (text : List UInt8) : List Name := (lines 47 text ++ [unfinished 47 text]).drop 1

/-- The bytes of a path as an operating system is handed them: up to the first NUL. -/
def cstring (p : Path) : List UInt8 := p.toBytes.takeWhile (· ≠ 0)

/-- What an operating system sees of the names: nothing from the first NUL on. -/
def cut : List Name → List Name
  | [] => []
  | name :: names => if 0 ∈ name then [name.takeWhile (· ≠ 0)] else name :: cut names

end Path

open Algiz.Lib.Path

example : (Path.ofBytes [47, 97, 47, 46, 46, 47, 98]).lexicallyNormal = ⟨true, [[98]]⟩ := by decide

/-! ## The bytes up to the first NUL -/

section Cut

variable {name : Name} {names others : List Name}

theorem cut_cons_of_mem (h : 0 ∈ name) : cut (name :: names) = [name.takeWhile (· ≠ 0)] := if_pos h

theorem cut_cons_of_not_mem (h : 0 ∉ name) : cut (name :: names) = name :: cut names := if_neg h

theorem takeWhile_of_not_mem {text : List UInt8} (h : 0 ∉ text) :
    text.takeWhile (· ≠ 0) = text := by
  apply List.takeWhile_eq_self_iff.mpr
  intro b hb
  exact decide_eq_true fun hz => h (hz ▸ hb)

theorem takeWhile_append_of_mem {text rest : List UInt8} (h : 0 ∈ text) :
    (text ++ rest).takeWhile (· ≠ 0) = text.takeWhile (· ≠ 0) := by
  induction text with
  | nil => exact absurd h List.not_mem_nil
  | cons b text ih =>
    rw [List.cons_append, List.takeWhile_cons, List.takeWhile_cons]
    split
    · rename_i hb
      have hmem : 0 ∈ text :=
        (List.mem_cons.mp h).resolve_left fun hz => of_decide_eq_true hb hz.symm
      rw [ih hmem]
    · rfl

/-- The names of the bytes up to the first NUL. -/
theorem lines_cstring (hnames : ∀ name ∈ names, 47 ∉ name) (hne : names ≠ []) :
    lines 47 ((join names).takeWhile (· ≠ 0)) ++
      [unfinished 47 ((join names).takeWhile (· ≠ 0))] = cut names := by
  induction names with
  | nil => exact absurd rfl hne
  | cons name names ih =>
    have hname := hnames name List.mem_cons_self
    have hcut : 47 ∉ name.takeWhile (· ≠ 0) := fun h => hname ((List.takeWhile_prefix _).mem h)
    cases names with
    | nil =>
      rw [join, lines_of_not_mem 47 hcut, unfinished_of_not_mem 47 hcut]
      by_cases hzero : 0 ∈ name
      · rw [cut_cons_of_mem hzero]
        rfl
      · rw [cut_cons_of_not_mem hzero, takeWhile_of_not_mem hzero]
        rfl
    | cons next rest =>
      have hjoin : join (name :: next :: rest) = name ++ 47 :: join (next :: rest) := rfl
      rw [hjoin]
      by_cases hzero : 0 ∈ name
      · rw [cut_cons_of_mem hzero, takeWhile_append_of_mem hzero, lines_of_not_mem 47 hcut,
          unfinished_of_not_mem 47 hcut]
        rfl
      · have hpos : ∀ b ∈ name, decide (b ≠ 0) = true := fun b hb =>
          decide_eq_true fun hz => hzero (hz ▸ hb)
        rw [cut_cons_of_not_mem hzero, List.takeWhile_append_of_pos hpos,
          List.takeWhile_cons_of_pos (by decide), lines_line 47 hname, unfinished_line 47 hname,
          List.cons_append, ih (fun n hn => hnames n (List.mem_cons_of_mem _ hn))
            (List.cons_ne_nil _ _)]

/-- The names that are seen of an absolute path. -/
theorem components_cstring {p : Path} (habsolute : p.absolute = true)
    (hnames : ∀ name ∈ p.names, 47 ∉ name) (hne : p.names ≠ []) :
    components p.cstring = cut p.names := by
  have htext : p.cstring = 47 :: (join p.names).takeWhile (· ≠ 0) := by
    unfold Path.cstring Path.toBytes
    rw [if_pos habsolute]
    exact List.takeWhile_cons_of_pos (by decide)
  unfold components
  have hline := lines_line 47 (List.not_mem_nil (a := (47 : UInt8)))
    ((join p.names).takeWhile (· ≠ 0))
  have hunfinished := unfinished_line 47 (List.not_mem_nil (a := (47 : UInt8)))
    ((join p.names).takeWhile (· ≠ 0))
  rw [List.nil_append] at hline hunfinished
  rw [htext, hline, hunfinished, List.cons_append]
  exact lines_cstring hnames hne

theorem cut_of_not_mem (h : ∀ name ∈ names, 0 ∉ name) : cut names = names := by
  induction names with
  | nil => rfl
  | cons name names ih =>
    rw [cut_cons_of_not_mem (h name List.mem_cons_self),
      ih fun n hn => h n (List.mem_cons_of_mem _ hn)]

/-- Of one name, one name is seen. -/
theorem cut_singleton (name : Name) : ∃ seen, cut [name] = [seen] := by
  unfold cut
  split
  · exact ⟨_, rfl⟩
  · exact ⟨_, rfl⟩

theorem cut_append_of_not_mem (h : ∀ name ∈ names, 0 ∉ name) (others : List Name) :
    cut (names ++ others) = names ++ cut others := by
  induction names with
  | nil => rfl
  | cons name names ih =>
    rw [List.cons_append, cut_cons_of_not_mem (h name List.mem_cons_self),
      ih fun n hn => h n (List.mem_cons_of_mem _ hn), List.cons_append]

/-- Nothing behind a NUL is seen. -/
theorem cut_append_of_mem (h : ∃ name ∈ names, 0 ∈ name) (others : List Name) :
    cut (names ++ others) = cut names := by
  induction names with
  | nil => exact absurd h fun ⟨_, hmem, _⟩ => List.not_mem_nil hmem
  | cons name names ih =>
    rw [List.cons_append]
    by_cases hzero : 0 ∈ name
    · rw [cut_cons_of_mem hzero, cut_cons_of_mem hzero]
    · obtain ⟨other, hother, hmem⟩ := h
      obtain rfl | hother := List.mem_cons.mp hother
      · exact absurd hmem hzero
      · rw [cut_cons_of_not_mem hzero, cut_cons_of_not_mem hzero, ih ⟨other, hother, hmem⟩]

/-- What is seen of a path is a prefix of what is seen of a longer one. -/
theorem cut_prefix (h : names <+: others) : cut names <+: cut others := by
  obtain ⟨rest, rfl⟩ := h
  by_cases hzero : ∃ name ∈ names, 0 ∈ name
  · rw [cut_append_of_mem hzero]
  · have hnone : ∀ name ∈ names, 0 ∉ name := fun name hname hmem => hzero ⟨name, hname, hmem⟩
    rw [cut_of_not_mem hnone, cut_append_of_not_mem hnone]
    exact List.prefix_append _ _

/-- No name that is seen holds a NUL, and all are parts of the names. -/
theorem mem_cut (h : name ∈ cut names) : 0 ∉ name ∧ ∃ n ∈ names, name <+: n := by
  induction names with
  | nil => exact absurd h List.not_mem_nil
  | cons first names ih =>
    by_cases hzero : 0 ∈ first
    · rw [cut_cons_of_mem hzero] at h
      rw [List.mem_singleton.mp h]
      refine ⟨fun hmem => ?_, first, List.mem_cons_self, List.takeWhile_prefix _⟩
      have hne := List.mem_takeWhile_imp hmem
      exact absurd hne (by decide)
    · rw [cut_cons_of_not_mem hzero] at h
      rcases List.mem_cons.mp h with rfl | h
      · exact ⟨hzero, name, List.mem_cons_self, List.prefix_refl _⟩
      · obtain ⟨hnone, n, hn, hbegins⟩ := ih h
        exact ⟨hnone, n, List.mem_cons_of_mem _ hn, hbegins⟩

theorem cut_eq_nil : cut names = [] ↔ names = [] := by
  cases names with
  | nil => exact iff_of_true rfl rfl
  | cons name names =>
    refine iff_of_false ?_ (List.cons_ne_nil name names)
    unfold cut
    split <;> exact List.cons_ne_nil _ _

/-- What is seen before the last name are names before the last one, without a NUL. -/
theorem cut_concat {front : List Name} {last : Name} (h : cut names = front ++ [last]) :
    front <+: names.dropLast ∧ ∀ name ∈ front, 0 ∉ name := by
  induction names generalizing front with
  | nil => exact absurd h.symm (List.append_ne_nil_of_right_ne_nil _ (List.cons_ne_nil _ _))
  | cons name names ih =>
    cases front with
    | nil => exact ⟨List.nil_prefix, fun _ hn => absurd hn List.not_mem_nil⟩
    | cons first front =>
      by_cases hzero : 0 ∈ name
      · rw [cut_cons_of_mem hzero] at h
        have hnil := (List.cons.inj h).2.symm
        exact absurd hnil (List.append_ne_nil_of_right_ne_nil _ (List.cons_ne_nil _ _))
      · rw [cut_cons_of_not_mem hzero] at h
        obtain ⟨rfl, hrest⟩ := List.cons.inj h
        obtain ⟨hbegins, hnone⟩ := ih hrest
        have hne : names ≠ [] := fun hnil => by
          rw [hnil] at hrest
          exact List.append_ne_nil_of_right_ne_nil _ (List.cons_ne_nil _ _) hrest.symm
        rw [List.dropLast_cons_of_ne_nil hne]
        refine ⟨List.cons_prefix_cons.mpr ⟨rfl, hbegins⟩, fun n hn => ?_⟩
        rcases List.mem_cons.mp hn with rfl | hn
        · exact hzero
        · exact hnone n hn

/-- If the last name that is seen is not the last name, it ends at a NUL. -/
theorem dropLast_of_cut {front : List Name} {last : Name} (h : cut names = front ++ [last]) :
    ∃ more, names.dropLast = front ++ more ∧ ∀ name ∈ more.head?, 0 ∈ name := by
  induction names generalizing front with
  | nil => exact absurd h.symm (List.append_ne_nil_of_right_ne_nil _ (List.cons_ne_nil _ _))
  | cons name names ih =>
    obtain rfl | hne := eq_or_ne names []
    · -- one name: it is the last one, and nothing is before it
      have hlength := congrArg List.length h
      have hone : (cut [name]).length = 1 := by
        unfold cut
        split <;> rfl
      rw [hone, List.length_append, List.length_singleton] at hlength
      obtain rfl := List.length_eq_zero_iff.mp (show front.length = 0 by omega)
      exact ⟨[], rfl, fun _ hname => nomatch hname⟩
    · rw [List.dropLast_cons_of_ne_nil hne]
      by_cases hzero : 0 ∈ name
      · rw [cut_cons_of_mem hzero] at h
        have hlength := congrArg List.length h
        rw [List.length_append, List.length_singleton, List.length_singleton] at hlength
        obtain rfl := List.length_eq_zero_iff.mp (show front.length = 0 by omega)
        refine ⟨name :: names.dropLast, rfl, fun other hother => ?_⟩
        obtain rfl := Option.some.inj hother
        exact hzero
      · rw [cut_cons_of_not_mem hzero] at h
        cases front with
        | nil => exact absurd (cut_eq_nil.mp (List.cons.inj h).2) hne
        | cons first front =>
          obtain ⟨rfl, hrest⟩ := List.cons.inj h
          obtain ⟨more, hmore, hhead⟩ := ih hrest
          exact ⟨more, by rw [hmore, List.cons_append], hhead⟩

end Cut

/-! ## Putting paths together -/

section Append

variable {p q : Path} {name : Name}

/-- The names of a path that was made from a string hold no slash. -/
theorem ofBytes_slashless (text : List UInt8) : ∀ name ∈ (ofBytes text).names, 47 ∉ name := by
  have hpieces : ∀ name ∈ (lines 47 text ++ [unfinished 47 text]).filter (· ≠ []), 47 ∉ name := by
    intro name hname
    rcases List.mem_append.mp (List.mem_of_mem_filter hname) with hline | hlast
    · exact not_mem_of_mem_lines 47 hline
    · rw [List.mem_singleton.mp hlast]
      exact not_mem_unfinished 47 text
  unfold ofBytes
  dsimp only
  split
  · intro name hname
    rcases List.mem_append.mp hname with hname | hname
    · exact hpieces name hname
    · rw [List.mem_singleton.mp hname]
      exact List.not_mem_nil
  · exact hpieces

/-- A text without a slash is a path with one name. -/
theorem ofBytes_of_not_mem {text : List UInt8} (h : 47 ∉ text) (hne : text ≠ []) :
    ofBytes text = ⟨false, [text]⟩ := by
  have hnames : [text].filter (· ≠ []) = [text] :=
    List.filter_cons_of_pos (decide_eq_true hne)
  unfold ofBytes
  rw [lines_of_not_mem 47 h, unfinished_of_not_mem 47 h, List.nil_append, hnames]
  dsimp only
  rw [if_neg fun hboth => hne hboth.2]
  congr 1
  exact decide_eq_false fun hhead => h (List.mem_of_mem_head? hhead)

/-- Behind a path from the root directory, every path is one. -/
theorem append_absolute (h : p.absolute = true) : (p.append q).absolute = true := by
  unfold Path.append
  split
  · assumption
  · split
    · split <;> exact h
    · split <;> exact h

/-- A relative path behind a path: nothing, a slash, or its names. -/
theorem append_cases (p : Path) (hq : q.absolute = false) :
    (p.append q).absolute = p.absolute ∧ ((p.append q).names = p.names ∨
      (p.append q).names = p.names ++ [[]] ∨
      (q.names ≠ [] ∧ (p.append q).names = unslashed p.names ++ q.names)) := by
  unfold Path.append unslashed
  rw [hq, if_neg Bool.false_ne_true]
  split
  · split
    · exact ⟨rfl, .inr (.inl rfl)⟩
    · exact ⟨rfl, .inl rfl⟩
  · rename_i hne
    split
    · exact ⟨rfl, .inr (.inr ⟨hne, rfl⟩)⟩
    · exact ⟨rfl, .inr (.inr ⟨hne, rfl⟩)⟩

theorem unslashed_subset (names : List Name) : unslashed names ⊆ names := by
  unfold unslashed
  split
  · exact List.dropLast_subset names
  · exact List.Subset.refl names

theorem unslashed_isPrefix (names : List Name) : unslashed names <+: names := by
  unfold unslashed
  split
  · exact List.dropLast_prefix names
  · exact List.prefix_refl names

/-- The names of a path behind a path are names of either, but for a slash. -/
theorem mem_append_names (hq : q.absolute = false) (hname : name ∈ (p.append q).names) :
    name = [] ∨ name ∈ p.names ∨ name ∈ q.names := by
  obtain ⟨-, heq | heq | ⟨-, heq⟩⟩ := append_cases p hq
  · rw [heq] at hname
    exact .inr (.inl hname)
  · rw [heq] at hname
    rcases List.mem_append.mp hname with hname | hname
    · exact .inr (.inl hname)
    · exact .inl (List.mem_singleton.mp hname)
  · rw [heq] at hname
    rcases List.mem_append.mp hname with hname | hname
    · exact .inr (.inl (unslashed_subset _ hname))
    · exact .inr (.inr hname)

/-- A file name is its stem and its extension. -/
theorem stem_append_extension (p : Path) : p.stem ++ p.extension = p.filename := by
  unfold stem extension
  split
  · exact List.append_nil _
  · exact List.take_append_drop _ p.filename

end Append

/-! ## Down and up -/

section Below

variable {p : Path} {names others : List Name} {name : Name}

theorem unslashed_concat (h : name ≠ []) (names : List Name) :
    unslashed (names ++ [name]) = names ++ [name] := by
  unfold unslashed
  rw [List.getLast?_concat, if_neg fun heq => h (Option.some.inj heq)]

theorem unslashed_slash (names : List Name) : unslashed (names ++ [[]]) = names := by
  unfold unslashed
  rw [List.getLast?_concat, if_pos rfl, List.dropLast_concat]

/-- There are two ways to write a path that ends where its names do. -/
theorem unslashed_cases (names : List Name) :
    names = unslashed names ∨ names = unslashed names ++ [[]] := by
  rcases List.eq_nil_or_concat' names with hnil | ⟨front, last, hconcat⟩
  · rw [hnil]
    exact .inl rfl
  · rw [hconcat]
    obtain rfl | hlast := eq_or_ne last []
    · rw [unslashed_slash]
      exact .inr rfl
    · rw [unslashed_concat hlast]
      exact .inl rfl

/-- Where a list is its unslashed names, no slash is at its end. -/
theorem unslashed_of_forall (h : ∀ name ∈ names, name ≠ []) : unslashed names = names :=
  if_neg fun hlast => h [] (List.mem_of_getLast? hlast) rfl

theorem append_name (p : Path) (name : Name) : p.append ⟨false, [name]⟩ = p.below [name] := by
  unfold Path.append Path.below unslashed
  dsimp only
  rw [if_neg Bool.false_ne_true, if_neg (List.cons_ne_nil name []),
    if_neg (List.cons_ne_nil name [])]
  split <;> rfl

theorem below_of_ne_nil (p : Path) (h : names ≠ []) :
    p.below names = { p with names := unslashed p.names ++ names } := if_neg h

/-- Below what is below. -/
theorem below_below (p : Path) (hname : name ≠ []) (names : List Name) :
    (p.below [name]).below names = p.below (name :: names) := by
  cases names with
  | nil => rfl
  | cons next names =>
    rw [below_of_ne_nil p (List.cons_ne_nil name []), below_of_ne_nil p (List.cons_ne_nil name _),
      below_of_ne_nil _ (List.cons_ne_nil next names), unslashed_concat hname, List.append_assoc]
    rfl

/-- What is below a path is not the path. -/
theorem below_ne_self (hne : names ≠ []) (h : ∀ name ∈ names, name ≠ []) : p.below names ≠ p := by
  intro heq
  rw [below_of_ne_nil p hne] at heq
  have hnames : unslashed p.names ++ names = p.names := congrArg Path.names heq
  unfold unslashed at hnames
  split at hnames
  · rename_i hlast
    obtain ⟨front, last, hfront⟩ := List.eq_nil_or_concat' names |>.resolve_left hne
    have hslash : p.names.getLast? = some last := by
      rw [← hnames, hfront, ← List.append_assoc, List.getLast?_concat]
    rw [hlast] at hslash
    refine h last ?_ (Option.some.inj hslash).symm
    rw [hfront]
    exact List.mem_append_right _ (List.mem_singleton_self last)
  · exact hne (List.append_right_eq_self.mp hnames)

/-- Different names are different paths. -/
theorem below_injective (h : ∀ name ∈ names, name ≠ []) (hothers : ∀ name ∈ others, name ≠ [])
    (heq : p.below names = p.below others) : names = others := by
  by_cases hnames : names = []
  · subst hnames
    by_contra hne
    exact below_ne_self (Ne.symm hne) hothers heq.symm
  · by_cases hnil : others = []
    · subst hnil
      exact absurd heq (below_ne_self hnames h)
    · rw [below_of_ne_nil p hnames, below_of_ne_nil p hnil] at heq
      exact List.append_cancel_left (congrArg Path.names heq)

end Below

/-- What is found first from some names upwards. -/
def upward {α : Type*} (f : List Name → Option α) (names : List Name) : Option α :=
  names.inits.reverse.findSome? f

theorem upward_nil {α : Type*} (f : List Name → Option α) : upward f [] = f [] := by
  unfold upward
  simp

theorem upward_concat {α : Type*} (f : List Name → Option α) (names : List Name) (name : Name) :
    upward f (names ++ [name]) = (f (names ++ [name])).or (upward f names) := by
  unfold upward
  rw [List.inits_append]
  simp [List.findSome?_cons]
  cases f (names ++ [name]) <;> rfl

theorem upward_congr {α : Type*} {f g : List Name → Option α} {names : List Name}
    (h : ∀ front, front <+: names → f front = g front) : upward f names = upward g names := by
  induction names using List.reverseRecOn with
  | nil => rw [upward_nil, upward_nil, h [] (List.prefix_refl _)]
  | append_singleton front last ih =>
    rw [upward_concat, upward_concat, h _ (List.prefix_refl _),
      ih fun other hother => h other (hother.trans (List.prefix_append _ _))]

/-- Where nothing is found among the last names, only the others count. -/
theorem upward_append {α : Type*} {f : List Name → Option α} {names : List Name}
    (others : List Name)
    (h : ∀ front, front ≠ [] → front <+: others → f (names ++ front) = none) :
    upward f (names ++ others) = upward f names := by
  induction others using List.reverseRecOn with
  | nil => rw [List.append_nil]
  | append_singleton front last ih =>
    rw [← List.append_assoc, upward_concat, List.append_assoc,
      h (front ++ [last]) (List.append_ne_nil_of_right_ne_nil _ (List.cons_ne_nil _ _))
        (List.prefix_refl _)]
    exact ih fun other hne hbegins => h other hne (hbegins.trans (List.prefix_append _ _))

/-- What is found is from the nearest names that have something, or no names have any. -/
theorem upward_cases {α : Type*} (f : List Name → Option α) (names : List Name) :
    (∃ front value, front <+: names ∧ f front = some value ∧ upward f names = some value ∧
      ∀ other, other <+: names → front.length < other.length → f other = none) ∨
    (upward f names = none ∧ ∀ other, other <+: names → f other = none) := by
  induction names using List.reverseRecOn with
  | nil =>
    rw [upward_nil]
    cases hvalue : f [] with
    | some value =>
      refine .inl ⟨[], value, List.prefix_refl _, hvalue, rfl, fun other hother hlonger => ?_⟩
      rw [List.prefix_nil.mp hother] at hlonger
      exact absurd hlonger (Nat.lt_irrefl _)
    | none =>
      refine .inr ⟨rfl, fun other hother => ?_⟩
      rw [List.prefix_nil.mp hother, hvalue]
  | append_singleton names name ih =>
    rw [upward_concat]
    cases hvalue : f (names ++ [name]) with
    | some value =>
      refine .inl ⟨names ++ [name], value, List.prefix_refl _, hvalue, rfl, ?_⟩
      exact fun other hother hlonger => absurd hother.length_le (Nat.not_le.mpr hlonger)
    | none =>
      rw [Option.none_or]
      rcases ih with ⟨front, value, hfront, hfound, hupward, hnearer⟩ | ⟨hupward, hnothing⟩
      · refine .inl ⟨front, value, hfront.trans (List.prefix_append _ _), hfound, hupward, ?_⟩
        intro other hother hlonger
        rcases List.prefix_concat_iff.mp hother with rfl | hbegins
        · exact hvalue
        · exact hnearer other hbegins hlonger
      · refine .inr ⟨hupward, fun other hother => ?_⟩
        rcases List.prefix_concat_iff.mp hother with rfl | hbegins
        · exact hvalue
        · exact hnothing other hbegins

/-! ## Normal form -/

/-- A name that stands for an entry of a directory: not empty, and no dots. -/
def Plain (name : Name) : Prop := name ≠ [] ∧ name ≠ dot ∧ name ≠ dotdot

instance (name : Name) : Decidable (Plain name) :=
  inferInstanceAs (Decidable (name ≠ [] ∧ name ≠ dot ∧ name ≠ dotdot))

/-- A path from the root directory in normal form: plain names, perhaps with a slash behind them. -/
structure Path.Normal (p : Path) : Prop where
  absolute : p.absolute = true
  plain : ∀ name ∈ unslashed p.names, Plain name
  /-- there is no second slash behind the root directory -/
  named : p.names ≠ [[]]

section Normal

variable {p : Path} {names : List Name} {name : Name}

/-- What is left of the names of an absolute path are plain names of it. -/
theorem normalStep_keeps {s : List Name × Bool} (hs : ∀ n ∈ s.1, Plain n ∧ n ∈ names)
    (hname : name ∈ names) : ∀ n ∈ (normalStep true s name).1, Plain n ∧ n ∈ names := by
  unfold normalStep
  split
  · exact hs
  · rename_i hdot
    split
    · split
      · exact hs
      · rename_i last hlast
        have hplain := (hs last (List.mem_of_getLast? hlast)).1
        rw [if_neg hplain.2.2]
        exact fun n hn => hs n (List.dropLast_subset _ hn)
    · rename_i hdots
      intro n hn
      rcases List.mem_append.mp hn with hn | hn
      · exact hs n hn
      · obtain rfl := List.mem_singleton.mp hn
        exact ⟨⟨(not_or.mp hdot).1, (not_or.mp hdot).2, hdots⟩, hname⟩

theorem normalFold_keeps (names : List Name) :
    ∀ n ∈ (names.foldl (normalStep true) ([], false)).1, Plain n ∧ n ∈ names :=
  List.foldlRecOn (motive := fun s : List Name × Bool => ∀ n ∈ s.1, Plain n ∧ n ∈ names)
    names (normalStep true) (fun _ hn => absurd hn List.not_mem_nil)
    fun _ hs _ hname => normalStep_keeps hs hname

/-- The normal form of an absolute path, and that its names are names of the path. -/
theorem lexicallyNormal_spec (h : p.absolute = true) :
    p.lexicallyNormal.absolute = true ∧ p.lexicallyNormal.names ≠ [[]] ∧
      ∀ name ∈ unslashed p.lexicallyNormal.names, Plain name ∧ name ∈ p.names := by
  have hnonempty : p.isEmpty = false := by
    unfold Path.isEmpty
    rw [h]
    rfl
  have hkeeps := normalFold_keeps p.names
  unfold Path.lexicallyNormal
  rw [if_neg (Bool.not_eq_true _ ▸ hnonempty)]
  refine ⟨h, ?_⟩
  dsimp only
  rw [h]
  generalize p.names.foldl (normalStep true) ([], false) = s at hkeeps
  have hunslashed : unslashed s.1 = s.1 := unslashed_of_forall fun n hn => (hkeeps n hn).1.1
  unfold normalNames
  split
  · exact ⟨fun hnil => (nomatch hnil), fun name hname => absurd hname List.not_mem_nil⟩
  · rename_i hne
    split
    · rw [unslashed_slash]
      exact ⟨fun heq => hne (List.append_left_eq_self.mp heq), hkeeps⟩
    · rw [hunslashed]
      refine ⟨fun heq => ?_, hkeeps⟩
      rw [heq] at hkeeps
      exact (hkeeps [] (List.mem_singleton_self [])).1.1 rfl

theorem lexicallyNormal_normal (h : p.absolute = true) : p.lexicallyNormal.Normal where
  absolute := (lexicallyNormal_spec h).1
  plain := fun name hname => ((lexicallyNormal_spec h).2.2 name hname).1
  named := (lexicallyNormal_spec h).2.1

theorem lexicallyNormal_slashless (h : p.absolute = true) (hslash : ∀ name ∈ p.names, 47 ∉ name) :
    ∀ name ∈ p.lexicallyNormal.names, 47 ∉ name := by
  intro name hname
  have hnames := (lexicallyNormal_spec h).2.2
  rcases unslashed_cases p.lexicallyNormal.names with heq | heq
  · rw [heq] at hname
    exact hslash name (hnames name hname).2
  · rw [heq] at hname
    rcases List.mem_append.mp hname with hname | hname
    · exact hslash name (hnames name hname).2
    · rw [List.mem_singleton.mp hname]
      exact List.not_mem_nil

/-- All names but the last are plain. -/
theorem Path.Normal.plain_dropLast (h : p.Normal) : ∀ name ∈ p.names.dropLast, Plain name := by
  intro name hname
  apply h.plain name
  unfold unslashed
  split
  · exact hname
  · exact List.dropLast_subset _ hname

/-- A path with a file name has no slash at its end. -/
theorem unslashed_of_hasFilename (h : p.hasFilename = true) : unslashed p.names = p.names := by
  refine if_neg fun hlast => ?_
  unfold Path.hasFilename Path.filename at h
  rw [List.getLastD_eq_getLast?, hlast] at h
  exact of_decide_eq_true h rfl

/-- A slash behind a path is no name. -/
theorem unslashed_append_slash (p : Path) :
    unslashed (p.append ⟨false, []⟩).names = unslashed p.names := by
  unfold Path.append
  dsimp only
  rw [if_neg Bool.false_ne_true, if_pos rfl]
  split
  · rename_i hfilename
    rw [unslashed_slash, unslashed_of_hasFilename hfilename]
  · rfl

theorem dropLast_append_slash (p : Path) :
    (p.append ⟨false, []⟩).names.dropLast = unslashed p.names := by
  unfold Path.append
  dsimp only
  rw [if_neg Bool.false_ne_true, if_pos rfl]
  split
  · rename_i hfilename
    rw [List.dropLast_concat, unslashed_of_hasFilename hfilename]
  · rename_i hfilename
    have hname : p.names.getLastD [] = [] := not_not.mp fun hne => hfilename (decide_eq_true hne)
    rcases List.eq_nil_or_concat' p.names with hnil | ⟨front, last, hconcat⟩
    · rw [hnil]
      rfl
    · rw [hconcat, List.getLastD_concat] at hname
      rw [hconcat, hname, List.dropLast_concat, unslashed_slash]

/-- A slash behind a path in normal form. -/
theorem Path.Normal.slash (h : p.Normal) : (p.append ⟨false, []⟩).Normal := by
  refine ⟨append_absolute h.absolute, ?_, ?_⟩
  · rw [unslashed_append_slash]
    exact h.plain
  · unfold Path.append
    dsimp only
    rw [if_neg Bool.false_ne_true, if_pos rfl]
    split
    · rename_i hfilename
      intro heq
      have hnil : p.names = [] := List.append_left_eq_self.mp heq
      unfold Path.hasFilename Path.filename at hfilename
      rw [hnil] at hfilename
      exact of_decide_eq_true hfilename rfl
    · exact h.named

/-- The names of what the path is a prefix of, without the slashes at their ends. -/
theorem unslashed_prefix {others : List Name} (h : ∀ name ∈ others.dropLast, name ≠ [])
    (hbegins : names <+: others) : unslashed names <+: unslashed others := by
  obtain ⟨rest, rfl⟩ := hbegins
  rcases List.eq_nil_or_concat' rest with rfl | ⟨front, last, rfl⟩
  · rw [List.append_nil]
  · rw [← List.append_assoc, List.dropLast_concat] at h
    have hnames : unslashed names = names :=
      unslashed_of_forall fun n hn => h n (List.mem_append_left _ hn)
    rw [hnames, ← List.append_assoc]
    unfold unslashed
    split
    · rw [List.dropLast_concat]
      exact List.prefix_append _ _
    · exact (List.prefix_append _ _).trans (List.prefix_append _ _)

end Normal

end Algiz.Lib
