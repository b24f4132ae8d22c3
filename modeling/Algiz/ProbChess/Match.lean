/-
  `Match`, its three classes and what a move does to it.

  `rand()` is read from a list of the numbers it will return. An operation that asks for more
  numbers than there are gives `none`: it has not returned yet. The loops that roll again until
  somebody can move, and the recursion `makeMove` -> `afterMove` -> `makeMove`, take two numbers at
  least each time around, so a bound of one more than there are numbers is no bound.

  What is sent to the players is left out. `end` does two things: it marks the match as over and it
  takes the match out of the two registries of the plugin. The second is
  `ProbabilityChess.unregister`, for which the plugin looks at `isOver`.
-/
import Mathlib.Data.List.Sort
import Algiz.ProbChess.Players

namespace Algiz.ProbChess

/-- A participant: `HumanPlayer` with its client's number, or a computer player. -/
inductive Player where
  | human (clientID : Int)
  | ai (player : AIPlayer)
  deriving DecidableEq

/-- `Player::Role`. A `Player &` of a match is what stands in one of the two places. -/
inductive Role where
  | host | guest
  deriving DecidableEq

/-- `HumanMatch`, `AIMatch` or `NullMatch` -/
inductive MatchKind where
  | human | ai | null
  deriving DecidableEq

/-- `Match` -/
structure Match where
  kind : MatchKind
  matchID : Bytes
  noSkip : Bool
  host : Option Player
  guest : Option Player
  currentTurn : Color
  hostColor : Color
  board : Board
  winnerColor : Option Color
  columnCount : Int
  /-- a `std::set`: in ascending order -/
  columns : List Int
  started : Bool
  /-- `over` -/
  isOver : Bool
  captured : List Piece
  spectators : List Int

namespace Match

/-- The constructor. A `NullMatch` starts with its host's color. -/
def new (kind : MatchKind) (matchID : Bytes) (noSkip : Bool) (columnCount : Int) (hostColor : Color)
    (guest : Option Player) (address : Nat) : Match where
  kind := kind
  matchID := matchID
  noSkip := noSkip
  host := none
  guest := guest
  currentTurn := if kind = .null then hostColor else .white
  hostColor := hostColor
  board := Board.placePieces { self := address, pieces := fun _ => none }
  winnerColor := none
  columnCount := columnCount
  columns := []
  started := false
  isOver := false
  captured := []
  spectators := []

/-! ## Participants -/

/-- `isActive` -/
def isActive (m : Match) : Bool :=
  match m.kind with
  | .human => m.host.isSome || m.guest.isSome
  | .ai => m.host.isSome
  | .null => m.host.isSome

/-- `isReady` -/
def isReady (m : Match) : Bool :=
  match m.kind with
  | .human => m.host.isSome && m.guest.isSome
  | .ai => m.host.isSome
  | .null => m.host.isSome

/-- `hasClient`. An `AIMatch` and a `NullMatch` look at the host only. -/
def hasClient (m : Match) (client : Int) : Bool :=
  match m.kind with
  | .human => m.host = some (.human client) || m.guest = some (.human client)
  | .ai => m.host = some (.human client)
  | .null => m.host = some (.human client)

/-- `getPlayer`; `none` is "Couldn't find player for connection". -/
def getPlayer (m : Match) (client : Int) : Option Role :=
  if m.host = some (.human client) then some .host
  else if m.guest = some (.human client) then some .guest
  else none

/-- `currentPlayer` -/
def currentPlayer (m : Match) : Role := if m.currentTurn = m.hostColor then .host else .guest

/-- What stands in a place. -/
def player (m : Match) : Role → Option Player
  | .host => m.host
  | .guest => m.guest

/-- `end`, as far as the match itself goes. -/
def endMatch (m : Match) : Match := { m with isOver := true }

/-- How `disconnect` begins: the client is taken out of the three places it can be in. -/
def forget (m : Match) (client : Int) : Match :=
  { m with
    spectators := m.spectators.filter (· ≠ client)
    host := if m.host = some (.human client) then none else m.host
    guest := if m.guest = some (.human client) then none else m.guest }

/-- `disconnect` -/
def disconnect (m : Match) (client : Int) : Match :=
  let m := m.forget client
  if !m.isActive then m.endMatch else m

/-! ## Rolling -/

/-- Two dice, and how they are wrapped to the width of the board: eight is subtracted as long as
    the sum is more than eight, and then one. -/
def dice (a b : Nat) : Int := Int.ofNat ((a % 6 + 1 + (b % 6 + 1) - 1) % 8)

/-- `do … while (columns.contains(column))` -/
def rollColumn (columns : List Int) : List Nat → Option (Int × List Nat)
  | a :: b :: random =>
    if columns.contains (dice a b) then rollColumn columns random else some (dice a b, random)
  | _ => none

/-- The loop of `roll`, for that many columns more. -/
def rollColumns : Nat → List Int → List Nat → Option (List Int × List Nat)
  | 0, columns, random => some (columns, random)
  | n + 1, columns, random =>
    (rollColumn columns random).bind fun (column, random) =>
      rollColumns n (columns.orderedInsert (· ≤ ·) column) random

/-- `roll` -/
def roll (m : Match) (random : List Nat) : Option (Match × List Nat) :=
  (rollColumns m.columnCount.toNat [] random).map fun (columns, random) =>
    ({ m with columns := columns }, random)

/-- Can this piece move, if it is the turn of its color? -/
def pieceCanMove (m : Match) (s : Square) : Bool :=
  (m.board.pieceAt s).any fun piece =>
    piece.color = m.currentTurn && !(m.board.canMoveTo piece).isEmpty

/-- `canMove` -/
def canMove (m : Match) : Bool :=
  m.columns.any fun column => (List.range 8).any fun row => m.pieceCanMove ⟨Int.ofNat row, column⟩

/-- `anyCanMove` -/
def anyCanMove (m : Match) : Bool :=
  (List.range 8).any fun column => (List.range 8).any fun row =>
    m.pieceCanMove ⟨Int.ofNat row, Int.ofNat column⟩

/-- `invertTurn` -/
def invertTurn (m : Match) : Match := { m with currentTurn := otherColor m.currentTurn }

/-- A loop that rolls until a piece can move. `turn` is done before each roll. -/
def rollUntilCanMove (turn : Match → Match) : Nat → Match → List Nat → Option (Match × List Nat)
  | 0, _, _ => none
  | fuel + 1, m, random =>
    ((turn m).roll random).bind fun (m, random) =>
      if m.canMove then some (m, random) else rollUntilCanMove turn fuel m random

/-- `do roll(); while (!canMove());` -/
def rerollUntilCanMove (m : Match) (random : List Nat) : Option (Match × List Nat) :=
  rollUntilCanMove id (random.length + 1) m random

/-- `afterMove` of `HumanMatch`, and how `afterMove` of `AIMatch` begins. -/
def nextTurn (m : Match) (random : List Nat) : Option (Match × List Nat) :=
  if m.noSkip then m.invertTurn.rerollUntilCanMove random
  else rollUntilCanMove invertTurn (random.length + 1) m random

/-! ## Moving -/

/-- A pawn of the color on the square becomes a queen. -/
def promote (color : Color) (b : Board) (s : Square) : Board :=
  match b.pieceAt s with
  | none => b
  | some piece =>
    if piece.type = .pawn ∧ piece.color = color then (b.erase piece).set .queen color s else b

/-- One row of `checkPawns`. -/
def promoteRow (color : Color) (row : Int) (b : Board) : Board :=
  (List.range 8).foldl (fun b column => promote color b ⟨row, Int.ofNat column⟩) b

/-- `checkPawns` -/
def checkPawns (b : Board) : Board := promoteRow .black 7 (promoteRow .white 0 b)

/-- A human player whom `hasClient` does not know. -/
def isStranger (m : Match) (player : Role) : Bool :=
  match m.player player with
  | some (.human client) => !m.hasClient client
  | _ => false

/-- The checks of `makeMove`, in its order. What passes them is the piece that moves and what
    stands where it moves. -/
def checkMove (m : Match) (player : Role) (move : Move) : Except Bytes (Piece × Option Piece) :=
  if !m.isReady then .error (ascii "Match is missing a participant.")
  else if m.winnerColor.isSome then .error (ascii "Match already over.")
  else if m.isStranger player then .error (ascii "Invalid connection.")
  else if player ≠ m.currentPlayer then .error (ascii "Invalid turn.")
  else match m.board.pieceAt move.fromSquare with
    | none => .error (ascii "No source piece.")
    | some piece =>
      if piece.color ≠ m.currentTurn then .error (ascii "Not your piece.")
      else if move.fromSquare = move.toSquare then
        .error (ascii "Move must actually move a piece.")
      else if !m.columns.contains move.fromSquare.column then .error (ascii "Incorrect column.")
      else if !(m.board.canMoveTo piece).contains move.toSquare then
        .error (ascii "Invalid move.")
      else if (m.board.pieceAt move.toSquare).any fun other => other.color = m.currentTurn then
        .error (ascii "Can't capture one of your own pieces.")
      else .ok (piece, m.board.pieceAt move.toSquare)

/-- The capture in `makeMove`. -/
def capture (m : Match) : Option Piece → Match
  | none => m
  | some piece => { m with captured := m.captured ++ [piece], board := m.board.erase piece }

/-- What `makeMove` does before `afterMove`. Where a king is captured it ends the match, and
    `afterMove` is not called. -/
def play (m : Match) (piece : Piece) (target : Option Piece) (square : Square) : Match :=
  let m := m.capture target
  let m := { m with board := checkPawns (m.board.move piece square) }
  if target.any fun other => other.type = .king then
    { m with winnerColor := some m.currentTurn }.endMatch
  else m

/-- What a call leaves: the match, the random numbers and what was thrown. -/
structure Outcome where
  left : Match
  random : List Nat
  thrown : Option Thrown

/-- `afterMove`; `again` is `makeMove`. -/
def afterMove (again : Match → Role → Move → List Nat → Option Outcome) (m : Match)
    (random : List Nat) : Option Outcome :=
  match m.kind with
  | .human => (m.nextTurn random).map fun (m, random) => ⟨m, random, none⟩
  | .null => (m.rerollUntilCanMove random).map fun (m, random) => ⟨m, random, none⟩
  | .ai =>
    (m.nextTurn random).bind fun (m, random) =>
      if m.currentTurn ≠ m.hostColor ∧ m.isOver = false then
        match m.guest with
        | some (.ai player) =>
          (player.chooseMove m.board m.currentTurn m.columns random).bind
            fun (chosen, board, random) =>
              let m := { m with board := board }
              match chosen with
              | .error thrown => some ⟨m, random, some thrown⟩
              | .ok move => again m .guest move random
        -- the `dynamic_cast` to `AIPlayer *` gives a null pointer
        | _ => none
      else some ⟨m, random, none⟩

/-- `makeMove`, with a bound on its depth. -/
def makeMoveWithin : Nat → Match → Role → Move → List Nat → Option Outcome
  | 0, _, _, _, _ => none
  | fuel + 1, m, player, move, random =>
    match m.checkMove player move with
    | .error what => some ⟨m, random, some (.chessError what)⟩
    | .ok (piece, target) =>
      let m := m.play piece target move.toSquare
      if target.any fun other => other.type = .king then some ⟨m, random, none⟩
      else m.afterMove (makeMoveWithin fuel) random

/-- `makeMove` -/
def makeMove (m : Match) (player : Role) (move : Move) (random : List Nat) : Option Outcome :=
  makeMoveWithin (random.length + 1) m player move random

end Match

open Match

/-! ## What a roll leaves -/

section Rolls

variable {m m' : Match} {random random' : List Nat}

/-- The columns of a roll: as many as asked for, all different, all on the board. -/
structure Rolled (columnCount : Int) (columns : List Int) : Prop where
  length : columns.length = columnCount.toNat
  nodup : columns.Nodup
  range : ∀ column ∈ columns, 0 ≤ column ∧ column < 8

theorem dice_range (a b : Nat) : 0 ≤ dice a b ∧ dice a b < 8 := by
  unfold dice
  simp only [Int.ofNat_eq_natCast]
  omega

theorem rollColumn_spec {columns : List Int} {column : Int}
    (h : rollColumn columns random = some (column, random')) :
    column ∉ columns ∧ 0 ≤ column ∧ column < 8 := by
  fun_induction rollColumn columns random with
  | case1 a b random hmem ih => exact ih h
  | case2 a b random hnot =>
    obtain ⟨rfl, -⟩ := Prod.mk.inj (Option.some.inj h)
    rw [List.contains_iff_mem] at hnot
    exact ⟨hnot, dice_range a b⟩
  | case3 => exact nomatch h

theorem rollColumns_spec {n : Nat} {columns columns' : List Int} (hnodup : columns.Nodup)
    (hrange : ∀ column ∈ columns, 0 ≤ column ∧ column < 8)
    (h : rollColumns n columns random = some (columns', random')) :
    columns'.length = columns.length + n ∧ columns'.Nodup ∧
      ∀ column ∈ columns', 0 ≤ column ∧ column < 8 := by
  induction n generalizing columns random with
  | zero =>
    obtain ⟨rfl, -⟩ := Prod.mk.inj (Option.some.inj h)
    exact ⟨rfl, hnodup, hrange⟩
  | succ n ih =>
    obtain ⟨⟨column, random''⟩, hcolumn, hrest⟩ := Option.bind_eq_some_iff.mp h
    obtain ⟨hnew, hcolumnRange⟩ := rollColumn_spec hcolumn
    have hperm := List.perm_orderedInsert (· ≤ ·) column columns
    have hnodup' : (columns.orderedInsert (· ≤ ·) column).Nodup :=
      hperm.nodup_iff.mpr (List.nodup_cons.mpr ⟨hnew, hnodup⟩)
    have hrange' : ∀ c ∈ columns.orderedInsert (· ≤ ·) column, 0 ≤ c ∧ c < 8 := by
      intro c hc
      rcases List.mem_cons.mp (hperm.mem_iff.mp hc) with rfl | hc
      · exact hcolumnRange
      · exact hrange c hc
    obtain ⟨hlength, hrest⟩ := ih hnodup' hrange' hrest
    refine ⟨?_, hrest⟩
    rw [hlength, hperm.length_eq, List.length_cons]
    omega

/-- A roll changes the columns and nothing else. -/
theorem roll_spec (h : m.roll random = some (m', random')) :
    ∃ columns, m' = { m with columns := columns } ∧ Rolled m.columnCount columns := by
  obtain ⟨⟨columns, random''⟩, hcolumns, heq⟩ := Option.map_eq_some_iff.mp h
  obtain ⟨rfl, -⟩ := heq
  obtain ⟨hlength, hnodup, hrange⟩ :=
    rollColumns_spec List.nodup_nil (fun c hc => absurd hc List.not_mem_nil) hcolumns
  exact ⟨columns, rfl, by rw [hlength, List.length_nil, Nat.zero_add], hnodup, hrange⟩

/-- What every turn and every roll keep holds after the loop, and then a piece can move. -/
theorem rollUntilCanMove_rule {P : Match → Prop} {turn : Match → Match}
    (hturn : ∀ m, P m → P (turn m))
    (hroll : ∀ m columns, P m → Rolled m.columnCount columns → P { m with columns := columns })
    {fuel : Nat} (hm : P m) (h : rollUntilCanMove turn fuel m random = some (m', random')) :
    P m' ∧ Rolled m'.columnCount m'.columns ∧ m'.canMove = true := by
  induction fuel generalizing m random with
  | zero => exact nomatch h
  | succ fuel ih =>
    obtain ⟨⟨rolled, random''⟩, hrolled, hrest⟩ := Option.bind_eq_some_iff.mp h
    dsimp only at hrest
    obtain ⟨columns, rfl, hcolumns⟩ := roll_spec hrolled
    have hkept := hroll _ columns (hturn m hm) hcolumns
    split at hrest
    · rename_i hcan
      obtain ⟨rfl, -⟩ := Prod.mk.inj (Option.some.inj hrest)
      exact ⟨hkept, hcolumns, hcan⟩
    · exact ih hkept hrest

/-- Rolling again and again changes the columns and nothing else, and then a piece can move. -/
theorem rerollUntilCanMove_spec (h : m.rerollUntilCanMove random = some (m', random')) :
    ∃ columns, m' = { m with columns := columns } ∧ Rolled m.columnCount columns ∧
      m'.canMove = true := by
  obtain ⟨⟨columns, rfl⟩, hcolumns, hcan⟩ := rollUntilCanMove_rule
    (P := fun x => ∃ columns, x = { m with columns := columns }) (fun x hx => hx)
    (fun x columns hx _ => by
      obtain ⟨_, rfl⟩ := hx
      exact ⟨columns, rfl⟩) ⟨m.columns, rfl⟩ h
  exact ⟨columns, rfl, hcolumns, hcan⟩

/-- The next turn changes the columns and whose turn it is, and then a piece can move. -/
theorem nextTurn_spec (h : m.nextTurn random = some (m', random')) :
    ∃ turn columns, m' = { m with currentTurn := turn, columns := columns } ∧
      Rolled m.columnCount columns ∧ m'.canMove = true := by
  unfold nextTurn at h
  split at h
  · obtain ⟨columns, rfl, hcolumns, hcan⟩ := rerollUntilCanMove_spec h
    exact ⟨_, columns, rfl, hcolumns, hcan⟩
  · obtain ⟨⟨turn, columns, rfl⟩, hcolumns, hcan⟩ := rollUntilCanMove_rule
      (P := fun x => ∃ turn columns, x = { m with currentTurn := turn, columns := columns })
      (fun x hx => by
        obtain ⟨turn, columns, rfl⟩ := hx
        exact ⟨otherColor turn, columns, rfl⟩)
      (fun x columns hx _ => by
        obtain ⟨turn, _, rfl⟩ := hx
        exact ⟨turn, columns, rfl⟩) ⟨m.currentTurn, m.columns, rfl⟩ h
    exact ⟨turn, columns, rfl, hcolumns, hcan⟩

end Rolls

/-! ## What is accepted -/

section Moves

variable {m : Match} {player : Role} {move : Move} {piece : Piece} {target : Option Piece}

/-- A move that `checkMove` lets pass. -/
structure Accepts (m : Match) (player : Role) (move : Move) (piece : Piece)
    (target : Option Piece) : Prop where
  ready : m.isReady = true
  undecided : m.winnerColor = none
  turn : player = m.currentPlayer
  source : m.board.pieceAt move.fromSquare = some piece
  mine : piece.color = m.currentTurn
  moves : move.fromSquare ≠ move.toSquare
  column : move.fromSquare.column ∈ m.columns
  reaches : move.toSquare ∈ m.board.canMoveTo piece
  target_eq : target = m.board.pieceAt move.toSquare
  theirs : ∀ other, target = some other → other.color ≠ m.currentTurn

theorem checkMove_ok (h : m.checkMove player move = .ok (piece, target)) :
    Accepts m player move piece target := by
  unfold checkMove at h
  split at h
  · exact nomatch h
  rename_i hready
  split at h
  · exact nomatch h
  rename_i hundecided
  split at h
  · exact nomatch h
  split at h
  · exact nomatch h
  rename_i hturn
  split at h
  · exact nomatch h
  rename_i source hsource
  split at h
  · exact nomatch h
  rename_i hmine
  split at h
  · exact nomatch h
  rename_i hmoves
  split at h
  · exact nomatch h
  rename_i hcolumn
  split at h
  · exact nomatch h
  rename_i hreaches
  split at h
  · exact nomatch h
  rename_i htheirs
  obtain ⟨rfl, rfl⟩ := Prod.mk.inj (Except.ok.inj h)
  refine ⟨by simpa using hready, by simpa using hundecided, by simpa using hturn, hsource,
    by simpa using hmine, hmoves, by simpa using hcolumn, by simpa using hreaches, rfl, ?_⟩
  intro other hother heq
  rw [hother, Option.any_some, heq] at htheirs
  exact htheirs (decide_eq_true rfl)

theorem allowed_of_mem {b : Board} {s : Square} (h : s ∈ b.canMoveTo piece) :
    b.allowed piece.color s = true := by
  unfold Board.canMoveTo at h
  exact (List.mem_filter.mp h).2

/-- No move of a piece ends on a piece of its color. -/
theorem color_ne_of_mem {b : Board} {s : Square} {other : Piece} (h : s ∈ b.canMoveTo piece)
    (hother : b.pieceAt s = some other) : other.color ≠ piece.color := by
  have hallowed := allowed_of_mem h
  unfold Board.allowed at hallowed
  rw [hother, Bool.and_eq_true, Option.any_some] at hallowed
  simpa using hallowed.2

theorem onBoard_of_mem {b : Board} {s : Square} (h : s ∈ b.canMoveTo piece) :
    s.onBoard = true := by
  have hallowed := allowed_of_mem h
  unfold Board.allowed at hallowed
  exact (Bool.and_eq_true_iff.mp hallowed).1

/-- A computer player's move is not refused when it is its turn. -/
theorem checkMove_of_hasMove {ai : AIPlayer} (hready : m.isReady = true)
    (hundecided : m.winnerColor = none) (hplayer : m.player player = some (.ai ai))
    (hturn : player = m.currentPlayer) (hmove : HasMove m.board m.currentTurn m.columns move) :
    ∃ piece target, m.checkMove player move = .ok (piece, target) := by
  obtain ⟨piece, hsource, hmine, hcolumn, hreaches⟩ := hmove
  have hmoves : move.fromSquare ≠ move.toSquare := by
    intro heq
    rw [heq] at hsource
    exact color_ne_of_mem hreaches hsource rfl
  have htheirs : ((m.board.pieceAt move.toSquare).any
      fun other => other.color = m.currentTurn) = false := by
    cases htarget : m.board.pieceAt move.toSquare with
    | none => rfl
    | some other =>
      have hne := color_ne_of_mem hreaches htarget
      rw [hmine] at hne
      exact decide_eq_false hne
  refine ⟨piece, m.board.pieceAt move.toSquare, ?_⟩
  have hknown : m.isStranger player = false := by
    unfold isStranger
    rw [hplayer]
  unfold checkMove
  rw [hready, hundecided, hknown, hsource]
  simp [hturn, hmine, hmoves, hcolumn, hreaches, htheirs]

/-- If a piece can move, the player whose turn it is has a move. -/
theorem hasMove_of_canMove (h : m.canMove = true) :
    ∃ move, HasMove m.board m.currentTurn m.columns move := by
  obtain ⟨column, hcolumn, hrows⟩ := List.any_eq_true.mp h
  obtain ⟨row, -, hpiece⟩ := List.any_eq_true.mp hrows
  unfold pieceCanMove at hpiece
  obtain ⟨piece, hsource, hcan⟩ := (Option.any_eq_true _ _).mp hpiece
  rw [Bool.and_eq_true, decide_eq_true_eq] at hcan
  obtain ⟨square, hsquare⟩ : ∃ square, square ∈ m.board.canMoveTo piece := by
    apply List.exists_mem_of_ne_nil
    intro hnil
    rw [hnil] at hcan
    exact Bool.noConfusion hcan.2
  exact ⟨⟨⟨Int.ofNat row, column⟩, square⟩, piece, hsource, hcan.1, hcolumn, hsquare⟩

/-- A turn of the computer: the match goes on, it is not the host's turn, and a piece can move. -/
structure ComputersTurn (m : Match) (ai : AIPlayer) : Prop where
  ready : m.isReady = true
  undecided : m.winnerColor = none
  guest : m.guest = some (.ai ai)
  turn : m.currentTurn ≠ m.hostColor
  canMove : m.canMove = true

/-- What the computer chooses is not refused, and the board is as it was. -/
theorem ComputersTurn.chooses {ai : AIPlayer} {random random' : List Nat}
    (h : ComputersTurn m ai) (hb : WellPlaced m.board)
    {chosen : Except Thrown Move} {board : Board}
    (hchoose : ai.chooseMove m.board m.currentTurn m.columns random =
      some (chosen, board, random')) :
    board = m.board ∧ ∃ move piece target, chosen = .ok move ∧
      m.checkMove .guest move = .ok (piece, target) := by
  obtain ⟨some', hsome⟩ := hasMove_of_canMove h.canMove
  obtain ⟨hboard, move, hmove, hlegal⟩ := AIPlayer.chooseMove_spec hb hchoose hsome
  have hguest : m.player .guest = some (.ai ai) := h.guest
  have hplayer : Role.guest = m.currentPlayer := (if_neg h.turn).symm
  obtain ⟨piece, target, hcheck⟩ :=
    checkMove_of_hasMove h.ready h.undecided hguest hplayer hlegal
  exact ⟨hboard, move, piece, target, hmove, hcheck⟩

/-- The board after the whole move. -/
def boardAfter (m : Match) (piece : Piece) (target : Option Piece) (square : Square) : Board :=
  checkPawns ((m.capture target).board.move piece square)

/-- All that a move changes. It wins the match exactly when it captures a king. -/
theorem play_eq (m : Match) (piece : Piece) (target : Option Piece) (square : Square) :
    ∃ winnerColor isOver, m.play piece target square =
      { m with
        board := boardAfter m piece target square
        captured := (m.capture target).captured
        winnerColor := winnerColor
        isOver := isOver } ∧
      ((target.any (fun other => other.type = .king) = true ∧
          winnerColor = some m.currentTurn ∧ isOver = true) ∨
        (target.any (fun other => other.type = .king) = false ∧
          winnerColor = m.winnerColor ∧ isOver = m.isOver)) := by
  unfold Match.play
  dsimp only
  split
  · rename_i hking
    refine ⟨some m.currentTurn, true, ?_, .inl ⟨hking, rfl, rfl⟩⟩
    cases target <;> rfl
  · rename_i hking
    refine ⟨m.winnerColor, m.isOver, ?_, .inr ⟨Bool.eq_false_of_not_eq_true hking, rfl, rfl⟩⟩
    cases target <;> rfl

end Moves

/-! ## What a call keeps -/

section Calls

variable {P : Match → Prop}

/-- A property that the three steps of a call keep: playing an accepted move, going to another turn
    with other columns, and letting a computer player look for a move on the board. -/
structure Kept (P : Match → Prop) : Prop where
  play : ∀ m player move piece target, P m → Accepts m player move piece target →
    P (m.play piece target move.toSquare)
  rolled : ∀ m turn columns, P m → Rolled m.columnCount columns →
    P { m with currentTurn := turn, columns := columns }
  chosen : ∀ (m : Match) (ai : AIPlayer) random chosen board random', P m → m.canMove = true →
    ai.chooseMove m.board m.currentTurn m.columns random = some (chosen, board, random') →
    P { m with board := board }

/-- `afterMove` keeps what each of its parts keeps. -/
theorem afterMove_rule (hP : Kept P) {again : Match → Role → Move → List Nat → Option Outcome}
    (hagain : ∀ m player move random out, P m → again m player move random = some out → P out.left)
    {m : Match} {random : List Nat} {out : Outcome} (hm : P m)
    (h : m.afterMove again random = some out) : P out.left := by
  have hnext : ∀ {next random'}, m.nextTurn random = some (next, random') →
      P next ∧ next.canMove = true := by
    intro next random' hnext
    obtain ⟨turn, columns, rfl, hcolumns, hcan⟩ := nextTurn_spec hnext
    exact ⟨hP.rolled m turn columns hm hcolumns, hcan⟩
  unfold afterMove at h
  split at h
  case h_1 =>
    obtain ⟨⟨next, random'⟩, hturn, rfl⟩ := Option.map_eq_some_iff.mp h
    exact (hnext hturn).1
  case h_2 =>
    obtain ⟨⟨next, random'⟩, hturn, rfl⟩ := Option.map_eq_some_iff.mp h
    obtain ⟨columns, rfl, hcolumns, -⟩ := rerollUntilCanMove_spec hturn
    exact hP.rolled m m.currentTurn columns hm hcolumns
  case h_3 =>
    obtain ⟨⟨next, random'⟩, hturn, h⟩ := Option.bind_eq_some_iff.mp h
    obtain ⟨hkept, hcan⟩ := hnext hturn
    dsimp only at h
    split at h
    · split at h
      · rename_i ai hguest
        obtain ⟨⟨chosen, board, random''⟩, hchoose, h⟩ := Option.bind_eq_some_iff.mp h
        have hboard := hP.chosen next ai random' chosen board random'' hkept hcan hchoose
        dsimp only at h
        split at h
        · obtain rfl := Option.some.inj h
          exact hboard
        · exact hagain _ _ _ _ _ hboard h
      · exact nomatch h
    · obtain rfl := Option.some.inj h
      exact hkept

/-- `makeMove` keeps what each of its steps keeps, however deep it goes. -/
theorem makeMoveWithin_rule (hP : Kept P) {fuel : Nat} {m : Match} {player : Role} {move : Move}
    {random : List Nat} {out : Outcome} (hm : P m)
    (h : makeMoveWithin fuel m player move random = some out) : P out.left := by
  induction fuel generalizing m player move random out with
  | zero => exact nomatch h
  | succ fuel ih =>
    unfold makeMoveWithin at h
    split at h
    · obtain rfl := Option.some.inj h
      exact hm
    · rename_i piece target hcheck
      have hplayed := hP.play m player move piece target hm (checkMove_ok hcheck)
      dsimp only at h
      split at h
      · obtain rfl := Option.some.inj h
        exact hplayed
      · exact afterMove_rule hP (fun m player move random out hm hagain => ih hm hagain) hplayed h

end Calls

end Algiz.ProbChess
