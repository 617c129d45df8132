import ChatReactor.Buffer
import ChatReactor.Lib.Ring

/-!
# The Sudoku solver (`excercises/sudoku/sudoku.cc`)

Dancing links: a column for each empty cell and for each digit missing in a row, column or box, a row of
four nodes for each digit that fits a cell.

| here | there |
| --- | --- |
| `Nodes.horiz` | `Node::right` (`next`) and `Node::left` (`prev`) |
| `Nodes.vert` | `Node::down` (`next`) and `Node::up` (`prev`) |
| a node | its index in `nodes_`; `root_` is `0` |
| `SudokuSolver` | the members of the class; `inout` is the caller's board |
| `Links.insertBefore` | the four assignments of `put_left` and `put_up` |
| `Links.unlink`, `relink` | the two assignments in `cover` and in `uncover` |
| `follow` | the `for` loops along a ring |

The result `none` is a failed `assert`, or a loop along a ring that has taken more than `kMaxNodes` steps
and can only go on for ever.
-/

namespace ChatReactor

def kCells : Nat := 81
def kMaxNodes : Nat := 1 + 81 * 4 + 9 * 9 * 9 * 4
def kRow : Nat := 100
def kCol : Nat := 200
def kBox : Nat := 300

/-- The array `nodes_`, field by field. -/
structure Nodes where
  horiz : Links Nat
  vert : Links Nat
  col : Nat → Nat
  name : Nat → Nat
  size : Nat → Int

namespace Nodes

def left (m : Nodes) (p : Nat) : Nat := m.horiz.prev p
def right (m : Nodes) (p : Nat) : Nat := m.horiz.next p
def up (m : Nodes) (p : Nat) : Nat := m.vert.prev p
def down (m : Nodes) (p : Nat) : Nat := m.vert.next p

/-- `root_` -/
def root : Nat := 0

/-- `memset` to zero, then all four links to the node itself. -/
def clear (m : Nodes) (p : Nat) : Nodes where
  horiz := m.horiz.fresh p
  vert := m.vert.fresh p
  col := Function.update m.col p p
  name := Function.update m.name p 0
  size := Function.update m.size p 0

def putLeft (m : Nodes) (old nnew : Nat) : Nodes := { m with horiz := m.horiz.insertBefore old nnew }

def putUp (m : Nodes) (old nnew : Nat) : Nodes :=
  { m with vert := m.vert.insertBefore old nnew
           size := Function.update m.size old (m.size old + 1)
           col := Function.update m.col nnew old }

/-- The body of the inner loop of `cover`. -/
def hide (m : Nodes) (j : Nat) : Nodes :=
  { m with vert := m.vert.unlink j, size := Function.update m.size (m.col j) (m.size (m.col j) - 1) }

/-- The body of the inner loop of `uncover`. -/
def unhide (m : Nodes) (j : Nat) : Nodes :=
  { m with size := Function.update m.size (m.col j) (m.size (m.col j) + 1), vert := m.vert.relink j }

/-- `for (p = start; p != stop; p = next(p))`; `none` if that does not end. -/
def forEach (m : Nodes) (next : Nodes → Nat → Nat) (stop : Nat) (body : Nodes → Nat → Option Nodes) : Option Nodes :=
  follow next stop body (kMaxNodes + 1) (next m stop) m

def cover (m : Nodes) (c : Nat) : Option Nodes :=
  { m with horiz := m.horiz.unlink c }.forEach down c fun m row => m.forEach right row fun m j => some (m.hide j)

def uncover (m : Nodes) (c : Nat) : Option Nodes :=
  (m.forEach up c fun m row => m.forEach left row fun m j => some (m.unhide j)).map fun m =>
    { m with horiz := m.horiz.relink c }

/-- The loop of `get_min_column`, with its two variables. -/
def minLoop (m : Nodes) : Nat → (c cc : Nat) → (minSize : Int) → Option Nat
  | 0, _, _, _ => none
  | fuel + 1, c, cc, minSize =>
    if cc = root then some c
    else if minSize > m.size cc then
      if m.size cc ≤ 1 then some cc else minLoop m fuel cc (m.right cc) (m.size cc)
    else minLoop m fuel c (m.right cc) minSize

def getMinColumn (m : Nodes) : Option Nat :=
  let c := m.right root
  if m.size c > 1 then minLoop m (kMaxNodes + 1) c (m.right c) (m.size c) else some c

/-- The `while` loop of `solve`: go round the row until cell and value are known. -/
def readRow (m : Nodes) : Nat → (n : Nat) → (cell val : Int) → Option (Int × Int)
  | 0, _, _, _ => none
  | fuel + 1, n, cell, val =>
    if cell = -1 ∨ val = -1 then
      if m.name n < 100 then readRow m fuel (m.right n) (m.name n) val
      else readRow m fuel (m.right n) cell (m.name n % 10 : Nat)
    else some (cell, val)

end Nodes

structure SudokuSolver where
  inout : Nat → Int
  columns : Nat → Option Nat
  stack : List Nat
  nodes : Nodes
  curNode : Nat

namespace SudokuSolver

def newColumn (s : SudokuSolver) (n : Nat) : Option (Nat × SudokuSolver) := do
  check (s.curNode < kMaxNodes)
  let m := s.nodes.clear s.curNode
  some (s.curNode, { s with nodes := { m with name := Function.update m.name s.curNode n }, curNode := s.curNode + 1 })

def appendColumn (s : SudokuSolver) (n : Nat) : Option SudokuSolver := do
  check (s.columns n = none)
  let (c, s) ← s.newColumn n
  some { s with nodes := s.nodes.putLeft Nodes.root c, columns := Function.update s.columns n (some c) }

def newRow (s : SudokuSolver) (col : Nat) : Option (Nat × SudokuSolver) := do
  let c ← s.columns col
  check (s.curNode < kMaxNodes)
  let r := s.curNode
  let m := s.nodes.clear r
  let m := { m with name := Function.update m.name r col }
  some (r, { s with nodes := m.putUp c r, curNode := s.curNode + 1 })

def getRowCol (row val : Nat) : Nat := kRow + row * 10 + val
def getColCol (col val : Nat) : Nat := kCol + col * 10 + val
def getBoxCol (box val : Nat) : Nat := kBox + box * 10 + val

/-- The arrays `rows`, `cols` and `boxes` of the constructor: which values a unit has. -/
structure Seen where
  rows : Nat → Int → Bool
  cols : Nat → Int → Bool
  boxes : Nat → Int → Bool

def rowOf (i : Nat) : Nat := i / 9
def colOf (i : Nat) : Nat := i % 9
def boxOf (i : Nat) : Nat := rowOf i / 3 * 3 + colOf i / 3

/-- `a[u][val] = true` -/
def mark (a : Nat → Int → Bool) (u : Nat) (val : Int) : Nat → Int → Bool :=
  Function.update a u (Function.update (a u) val true)

/-- The first loop of the constructor. -/
def seen (board : Nat → Int) : Seen :=
  (List.range kCells).foldl (fun a i =>
      { rows := mark a.rows (rowOf i) (board i)
        cols := mark a.cols (colOf i) (board i)
        boxes := mark a.boxes (boxOf i) (board i) })
    ⟨fun _ _ => false, fun _ _ => false, fun _ _ => false⟩

def appendColumnUnless (s : SudokuSolver) (b : Bool) (n : Nat) : Option SudokuSolver :=
  if b then some s else s.appendColumn n

/-- One candidate: four nodes in a row. -/
def addCandidate (s : SudokuSolver) (i v : Nat) : Option SudokuSolver := do
  let (n0, s) ← s.newRow i
  let (nr, s) ← s.newRow (getRowCol (rowOf i) v)
  let (nc, s) ← s.newRow (getColCol (colOf i) v)
  let (nb, s) ← s.newRow (getBoxCol (boxOf i) v)
  some { s with nodes := ((s.nodes.putLeft n0 nr).putLeft n0 nc).putLeft n0 nb }

/-- `v = 1, ..., 9` -/
def values : List Nat := List.range' 1 9

/-- The second and the third loop of the constructor. -/
def appendColumns (a : Seen) (s : SudokuSolver) : Option SudokuSolver := do
  let s ← (List.range kCells).foldlM (fun s i => if s.inout i = 0 then s.appendColumn i else some s) s
  (List.range 9).foldlM (fun s i => values.foldlM (fun s (v : Nat) => do
    let s ← s.appendColumnUnless (a.rows i v) (getRowCol i v)
    let s ← s.appendColumnUnless (a.cols i v) (getColCol i v)
    s.appendColumnUnless (a.boxes i v) (getBoxCol i v)) s) s

/-- The fourth loop of the constructor. -/
def addCandidates (a : Seen) (s : SudokuSolver) : Option SudokuSolver :=
  (List.range kCells).foldlM (fun s i =>
    if s.inout i = 0 then
      values.foldlM (fun s (v : Nat) =>
        if a.rows (rowOf i) v || a.cols (colOf i) v || a.boxes (boxOf i) v then some s else s.addCandidate i v) s
    else some s) s

/-- The members before the constructor's body; `nodes_` is not initialised there. -/
def blank (board : Nat → Int) : SudokuSolver where
  inout := board
  columns _ := none
  stack := []
  nodes := ⟨⟨fun _ => 0, fun _ => 0⟩, ⟨fun _ => 0, fun _ => 0⟩, fun _ => 0, fun _ => 0, fun _ => 0⟩
  curNode := 0

/-- The constructor. -/
def new (board : Nat → Int) : Option SudokuSolver := do
  let (_, s) ← (blank board).newColumn 0
  let a := seen board
  addCandidates a (← appendColumns a s)

/-- What `solve` does with its stack when no column is left. -/
def writeBack (s : SudokuSolver) : Option SudokuSolver :=
  s.stack.foldlM (fun s n => do
    let (cell, val) ← s.nodes.readRow (kMaxNodes + 1) n (-1) (-1)
    some { s with inout := Function.update s.inout cell.toNat val }) s

/-- The `for` loop of `solve`, from `row` on, and what follows it. -/
def tryRows (solve : SudokuSolver → Option (Bool × SudokuSolver)) (col : Nat) :
    Nat → (row : Nat) → SudokuSolver → Option (Bool × SudokuSolver)
  | 0, _, _ => none
  | fuel + 1, row, s =>
    if row = col then do
      let m ← s.nodes.uncover col
      some (false, { s with nodes := m })
    else do
      let m ← s.nodes.forEach Nodes.right row fun m j => m.cover (m.col j)
      let (found, t) ← solve { s with stack := s.stack ++ [row], nodes := m }
      if found then some (true, t)
      else do
        let m ← t.nodes.forEach Nodes.left row fun m j => m.uncover (m.col j)
        tryRows solve col fuel (m.down row) { t with stack := t.stack.dropLast, nodes := m }

def solve : Nat → SudokuSolver → Option (Bool × SudokuSolver)
  | 0, _ => none
  | fuel + 1, s =>
    if s.nodes.left Nodes.root = Nodes.root then s.writeBack.map fun t => (true, t)
    else do
      let col ← s.nodes.getMinColumn
      let m ← s.nodes.cover col
      tryRows (solve fuel) col (kMaxNodes + 1) (m.down col) { s with nodes := m }

end SudokuSolver

/-- `char` to `int`: a `char` is signed. -/
def charValue (c : UInt8) : Int := c.toInt8.toInt

def kNoSolution : List UInt8 := "NoSolution".toList.map fun c => UInt8.ofNat c.toNat

/-- `solveSudoku` -/
def solveSudoku (puzzle : List UInt8) : Option (List UInt8) := do
  check (puzzle.length = kCells)
  let board : Nat → Int := fun i => charValue (puzzle.getD i 0) - 48
  if (List.range kCells).all fun i => 0 ≤ board i ∧ board i ≤ 9 then do
    let (found, s) ← (← SudokuSolver.new board).solve (kMaxNodes + 1)
    some (if found then (List.range kCells).map fun i => UInt8.ofInt (s.inout i + 48) else kNoSolution)
  else some kNoSolution

end ChatReactor
