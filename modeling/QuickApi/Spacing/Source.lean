/-
  QuickApi.Spacing.Source

  The spacing pass of `scripts/format_code.py`: blank lines between sibling
  statements, placed by the line numbers that `ast` and `tokenize` report in a
  list of lines that `str.splitlines` cuts. Both readers of Python text are
  parameters; the walk, the choice of the pairs and the insertion are the
  script's.
-/
import Mathlib.Data.List.Sort
import Mathlib.Data.List.Dedup
import QuickApi.Lib.PythonText
import QuickApi.Lib.SplitLines
import QuickApi.Lib.Weave

namespace QuickApi.Spacing

open QuickApi.Lib

/-- The classes of `ast`: the statements, and of the others those the pass
    names. -/
inductive NodeType where
  | functionDef | asyncFunctionDef | classDef | return_ | delete | assign | typeAlias | augAssign
  | annAssign | for_ | asyncFor | while_ | if_ | with_ | asyncWith | match_ | raise_ | try_
  | tryStar | assert_ | import_ | importFrom | global | nonlocal | expr | pass | break_ | continue_
  | module | constant
  | other (name : String)
  deriving DecidableEq, Repr

/-- `isinstance(item, ast.stmt)` -/
def NodeType.isStmt : NodeType → Bool
  | .module | .constant | .other _ => false
  | _ => true

def assignments : List NodeType := [.assign, .annAssign, .augAssign]

def blocks : List NodeType :=
  [.if_, .for_, .asyncFor, .while_, .with_, .asyncWith, .try_, .tryStar, .match_, .functionDef,
    .asyncFunctionDef, .classDef]

def separated : List NodeType := [.return_, .raise_, .try_, .tryStar]

/-- The classes with a `decorator_list`. -/
def definitions : List NodeType := [.functionDef, .asyncFunctionDef, .classDef]

/-- The lines of a node, counted from 1. `opening` is the line of its first
    token, the `@` of its first decorator when it has one: `ast` does not
    report it and the pass does not read it. Classes without attributes, such
    as `Module`, have a position that nothing reads. -/
structure Position where
  lineno : Nat
  endLineno : Option Nat
  opening : Nat
  deriving DecidableEq, Repr

/-- What a field of a node holds: a node, a list, a string, or another
    constant by its printed form. -/
inductive Value where
  | node (type : NodeType) (position : Position) (fields : List (String × Value))
  | list (items : List Value)
  | str (text : List Char)
  | plain (repr : String)

/-- A node by its parts. -/
structure Node where
  type : NodeType
  position : Position
  fields : List (String × Value)

namespace Value

mutual
/-- `ast.walk(tree)`, depth first: the pass only collects a set. -/
def walk : Value → List Node
  | .node type position fields => ⟨type, position, fields⟩ :: walkFields fields
  | .list items => walkItems items
  | .str _ => []
  | .plain _ => []

def walkFields : List (String × Value) → List Node
  | [] => []
  | (_, value) :: fields => walk value ++ walkFields fields

def walkItems : List Value → List Node
  | [] => []
  | item :: items => walk item ++ walkItems items
end

/-- The item when it is an `ast.stmt`. -/
def statement? : Value → Option Node
  | .node type position fields => if type.isStmt then some ⟨type, position, fields⟩ else none
  | _ => none

/-- `item.lineno` -/
def lineno? : Value → Option Nat
  | .node _ position _ => some position.lineno
  | _ => none

def isStr : Value → Bool
  | .str _ => true
  | _ => false

/-- A piece of the printed form of a tree. -/
inductive Token where
  | type (type : NodeType)
  | field (name : String)
  | opens
  | closes
  | str (text : List Char)
  | plain (repr : String)
  deriving DecidableEq

mutual
/-- `ast.dump(tree, include_attributes=False)`: the printed form, which leaves
    the positions out. -/
def dump : Value → List Token
  | .node type _ fields => .type type :: .opens :: (dumpFields fields ++ [.closes])
  | .list items => .opens :: (dumpItems items ++ [.closes])
  | .str text => [.str text]
  | .plain repr => [.plain repr]

def dumpFields : List (String × Value) → List Token
  | [] => []
  | (name, value) :: fields => .field name :: (dump value ++ dumpFields fields)

def dumpItems : List Value → List Token
  | [] => []
  | item :: items => dump item ++ dumpItems items
end

end Value

/-- `getattr(node, name)` -/
def Node.field (node : Node) (name : String) : Option Value := node.fields.lookup name

/-- The lines of the expressions in `statement.decorator_list`. -/
def Node.decorators (statement : Node) : List Nat :=
  match statement.field "decorator_list" with
  | some (.list items) => items.filterMap Value.lineno?
  | _ => []

/-- `statement_start`: for a definition the least line of it and its decorators'
    expressions. -/
def Node.statementStart (statement : Node) : Nat :=
  if statement.type ∈ definitions then
    statement.decorators.foldl min statement.position.lineno
  else statement.position.lineno

/-- `isinstance(previous, ast.Expr) and isinstance(previous.value, ast.Constant)
    and isinstance(previous.value.value, str)` -/
def Node.isStringExpr (statement : Node) : Bool :=
  statement.type = .expr &&
    match statement.field "value" with
    | some (.node .constant _ fields) => (fields.lookup "value").any Value.isStr
    | _ => false

/-- Two statements that follow each other in one list, with what the pass knows
    of the list. -/
structure Pair where
  parent : NodeType
  field : String
  /-- `previous is statements[0]` -/
  leads : Bool
  previous : Node
  following : Node

/-- `pairwise(statements)` -/
def siblings (parent : NodeType) (field : String) : Bool → List Node → List Pair
  | leads, previous :: following :: rest =>
    ⟨parent, field, leads, previous, following⟩ :: siblings parent field false (following :: rest)
  | _, _ => []

/-- The pairs of one field of a node. -/
def fieldPairs (parent : NodeType) : String × Value → List Pair
  | (field, .list items) => siblings parent field true (items.filterMap Value.statement?)
  | _ => []

/-- The pairs of all statement lists that `ast.walk` comes by. -/
def pairs (tree : Value) : List Pair :=
  tree.walk.flatMap fun node => node.fields.flatMap (fieldPairs node.type)

/-- A `tokenize.COMMENT` token. -/
structure Comment where
  text : List Char
  startLine : Nat
  endLine : Nat
  deriving DecidableEq, Repr

/-- What the pass asks of Python itself; `none` is an exception. -/
structure Library where
  /-- `ast.parse` -/
  parse : List Char → Option Value
  /-- The comments among the tokens of `tokenize.generate_tokens`. -/
  comments : List Char → Option (List Comment)

/-- `token.string.lstrip('#').strip()` -/
def Comment.directive (comment : Comment) : List Char := strip (comment.text.dropWhile (· = '#'))

/-- `set(range(first, stop))` -/
def lineRange (first stop : Nat) : List Nat := List.range' first (stop - first)

/-- The protected lines so far and where the open `fmt: off` stands. -/
structure Directives where
  protectedLines : List Nat := []
  disabled : Option Nat := none

def Directives.read (state : Directives) (token : Comment) : Directives :=
  if token.directive = "fmt: off".toList ∧ state.disabled = none then
    { state with disabled := some token.startLine }
  else if token.directive = "fmt: on".toList then
    match state.disabled with
    | some first => ⟨state.protectedLines ++ lineRange first (token.endLine + 1), none⟩
    | none => state
  else if token.directive = "fmt: skip".toList then
    { state with protectedLines := state.protectedLines ++ [token.startLine] }
  else state

/-- `protected_lines` -/
def protectedLines (source : List Char) (tokens : List Comment) : List Nat :=
  let state := tokens.foldl Directives.read {}
  match state.disabled with
  | some first => state.protectedLines ++ lineRange first ((splitLines source).length + 1)
  | none => state.protectedLines

/-- `not line.strip()` -/
def isBlank (line : List Char) : Bool := strip line = []

/-- `line.lstrip().startswith('#')` -/
def isCommentLine (line : List Char) : Bool := (line.dropWhile isSpace).head? = some '#'

namespace Pair

variable (pair : Pair)

/-- `statement_start(following)` -/
def start : Nat := pair.following.statementStart

/-- A docstring and what follows it. -/
def docstringLed : Bool :=
  pair.field = "body" &&
    pair.parent ∈ [NodeType.module, .functionDef, .asyncFunctionDef, .classDef] &&
    pair.leads && pair.previous.isStringExpr

/-- `required` -/
def required : Bool :=
  (pair.previous.type ∈ assignments && pair.following.type ∉ assignments) ||
    pair.previous.type ∈ blocks || pair.following.type ∈ separated

/-- `following.end_lineno or start` -/
def stop : Nat :=
  match pair.following.position.endLineno with
  | some (n + 1) => n + 1
  | _ => pair.start

/-- `any(line in protected for line in range(previous.lineno, …))` -/
def touches (protectedLines : List Nat) : Bool :=
  (lineRange pair.previous.position.lineno (pair.stop + 1)).any (· ∈ protectedLines)

end Pair

/-- `while insertion > end and lines[insertion - 1].lstrip().startswith('#')`,
    downwards from `insertion`. -/
def aboveComments (lines : List (List Char)) (stop : Nat) : Nat → Nat
  | 0 => 0
  | insertion + 1 =>
    if stop < insertion + 1 ∧ (lines[insertion]?).any isCommentLine then
      aboveComments lines stop insertion
    else insertion + 1

/-- The body of the loop over the pairs: where a blank line goes, if one
    does. -/
def Pair.insertion (lines : List (List Char)) (protectedLines : List Nat) (pair : Pair) :
    Option Nat :=
  match pair.previous.position.endLineno with
  | none => none
  | some stop =>
    if pair.start ≤ stop then none
    else if pair.docstringLed then none
    else if !pair.required || pair.touches protectedLines then none
    else if ((lines.take (pair.start - 1)).drop stop).any isBlank then none
    else some (aboveComments lines stop (pair.start - 1))

/-- `spaced_source`; `none` is an exception of a reader or the refusal of a
    result with another tree. -/
def spacedSource (lib : Library) (source : List Char) : Option (List Char) := do
  let tree ← lib.parse source
  let lines := splitLines source
  let tokens ← lib.comments source
  let insertions := (pairs tree).filterMap (Pair.insertion lines (protectedLines source tokens))
  let result := ((insertions.dedup.insertionSort (· ≥ ·)).foldl (insertAt ['\n']) lines).flatten
  if tree.dump ≠ (← lib.parse result).dump then none else some result

end QuickApi.Spacing
