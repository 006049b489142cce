/-
  QuickApi.Spacing.Layout

  Where the statements of a tree stand. Blank lines between statements move
  the nodes below them down and leave the tree alone otherwise; in a tree laid
  out like its text, the gaps between sibling statements lie apart.
-/
import QuickApi.Spacing.Source

namespace QuickApi.Spacing

open QuickApi.Lib

/-! ## Induction over a tree -/

namespace Value

/-- What an induction over trees has to show, one part for each kind of
    value. -/
structure Inductive (P : Value → Prop) : Prop where
  node : ∀ type position fields, (∀ field ∈ fields, P field.2) → P (.node type position fields)
  list : ∀ items, (∀ item ∈ items, P item) → P (.list items)
  str : ∀ text, P (.str text)
  plain : ∀ repr, P (.plain repr)

mutual
theorem Inductive.all {P : Value → Prop} (h : Inductive P) : ∀ value, P value
  | .node type position fields => h.node type position fields (Inductive.fields h fields)
  | .list items => h.list items (Inductive.items h items)
  | .str text => h.str text
  | .plain repr => h.plain repr

theorem Inductive.fields {P : Value → Prop} (h : Inductive P) :
    ∀ fields : List (String × Value), ∀ field ∈ fields, P field.2
  | [] => fun _ hmem => absurd hmem List.not_mem_nil
  | (_, value) :: fields =>
    List.forall_mem_cons.mpr ⟨Inductive.all h value, Inductive.fields h fields⟩

theorem Inductive.items {P : Value → Prop} (h : Inductive P) :
    ∀ items : List Value, ∀ item ∈ items, P item
  | [] => fun _ hmem => absurd hmem List.not_mem_nil
  | item :: items =>
    List.forall_mem_cons.mpr ⟨Inductive.all h item, Inductive.items h items⟩
end

theorem induction {P : Value → Prop}
    (node : ∀ type position fields, (∀ field ∈ fields, P field.2) →
      P (.node type position fields))
    (list : ∀ items, (∀ item ∈ items, P item) → P (.list items))
    (str : ∀ text, P (.str text)) (plain : ∀ repr, P (.plain repr)) (value : Value) : P value :=
  Inductive.all ⟨node, list, str, plain⟩ value

@[simp] theorem walkFields_eq (fields : List (String × Value)) :
    walkFields fields = fields.flatMap fun field => field.2.walk := by
  induction fields with
  | nil => rfl
  | cons field fields ih => simp [walkFields, ih]

@[simp] theorem walkItems_eq (items : List Value) : walkItems items = items.flatMap walk := by
  induction items with
  | nil => rfl
  | cons item items ih => simp [walkItems, ih]

@[simp] theorem dumpFields_eq (fields : List (String × Value)) :
    dumpFields fields = fields.flatMap fun field => .field field.1 :: field.2.dump := by
  induction fields with
  | nil => rfl
  | cons field fields ih => simp [dumpFields, ih]

@[simp] theorem dumpItems_eq (items : List Value) : dumpItems items = items.flatMap dump := by
  induction items with
  | nil => rfl
  | cons item items ih => simp [dumpItems, ih]

end Value

/-! ## Moving the lines of a tree -/

/-- The position with its lines renumbered. -/
def Position.shift (f : Nat → Nat) (position : Position) : Position :=
  ⟨f position.lineno, position.endLineno.map f, f position.opening⟩

namespace Value

mutual
/-- The tree with its lines renumbered. -/
def shift (f : Nat → Nat) : Value → Value
  | .node type position fields => .node type (position.shift f) (shiftFields f fields)
  | .list items => .list (shiftItems f items)
  | .str text => .str text
  | .plain repr => .plain repr

def shiftFields (f : Nat → Nat) : List (String × Value) → List (String × Value)
  | [] => []
  | (name, value) :: fields => (name, shift f value) :: shiftFields f fields

def shiftItems (f : Nat → Nat) : List Value → List Value
  | [] => []
  | item :: items => shift f item :: shiftItems f items
end

variable (f : Nat → Nat)

@[simp] theorem shiftFields_eq (fields : List (String × Value)) :
    shiftFields f fields = fields.map fun field => (field.1, field.2.shift f) := by
  induction fields with
  | nil => rfl
  | cons field fields ih => simp [shiftFields, ih]

@[simp] theorem shiftItems_eq (items : List Value) :
    shiftItems f items = items.map (shift f) := by
  induction items with
  | nil => rfl
  | cons item items ih => simp [shiftItems, ih]

end Value

def Node.shift (f : Nat → Nat) (node : Node) : Node :=
  ⟨node.type, node.position.shift f, node.fields.map fun field => (field.1, field.2.shift f)⟩

def Pair.shift (f : Nat → Nat) (pair : Pair) : Pair :=
  { pair with previous := pair.previous.shift f, following := pair.following.shift f }

def Comment.shift (f : Nat → Nat) (comment : Comment) : Comment :=
  { comment with startLine := f comment.startLine, endLine := f comment.endLine }

section Shift

variable (f : Nat → Nat)

/-- The printed form leaves the lines out. -/
theorem dump_shift (value : Value) : (value.shift f).dump = value.dump := by
  induction value using Value.induction with
  | node type position fields ih =>
    simp only [Value.shift, Value.dump, Value.shiftFields_eq, Value.dumpFields_eq,
      List.flatMap_map]
    have hfield : ∀ field ∈ fields, (.field field.1 :: (field.2.shift f).dump : List Value.Token)
        = .field field.1 :: field.2.dump := fun field h => by rw [ih field h]
    rw [List.flatMap_congr hfield]
  | list items ih =>
    simp only [Value.shift, Value.dump, Value.shiftItems_eq, Value.dumpItems_eq, List.flatMap_map]
    rw [List.flatMap_congr ih]
  | str text => rfl
  | plain repr => rfl

theorem walk_shift (value : Value) : (value.shift f).walk = value.walk.map (Node.shift f) := by
  induction value using Value.induction with
  | node type position fields ih =>
    simp only [Value.shift, Value.walk, Value.shiftFields_eq, Value.walkFields_eq,
      List.flatMap_map, List.map_cons, List.map_flatMap]
    rw [List.flatMap_congr ih]
    rfl
  | list items ih =>
    simp only [Value.shift, Value.walk, Value.shiftItems_eq, Value.walkItems_eq, List.flatMap_map,
      List.map_flatMap]
    rw [List.flatMap_congr ih]
  | str text => rfl
  | plain repr => rfl

theorem statement?_shift (value : Value) :
    (value.shift f).statement? = value.statement?.map (Node.shift f) := by
  cases value with
  | node type position fields =>
    by_cases h : type.isStmt <;> simp [Value.shift, Value.statement?, Node.shift, h]
  | list items => rfl
  | str text => rfl
  | plain repr => rfl

theorem lineno?_shift (value : Value) : (value.shift f).lineno? = value.lineno?.map f := by
  cases value <;> rfl

theorem lookup_shift (fields : List (String × Value)) (name : String) :
    (fields.map fun field => (field.1, field.2.shift f)).lookup name
      = (fields.lookup name).map (Value.shift f) := by
  induction fields with
  | nil => rfl
  | cons field fields ih =>
    obtain ⟨key, value⟩ := field
    by_cases h : name = key
    · subst h
      simp
    · rw [List.map_cons, List.lookup_cons, List.lookup_cons, beq_false_of_ne h]
      exact ih

theorem field_shift (node : Node) (name : String) :
    (node.shift f).field name = (node.field name).map (Value.shift f) :=
  lookup_shift f node.fields name

theorem decorators_shift (node : Node) : (node.shift f).decorators = node.decorators.map f := by
  simp only [Node.decorators, field_shift]
  cases node.field "decorator_list" with
  | none => rfl
  | some value =>
    cases value with
    | list items =>
      simp only [Option.map_some, Value.shift, Value.shiftItems_eq, List.filterMap_map,
        List.map_filterMap]
      exact congrArg (List.filterMap · items) (funext (lineno?_shift f))
    | node type position fields => rfl
    | str text => rfl
    | plain repr => rfl

theorem foldl_min_map (hf : Monotone f) (lines : List Nat) (line : Nat) :
    (lines.map f).foldl min (f line) = f (lines.foldl min line) := by
  induction lines generalizing line with
  | nil => rfl
  | cons first lines ih => rw [List.map_cons, List.foldl_cons, ← hf.map_min, ih, List.foldl_cons]

theorem statementStart_shift (hf : Monotone f) (node : Node) :
    (node.shift f).statementStart = f node.statementStart := by
  by_cases h : node.type ∈ definitions
  · simp only [Node.statementStart, decorators_shift]
    rw [if_pos h, if_pos (by exact h)]
    exact foldl_min_map f hf node.decorators node.position.lineno
  · simp only [Node.statementStart]
    rw [if_neg h, if_neg (by exact h)]
    rfl

theorem isStr_shift (value : Value) : (value.shift f).isStr = value.isStr := by
  cases value <;> rfl

theorem isStringExpr_shift (node : Node) : (node.shift f).isStringExpr = node.isStringExpr := by
  simp only [Node.isStringExpr, field_shift]
  congr 1
  cases node.field "value" with
  | none => rfl
  | some value =>
    cases value with
    | node type position fields =>
      cases type with
      | constant =>
        simp only [Option.map_some, Value.shift, Value.shiftFields_eq, lookup_shift,
          Option.any_map, isStr_shift]
      | _ => rfl
    | list items => rfl
    | str text => rfl
    | plain repr => rfl

theorem siblings_shift (parent : NodeType) (field : String) (leads : Bool) (statements : List Node) :
    siblings parent field leads (statements.map (Node.shift f))
      = (siblings parent field leads statements).map (Pair.shift f) := by
  induction statements generalizing leads with
  | nil => rfl
  | cons previous statements ih =>
    cases statements with
    | nil => rfl
    | cons following statements =>
      have hrest := ih false
      simp only [List.map_cons] at hrest
      simp only [List.map_cons, siblings, hrest]
      rfl

theorem fieldPairs_shift (parent : NodeType) (name : String) (value : Value) :
    fieldPairs parent (name, value.shift f) = (fieldPairs parent (name, value)).map (Pair.shift f) := by
  cases value with
  | list items =>
    have hstatements : (items.map (Value.shift f)).filterMap Value.statement?
        = (items.filterMap Value.statement?).map (Node.shift f) := by
      rw [List.filterMap_map, List.map_filterMap]
      exact congrArg (List.filterMap · items) (funext (statement?_shift f))
    simp only [Value.shift, Value.shiftItems_eq, fieldPairs, hstatements, siblings_shift]
  | node type position fields => rfl
  | str text => rfl
  | plain repr => rfl

/-- The pairs of a moved tree are the pairs of the tree, moved. -/
theorem pairs_shift (tree : Value) : pairs (tree.shift f) = (pairs tree).map (Pair.shift f) := by
  simp only [pairs, walk_shift, List.flatMap_map, List.map_flatMap]
  refine List.flatMap_congr fun node _ => ?_
  simp only [Node.shift, List.flatMap_map]
  exact List.flatMap_congr fun field _ => fieldPairs_shift f node.type field.1 field.2

end Shift

/-! ## Trees laid out like their text -/

namespace Value

mutual
/-- The last line of a value whose statements stand in the order of the tree,
    none above the line `lo`, each inside the statement that holds it; a list
    of statements holds nothing else. -/
def laid : Nat → Value → Option Nat
  | lo, .node type position fields =>
    if type.isStmt then
      match position.endLineno, laidFields position.lineno fields with
      | some stop, some last =>
        if lo ≤ position.opening ∧ position.lineno ≤ stop ∧ last ≤ stop ∧
            position.opening ≤ (Node.mk type position fields).statementStart then some stop
        else none
      | _, _ => none
    else laidFields lo fields
  | lo, .list items =>
    if items.all (·.statement?.isSome) || items.all (·.statement?.isNone) then laidItems lo items
    else none
  | lo, .str _ => some lo
  | lo, .plain _ => some lo

def laidFields : Nat → List (String × Value) → Option Nat
  | lo, [] => some lo
  | lo, (_, value) :: fields =>
    match laid lo value with
    | some mid => laidFields mid fields
    | none => none

def laidItems : Nat → List Value → Option Nat
  | lo, [] => some lo
  | lo, item :: items =>
    match laid lo item with
    | some mid => laidItems mid items
    | none => none
end

end Value

/-- The last line of the statement. -/
def Node.lastLine (statement : Node) : Nat := statement.position.endLineno.getD 0

/-- The statement covers its lines in order and ends by line `hi`. -/
structure Node.Stands (statement : Node) (hi : Nat) : Prop where
  ends : statement.position.endLineno = some statement.lastLine
  opening_le : statement.position.opening ≤ statement.statementStart
  start_le : statement.statementStart ≤ statement.position.lineno
  lineno_le : statement.position.lineno ≤ statement.lastLine
  lastLine_le : statement.lastLine ≤ hi

/-- The index `i` lies between the last line of the one statement and the first
    of the other. -/
def Pair.InGap (pair : Pair) (i : Nat) : Prop :=
  pair.previous.lastLine ≤ i ∧ i < pair.following.position.opening

instance (pair : Pair) (i : Nat) : Decidable (pair.InGap i) :=
  inferInstanceAs (Decidable (_ ∧ _))

/-- The index lies above the line that the pass takes for the start of the later
    statement. -/
def Pair.InSpan (pair : Pair) (i : Nat) : Prop := pair.previous.lastLine ≤ i ∧ i < pair.start

/-- Both statements stand in order, the later one down to line `hi` at most. -/
structure Pair.Placed (pair : Pair) (hi : Nat) : Prop where
  previous : pair.previous.Stands hi
  following : pair.following.Stands hi
  inOrder : pair.previous.lastLine ≤ pair.following.position.opening

/-- Pairs between the lines `lo` and `hi` whose spans lie apart. -/
structure Arranged (lo hi : Nat) (group : List Pair) : Prop where
  lo_le : lo ≤ hi
  placed : ∀ pair ∈ group, pair.Placed hi
  inside : ∀ pair ∈ group, ∀ i, pair.InSpan i → lo ≤ i ∧ i < hi
  apart : ∀ pair ∈ group, ∀ other ∈ group, ∀ i, pair.InSpan i → other.InSpan i → pair = other

theorem foldl_min_le (lines : List Nat) (line : Nat) : lines.foldl min line ≤ line := by
  induction lines generalizing line with
  | nil => exact le_rfl
  | cons first lines ih => exact (ih (min line first)).trans (min_le_left line first)

theorem Node.statementStart_le (statement : Node) :
    statement.statementStart ≤ statement.position.lineno := by
  by_cases h : statement.type ∈ definitions
  · rw [Node.statementStart, if_pos h]
    exact foldl_min_le _ _
  · rw [Node.statementStart, if_neg h]

theorem Node.Stands.mono {statement : Node} {hi hi' : Nat} (h : statement.Stands hi)
    (hle : hi ≤ hi') : statement.Stands hi' :=
  { h with lastLine_le := h.lastLine_le.trans hle }

theorem Pair.Placed.start_le_lastLine {pair : Pair} {hi : Nat} (h : pair.Placed hi) :
    pair.start ≤ pair.following.lastLine :=
  h.following.start_le.trans h.following.lineno_le

/-- The gap is part of the span. -/
theorem Pair.InGap.inSpan {pair : Pair} {hi i : Nat} (hplaced : pair.Placed hi)
    (h : pair.InGap i) : pair.InSpan i :=
  ⟨h.1, h.2.trans_le hplaced.following.opening_le⟩

theorem Pair.Placed.mono {pair : Pair} {hi hi' : Nat} (h : pair.Placed hi) (hle : hi ≤ hi') :
    pair.Placed hi' :=
  { h with previous := h.previous.mono hle, following := h.following.mono hle }

namespace Arranged

variable {lo mid hi : Nat} {group group' : List Pair}

theorem nil (h : lo ≤ hi) : Arranged lo hi [] where
  lo_le := h
  placed := by simp
  inside := by simp
  apart := by simp

theorem subset (h : Arranged lo hi group) (hsub : ∀ pair ∈ group', pair ∈ group) :
    Arranged lo hi group' where
  lo_le := h.lo_le
  placed pair hp := h.placed pair (hsub pair hp)
  inside pair hp := h.inside pair (hsub pair hp)
  apart pair hp other ho := h.apart pair (hsub pair hp) other (hsub other ho)

theorem mono {lo' hi' : Nat} (h : Arranged lo hi group) (hlo : lo' ≤ lo) (hhi : hi ≤ hi') :
    Arranged lo' hi' group where
  lo_le := hlo.trans (h.lo_le.trans hhi)
  placed pair hp := (h.placed pair hp).mono hhi
  inside pair hp i hi := by
    have := h.inside pair hp i hi
    omega
  apart := h.apart

/-- Groups on different lines do not meet. -/
theorem append (h : Arranged lo mid group) (h' : Arranged mid hi group') :
    Arranged lo hi (group ++ group') := by
  have hfront := h.mono le_rfl h'.lo_le
  have hback := h'.mono h.lo_le le_rfl
  have hclear : ∀ pair ∈ group, ∀ other ∈ group', ∀ i, pair.InSpan i → ¬ other.InSpan i :=
    fun pair hp other ho i hi hi' => by
      have := h.inside pair hp i hi
      have := h'.inside other ho i hi'
      omega
  constructor
  case lo_le => exact h.lo_le.trans h'.lo_le
  case placed => exact List.forall_mem_append.mpr ⟨hfront.placed, hback.placed⟩
  case inside => exact List.forall_mem_append.mpr ⟨hfront.inside, hback.inside⟩
  case apart =>
    intro pair hp other ho i hi hi'
    rcases List.mem_append.mp hp with hp | hp <;> rcases List.mem_append.mp ho with ho | ho
    · exact h.apart pair hp other ho i hi hi'
    · exact absurd hi' (hclear pair hp other ho i hi)
    · exact absurd hi (hclear other ho pair hp i hi')
    · exact h'.apart pair hp other ho i hi hi'

/-- A pair in front of a group that begins inside its later statement. -/
theorem cons {pair : Pair} (hplaced : pair.Placed hi)
    (h : Arranged pair.following.position.lineno hi group) :
    Arranged pair.previous.lastLine hi (pair :: group) := by
  have hstart : pair.start ≤ pair.following.position.lineno := hplaced.following.start_le
  have hopening : pair.following.position.opening ≤ pair.start := hplaced.following.opening_le
  have hback := h.mono (hplaced.inOrder.trans (hopening.trans hstart)) le_rfl
  have hclear : ∀ other ∈ group, ∀ i, pair.InSpan i → ¬ other.InSpan i :=
    fun other ho i hi hi' => by
      have := h.inside other ho i hi'
      have := hi.2
      omega
  constructor
  case lo_le => exact hback.lo_le
  case placed => exact List.forall_mem_cons.mpr ⟨hplaced, hback.placed⟩
  case inside =>
    refine List.forall_mem_cons.mpr ⟨fun i hi => ?_, hback.inside⟩
    have := h.lo_le
    exact ⟨hi.1, by have := hi.2; omega⟩
  case apart =>
    intro first hp other ho i hi hi'
    rcases List.mem_cons.mp hp with hfirst | hfirst <;>
      rcases List.mem_cons.mp ho with hother | hother
    · rw [hfirst, hother]
    · exact absurd hi' (hclear other hother i (hfirst ▸ hi))
    · exact absurd hi (hclear first hfirst i (hother ▸ hi'))
    · exact h.apart first hfirst other hother i hi hi'

end Arranged

/-! ## The pairs of a laid out tree are arranged -/

theorem pairs_node (type : NodeType) (position : Position) (fields : List (String × Value)) :
    pairs (.node type position fields)
      = fields.flatMap (fieldPairs type) ++ fields.flatMap fun field => pairs field.2 := by
  simp only [pairs, Value.walk, Value.walkFields_eq, List.flatMap_cons, List.flatMap_assoc]

theorem pairs_list (items : List Value) : pairs (.list items) = items.flatMap pairs := by
  simp only [pairs, Value.walk, Value.walkItems_eq, List.flatMap_assoc]
  rfl

/-- A statement that is laid out stands on its lines. -/
theorem laid_statement {value : Value} {statement : Node} {lo hi : Nat}
    (hstatement : value.statement? = some statement) (h : value.laid lo = some hi) :
    lo ≤ statement.position.opening ∧ statement.Stands hi ∧ statement.lastLine = hi := by
  cases value with
  | node type position fields =>
    have hstmt : type.isStmt = true ∧ Node.mk type position fields = statement := by
      simpa [Value.statement?] using hstatement
    obtain ⟨hstmt, rfl⟩ := hstmt
    simp only [Value.laid, if_pos hstmt] at h
    split at h
    case h_2 => cases h
    case h_1 stop last hstop _ =>
      split_ifs at h with hlaid
      obtain rfl : stop = hi := by simpa using h
      obtain ⟨hlo, hlineno, -, hstart⟩ := hlaid
      have hlastLine : (Node.mk type position fields).lastLine = stop := by
        simp [Node.lastLine, hstop]
      exact ⟨hlo, ⟨by simp [hlastLine, hstop], hstart, Node.statementStart_le _,
        hlineno.trans hlastLine.ge, hlastLine.le⟩, hlastLine⟩
  | list items => cases hstatement
  | str text => cases hstatement
  | plain repr => cases hstatement

/-- Laid out, the value's own pairs and those inside it are arranged; those
    inside a statement stand below its start. -/
structure Value.Fits (value : Value) : Prop where
  field : ∀ {lo hi : Nat}, value.laid lo = some hi →
    ∀ parent name, Arranged lo hi (fieldPairs parent (name, value) ++ pairs value)
  statement : ∀ {lo hi : Nat}, value.laid lo = some hi →
    ∀ {statement : Node}, value.statement? = some statement →
      Arranged statement.position.lineno hi (pairs value)

theorem Value.Fits.pairs {value : Value} {lo hi : Nat} (hfits : value.Fits)
    (h : value.laid lo = some hi) : Arranged lo hi (pairs value) :=
  (hfits.field h .module "").subset fun _ hp => List.mem_append_right _ hp

section Lists

variable {items : List Value} (hfits : ∀ item ∈ items, item.Fits)

include hfits

theorem arranged_items {lo hi : Nat} (h : Value.laidItems lo items = some hi) :
    Arranged lo hi (items.flatMap pairs) := by
  induction items generalizing lo with
  | nil =>
    obtain rfl : lo = hi := by simpa [Value.laidItems] using h
    exact .nil le_rfl
  | cons item items ih =>
    obtain ⟨hitem, hitems⟩ := List.forall_mem_cons.mp hfits
    simp only [Value.laidItems] at h
    split at h
    case h_1 mid hmid =>
      rw [List.flatMap_cons]
      exact (hitem.pairs hmid).append (ih hitems h)
    case h_2 => cases h

/-- The statements after one that stands above them. -/
theorem arranged_after {lo hi : Nat} (hall : ∀ item ∈ items, item.statement?.isSome = true)
    (h : Value.laidItems lo items = some hi) {previous : Node} (hprevious : previous.Stands lo)
    (parent : NodeType) (field : String) (leads : Bool) :
    Arranged previous.lastLine hi
      (siblings parent field leads (previous :: items.filterMap Value.statement?) ++
        items.flatMap pairs) := by
  induction items generalizing lo previous leads with
  | nil =>
    obtain rfl : lo = hi := by simpa [Value.laidItems] using h
    exact .nil hprevious.lastLine_le
  | cons item items ih =>
    obtain ⟨hitem, hitems⟩ := List.forall_mem_cons.mp hfits
    obtain ⟨hsome, hall⟩ := List.forall_mem_cons.mp hall
    obtain ⟨following, hfollowing⟩ := Option.isSome_iff_exists.mp hsome
    simp only [Value.laidItems] at h
    split at h
    case h_2 => cases h
    case h_1 mid hmid =>
      obtain ⟨hopening, hstands, hlast⟩ := laid_statement hfollowing hmid
      have hrest := ih hitems hall h hstands false
      rw [hlast] at hrest
      -- Inside the later statement first, then what comes after it.
      have hback := (hitem.statement hmid hfollowing).append hrest
      have hplaced : Pair.Placed ⟨parent, field, leads, previous, following⟩ hi :=
        ⟨hprevious.mono ((hitem.pairs hmid).lo_le.trans hrest.lo_le), hstands.mono hrest.lo_le,
          hprevious.lastLine_le.trans hopening⟩
      refine (Arranged.cons hplaced hback).subset fun pair hpair => ?_
      simp only [List.filterMap_cons, hfollowing, siblings, List.flatMap_cons, List.mem_append,
        List.mem_cons] at hpair ⊢
      tauto

/-- A statement list from its first statement on. -/
theorem arranged_statements {lo hi : Nat}
    (hall : ∀ item ∈ items, item.statement?.isSome = true)
    (h : Value.laidItems lo items = some hi) (parent : NodeType) (field : String) (leads : Bool) :
    Arranged lo hi
      (siblings parent field leads (items.filterMap Value.statement?) ++ items.flatMap pairs) := by
  cases items with
  | nil =>
    obtain rfl : lo = hi := by simpa [Value.laidItems] using h
    exact .nil le_rfl
  | cons item items =>
    obtain ⟨hitem, hitems⟩ := List.forall_mem_cons.mp hfits
    obtain ⟨hsome, hall⟩ := List.forall_mem_cons.mp hall
    obtain ⟨first, hfirst⟩ := Option.isSome_iff_exists.mp hsome
    simp only [Value.laidItems] at h
    split at h
    case h_2 => cases h
    case h_1 mid hmid =>
      obtain ⟨-, hstands, hlast⟩ := laid_statement hfirst hmid
      have hrest := arranged_after hitems hall h hstands parent field leads
      rw [hlast] at hrest
      refine ((hitem.pairs hmid).append hrest).subset fun pair hpair => ?_
      simp only [List.filterMap_cons, hfirst, List.flatMap_cons, List.mem_append] at hpair ⊢
      tauto

end Lists

theorem arranged_fields {parent : NodeType} {fields : List (String × Value)}
    (hfits : ∀ field ∈ fields, field.2.Fits) {lo hi : Nat}
    (h : Value.laidFields lo fields = some hi) :
    Arranged lo hi
      (fields.flatMap (fieldPairs parent) ++ fields.flatMap fun field => pairs field.2) := by
  induction fields generalizing lo with
  | nil =>
    obtain rfl : lo = hi := by simpa [Value.laidFields] using h
    exact .nil le_rfl
  | cons field fields ih =>
    obtain ⟨hfield, hfields⟩ := List.forall_mem_cons.mp hfits
    simp only [Value.laidFields] at h
    split at h
    case h_2 => cases h
    case h_1 mid hmid =>
      refine ((hfield.field hmid parent field.1).append (ih hfields h)).subset fun pair hpair => ?_
      simp only [List.flatMap_cons, List.mem_append] at hpair ⊢
      tauto

/-- Inside a statement its fields are laid out from its own line on. -/
theorem arranged_statement {type : NodeType} {position : Position}
    {fields : List (String × Value)} (hfits : ∀ field ∈ fields, field.2.Fits) {lo hi : Nat}
    (hstmt : type.isStmt = true) (h : (Value.node type position fields).laid lo = some hi) :
    lo ≤ position.lineno ∧ Arranged position.lineno hi (pairs (.node type position fields)) := by
  have hstart := Node.statementStart_le ⟨type, position, fields⟩
  simp only [Value.laid, if_pos hstmt] at h
  split at h
  case h_2 => cases h
  case h_1 stop last hstop hlast =>
    split_ifs at h with hlaid
    obtain rfl : stop = hi := by simpa using h
    obtain ⟨hlo, -, hle, hopening⟩ := hlaid
    rw [pairs_node]
    exact ⟨hlo.trans (hopening.trans hstart), (arranged_fields hfits hlast).mono le_rfl hle⟩

theorem Value.fits (value : Value) : value.Fits := by
  induction value using Value.induction with
  | node type position fields ih =>
    constructor
    · intro lo hi h parent name
      have hpairs : fieldPairs parent (name, .node type position fields) = [] := rfl
      rw [hpairs, List.nil_append]
      by_cases hstmt : type.isStmt
      · obtain ⟨hlo, harranged⟩ := arranged_statement ih hstmt h
        exact harranged.mono hlo le_rfl
      · simp only [Value.laid, if_neg hstmt] at h
        rw [pairs_node]
        exact arranged_fields ih h
    · intro lo hi h statement hstatement
      have hstmt : type.isStmt = true ∧ Node.mk type position fields = statement := by
        simpa [Value.statement?] using hstatement
      obtain ⟨hstmt, rfl⟩ := hstmt
      exact (arranged_statement ih hstmt h).2
  | list items ih =>
    refine ⟨fun {lo hi} h parent name => ?_, fun _ _ h => nomatch h⟩
    rw [pairs_list]
    simp only [Value.laid] at h
    split_ifs at h with hkind
    rcases Bool.or_eq_true_iff.mp hkind with hall | hnone
    · exact arranged_statements ih (List.all_eq_true.mp hall) h parent name true
    · have hstatements : items.filterMap Value.statement? = [] :=
        List.filterMap_eq_nil_iff.mpr fun item hitem =>
          Option.isNone_iff_eq_none.mp (List.all_eq_true.mp hnone item hitem)
      rw [fieldPairs, hstatements]
      exact arranged_items ih h
  | str text =>
    refine ⟨fun {lo hi} h parent name => ?_, fun _ _ h => nomatch h⟩
    obtain rfl : lo = hi := by simpa [Value.laid] using h
    exact .nil le_rfl
  | plain repr =>
    refine ⟨fun {lo hi} h parent name => ?_, fun _ _ h => nomatch h⟩
    obtain rfl : lo = hi := by simpa [Value.laid] using h
    exact .nil le_rfl

end QuickApi.Spacing
