/-
  QuickApi.Items.Transactions

  The mutations of `ItemService` as programs over the row store, one event for
  each statement, run by any number of transactions in any order.  What a
  transaction saw at its locking read, the rows at the start and the history
  of commits are ghosts.
-/

import QuickApi.Items.Model
import QuickApi.Lib.RowStore
import QuickApi.Lib.Transition

namespace QuickApi.Items

open QuickApi.Lib

abbrev ItemId := String

inductive Phase where
  /-- the caller's transaction is open, nothing has been sent -/
  | begun
  /-- `_mutation_item` returned the locked item -/
  | locked (item : Item)
  /-- the conditional statement changed one row -/
  | written (obj : Item)
  /-- the service returned -/
  | returned (obj : Item)
  /-- the service raised -/
  | refused (e : HTTPException)
  /-- `session.refresh` found no row -/
  | failed
  | committed
  | rolledBack
deriving DecidableEq, Repr

structure Transaction where
  id : ItemId
  mutation : Mutation
  phase : Phase
  seen : Option (Option Item)
deriving DecidableEq, Repr

/-- A committed mutation and the row it left. -/
structure Commit where
  id : ItemId
  mutation : Mutation
  left : Option Item
deriving DecidableEq, Repr

structure State where
  store : RowStore ItemId Item Nat
  transactions : List Transaction
  initial : ItemId → Option Item
  history : List Commit

inductive Event where
  | begin (id : ItemId) (m : Mutation)
  /-- `get_by_id_for_update`, then the checks of `_mutation_item` -/
  | select (t : Nat)
  /-- the `UPDATE` or `DELETE`, then the check of its row count -/
  | write (t : Nat)
  /-- `flush` and `refresh` -/
  | refresh (t : Nat)
  | commit (t : Nat)
  /-- at any point: a refusal, a failing statement, a cancellation, a lost connection -/
  | rollback (t : Nat)

namespace State

def setTransaction (s : State) (t : Nat) (tx : Transaction) : State :=
  { s with transactions := s.transactions.set t tx }

/-- `_mutation_item`.  An absent row leaves no row lock behind. -/
def select (s : State) (t : Nat) (tx : Transaction) : State :=
  let row := s.store.latest tx.id
  let store := if row.isSome then s.store.lock t tx.id else s.store
  let phase :=
    match mutationItem row tx.mutation.expectedVersion with
    | .ok item => .locked item
    | .error e => .refused e
  { s with store := store }.setTransaction t { tx with phase := phase, seen := some row }

/-- The conditional statement of `repo.update` or `repo.delete`. -/
def write (s : State) (t : Nat) (tx : Transaction) (item : Item) : State :=
  let (rowcount, row) := tx.mutation.statement (s.store.latest tx.id)
  if rowcount ≠ 1 then s.setTransaction t { tx with phase := .refused versionConflict }
  else
    { s with store := s.store.write tx.id row }.setTransaction t { tx with phase := .written item }

/-- The rest of `repo.update` reads the row back; the rest of `repo.delete` keeps the object. -/
def refresh (s : State) (t : Nat) (tx : Transaction) (obj : Item) : State :=
  match tx.mutation.data?, s.store.latest tx.id with
  | none, _ => s.setTransaction t { tx with phase := .returned obj }
  | some _, some row => s.setTransaction t { tx with phase := .returned row }
  | some _, none => s.setTransaction t { tx with phase := .failed }

/-- The end of the caller's block after the service returned. -/
def commit (s : State) (t : Nat) (tx : Transaction) : State :=
  let left : Commit := ⟨tx.id, tx.mutation, s.store.latest tx.id⟩
  { s with store := s.store.commit t, history := s.history ++ [left] }.setTransaction t
    { tx with phase := .committed }

def rollback (s : State) (t : Nat) (tx : Transaction) : State :=
  { s with store := s.store.rollback t }.setTransaction t { tx with phase := .rolledBack }

def next (s : State) : Event → Option State
  | .begin id m =>
      some { s with transactions := s.transactions ++ [⟨id, m, .begun, none⟩] }
  | .select t =>
      s.transactions[t]?.bind fun tx =>
        if tx.phase = .begun ∧ s.store.Lockable t tx.id then some (s.select t tx) else none
  | .write t =>
      s.transactions[t]?.bind fun tx =>
        match tx.phase with
        | .locked item => if s.store.Lockable t tx.id then some (s.write t tx item) else none
        | _ => none
  | .refresh t =>
      s.transactions[t]?.bind fun tx =>
        match tx.phase with
        | .written obj => some (s.refresh t tx obj)
        | _ => none
  | .commit t =>
      s.transactions[t]?.bind fun tx =>
        match tx.phase with
        | .returned _ => some (s.commit t tx)
        | _ => none
  | .rollback t =>
      s.transactions[t]?.bind fun tx =>
        if tx.phase = .committed ∨ tx.phase = .rolledBack then none else some (s.rollback t tx)

/-- The committed mutations of one item, in the order of their commits. -/
def historyOf (s : State) (id : ItemId) : List Commit := s.history.filter (·.id = id)

end State

/-- A version a stored item may have. -/
def ValidVersion (n : Nat) : Prop := 1 ≤ n ∧ n ≤ maxVersion

/-- Any rows with valid versions, and no transaction yet. -/
def itemSystem : System State Event where
  init s := ∃ rows : ItemId → Option Item,
    (∀ id item, rows id = some item → ValidVersion item.version) ∧
      s = ⟨.ofRows rows, [], rows, []⟩
  next := State.next

end QuickApi.Items
