/-
  QuickApi.Lib.StackLog

  A log of pushes and pops and the stack it leaves.  The top of the stack is
  the end of the list.  A log replays only if every pop meets the element on
  top, so a log that replays pops in the reverse order of its pushes and never
  pops an element twice for one push.
-/

import Mathlib.Data.List.Basic

namespace QuickApi.Lib

inductive StackOp (α : Type*) where
  | push (a : α)
  | pop (a : α)
deriving DecidableEq, Repr

namespace StackOp

variable {α : Type*} [DecidableEq α]

/-- The stack behind a log, if every pop meets the top. -/
def replay : List α → List (StackOp α) → Option (List α)
  | stack, [] => some stack
  | stack, .push a :: ops => replay (stack ++ [a]) ops
  | stack, .pop a :: ops => if stack.getLast? = some a then replay stack.dropLast ops else none

@[simp] theorem replay_nil (stack : List α) : replay stack [] = some stack := rfl

theorem replay_append (stack : List α) (ops ops' : List (StackOp α)) :
    replay stack (ops ++ ops') = (replay stack ops).bind fun st => replay st ops' := by
  induction ops generalizing stack with
  | nil => rfl
  | cons op ops ih =>
      cases op with
      | push a => simpa only [List.cons_append, replay] using ih (stack ++ [a])
      | pop a =>
          simp only [List.cons_append, replay]
          split
          · exact ih stack.dropLast
          · rfl

theorem replay_push {stack st : List α} {ops : List (StackOp α)} (a : α)
    (h : replay stack ops = some st) : replay stack (ops ++ [.push a]) = some (st ++ [a]) := by
  rw [replay_append, h]
  rfl

theorem replay_pop {stack st : List α} {ops : List (StackOp α)} {a : α}
    (h : replay stack ops = some st) (ha : st.getLast? = some a) :
    replay stack (ops ++ [.pop a]) = some st.dropLast := by
  rw [replay_append, h]
  simp [replay, ha]

/-- Every push of an element was popped again or is still on the stack. -/
theorem replay_count {stack st : List α} {ops : List (StackOp α)} (a : α)
    (h : replay stack ops = some st) :
    stack.count a + ops.count (.push a) = ops.count (.pop a) + st.count a := by
  induction ops generalizing stack with
  | nil =>
      obtain rfl := Option.some.inj h
      simp
  | cons op ops ih =>
      cases op with
      | push b =>
          have hcount := ih h
          have hpop : (StackOp.push b == .pop a) = false := by simp
          have hpush : (StackOp.push b == .push a) = (b == a) := by simp [beq_eq_decide]
          simp only [List.count_append, List.count_cons, List.count_nil, hpop, hpush,
            Bool.false_eq_true, if_false] at hcount ⊢
          omega
      | pop b =>
          rw [replay] at h
          split at h
          · next hlast =>
              have hcount := ih h
              have hstack : stack.count a = stack.dropLast.count a + if b == a then 1 else 0 := by
                conv_lhs => rw [← List.dropLast_append_getLast? b hlast]
                rw [List.count_append, List.count_singleton]
              have hpop : (StackOp.pop b == .pop a) = (b == a) := by simp [beq_eq_decide]
              have hpush : (StackOp.pop b == .push a) = false := by simp
              simp only [List.count_cons, hpop, hpush, Bool.false_eq_true, if_false] at hcount ⊢
              omega
          · cases h

end StackOp

end QuickApi.Lib
