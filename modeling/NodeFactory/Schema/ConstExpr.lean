import NodeFactory.Binary64.Basic
import NodeFactory.Schema.Name

/-!
# Constant expressions

An enum member may be given by an expression over numbers, strings and the names of other members.
-/

namespace NodeFactory

inductive UnaryOp where
  | plus
  | neg
  | bitNot
deriving DecidableEq, Repr

inductive BinaryOp where
  | bitOr
  | bitXor
  | bitAnd
  | shiftLeft
  | shiftRight
  | shiftRightUnsigned
  | add
  | sub
  | mul
  | div
  | rem
deriving DecidableEq, Repr

/-- How tightly an operator binds; the higher binds tighter. -/
def BinaryOp.precedence : BinaryOp → Nat
  | bitOr => 1
  | bitXor => 2
  | bitAnd => 3
  | shiftLeft | shiftRight | shiftRightUnsigned => 4
  | add | sub => 5
  | mul | div | rem => 6

inductive ConstExpr where
  | number (value : Binary64)
  | string (text : String)
  | name (name : EntityName)
  | unary (op : UnaryOp) (operand : ConstExpr)
  | binary (op : BinaryOp) (left right : ConstExpr)
deriving DecidableEq

end NodeFactory
