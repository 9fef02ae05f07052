import NodeFactory.Binary64.Arithmetic
import NodeFactory.Symbol.Resolution

/-!
# Constant values

A constant expression has a value unless it contains a string, or a name that is not an enum member
with a value.
-/

namespace NodeFactory

def UnaryOp.apply : UnaryOp → Binary64 → Binary64
  | plus, a => a
  | neg, a => a.neg
  | bitNot, a => a.bitNot

def BinaryOp.apply : BinaryOp → Binary64 → Binary64 → Binary64
  | bitOr => Binary64.bitOr
  | bitXor => Binary64.bitXor
  | bitAnd => Binary64.bitAnd
  | shiftLeft => Binary64.shiftLeft
  | shiftRight => Binary64.shiftRight
  | shiftRightUnsigned => Binary64.shiftRightUnsigned
  | add => Binary64.add
  | sub => Binary64.sub
  | mul => Binary64.mul
  | div => Binary64.div
  | rem => Binary64.rem

namespace SymbolTable

/-- The constant that a symbol stands for. -/
def constant? (table : SymbolTable) (id : SymbolId) : Option Binary64 := do
  let symbol ← table.symbols[id]?
  if symbol.kind = .memberKind then symbol.value else none

/-- The value of an expression whose names are looked up from a scope. -/
def evaluate (table : SymbolTable) (scope : Option SymbolId) : ConstExpr → Option Binary64
  | .number value => some value
  | .string _ => none
  | .name name => (table.resolve scope name).bind table.constant?
  | .unary op operand => (table.evaluate scope operand).map op.apply
  | .binary op left right => do
    let a ← table.evaluate scope left
    let b ← table.evaluate scope right
    return op.apply a b

end SymbolTable

end NodeFactory
