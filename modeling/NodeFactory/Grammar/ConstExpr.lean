import NodeFactory.Binary64.Decimal
import NodeFactory.Grammar.Parse
import NodeFactory.Schema.ConstExpr

/-!
# Reading constant expressions

Binary operators are read by precedence climbing: an expression at a level takes the operators that
bind tighter than the level, and is therefore grouped to the left.
-/

namespace NodeFactory

/-- The kind of the lexeme after `n` others if nothing stands between it and the one before. -/
def Cursor.gluedKind? (cursor : Cursor) (n : Nat) : Option TokenKind :=
  (cursor.peek? n).bind fun lexeme => if lexeme.isGlued then some lexeme.kind else none

/-- The binary operator that is next and the number of lexemes it is made of. A shift is written as
lexemes without anything between them. -/
def Cursor.binaryOp? (cursor : Cursor) : Option (BinaryOp × Nat) :=
  match cursor.kind with
  | .bar => some (.bitOr, 1)
  | .caret => some (.bitXor, 1)
  | .ampersand => some (.bitAnd, 1)
  | .plus => some (.add, 1)
  | .minus => some (.sub, 1)
  | .star => some (.mul, 1)
  | .slash => some (.div, 1)
  | .percent => some (.rem, 1)
  | .less => if cursor.gluedKind? 1 = some .less then some (.shiftLeft, 2) else none
  | .greater =>
    if cursor.gluedKind? 1 = some .greater then
      if cursor.gluedKind? 2 = some .greater then some (.shiftRightUnsigned, 3)
      else some (.shiftRight, 2)
    else none
  | _ => none

namespace Parse

/-- The unary operators before an operand, outermost first. -/
def unaryOps : Parse (List UnaryOp) :=
  repeatFrom (fun ops => do
    match ← kind with
    | .plus => next; return .inl (ops ++ [.plus])
    | .minus => next; return .inl (ops ++ [.neg])
    | .tilde => next; return .inl (ops ++ [.bitNot])
    | _ => return .inr ops) []

/-- A number, a string, an expression in parentheses or a name. -/
def constPrimary (nested : Parse ConstExpr) : Parse ConstExpr := do
  match ← kind with
  | .number =>
    match Binary64.ofLiteral? ((← cursor).textAt 0) with
    | some value => next; return .number value
    | none => unexpected
  | .string => return .string (← propertyName).name
  | .openParen =>
    next
    let inner ← nested
    expect .closeParen
    return inner
  | _ => return .name (← entityName)

def constOperand (nested : Parse ConstExpr) : Parse ConstExpr := do
  let ops ← unaryOps
  let primary ← constPrimary nested
  return ops.foldr .unary primary

/-- An expression whose operators bind tighter than a level. -/
def constExprAbove : Nat → Parse ConstExpr :=
  fix fun exprAbove level => do
    let left ← constOperand (exprAbove 0)
    repeatFrom (fun left => do
      match (← cursor).binaryOp? with
      | some (op, length) =>
        if op.precedence ≤ level then return .inr left
        skip length
        return .inl (.binary op left (← exprAbove op.precedence))
      | none => return .inr left) left

def constExpr : Parse ConstExpr := constExprAbove 0

end Parse

end NodeFactory
