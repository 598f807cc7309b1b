/-!
# Operators

The operators of expressions with their spellings, grouped by what they ask of their left operand:
`BinaryOp.operands` is the class of operands, and `BinaryOp.yieldsBool` says whether the result is a
truth value or has the type of the operands.
-/

namespace Sema

/-- An operator with two operands. -/
inductive BinaryOp where
  | add
  | subtract
  | multiply
  | divide
  | modulo
  | power
  | less
  | lessEqual
  | greater
  | greaterEqual
  | equal
  | notEqual
deriving DecidableEq

/-- An operator with one operand. -/
inductive UnaryOp where
  | negate
  | not
deriving DecidableEq

/-- An operator that joins any number of truth values. -/
inductive Connective where
  | or
  | and
deriving DecidableEq

/-- The operands that an operator accepts. -/
inductive OperandClass where
  /-- Numbers only. -/
  | number
  /-- Numbers and strings. -/
  | numberOrString
  /-- Values of every type. -/
  | anything
deriving DecidableEq

namespace BinaryOp

/-- The spelling of an operator. -/
def symbol : BinaryOp → String
  | add => "+"
  | subtract => "-"
  | multiply => "*"
  | divide => "/"
  | modulo => "%"
  | power => "**"
  | less => "<"
  | lessEqual => "<="
  | greater => ">"
  | greaterEqual => ">="
  | equal => "=="
  | notEqual => "!="

/-- The class of operands: strings can be added and ordered, and everything can be compared. -/
def operands : BinaryOp → OperandClass
  | add | less | lessEqual | greater | greaterEqual => .numberOrString
  | subtract | multiply | divide | modulo | power => .number
  | equal | notEqual => .anything

/-- Whether the result is a truth value. -/
def yieldsBool : BinaryOp → Bool
  | less | lessEqual | greater | greaterEqual | equal | notEqual => true
  | add | subtract | multiply | divide | modulo | power => false

end BinaryOp

end Sema
