import MediaCatalog.Text

namespace MediaCatalog.Filter

-- A filter value opens with the mark of its operator; what follows the mark is the operand.
inductive Operator
  | like
  | notLike
  | between
  | notIn
  | isIn
  | greaterOrEqual
  | lessOrEqual
  | greater
  | less
  | notEqual
  | equal
  deriving DecidableEq, Repr

namespace Operator

def mark : Operator → String
  | like           => "*"
  | notLike        => "!*"
  | between        => "::"
  | notIn          => "!:"
  | isIn           => ":"
  | greaterOrEqual => ">="
  | lessOrEqual    => "<="
  | greater        => ">"
  | less           => "<"
  | notEqual       => "!"
  | equal          => ""

-- A mark stands behind every mark that it opens.
def all : List Operator :=
  [like, notLike, between, notIn, isIn, greaterOrEqual, lessOrEqual, greater, less, notEqual, equal]

def isComparison : Operator → Bool
  | greaterOrEqual | lessOrEqual | greater | less => true
  | _                                             => false

-- Whether a filter value opens with the mark of an operator.
def opens (o : Operator) (raw : String) : Bool :=
  Text.startsWith o.mark raw

-- The operator of a filter value and the operand behind its mark. Every value has an operator, as
-- the mark of `equal` is empty.
def detect (raw : String) : Operator × String :=
  (all.findSome? fun o => (Text.without? o.mark raw).map (o, ·)).getD (equal, raw)

end Operator

end MediaCatalog.Filter
