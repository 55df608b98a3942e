import MediaCatalog.Filter.Criterion

namespace MediaCatalog

-- What type the elements of a field have.
def FieldType.element : FieldType → FieldType
  | textList => text
  | τ        => τ

namespace Filter

-- What an operator is applied to. A range has both its ends in it.
inductive Operand
  | single (v : Scalar)
  | list (vs : List Scalar)
  | range (low high : Scalar)
  deriving DecidableEq

namespace Operand

def values : Operand → List Scalar
  | single v       => [v]
  | list vs        => vs
  | range low high => [low, high]

-- LIKE looks for a text, whatever the type.
def read (type : FieldType) (operand : String) : Operator → Except Mistake Operand
  | .isIn | .notIn   => do return list (← (← elements operand).mapM (readScalar type))
  | .between         => do
    match ← elements operand with
    | [low, high] => return range (← readScalar type low) (← readScalar type high)
    | tokens      => throw (.boundCount tokens.length)
  | .like | .notLike => pure (single (.text operand))
  | _                => single <$> readScalar type operand

end Operand

-- Whether an operator is for fields with one value only.
def Operator.isScalar (o : Operator) : Bool :=
  o.isComparison || o == .between

-- Lists have no order, so that no comparison is read for them.
def parse (type : FieldType) (raw : String) : Except Mistake (Operator × Operand) :=
  let (o, operand) := Operator.detect raw
  if type.isList && o.isScalar then throw (.unsupported o) else (o, ·) <$> Operand.read type operand o

end Filter

end MediaCatalog
