import MediaCatalog.Filter.Operator
import MediaCatalog.Schema
import MediaCatalog.Value

namespace MediaCatalog.Filter

-- How a value has to compare with a given one.
inductive Relation
  | equal
  | notEqual
  | greater
  | greaterOrEqual
  | less
  | lessOrEqual
  deriving DecidableEq, Repr

-- A question about a single value.
inductive ScalarTest
  | compares (r : Relation) (v : Scalar)
  | between (low high : Scalar)
  | isIn (vs : List Scalar)
  | notIn (vs : List Scalar)
  | like (stretch : String)
  | notLike (stretch : String)
  deriving DecidableEq

-- A question about a list of texts: which elements it has, or which stretch some element has.
inductive ListTest
  | has (item : String)
  | hasNot (item : String)
  | hasAll (items : List String)
  | hasNotAll (items : List String)
  | like (stretch : String)
  | notLike (stretch : String)
  deriving DecidableEq

-- A field that holds a list is asked about the elements of its list, any other field about its one value.
inductive Criterion
  | ofScalar (test : ScalarTest)
  | ofList (test : ListTest)
  deriving DecidableEq

-- Why a filter value cannot be read.
inductive Mistake
  | unsupported (o : Operator)
  | emptyElement (list : String)
  | boundCount (n : Nat)
  | notInteger (token : String)
  | notByte (token : String)
  | notDate (token : String)
  deriving DecidableEq

namespace Mistake

def message : Mistake → String
  | unsupported o     => "operator '" ++ o.mark ++ "' is not supported on multi-valued fields"
  | emptyElement list => "empty element in list '" ++ list ++ "'"
  | boundCount n      =>
    "between expects exactly two bounds separated by ',', got " ++ Text.decimalNat n
  | notInteger token  => "'" ++ token ++ "' is not an integer"
  | notByte token     => "'" ++ token ++ "' is not a byte (-128..=127)"
  | notDate token     => "'" ++ token ++ "' is not an ISO date (YYYY-MM-DD)"

def fault (f : Field) (m : Mistake) : Fault :=
  .invalidFilterValue f.name m.message

end Mistake

-- Reads a value of a field's type. An element of a list is a text.
def readScalar (type : FieldType) (token : String) : Except Mistake Scalar :=
  match type with
  | .text | .textList => .ok (.text token)
  | .integer          => ((Text.readInt64? token).map .int).getDM (throw (.notInteger token))
  | .byte             => ((Text.readInt? (-128) 127 token).map .int).getDM (throw (.notByte token))
  | .date             => ((Date.read? token).map .date).getDM (throw (.notDate token))

-- The elements of a list with commas between; none may be empty.
def elements (operand : String) : Except Mistake (List String) :=
  let tokens := (Text.split ',' operand).map Text.trim
  if tokens.contains "" then throw (.emptyElement operand) else pure tokens

namespace ScalarTest

def read (type : FieldType) (operand : String) : Operator → Except Mistake ScalarTest
  | .equal          => compares .equal <$> readScalar type operand
  | .notEqual       => compares .notEqual <$> readScalar type operand
  | .greater        => compares .greater <$> readScalar type operand
  | .greaterOrEqual => compares .greaterOrEqual <$> readScalar type operand
  | .less           => compares .less <$> readScalar type operand
  | .lessOrEqual    => compares .lessOrEqual <$> readScalar type operand
  | .like           => pure (like operand)
  | .notLike        => pure (notLike operand)
  | .isIn           => do return isIn (← (← elements operand).mapM (readScalar type))
  | .notIn          => do return notIn (← (← elements operand).mapM (readScalar type))
  | .between        => do
    match ← elements operand with
    | [low, high] => return between (← readScalar type low) (← readScalar type high)
    | tokens      => throw (.boundCount tokens.length)

end ScalarTest

namespace ListTest

def read (operand : String) : Operator → Except Mistake ListTest
  | .equal    => pure (has operand)
  | .notEqual => pure (hasNot operand)
  | .like     => pure (like operand)
  | .notLike  => pure (notLike operand)
  | .isIn     => hasAll <$> elements operand
  | .notIn    => hasNotAll <$> elements operand
  | o         => throw (.unsupported o)

end ListTest

namespace Criterion

def read (type : FieldType) (raw : String) : Except Mistake Criterion :=
  let (o, operand) := Operator.detect raw
  if type.isList then ofList <$> ListTest.read operand o
  else ofScalar <$> ScalarTest.read type operand o

-- The criterion that a filter value states for a field.
def ofField (f : Field) (raw : String) : Except Fault Criterion :=
  (read f.type raw).mapError (·.fault f)

end Criterion

end MediaCatalog.Filter
