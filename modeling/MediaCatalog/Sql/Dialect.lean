import MediaCatalog.Schema

namespace MediaCatalog.Sql

-- The dialects differ in how placeholders are written, in the types of columns and in how the elements of a list
-- are tested.
inductive Dialect
  | sqlite
  | postgres
  deriving DecidableEq, Repr

namespace Dialect

-- The placeholder of a bound value; values count from one.
def placeholder : Dialect → Nat → String
  | sqlite,   n => "?" ++ Text.decimalNat n
  | postgres, n => "$" ++ Text.decimalNat n

def columnType : Dialect → FieldType → String
  | sqlite,   .text | sqlite, .date | sqlite, .textList => "TEXT"
  | sqlite,   .integer | sqlite, .byte                  => "INTEGER"
  | postgres, .text                                     => "TEXT"
  | postgres, .integer                                  => "BIGINT"
  | postgres, .byte                                     => "SMALLINT"
  | postgres, .date                                     => "DATE"
  | postgres, .textList                                 => "TEXT[]"

end Dialect

end MediaCatalog.Sql
