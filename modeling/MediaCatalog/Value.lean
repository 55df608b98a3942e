import MediaCatalog.Date

namespace MediaCatalog

-- What a filter compares a field with.
inductive Scalar
  | text (s : String)
  | int (n : Int)
  | date (d : Date)
  deriving DecidableEq

-- What a statement binds, where a list of texts or nothing at all can stand as well.
inductive Value
  | null
  | scalar (s : Scalar)
  | list (items : List String)
  deriving DecidableEq

namespace Value

abbrev text (s : String) : Value := .scalar (.text s)

abbrev int (n : Int) : Value := .scalar (.int n)

abbrev date (d : Date) : Value := .scalar (.date d)

end Value

end MediaCatalog
