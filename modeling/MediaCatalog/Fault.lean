import MediaCatalog.Text.Number

namespace MediaCatalog

-- What can go wrong while a request is served.
inductive Fault
  | invalidFilterField (field : String)
  | invalidFilterValue (field reason : String)
  | invalidSortField (field : String)
  | badRequest (reason : String)
  | notFound (what : String)
  | database (reason : String)
  | serialization (reason : String)
  | configuration (reason : String)
  | internal (reason : String)
  deriving DecidableEq, Repr, Inhabited

namespace Fault

def kind : Fault → String
  | invalidFilterField ..  => "invalidFilterField"
  | invalidFilterValue ..  => "invalidFilterValue"
  | invalidSortField ..    => "invalidSortField"
  | badRequest ..          => "badRequest"
  | notFound ..            => "notFound"
  | database ..            => "database"
  | serialization ..       => "serialization"
  | configuration ..       => "configuration"
  | internal ..            => "internal"

def message : Fault → String
  | invalidFilterField field        => "Unknown filter field: " ++ field
  | invalidFilterValue field reason =>
    "Invalid value for filter field " ++ field ++ ": " ++ reason
  | invalidSortField field          => "Invalid sort field: " ++ field
  | badRequest reason               => "Bad request: " ++ reason
  | notFound what                   => "Not found: " ++ what
  | database reason                 => "Database error: " ++ reason
  | serialization reason            => "Serialization error: " ++ reason
  | configuration reason            => "Configuration error: " ++ reason
  | internal reason                 => "Internal error: " ++ reason

-- The client is to blame for 400 and 404, the server for 500.
def status : Fault → Nat
  | invalidFilterField .. | invalidFilterValue .. | invalidSortField .. | badRequest .. => 400
  | notFound ..                                                                         => 404
  | database .. | serialization .. | configuration .. | internal ..                     => 500

end Fault

end MediaCatalog
