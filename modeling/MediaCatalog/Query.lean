import MediaCatalog.Dictionary
import MediaCatalog.Page
import MediaCatalog.Text.Number

namespace MediaCatalog

-- How a server divides results into pages.
structure Paging where
  defaultSize : UInt32
  maxSize     : UInt32
  oneIndexed  : Bool
  deriving DecidableEq, Repr

namespace Paging

-- The number by which clients call the first page.
def firstPage (p : Paging) : UInt32 :=
  if p.oneIndexed then 1 else 0

end Paging

-- A number moved into bounds, unless they are out of order.
def clamp? (low high n : UInt32) : Option UInt32 :=
  if high < low then none
  else if n < low then some low
  else if high < n then some high
  else some n

-- Four names are reserved for paging, sorting and the language; every other parameter is a filter on the field of
-- that name.
structure Query where
  filter   : Dictionary String
  page     : Option String
  size     : Option String
  sort     : List String
  language : Option String

namespace Query

def empty : Query :=
  ⟨∅, none, none, [], none⟩

-- The characters that marks of operators are made of, save the equals sign, which divides the name
-- of a parameter from its value.
def isMark (c : Char) : Bool :=
  c == '!' || c == '*' || c == ':' || c == '<' || c == '>'

-- Name and value of a parameter, where a mark at the end of the name has moved to the value. A name
-- with anything else behind its word is left as it is.
def normalize (name value : String) : String × String :=
  let word := name.toList.takeWhile Text.isWord
  let tail := name.toList.dropWhile Text.isWord
  if tail.isEmpty then (Text.lower name, value)
  else if !(tail.take 1).all isMark then (Text.lower name, value)
  else if value.isEmpty then (Text.lower (.ofList word), .ofList tail)
  else if !tail.all isMark then (Text.lower name, value)
  else if tail = ['<'] ∨ tail = ['>'] then
    (Text.lower (.ofList word), .ofList tail ++ "=" ++ value)
  else (Text.lower (.ofList word), .ofList tail ++ value)

-- Takes in one more parameter.
def add (q : Query) (name value : String) : Except Refusal Query :=
  let (field, raw) := normalize name value
  match field with
  | ""         => throw (.unnamedParameter name)
  | "page"     => pure { q with page := raw }
  | "size"     => pure { q with size := raw }
  | "sort"     => pure { q with sort := q.sort ++ [raw] }
  | "language" => pure { q with language := raw }
  | field      =>
    if q.filter.contains field then throw (.repeatedField field)
    else pure { q with filter := q.filter.insert field raw }

def ofPairs (pairs : List (String × String)) : Except Refusal Query :=
  pairs.foldlM (fun q (name, value) => q.add name value) empty

-- The language that the first parameter of that very name asks for, in whatever ASCII case the name is.
def firstLanguage (pairs : List (String × String)) : Option String :=
  (pairs.find? fun p => Text.asciiLower p.1 = "language").map (·.2)

-- A number that a parameter gives, or the default without the parameter.
def count (parameter : String) (default : UInt32) : Option String → Except Refusal UInt32
  | none     => pure default
  | some raw =>
    match Text.readNat? (UInt32.size - 1) (Text.trim raw) with
    | some n => pure (.ofNat n)
    | none   => throw (.notCount parameter)

-- The page that the parameters ask for. A size out of bounds is moved to the nearest bound.
def pageRequest (q : Query) (p : Paging) : Except Fault PageRequest := do
  let page ← (count "page" p.firstPage q.page).mapError Refusal.fault
  if page < p.firstPage then throw (Refusal.pageBelow p.firstPage.toNat).fault
  let size ← (count "size" p.defaultSize q.size).mapError Refusal.fault
  let sort ← SortKey.readAll q.sort
  return ⟨page - p.firstPage, max 1 (min size p.maxSize), sort⟩

-- The request of a query, where nothing comes out of moving a size into bounds that are out of order.
def pageRequest? (q : Query) (p : Paging) : Option (Except Fault PageRequest) := ExceptT.run do
  let page ← ExceptT.mk (some ((count "page" p.firstPage q.page).mapError Refusal.fault))
  if page < p.firstPage then throw (Refusal.pageBelow p.firstPage.toNat).fault
  let size ← ExceptT.mk (some ((count "size" p.defaultSize q.size).mapError Refusal.fault))
  let size ← ExceptT.lift (clamp? 1 p.maxSize size)
  let sort ← ExceptT.mk (some (SortKey.readAll q.sort))
  return ⟨page - p.firstPage, size, sort⟩

end Query

end MediaCatalog
