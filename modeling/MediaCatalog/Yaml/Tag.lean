import MediaCatalog.Text.Number
import MediaCatalog.Yaml.Place

namespace MediaCatalog.Yaml

-- The characters of anchors, handles and names of directives.
def isNameChar (c : Char) : Bool :=
  Text.isWord c || c == '-'

namespace Uri

-- The characters of a URI besides escaped ones. Commas and square brackets are not among them everywhere.
def isPlain (withMarks : Bool) (c : Char) : Bool :=
  isNameChar c || ";/?:@&=+$.!~*'()".toList.contains c || (withMarks && ",[]".toList.contains c)

-- How many octets follow the first one of a character.
def owed? (octet : Nat) : Option Nat :=
  if octet < 0x80 then some 0
  else if octet < 0xC0 then none
  else if octet < 0xE0 then some 1
  else if octet < 0xF0 then some 2
  else if octet < 0xF8 then some 3
  else none

-- The octets of a URI, as characters of the same number, and the rest of the line. The escaped octets of
-- one character stand together.
def read? (withMarks : Bool) (owed : Nat) : List Char → Option (List Char × List Char)
  | '%' :: a :: b :: cs => do
    let octet ← Text.digitsIn? 16 [a, b]
    let owed ←
      match owed with
      | 0     => owed? octet
      | n + 1 => if 0x80 ≤ octet ∧ octet < 0xC0 then some n else none
    (read? withMarks owed cs).map fun (uri, rest) => (.ofNat octet :: uri, rest)
  | c :: cs             =>
    if owed ≠ 0 || c == '%' then none
    else if isPlain withMarks c then (read? withMarks 0 cs).map fun (uri, rest) => (c :: uri, rest)
    else some ([], c :: cs)
  | []                  => if owed = 0 then some ([], []) else none

-- A URI that is not empty. It counts up to a null character.
def readSome? (withMarks : Bool) (cs : List Char) : Option (List Char × List Char) := do
  let (uri, rest) ← read? withMarks 0 cs
  if uri.isEmpty then none else some (uri.takeWhile (· ≠ '\x00'), rest)

end Uri

-- A tag without a handle is written out in full.
structure Tag where
  handle : List Char
  rest   : List Char
  deriving DecidableEq

namespace Tag

-- A tag from behind its exclamation mark on, and the rest of the line.
def read? (inBrackets : Bool) (cs : List Char) : Option (Tag × List Char) := do
  let (tag, cs) ← go cs
  if startsBlank cs || (inBrackets && cs.head? = some ',') then some (tag, cs) else none
where
  go : List Char → Option (Tag × List Char)
    | '<' :: cs => do
      match ← Uri.readSome? true cs with
      | (uri, '>' :: cs) => some (⟨[], uri⟩, cs)
      | _                => none
    | cs        =>
      let word := cs.takeWhile isNameChar
      match cs.dropWhile isNameChar with
      | '!' :: cs => (Uri.readSome? false cs).map fun (uri, cs) => (⟨'!' :: word ++ ['!'], uri⟩, cs)
      | cs        => do
        let (uri, cs) ← Uri.read? false 0 cs
        match (word ++ uri).takeWhile (· ≠ '\x00') with
        | []  => some (⟨[], ['!']⟩, cs)
        | uri => some (⟨['!'], uri⟩, cs)

-- What the handles stand for that need no directive.
def standardHandles : List (List Char × List Char) :=
  [(['!'], ['!']), (['!', '!'], "tag:yaml.org,2002:".toList)]

-- A tag with its handle replaced by what it stands for.
def expand? (handles : List (List Char × List Char)) (t : Tag) : Option String :=
  if t.handle.isEmpty then some (.ofList t.rest)
  else (handles.lookup t.handle).map fun start => .ofList (start ++ t.rest)

end Tag

inductive Directive
  | version (major minor : Nat)
  | handle (name start : List Char)
  deriving DecidableEq

namespace Directive

-- A number of at most nine digits and the rest of the line.
def number? (cs : List Char) : Option (Nat × List Char) :=
  let digits := cs.takeWhile Char.isDigit
  if digits.length ≤ 9 then (Text.digits? digits).map (·, cs.dropWhile Char.isDigit) else none

def version? (cs : List Char) : Option (Directive × List Char) := do
  match ← number? cs with
  | (major, '.' :: cs) => (number? cs).map fun (minor, cs) => (version major minor, cs)
  | _                  => none

-- The exclamation marks of a handle stand around a word, or alone.
def handle? (cs : List Char) : Option (Directive × List Char) := do
  let (name, cs) ← go cs
  if cs.isEmpty || !startsBlank cs then none
  let (uri, cs) ← Uri.readSome? true (dropBlanks cs)
  if startsBlank cs then some (handle name uri, cs) else none
where
  go : List Char → Option (List Char × List Char)
    | '!' :: cs =>
      let word := cs.takeWhile isNameChar
      match cs.dropWhile isNameChar with
      | '!' :: cs => some ('!' :: word ++ ['!'], cs)
      | cs        => if word.isEmpty then some (['!'], cs) else none
    | _         => none

-- A directive from behind its percent sign to the end of the line.
def read? (cs : List Char) : Option Directive := do
  let rest := cs.dropWhile isNameChar
  if !startsBlank rest then none
  let (directive, rest) ←
    match String.ofList (cs.takeWhile isNameChar) with
    | "YAML" => version? (dropBlanks rest)
    | "TAG"  => handle? (dropBlanks rest)
    | _      => none
  if startsComment (dropBlanks rest) then some directive else none

-- The handles after some directives. There is at most one version among them, which has to be known, and no
-- handle is given a meaning twice.
def handles? (ds : List Directive) : Option (List (List Char × List Char)) :=
  let versions := ds.filterMap fun
    | version major minor => some (major, minor)
    | _                   => none
  let handles := ds.filterMap fun
    | handle name start => some (name, start)
    | _                 => none
  if versions.length ≤ 1 && versions.all [(1, 1), (1, 2)].contains && (handles.map (·.1)).Nodup then
    some (handles ++ Tag.standardHandles)
  else none

end Directive

end MediaCatalog.Yaml
