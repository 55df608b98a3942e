import MediaCatalog.Text

namespace MediaCatalog.Http.MediaType

-- The characters of types and of names and unquoted values of parameters.
def isToken (c : Char) : Bool :=
  Text.isAsciiAlphanumeric c || "!#$%&\x27*+-.^_`|~".toList.contains c

-- The characters of quoted values.
def isQuotable (c : Char) : Bool :=
  c.toNat > 31 && c.toNat != 127

-- What is read next of the parameters.
inductive Phase
  | beforeName    -- blanks, a name or the end
  | name          -- the rest of a name, up to an equals sign
  | beforeValue   -- an unquoted value, a quote or the end
  | value         -- the rest of an unquoted value
  | opened        -- the first character of a quoted value
  | quoted        -- the rest of a quoted value, up to a quote
  | closed        -- blanks and a semicolon, or the end

-- Whether parameters may go on in this way.
def parameters : Phase → List Char → Bool
  | .beforeName,  []      => true
  | .beforeValue, []      => true
  | .value,       []      => true
  | .closed,      []      => true
  | _,            []      => false
  | .beforeName,  c :: cs => if c = ' ' then parameters .beforeName cs else isToken c && parameters .name cs
  | .name,        c :: cs => if c = '=' then parameters .beforeValue cs else isToken c && parameters .name cs
  | .beforeValue, c :: cs => if c = '"' then parameters .opened cs else isToken c && parameters .value cs
  | .value,       c :: cs => if c = ';' then parameters .beforeName cs else isToken c && parameters .value cs
  | .opened,      c :: cs => isQuotable c && parameters .quoted cs
  | .quoted,      c :: cs => if c = '"' then parameters .closed cs else isQuotable c && parameters .quoted cs
  | .closed,      c :: cs =>
    if c = ';' then parameters .beforeName cs else c = ' ' && parameters .closed cs

-- The suffix of a subtype, behind the last plus sign that is not its first character.
def suffix? : List Char → Option (List Char)
  | []     => none
  | _ :: s => go none s
where
  go (last : Option (List Char)) : List Char → Option (List Char)
    | []      => last
    | c :: cs => go (if c = '+' then some cs else last) cs

-- Whether a subtype is JSON, by itself or by its suffix.
def isJsonSubtype (subtype : List Char) : Bool :=
  subtype = "json".toList || suffix? subtype = some "json".toList

-- Whether a media type is well-formed and says that a body is JSON.
def isJson (mediaType : String) : Bool :=
  let cs := mediaType.toList
  let type := cs.takeWhile (· ≠ '/')
  let rest := (cs.dropWhile (· ≠ '/')).drop 1
  let subtype := rest.takeWhile (· ≠ ';')
  type.map Char.toLower = "application".toList && subtype.all isToken &&
    isJsonSubtype (subtype.map Char.toLower) &&
    parameters .beforeName ((rest.dropWhile (· ≠ ';')).drop 1)

-- Whether the part before the parameters reads as JSON, blanks around it aside.
def isNearlyJson (mediaType : String) : Bool :=
  let essence := Text.asciiLower (Text.trim (Text.before ';' mediaType))
  essence = "application/json" || Text.endsWith "+json" essence

end MediaCatalog.Http.MediaType
