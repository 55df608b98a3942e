import MediaCatalog.Yaml.Tag

namespace MediaCatalog.Yaml

-- How a scalar is written, as far as it matters to what it means.
inductive Style
  | plain
  | quoted
  | literal
  | folded
  deriving DecidableEq

-- Where the structure of a file shows in columns alone, tokens stand for it: blocks are opened and closed, and
-- each key is announced before it starts.
inductive Token
  | directive (d : Directive)
  | documentStart
  | documentEnd
  -- Blocks, and the hyphen before each item of a list.
  | blockList
  | blockMapping
  | blockEnd
  | entry
  -- Brackets and the comma between their items.
  | listStart
  | listEnd
  | mappingStart
  | mappingEnd
  | comma
  | key
  | value
  -- The properties of a node, and the name of a node given elsewhere.
  | anchor (name : List Char)
  | tag (t : Tag)
  | named (name : List Char)
  | scalar (style : Style) (text : List Char)
  deriving DecidableEq

end MediaCatalog.Yaml
