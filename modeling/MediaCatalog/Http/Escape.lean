import MediaCatalog.Text
import MediaCatalog.Text.Utf8

namespace MediaCatalog.Http.Escape

def hexValue? (b : UInt8) : Option UInt8 :=
  if 0x30 ≤ b ∧ b ≤ 0x39 then some (b - 0x30)
  else if 0x41 ≤ b ∧ b ≤ 0x46 then some (b - 0x37)
  else if 0x61 ≤ b ∧ b ≤ 0x66 then some (b - 0x57)
  else none

-- A percent sign and two hexadecimal digits stand for a byte; a percent sign that is followed by anything else
-- stands for itself.
def unescape : List UInt8 → List UInt8
  | []               => []
  | 0x25 :: h :: l :: bs =>
    match hexValue? h, hexValue? l with
    | some h, some l => (h * 16 + l) :: unescape bs
    | _,      _      => 0x25 :: unescape (h :: l :: bs)
  | b :: bs          => b :: unescape bs

-- The text that a segment of a path stands for, if it is text at all.
def segment? (s : String) : Option String :=
  Text.Utf8.decode? (unescape (Text.Utf8.encode s))

-- The text that a name or a value in a query stands for. A plus sign is a space.
def component (s : String) : String :=
  let plus := (Text.Utf8.encode s).map fun b => if b = 0x2B then 0x20 else b
  Text.Utf8.decode (unescape plus)

-- The names and values of a query. An empty piece is no parameter, and a piece without an equals sign
-- is a name without a value.
def pairs (query : String) : List (String × String) :=
  ((Text.split '&' query).filter (· ≠ "")).map fun piece =>
    let (name, value) := Text.cut '=' piece
    (component name, component value)

end MediaCatalog.Http.Escape
