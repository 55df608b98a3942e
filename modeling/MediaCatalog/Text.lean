namespace MediaCatalog.Text

-- The characters with the Unicode property White_Space.
def isBlank (c : Char) : Bool :=
  let n := c.toNat
  (9 ≤ n && n ≤ 13) || n == 0x20 || n == 0x85 || n == 0xA0 || n == 0x1680 ||
  (0x2000 ≤ n && n ≤ 0x200A) || n == 0x2028 || n == 0x2029 || n == 0x202F || n == 0x205F ||
  n == 0x3000

-- The text without the blanks at its two ends.
def trim (s : String) : String :=
  .ofList ((s.toList.dropWhile isBlank).reverse.dropWhile isBlank).reverse

-- Whether nothing but blanks is there.
def isAllBlank (s : String) : Bool :=
  s.toList.all isBlank

-- The pieces between separators: one more piece than there are separators.
def split (sep : Char) (s : String) : List String :=
  (pieces s.toList).map .ofList
where
  pieces : List Char → List (List Char)
    | [] => [[]]
    | c :: cs => if c = sep then [] :: pieces cs else grow c (pieces cs)
  grow (c : Char) : List (List Char) → List (List Char)
    | [] => [[c]]
    | w :: ws => (c :: w) :: ws

theorem split.pieces_ne_nil (sep : Char) (cs : List Char) : split.pieces sep cs ≠ [] := by
  cases cs with
  | nil => simp [pieces]
  | cons c cs =>
    simp only [pieces]
    split
    case isTrue => simp
    case isFalse => cases pieces sep cs <;> simp [grow]

-- The text before the first separator, or all of it.
def before (sep : Char) (s : String) : String :=
  .ofList (s.toList.takeWhile (· ≠ sep))

-- The text before the first separator and the text after it, which is empty without a separator.
def cut (sep : Char) (s : String) : String × String :=
  (before sep s, .ofList ((s.toList.dropWhile (· ≠ sep)).drop 1))

-- The rest of the text behind a given beginning.
def without? (beginning s : String) : Option String :=
  (beginning.toList.isPrefixOf? s.toList).map .ofList

-- The rest of the text behind a given beginning and all its repetitions. Each has a character of its own, so
-- that the count of characters is enough fuel.
def withoutAll (beginning s : String) : String :=
  go s.length s
where
  go : (fuel : Nat) → String → String
    | 0,        s => s
    | fuel + 1, s =>
      match without? beginning s with
      | some rest => go fuel rest
      | none      => s

def startsWith (beginning s : String) : Bool :=
  beginning.toList.isPrefixOf s.toList

def endsWith (ending s : String) : Bool :=
  ending.toList.isSuffixOf s.toList

-- Whether the second text holds the first one as a stretch of it.
def occursIn (stretch s : String) : Bool :=
  go s.toList
where
  go : List Char → Bool
    | [] => stretch.toList.isEmpty
    | c :: cs => stretch.toList.isPrefixOf (c :: cs) || go cs

-- ASCII letters in lower case, all else unchanged.
def asciiLower (s : String) : String :=
  .ofList (s.toList.map Char.toLower)

def isAsciiAlphanumeric (c : Char) : Bool :=
  c.isAlpha || c.isDigit

-- The characters of an identifier: ASCII letters, digits and the underscore.
def isWord (c : Char) : Bool :=
  isAsciiAlphanumeric c || c == '_'

end MediaCatalog.Text
