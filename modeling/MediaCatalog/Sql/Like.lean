namespace MediaCatalog.Sql.Like

-- A percent sign stands for any stretch of text, an underscore for any one character, and behind a backslash every
-- character stands for itself.
inductive Token
  | stretch
  | anyChar
  | char (c : Char)
  deriving DecidableEq, Repr

-- The tokens of a pattern, unless the pattern ends in a lone backslash.
def tokens? : List Char → Option (List Token)
  | []              => some []
  | '\\' :: c :: cs => (tokens? cs).map (.char c :: ·)
  | ['\\']          => none
  | '%' :: cs       => (tokens? cs).map (.stretch :: ·)
  | '_' :: cs       => (tokens? cs).map (.anyChar :: ·)
  | c :: cs         => (tokens? cs).map (.char c :: ·)

-- Whether some ending of a text passes a test.
def someEnding (test : List Char → Bool) : List Char → Bool
  | []      => test []
  | c :: cs => test (c :: cs) || someEnding test cs

-- Whether tokens cover a text; `same` says which characters count as equal.
def covers (same : Char → Char → Bool) : List Token → List Char → Bool
  | [],             cs      => cs.isEmpty
  | .stretch :: ts, cs      => someEnding (covers same ts) cs
  | .anyChar :: ts, _ :: cs => covers same ts cs
  | .char c :: ts,  d :: cs => same c d && covers same ts cs
  | _ :: _,         []      => false

-- Whether a text is like a pattern.
def matchesText (same : Char → Char → Bool) (pattern text : List Char) : Bool :=
  match tokens? pattern with
  | some ts => covers same ts text
  | none    => false

-- A stretch of text as a part of a pattern, where each character stands for itself.
def escaped (stretch : List Char) : List Char :=
  stretch.flatMap fun c => if c = '\\' ∨ c = '%' ∨ c = '_' then ['\\', c] else [c]

-- A backslash in front of each occurrence of one character.
def replaced (c : Char) (cs : List Char) : List Char :=
  cs.flatMap fun d => if d = c then ['\\', d] else [d]

-- The pattern of the texts in which a given stretch occurs.
def containing (stretch : String) : String :=
  .ofList ('%' :: escaped stretch.toList ++ ['%'])

end MediaCatalog.Sql.Like
