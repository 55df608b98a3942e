import MediaCatalog.Yaml.Token

namespace MediaCatalog.Yaml

-- A node may be given a number as its anchor, by which it can stand elsewhere, even within itself.
inductive Tree
  | scalar (style : Style) (tag : Option String) (text : String)
  | list (items : List Tree)
  | mapping (entries : List (Tree × Tree))
  | anchored (anchor : Nat) (tree : Tree)
  -- The node with an anchor.
  | named (anchor : Nat)

namespace Tree

-- What nothing stands for.
def empty : Tree :=
  scalar .plain none ""

instance : Inhabited Tree := ⟨empty⟩

mutual

-- The nodes with an anchor, in the order in which they start.
def anchoredBy (n : Nat) : Tree → List Tree
  | scalar ..       => []
  | list items      => anchoredByAny n items
  | mapping entries => anchoredByEntries n entries
  | anchored m tree => (if m = n then [tree] else []) ++ tree.anchoredBy n
  | named _         => []

def anchoredByAny (n : Nat) : List Tree → List Tree
  | []            => []
  | tree :: trees => tree.anchoredBy n ++ anchoredByAny n trees

def anchoredByEntries (n : Nat) : List (Tree × Tree) → List Tree
  | []                      => []
  | (key, value) :: entries => key.anchoredBy n ++ value.anchoredBy n ++ anchoredByEntries n entries

end

-- The node that a tree stands for within a document: without its anchor, and if it is named the last node
-- that has the anchor.
def resolve (document : Tree) : Tree → Tree
  | named n      => (document.anchoredBy n).getLast?.getD empty
  | anchored _ t => t
  | t            => t

end Tree

end MediaCatalog.Yaml
