import MediaCatalog.Query

namespace MediaCatalog

structure Settings where
  paging          : Paging
  defaultLanguage : String
  deriving DecidableEq, Repr

namespace Settings

-- The settings of an operator who settles nothing.
def standard : Settings :=
  ⟨⟨20, 100, false⟩, "en-US"⟩

end Settings

end MediaCatalog
