import MediaCatalog.Creation

namespace MediaCatalog

structure Catalog (σ : Type) where
  reader       : Reader σ
  writer       : Writer σ
  -- Whether the catalog can be reached at all.
  checkHealth  : Run σ Unit
  -- Makes ready what the entries are kept in.
  createTables : Run σ Unit

namespace Catalog

variable {σ : Type} (c : Catalog σ)

def findPage (k : Kind) (filter : Dictionary String) (l : Language) (r : PageRequest) :
    Run σ (Page Entry) :=
  (Search.mk (Schema.registered k) filter l).findPage c.reader r

def findEntry (k : Kind) (l : Language) (id : Int) : Run σ (Option Entry) :=
  Search.findEntry c.reader (Schema.registered k) l id

def create (k : Kind) (d : Draft) : Run σ Entry :=
  d.createEntry c.reader c.writer (Schema.registered k)

end Catalog

end MediaCatalog
