import MediaCatalog.Query.SortKey

namespace MediaCatalog

-- Pages are counted from zero.
structure PageRequest where
  page : UInt32
  size : UInt32
  sort : List SortKey

namespace PageRequest

-- How many items come before the page.
def offset (r : PageRequest) : Int64 :=
  .ofNat r.page.toNat * .ofNat r.size.toNat

-- The greatest number of items on the page.
def limit (r : PageRequest) : Int64 :=
  .ofNat r.size.toNat

end PageRequest

structure Page (α : Type) where
  items      : List α
  number     : UInt32
  size       : UInt32
  totalItems : Int64
  totalPages : Int64

namespace Page

-- The page that answers a request. The last page may be incomplete and counts as a page.
def answer {α : Type} (items : List α) (r : PageRequest) (totalItems : Int64) : Page α where
  items := items
  number := r.page
  size := r.size
  totalItems := totalItems
  totalPages :=
    let size := Int64.ofNat (max r.size 1).toNat
    (totalItems + size - 1) / size

end Page

end MediaCatalog
