namespace MediaCatalog

-- A finite map from text. The entries stand in ascending byte order of their keys, so that a map has one form
-- only.
structure Dictionary (α : Type) where
  entries   : List (String × α)
  ascending : entries.Pairwise fun a b => a.1 < b.1

namespace Dictionary

variable {α : Type}

def empty : Dictionary α :=
  ⟨[], .nil⟩

instance : EmptyCollection (Dictionary α) := ⟨empty⟩
instance : Inhabited (Dictionary α) := ⟨empty⟩

-- Puts a value under a key, in the place of the value that was there.
def put (key : String) (value : α) : List (String × α) → List (String × α)
  | []           => [(key, value)]
  | (k, v) :: es =>
    if key < k then (key, value) :: (k, v) :: es
    else if key = k then (key, value) :: es
    else (k, v) :: put key value es

theorem put.fst_mem {key : String} {value : α} {es : List (String × α)} {e : String × α}
    (h : e ∈ put key value es) : e.1 = key ∨ e ∈ es := by
  induction es with
  | nil => simp_all [put]
  | cons _ _ ih =>
    simp only [put] at h
    split at h
    case isTrue => rcases List.mem_cons.1 h with rfl | h <;> simp_all
    case isFalse =>
      split at h
      case isTrue => rcases List.mem_cons.1 h with rfl | h <;> simp_all
      case isFalse =>
        rcases List.mem_cons.1 h with rfl | h
        · simp
        · exact (ih h).imp_right (List.mem_cons_of_mem _)

theorem put.ascending (key : String) (value : α) {es : List (String × α)}
    (h : es.Pairwise fun a b => a.1 < b.1) :
    (put key value es).Pairwise fun a b => a.1 < b.1 := by
  induction es with
  | nil => simp [put]
  | cons e es ih =>
    have ⟨first, rest⟩ := List.pairwise_cons.1 h
    simp only [put]
    split
    case isTrue hlt =>
      refine .cons (fun x hx => ?_) h
      rcases List.mem_cons.1 hx with rfl | hx
      · exact hlt
      · exact String.lt_trans hlt (first x hx)
    case isFalse hlt =>
      split
      case isTrue heq => exact .cons (fun x hx => heq ▸ first x hx) rest
      case isFalse hne =>
        refine .cons (fun x hx => ?_) (ih rest)
        rcases put.fst_mem hx with hk | hx
        · rw [hk]
          have hle := String.not_lt.1 hlt
          exact String.not_le.1 fun h => hne (String.le_antisymm h hle)
        · exact first x hx

def insert (d : Dictionary α) (key : String) (value : α) : Dictionary α :=
  ⟨put key value d.entries, put.ascending key value d.ascending⟩

-- Of several entries with one key the last one counts.
def ofList (es : List (String × α)) : Dictionary α :=
  es.foldl (fun d e => d.insert e.1 e.2) ∅

def get? (d : Dictionary α) (key : String) : Option α :=
  (d.entries.find? (·.1 = key)).map (·.2)

def contains (d : Dictionary α) (key : String) : Bool :=
  d.entries.any (·.1 = key)

def keys (d : Dictionary α) : List String :=
  d.entries.map (·.1)

end Dictionary

end MediaCatalog
