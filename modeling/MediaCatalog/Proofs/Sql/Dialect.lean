import MediaCatalog.Proofs.Entry.Value
import MediaCatalog.Proofs.Json

namespace MediaCatalog.Sql

-- An engine that shows what was stored.
structure Engine.Faithful {κ : Type} (e : Engine κ) (fits : FieldType → κ → Prop) : Prop
    extends e.Lawful fits where
  load_store : ∀ {τ} {v : Value}, v.IsOf τ → e.load τ (e.store v) = v.json
  fits_store : ∀ {τ} {v : Value}, v.IsOf τ → fits τ (e.store v)
  order_text : ∀ s t, e.order (e.store (.text s)) (e.store (.text t)) = compare s t
  takes_null : e.takes .null
  takes_int  : ∀ n, e.takes (.int n)
  takes_list : ∀ {l}, e.takes (.list l) → ∀ t ∈ l, e.takes (.text t)
  -- A statement about a single entry is never too much.
  values     : 16 ≤ e.limits.values
  depth      : ∀ n ∈ e.limits.depth, 16 ≤ n
  -- Neither is the offset of a page, unless its entries are too many to be asked for.
  values_lt  : e.limits.values < 2 ^ 31
  offset     : ∀ n ∈ e.limits.offset, n ≤ 0

namespace Engine

theorem sqlite_faithful : sqlite.Faithful fun _ _ => True where
  toLawful := sqlite_lawful
  load_store {τ v} h := by
    rcases v with _ | (_ | _ | _) | l <;> cases τ
    case list.textList =>
      change (Json.read? (Json.strs l).text).getD .null = Json.strs l
      rw [Json.read?_strs]
      rfl
    all_goals first | rfl | exact h.elim
  fits_store _ := trivial
  order_text _ _ := rfl
  takes_null := rfl
  takes_int _ := rfl
  takes_list _ _ _ := rfl
  values := by decide
  depth := by decide
  values_lt := by decide
  offset := by decide

theorem postgres_faithful : postgres.Faithful Value.IsOf where
  toLawful := postgres_lawful
  load_store {τ v} h := by
    rcases v with _ | (_ | _ | _) | _ <;> cases τ <;> first | rfl | exact h.elim
  fits_store h := h
  order_text _ _ := rfl
  takes_null := rfl
  takes_int _ := rfl
  takes_list h t ht := List.all_eq_true.mp h t ht
  values := by decide
  depth := by decide
  values_lt := by decide
  offset := by decide

end Engine

namespace Dialect

-- What a database that speaks the dialect holds for a value.
def Held : Dialect → Type
  | sqlite   => Engine.Cell
  | postgres => Value

def engine : (d : Dialect) → Engine d.Held
  | sqlite   => .sqlite
  | postgres => .postgres

def Fits : (d : Dialect) → FieldType → d.Held → Prop
  | sqlite   => fun _ _ => True
  | postgres => Value.IsOf

theorem faithful_engine (d : Dialect) : d.engine.Faithful d.Fits := by
  cases d with
  | sqlite => exact Engine.sqlite_faithful
  | postgres => exact Engine.postgres_faithful

end Dialect

end MediaCatalog.Sql
