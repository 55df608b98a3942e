import MediaCatalog.Sql.Truth

namespace MediaCatalog.Sql.Truth

@[simp]
theorem and_eq_true {a b : Truth} : a.and b = some true ↔ a = some true ∧ b = some true := by
  rcases a with _ | _ | _ <;> rcases b with _ | _ | _ <;> simp [and]

@[simp]
theorem or_eq_true {a b : Truth} : a.or b = some true ↔ a = some true ∨ b = some true := by
  rcases a with _ | _ | _ <;> rcases b with _ | _ | _ <;> simp [or]

@[simp]
theorem not_eq_true {a : Truth} : a.not = some true ↔ a = some false := by
  rcases a with _ | _ | _ <;> simp [not]

@[simp]
theorem orFalse_eq_true {a : Truth} : a.orFalse = some true ↔ a = some true := by
  rcases a with _ | _ | _ <;> simp [orFalse]

@[simp]
theorem orFalse_eq_false {a : Truth} : a.orFalse = some false ↔ a ≠ some true := by
  rcases a with _ | _ | _ <;> simp [orFalse]

@[simp]
theorem and_true (a : Truth) : a.and (some true) = a := by
  rcases a with _ | _ | _ <;> rfl

@[simp]
theorem all_eq_true {ts : List Truth} : all ts = some true ↔ ∀ t ∈ ts, t = some true := by
  induction ts with
  | nil => simp [all]
  | cons t ts ih => simp [all, ih]

@[simp]
theorem any_eq_true {ts : List Truth} : any ts = some true ↔ ∃ t ∈ ts, t = some true := by
  induction ts with
  | nil => simp [any]
  | cons t ts ih =>
    simp only [any, or_eq_true, ih, List.mem_cons, exists_eq_or_imp]

-- Where nothing is unknown, the logic has two values.
theorem and_known (p q : Bool) : and (some p) (some q) = some (p && q) := by
  cases p <;> cases q <;> rfl

theorem all_known (bs : List Bool) : all (bs.map some) = some (bs.all id) := by
  induction bs with
  | nil => rfl
  | cons b bs ih => rw [List.map_cons, all, ih, and_known, List.all_cons, id]

end MediaCatalog.Sql.Truth
