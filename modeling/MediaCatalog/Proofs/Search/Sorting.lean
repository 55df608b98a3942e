import MediaCatalog.Proofs.Query.SortKey
import MediaCatalog.Proofs.Search.Statement
import MediaCatalog.Proofs.Sql.Dialect
import MediaCatalog.Proofs.Store.Reference

namespace MediaCatalog

open Sql

-- A name of a field that entries can be sorted by.
def Schema.SortsBy (s : Schema) (name : String) (f : Field) : Prop :=
  s.resolve name = .ok f ∧ f.type ≠ .textList

-- The values of the columns are of the types of their fields, or null. This is no restriction in SQLite, where any
-- value can be in any column.
def Tables.IsTyped (d : Dialect) (s : Schema) (t : Tables d.Held) : Prop :=
  ∀ f ∈ s.fields, ∀ r ∈ t.rows f.owner, d.Fits f.type (r.get d.engine f.column)

namespace Sql.OrderTerm

-- The term that a sort parameter asks for: by the least of the values of a field, or by the greatest.
inductive IsTermOf (s : Schema) (parameter : String) : String → Prop
  | least {name : String} {f : Field} (asks : SortKey.Asks parameter ⟨name, .ascending⟩) (sorts : s.SortsBy name f) :
    IsTermOf s parameter ("MIN(" ++ f.qualified ++ ") ASC")
  | greatest {name : String} {f : Field} (asks : SortKey.Asks parameter ⟨name, .descending⟩)
    (sorts : s.SortsBy name f) : IsTermOf s parameter ("MAX(" ++ f.qualified ++ ") DESC")

-- A parameter in order, but for its field, which is unknown or holds lists.
inductive IsUnsortable (s : Schema) (parameter : String) : Fault → Prop
  | intro {k : SortKey} (asks : SortKey.Asks parameter k) (unsorted : ∀ f, ¬s.SortsBy k.field f) :
    IsUnsortable s parameter (.invalidSortField k.field)

variable {s : Schema} {parameter : String} {parameters : List String} {k : SortKey} {o : OrderTerm}
  {order : List OrderTerm} {x : Fault}

theorem ofKey_eq_ok_iff : ofKey s k = .ok o ↔ ∃ f, s.SortsBy k.field f ∧ ⟨Column.ofField f, k.direction⟩ = o := by
  have hsortable (f : Field) : f.isSortable ↔ f.type ≠ .textList := by
    rw [Field.isSortable]
    cases f.type <;> decide
  simp only [Search.ofKey_eq_ok, Schema.SortsBy, Schema.resolve_eq_ok, hsortable, and_assoc]

theorem ofKey_eq_error_iff : ofKey s k = .error x ↔ (∀ f, ¬s.SortsBy k.field f) ∧ x = .invalidSortField k.field := by
  cases ho : ofKey s k with
  | ok o =>
    obtain ⟨f, hf, _⟩ := ofKey_eq_ok_iff.mp ho
    exact ⟨nofun, fun ⟨hnone, _⟩ => (hnone f hf).elim⟩
  | error y =>
    have hnone : ∀ f, ¬s.SortsBy k.field f := fun f hf => by
      cases ho.symm.trans (ofKey_eq_ok_iff.mpr ⟨f, hf, rfl⟩)
    have hy : y = .invalidSortField k.field := by
      rw [ofKey] at ho
      split at ho
      · split at ho <;> cases ho
        rfl
      · cases ho
        rfl
    simp [hnone, hy, eq_comm]

theorem read_bind_eq_ok : SortKey.read parameter >>= ofKey s = .ok o ↔
    ∃ k f, SortKey.Asks parameter k ∧ s.SortsBy k.field f ∧ ⟨Column.ofField f, k.direction⟩ = o := by
  simp only [Except.bind_eq_ok, SortKey.read_eq_ok, ofKey_eq_ok_iff, exists_and_left]

theorem isTermOf_iff {term : String} : IsTermOf s parameter term ↔
    ∃ o, SortKey.read parameter >>= ofKey s = .ok o ∧ o.text = term := by
  simp only [read_bind_eq_ok]
  constructor
  · rintro (⟨hk, hf⟩ | ⟨hk, hf⟩)
    · exact ⟨_, ⟨_, _, hk, hf, rfl⟩, rfl⟩
    · exact ⟨_, ⟨_, _, hk, hf, rfl⟩, rfl⟩
  · rintro ⟨_, ⟨⟨name, d⟩, f, hk, hf, rfl⟩, rfl⟩
    cases d with
    | ascending => exact .least hk hf
    | descending => exact .greatest hk hf

theorem exists_isTermOf : (∃ term, IsTermOf s parameter term) ↔ ∃ o, SortKey.read parameter >>= ofKey s = .ok o := by
  simp only [isTermOf_iff]
  exact ⟨fun ⟨_, o, ho, _⟩ => ⟨o, ho⟩, fun ⟨o, ho⟩ => ⟨_, o, ho, rfl⟩⟩

-- A parameter that asks for a key is turned down for its field only.
theorem isUnsortable_iff (hp : ∃ k, SortKey.Asks parameter k) :
    IsUnsortable s parameter x ↔ SortKey.read parameter >>= ofKey s = .error x := by
  obtain ⟨k, hk⟩ := hp
  rw [hk.read_eq, Except.ok_bind, ofKey_eq_error_iff]
  constructor
  · rintro ⟨hk', hf⟩
    cases hk.read_eq.symm.trans hk'.read_eq
    exact ⟨hf, rfl⟩
  · rintro ⟨hf, rfl⟩
    exact .intro hk hf

theorem ofParameters_eq (h : ∀ p ∈ parameters, ∃ k, SortKey.Asks p k) :
    ofParameters s parameters = parameters.mapM fun p => SortKey.read p >>= ofKey s := by
  obtain ⟨keys, hkeys⟩ := SortKey.exists_readAll.mpr h
  rw [ofParameters, hkeys, Except.ok_bind]
  exact List.mapM_of_mapM_eq_ok hkeys

theorem ofParameters_eq_ok : ofParameters s parameters = .ok order ↔
    List.Forall₂ (fun p o => SortKey.read p >>= ofKey s = .ok o) parameters order := by
  rw [← List.mapM_eq_ok]
  constructor <;> intro h
  · have ⟨keys, hkeys, _⟩ := Except.bind_eq_ok.mp h
    rwa [← ofParameters_eq (SortKey.exists_readAll.mp ⟨keys, hkeys⟩)]
  · rwa [ofParameters_eq fun p hp => ?_]
    have ⟨_, ho⟩ := List.exists_mapM_iff.mp ⟨order, h⟩ p hp
    have ⟨k, _, hk, _⟩ := read_bind_eq_ok.mp ho
    exact ⟨k, hk⟩

theorem exists_ofParameters : (∃ order, ofParameters s parameters = .ok order) ↔
    ∀ p ∈ parameters, ∃ term, IsTermOf s p term := by
  simp only [ofParameters_eq_ok, ← List.mapM_eq_ok, List.exists_mapM_iff, exists_isTermOf]

theorem forall₂_isTermOf (h : ofParameters s parameters = .ok order) :
    List.Forall₂ (IsTermOf s) parameters (order.map text) := by
  rw [List.forall₂_map_right_iff]
  exact (ofParameters_eq_ok.mp h).imp fun _ o ho => isTermOf_iff.mpr ⟨o, ho, rfl⟩

-- What is malformed comes first. Only where nothing is malformed, the first field that cannot be sorted by is told.
theorem ofParameters_eq_error : ofParameters s parameters = .error x ↔
    (∃ before p after, parameters = before ++ p :: after ∧ (∀ q ∈ before, ∃ k, SortKey.Asks q k) ∧
      SortKey.Offends p x) ∨
    ((∀ p ∈ parameters, ∃ k, SortKey.Asks p k) ∧ ∃ before p after, parameters = before ++ p :: after ∧
      (∀ q ∈ before, ∃ term, IsTermOf s q term) ∧ IsUnsortable s p x) := by
  rw [ofParameters, Except.bind_eq_error]
  refine or_congr SortKey.readAll_eq_error ?_
  calc
    _ ↔ (∀ p ∈ parameters, ∃ k, SortKey.Asks p k) ∧
        parameters.mapM (fun p => SortKey.read p >>= ofKey s) = .error x := by
      rw [← SortKey.exists_readAll]
      constructor
      · rintro ⟨keys, hkeys, hx⟩
        exact ⟨⟨keys, hkeys⟩, (List.mapM_of_mapM_eq_ok hkeys).symm.trans hx⟩
      · rintro ⟨⟨keys, hkeys⟩, hx⟩
        exact ⟨keys, hkeys, (List.mapM_of_mapM_eq_ok hkeys).trans hx⟩
    _ ↔ _ := by
      refine and_congr_right fun hasks => ?_
      rw [List.mapM_eq_error_iff]
      simp only [exists_isTermOf]
      refine exists_congr fun before => exists_congr fun p => exists_congr fun after => ?_
      refine and_congr_right fun heq => and_congr_right fun _ => ?_
      exact (isUnsortable_iff (hasks p (by simp [heq]))).symm

-- The number of an entry is not the value that any key sorts by.
theorem ne_of_isTermOf {term : String} (h : IsTermOf s parameter term) : term ≠ "r.id ASC" := by
  intro heq
  have hhead := congrArg (·.toList.head?) heq
  cases h <;> simp at hhead

-- Entries are in a strict order under terms, whatever the tables hold.
theorem isStrictTotalOrder (h : ofParameters s parameters = .ok order) (d : Dialect) (p : Predicate)
    {t : Tables d.Held} (ht : t.IsTyped d s) : IsStrictTotalOrder Int fun a b =>
      Tables.compareEntries d.engine order (t.selected d.engine s.kind p) a b = .lt := by
  have ⟨_, _, ho⟩ := Except.bind_eq_ok.mp h
  have htrans := Tables.transCmp_compareEntries d.faithful_engine.toLawful
    (Tables.exists_fits (p := p) ht (Search.order_columns ho))
  refine {
    trichotomous := fun a b hab hba => ?trichotomous
    irrefl := fun a h => ?irrefl
    trans := fun a b c => ?trans }
  case trichotomous =>
    apply Tables.eq_of_compareEntries
    cases hc : Tables.compareEntries d.engine order (t.selected d.engine s.kind p) a b with
    | lt => exact (hab hc).elim
    | eq => rfl
    | gt => exact (hba (Std.OrientedCmp.lt_of_gt hc)).elim
  case irrefl =>
    have heq : Tables.compareEntries d.engine order (t.selected d.engine s.kind p) a a = .eq :=
      Std.ReflCmp.compare_self
    cases h.symm.trans heq
  case trans => exact Std.TransCmp.lt_trans

-- Sort parameters are accepted if each of them is in order and names a field to sort by. There is one term for each of
-- them, in their order, and behind these the number of the entry, so that no two entries are equal in the order. What
-- is malformed is told first, and of several faults of a kind the first one.
theorem ofParameters_sorts_strictly (s : Schema) (parameters : List String) :
    ((∃ order, ofParameters s parameters = .ok order) ↔ ∀ p ∈ parameters, ∃ term, IsTermOf s p term) ∧
    (∀ order, ofParameters s parameters = .ok order →
      (∃ terms, List.Forall₂ (IsTermOf s) parameters terms ∧ "r.id ASC" ∉ terms ∧
        orderText order = String.intercalate ", " (terms ++ ["r.id ASC"])) ∧
      ∀ (d : Dialect) (p : Predicate) (t : Tables d.Held), t.IsTyped d s → IsStrictTotalOrder Int fun a b =>
        Tables.compareEntries d.engine order (t.selected d.engine s.kind p) a b = .lt) ∧
    ∀ x, ofParameters s parameters = .error x ↔
      (∃ before p after, parameters = before ++ p :: after ∧ (∀ q ∈ before, ∃ k, SortKey.Asks q k) ∧
        SortKey.Offends p x) ∨
      ((∀ p ∈ parameters, ∃ k, SortKey.Asks p k) ∧ ∃ before p after, parameters = before ++ p :: after ∧
        (∀ q ∈ before, ∃ term, IsTermOf s q term) ∧ IsUnsortable s p x) := by
  refine ⟨exists_ofParameters,
    fun order h => ⟨⟨order.map text, forall₂_isTermOf h, fun hm => ?last, rfl⟩, fun d p t ht => ?strict⟩,
    fun x => ofParameters_eq_error⟩
  case last =>
    have ⟨_, _, hterm⟩ := (forall₂_isTermOf h).exists_of_mem _ hm
    exact ne_of_isTermOf hterm rfl
  case strict => exact isStrictTotalOrder h d p ht

-- An entry without a date and one with a date are in a strict order by their dates.
theorem ofParameters_sorts_strictly_dates :
    let order : List OrderTerm := [⟨⟨.root, "release_date"⟩, .descending⟩, ⟨⟨.translation, "name"⟩, .ascending⟩]
    let t : Tables Value := {
      roots := [⟨1, []⟩, ⟨2, [("budget", .int 7)]⟩]
      translations := [⟨1, [("movie_id", .int 1), ("name", .text "Up")]⟩] }
    ofParameters .movie ["Release_Date, DESC", " name"] = .ok order ∧
      orderText order = "MAX(r.release_date) DESC, MIN(t.name) ASC, r.id ASC" ∧
      t.IsTyped .postgres .movie ∧
      IsStrictTotalOrder Int fun a b =>
        Tables.compareEntries .postgres order (t.selected .postgres .movie []) a b = .lt := by
  intro order t
  have ho : ofParameters .movie ["Release_Date, DESC", " name"] = .ok order := by decide +kernel
  have hvalues : ∀ f ∈ Schema.movie.fields, ∀ r ∈ t.rows f.owner, Value.IsOf f.type (r.get .postgres f.column) := by
    simp [Schema.movie, Schema.field, t, Tables.rows, StoredRow.get, List.lookup_cons, Engine.postgres, Value.IsOf,
      Scalar.IsOf]
  have hsorts := (ofParameters_sorts_strictly .movie ["Release_Date, DESC", " name"]).2.1 order ho
  exact ⟨ho, by decide +kernel, hvalues, hsorts.2 .postgres [] t hvalues⟩

end Sql.OrderTerm

end MediaCatalog
