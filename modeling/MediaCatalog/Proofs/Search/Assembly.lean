import MediaCatalog.Search.Assembly
import MediaCatalog.Proofs.Store.Answer

namespace MediaCatalog

theorem eraseDups_filter (p : Int → Bool) (ids : List Int) : (ids.filter p).eraseDups = ids.eraseDups.filter p :=
  match ids with
  | []      => rfl
  | i :: is => by
    have ih := eraseDups_filter p (is.filter fun j => !j == i)
    have hcomm : (is.filter p).filter (fun j => !j == i) = (is.filter fun j => !j == i).filter p := by
      simp only [List.filter_filter, Bool.and_comm]
    by_cases hi : p i
    case pos =>
      rw [List.filter_cons_of_pos hi, List.eraseDups_cons, List.eraseDups_cons, List.filter_cons_of_pos hi, hcomm, ih]
    case neg =>
      -- What fails the test anyway need not be left out.
      have hsame : (is.filter fun j => !j == i).filter p = is.filter p := by
        rw [← hcomm, List.filter_eq_self]
        intro j hj
        have hne : j ≠ i := fun heq => hi (heq ▸ List.of_mem_filter hj)
        simpa using hne
      rw [List.filter_cons_of_neg hi, List.eraseDups_cons, List.filter_cons_of_neg hi, ← ih, hsame]
termination_by ids.length
decreasing_by simpa using Nat.lt_succ_of_le (List.length_filter_le ..)

namespace Row

-- The rows of an entry.
def ofId (rows : List Row) (id : Int) : List Row :=
  rows.filter (·.id = id)

-- What a table has to hold when rows have been gathered in it.
def Gathers (m : Std.HashMap Int Entry) (rows : List Row) : Prop :=
  ∀ id, m[id]? = entryOf? (ofId rows id)

-- What entries of given numbers are made of.
structure AreMadeOf (ids : List Int) (rows : List Row) (entries : List Entry) : Prop where
  distinct     : (entries.map (·.id)).Nodup
  ids          : entries.map (·.id) = ids.eraseDups.filter fun id => rows.any (·.id = id)
  attributes   : ∀ e ∈ entries, (rows.find? (·.id = e.id)).map (·.attributes) = some e.attributes
  translations : ∀ e ∈ entries, e.translations = (ofId rows e.id).map fun r => ⟨r.language, r.translation⟩

section Gathering

variable {m : Std.HashMap Int Entry} {rows : List Row}

theorem entryOf?_concat (rows : List Row) (r : Row) :
    entryOf? (rows ++ [r]) =
      let e := (entryOf? rows).getD ⟨r.id, r.attributes, []⟩
      some { e with translations := e.translations ++ [⟨r.language, r.translation⟩] } := by
  cases rows <;> simp [entryOf?]

theorem gathers_empty : Gathers ∅ [] := by
  intro id
  simp [ofId, entryOf?]

theorem Gathers.gather (h : Gathers m rows) (r : Row) : Gathers (gather m r) (rows ++ [r]) := by
  intro id
  rw [Row.gather, Std.HashMap.getElem?_alter, ofId, List.filter_append]
  by_cases hid : r.id = id
  case pos =>
    subst hid
    have hrow : [r].filter (·.id = r.id) = [r] := by simp
    rw [if_pos (beq_self_eq_true _), h r.id, hrow, entryOf?_concat]
    rfl
  case neg =>
    have hrow : [r].filter (·.id = id) = [] := by simp [hid]
    rw [if_neg (by simpa using hid), h id, hrow, List.append_nil, ofId]

-- The table holds the entries of all rows that have been gathered, those of the rows before included.
theorem Gathers.foldl (h : Gathers m rows) (rest : List Row) : Gathers (rest.foldl Row.gather m) (rows ++ rest) := by
  induction rest generalizing m rows with
  | nil => simpa using h
  | cons r rest ih =>
    have hrest := ih (h.gather r)
    rwa [List.append_assoc] at hrest

end Gathering

section Taking

variable {m : Std.HashMap Int Entry}

-- The second time that a number comes up its entry is gone.
theorem takeOut_eq (m : Std.HashMap Int Entry) (ids : List Int) :
    takeOut m ids = ids.eraseDups.filterMap fun id => m[id]? := by
  induction ids generalizing m with
  | nil => rfl
  | cons id ids ih =>
    have hrest : ∀ m' : Std.HashMap Int Entry, (∀ i ≠ id, m'[i]? = m[i]?) → m'[id]? = none →
        ids.eraseDups.filterMap (fun i => m'[i]?) =
          (ids.filter fun i => !i == id).eraseDups.filterMap fun i => m[i]? := by
      intro m' hother hid
      rw [eraseDups_filter, List.filterMap_filter]
      apply List.filterMap_congr
      intro i _
      by_cases hi : i = id
      case pos => simp [hi, hid]
      case neg => simp [hi, hother i hi]
    rw [takeOut, List.eraseDups_cons]
    cases hm : m[id]? with
    | none => rw [List.filterMap_cons_none hm, ← hrest m (fun _ _ => rfl) hm, ← ih]
    | some e =>
      have herased : ∀ i ≠ id, (m.erase id)[i]? = m[i]? := by
        intro i hi
        rw [Std.HashMap.getElem?_erase, if_neg (by simpa using hi.symm)]
      rw [List.filterMap_cons_some hm, ← hrest (m.erase id) herased (by simp), ← ih]

end Taking

variable {ids : List Int} {rows : List Row}

theorem collect_eq_assemble (ids : List Int) (rows : List Row) : collect ids rows = assemble ids rows := by
  have hgathers := gathers_empty.foldl rows
  rw [List.nil_append] at hgathers
  rw [collect, takeOut_eq, assemble]
  apply List.filterMap_congr
  intro id _
  exact hgathers id

theorem entryOf?_eq_some {e : Entry} {id : Int} (h : entryOf? (ofId rows id) = some e) :
    e.id = id ∧ (rows.find? (·.id = id)).map (·.attributes) = some e.attributes ∧
      e.translations = (ofId rows id).map fun r => ⟨r.language, r.translation⟩ := by
  cases hrows : ofId rows id with
  | nil =>
    rw [hrows] at h
    cases h
  | cons r rest =>
    have hfirst : rows.find? (·.id = id) = some r := by
      rw [← List.head?_filter, ← ofId, hrows, List.head?_cons]
    rw [hrows] at h
    cases h
    have hid := List.find?_some hfirst
    rw [hfirst]
    exact ⟨of_decide_eq_true hid, rfl, rfl⟩

theorem isSome_entry (rows : List Row) (id : Int) : (entryOf? (ofId rows id)).isSome = rows.any (·.id = id) := by
  rw [← List.isSome_find?, ← List.head?_filter, ← ofId]
  cases ofId rows id <;> rfl

theorem map_id_assemble (ids : List Int) (rows : List Row) :
    (assemble ids rows).map (·.id) = ids.eraseDups.filter fun id => rows.any (·.id = id) := by
  rw [assemble, List.map_filterMap, ← List.filterMap_eq_filter]
  apply List.filterMap_congr
  intro id _
  have hsome := isSome_entry rows id
  change (entryOf? (ofId rows id)).map (·.id) = _
  cases he : entryOf? (ofId rows id) with
  | none =>
    rw [he] at hsome
    simp [Option.guard, ← hsome]
  | some e =>
    rw [he] at hsome
    simp [Option.guard, ← hsome, (entryOf?_eq_some he).1]

theorem areMadeOf_assemble (ids : List Int) (rows : List Row) : AreMadeOf ids rows (assemble ids rows) := by
  have hsome : ∀ e ∈ assemble ids rows, entryOf? (ofId rows e.id) = some e := by
    intro e he
    have ⟨id, _, heq⟩ := List.mem_filterMap.mp he
    have hid := (entryOf?_eq_some heq).1
    rwa [← hid] at heq
  constructor
  case distinct =>
    rw [map_id_assemble]
    apply List.Nodup.filter
    exact nodup_eraseDups ids
  case ids => exact map_id_assemble ids rows
  case attributes =>
    intro e he
    exact (entryOf?_eq_some (hsome e he)).2.1
  case translations =>
    intro e he
    exact (entryOf?_eq_some (hsome e he)).2.2

-- Only the rows of the entries that are asked for count, and their order within each entry.
theorem assemble_congr {rows' : List Row} (h : ∀ id ∈ ids, ofId rows' id = ofId rows id) :
    assemble ids rows' = assemble ids rows := by
  apply List.filterMap_congr
  intro id hid
  exact congrArg entryOf? (h id (List.mem_eraseDups.mp hid))

-- Gathered row by row, the entries are those of the window, each once and where its number comes first, as far as
-- there are rows of it. An entry has the attributes of the first of its rows and the translations of all of them. Rows
-- of other entries change nothing, whether they stand before, behind or between its own.
theorem collect_groups (ids : List Int) (rows : List Row) :
    collect ids rows = assemble ids rows ∧
    AreMadeOf ids rows (collect ids rows) ∧
    collect ids (rows.filter (·.id ∈ ids)) = collect ids rows ∧
    ∀ rows', (∀ id ∈ ids, ofId rows' id = ofId rows id) → collect ids rows' = collect ids rows := by
  simp only [collect_eq_assemble]
  refine ⟨trivial, areMadeOf_assemble ids rows, ?outside, fun rows' h => assemble_congr h⟩
  case outside =>
    apply assemble_congr
    intro id hid
    rw [ofId, ofId, List.filter_filter]
    apply List.filter_congr
    intro r _
    by_cases hr : r.id = id <;> simp [hr, hid]

-- The second of two entries is asked for first, and once more behind the other one.
theorem collect_groups_mixed :
    let row (id : Int) (language : String) : Row := ⟨id, ∅, language, ∅⟩
    let rows := [row 1 "en", row 2 "en", row 1 "de"]
    let mixed := [row 7 "en", row 1 "en", row 1 "de", row 2 "en"]
    (∀ id ∈ [2, 1, 2, 3], ofId mixed id = ofId rows id) ∧
      collect [2, 1, 2, 3] mixed = collect [2, 1, 2, 3] rows ∧
      (collect [2, 1, 2, 3] rows).map (·.id) = [2, 1] := by
  intro row rows mixed
  have hmixed : ∀ id ∈ [2, 1, 2, 3], ofId mixed id = ofId rows id := by
    simp [ofId, rows, mixed, row]
  have ⟨_, hmade, _, hcongr⟩ := collect_groups [2, 1, 2, 3] rows
  refine ⟨hmixed, hcongr mixed hmixed, ?_⟩
  rw [hmade.ids]
  rfl

end Row

end MediaCatalog
