import MediaCatalog.Proofs.Entry.Text
import MediaCatalog.Proofs.Json.Reader

namespace MediaCatalog

-- A value as an attribute holds it: the keys of every object ascend, and its numbers are integers of 64 bits.
structure Json.IsHeld (j : Json) : Prop where
  whole     : j.IsWhole
  canonical : j.canonical = j

-- Attributes under other keys than the given ones.
def Dictionary.Avoids (keys : List String) (attributes : Dictionary Json) : Prop :=
  ∀ k ∈ attributes.keys, k ∉ keys

namespace Entry

-- An entry without floating-point numbers.
structure IsHeld (e : Entry) : Prop where
  id           : Int64.minValue.toInt ≤ e.id ∧ e.id ≤ Int64.maxValue.toInt
  attributes   : ∀ m ∈ e.attributes.entries, m.2.IsHeld
  translations : ∀ t ∈ e.translations, ∀ m ∈ t.fields.entries, m.2.IsHeld

-- The attributes do not have the keys of the parts that stand next to them.
structure HasOwnKeys (e : Entry) : Prop where
  attributes   : e.attributes.Avoids ["id", "translations"]
  translations : ∀ t ∈ e.translations, t.fields.Avoids ["language"]

end Entry

theorem Dictionary.Avoids.standAmong {keys : List String} {attributes : Dictionary Json}
    (h : attributes.Avoids keys) (hheld : ∀ m ∈ attributes.entries, m.2.IsHeld) : attributes.StandAmong keys :=
  fun m hm => ⟨h m.1 (List.mem_map_of_mem hm), (hheld m hm).canonical⟩

section Others

variable {keys : List String} {members : List (String × Json)}

-- What is kept of the members is under other keys, and in its canonical form.
theorem Json.forall_mem_others {P : Json → Prop} (h : ∀ m ∈ members, P m.2.canonical) :
    ∀ m ∈ (Json.others keys members).entries, m.1 ∉ keys ∧ P m.2 := by
  intro m hm
  obtain ⟨m', hm', rfl⟩ := List.mem_map.mp (Dictionary.mem_of_mem_ofList hm)
  have ⟨hmem, hkey⟩ := List.mem_filter.mp hm'
  exact ⟨by simpa using hkey, h m' hmem⟩

theorem Json.avoids_others : (Json.others keys members).Avoids keys := by
  intro k hk
  obtain ⟨m, hm, rfl⟩ := List.mem_map.mp hk
  exact (Json.forall_mem_others (P := fun _ => True) (fun _ _ => trivial) m hm).1

theorem Json.isHeld_others (h : ∀ m ∈ members, m.2.IsWhole) :
    ∀ m ∈ (Json.others keys members).entries, m.2.IsHeld := fun m hm =>
  (Json.forall_mem_others (fun m' hm' => ⟨(h m' hm').canonical, Json.canonical_canonical m'.2⟩) m hm).2

theorem Json.depth_others {n : Nat} (h : ∀ m ∈ members, m.2.depth ≤ n) :
    ∀ m ∈ (Json.others keys members).entries, m.2.depth ≤ n := fun m hm =>
  (Json.forall_mem_others (P := (depth · ≤ n))
    (fun m' hm' => Nat.le_trans (Json.depth_canonical_le m'.2) (h m' hm')) m hm).2

theorem Json.mem_of_required? {key : String} {j : Json} (h : Json.required? key members = some j) :
    (key, j) ∈ members := by
  rw [Json.required?, Json.single?] at h
  split at h
  case h_1 => cases h
  case h_2 m hm =>
    cases h
    have hmem := List.mem_filter.mp (hm ▸ List.mem_singleton_self m)
    rw [decide_eq_true_eq] at hmem
    exact hmem.2 ▸ hmem.1
  case h_3 => cases h

end Others

namespace Translation

theorem ofJson?_eq_some {j : Json} {t : Translation} (h : ofJson? j = some t) :
    ∃ members, j = .obj members ∧ t.fields = Json.others ["language"] members := by
  simp only [ofJson?, Option.bind_eq_bind, Option.bind_eq_some_iff] at h
  obtain ⟨members, hmembers, -, -, language, -, h⟩ := h
  cases j <;> cases hmembers
  cases h
  exact ⟨members, rfl, rfl⟩

theorem depth_json_le {j : Json} {t : Translation} (h : ofJson? j = some t) : t.json.depth ≤ j.depth := by
  obtain ⟨members, rfl, hfields⟩ := ofJson?_eq_some h
  refine Nat.succ_le_succ (Json.membersDepth_le.mpr fun m hm => ?_)
  rcases List.mem_cons.mp hm with rfl | hm
  · exact Nat.zero_le _
  · exact Json.depth_others (Json.membersDepth_le.mp (Nat.le_refl _)) m (hfields ▸ hm)

-- Every translation of a list is read from an item of the array.
theorem listOfJson?_eq_some {j : Json} {ts : List Translation} (h : listOfJson? j = some ts) :
    ∃ items, j = .arr items ∧ ∀ t ∈ ts, ∃ item ∈ items, ofJson? item = some t := by
  simp only [listOfJson?, Option.bind_eq_bind, Option.bind_eq_some_iff] at h
  obtain ⟨items, hitems, h⟩ := h
  cases j <;> cases hitems
  refine ⟨items, rfl, ?_⟩
  induction items generalizing ts with
  | nil =>
    cases h
    exact List.forall_mem_nil _
  | cons item items ih =>
    simp only [List.mapM_cons, Option.bind_eq_bind, Option.bind_eq_some_iff] at h
    obtain ⟨t, ht, ts', hts, h⟩ := h
    cases h
    refine List.forall_mem_cons.mpr ⟨⟨item, List.mem_cons_self, ht⟩, fun u hu => ?_⟩
    obtain ⟨i, hi, hread⟩ := ih hts u hu
    exact ⟨i, List.mem_cons_of_mem _ hi, hread⟩

end Translation

namespace Entry

-- What holds of the number, of each attribute and of the translations holds of all that is written for an entry.
theorem forall_mem_members {P : Json → Prop} {e : Entry} (id : P (.int e.id))
    (attributes : ∀ m ∈ e.attributes.entries, P m.2)
    (translations : P (.arr (e.translations.map Translation.json))) :
    ∀ m ∈ ("id", .int e.id) :: e.attributes.entries ++
      [("translations", .arr (e.translations.map Translation.json))], P m.2 := by
  intro m hm
  rcases List.mem_append.mp hm with hm | hm
  case inl =>
    rcases List.mem_cons.mp hm with rfl | hm
    · exact id
    · exact attributes m hm
  case inr => exact List.mem_singleton.mp hm ▸ translations

-- Where the parts of an entry come from.
theorem ofJson?_eq_some {j : Json} {e : Entry} (h : ofJson? j = some e) :
    ∃ members items, j = .obj members ∧ ("translations", .arr items) ∈ members ∧
      (Int64.minValue.toInt ≤ e.id ∧ e.id ≤ Int64.maxValue.toInt) ∧
      e.attributes = Json.others ["id", "translations"] members ∧
      ∀ t ∈ e.translations, ∃ item ∈ items, Translation.ofJson? item = some t := by
  simp only [ofJson?, Option.bind_eq_bind, Option.bind_eq_some_iff] at h
  obtain ⟨members, hmembers, n, -, id, hid, held, hheld, ts, hts, h⟩ := h
  obtain ⟨items, rfl, hitems⟩ := Translation.listOfJson?_eq_some hts
  cases j <;> cases hmembers
  cases h
  refine ⟨members, items, rfl, Json.mem_of_required? hheld, ?_, rfl, hitems⟩
  cases n <;> try cases hid
  simp only [Json.int64?] at hid
  split at hid
  case isTrue hrange =>
    cases hid
    exact hrange
  case isFalse => cases hid

section Read

variable {j : Json} {e : Entry} (h : ofJson? j = some e)

include h

theorem hasOwnKeys_of_ofJson? : e.HasOwnKeys := by
  obtain ⟨members, items, -, -, -, hattributes, hitems⟩ := ofJson?_eq_some h
  refine ⟨hattributes ▸ Json.avoids_others, fun t ht => ?_⟩
  obtain ⟨item, -, hitem⟩ := hitems t ht
  obtain ⟨_, -, hfields⟩ := Translation.ofJson?_eq_some hitem
  exact hfields ▸ Json.avoids_others

theorem isHeld_of_ofJson? (hj : j.IsWhole) : e.IsHeld := by
  obtain ⟨members, items, rfl, hmem, hid, hattributes, hitems⟩ := ofJson?_eq_some h
  have hmembers : ∀ m ∈ members, m.2.IsWhole := Json.areWholeMembers_iff.mp hj
  refine ⟨hid, hattributes ▸ Json.isHeld_others hmembers, fun t ht => ?_⟩
  obtain ⟨item, hi, hitem⟩ := hitems t ht
  obtain ⟨fields, rfl, hfields⟩ := Translation.ofJson?_eq_some hitem
  have hwhole := Json.areWhole_iff.mp (hmembers _ hmem) _ hi
  exact hfields ▸ Json.isHeld_others (Json.areWholeMembers_iff.mp hwhole)

-- What is written for an entry is nested no deeper than what the entry was read from.
theorem depth_json_le : e.json.depth ≤ j.depth := by
  obtain ⟨members, items, rfl, hmem, -, hattributes, hitems⟩ := ofJson?_eq_some h
  have hmembers := Json.membersDepth_le.mp (Nat.le_refl (Json.membersDepth members))
  refine Nat.succ_le_succ (Json.membersDepth_le.mpr
    (forall_mem_members (P := (Json.depth · ≤ Json.membersDepth members)) (Nat.zero_le _) ?_ ?_))
  · exact hattributes ▸ Json.depth_others hmembers
  · refine Nat.le_trans (Nat.succ_le_succ (Json.itemsDepth_le.mpr fun k hk => ?_)) (hmembers _ hmem)
    obtain ⟨t, ht, rfl⟩ := List.mem_map.mp hk
    obtain ⟨item, hi, hitem⟩ := hitems t ht
    exact Nat.le_trans (Translation.depth_json_le hitem) (Json.itemsDepth_le.mp (Nat.le_refl _) item hi)

end Read

section Held

variable {e : Entry} (h : e.IsHeld)

include h

theorem isWhole_json : e.json.IsWhole := by
  have hmax : Int64.maxValue.toInt < UInt64.size := by decide
  refine Json.areWholeMembers_iff.mpr (forall_mem_members ⟨h.id.1, Int.lt_of_le_of_lt h.id.2 hmax⟩ ?_ ?_)
  · exact fun m hm => (h.attributes m hm).whole
  · exact Translation.isWhole_json fun t ht m hm => (h.translations t ht m hm).whole

theorem ofJson?_json (hkeys : e.HasOwnKeys) : ofJson? e.json = some e := by
  let first : List (String × Json) := [("id", .int e.id)]
  let last : List (String × Json) := [("translations", .arr (e.translations.map Translation.json))]
  have hattributes := hkeys.attributes.standAmong h.attributes
  have htranslations := Translation.listOfJson?_map fun t ht =>
    (hkeys.translations t ht).standAmong (h.translations t ht)
  have hothers := Json.others_entries hattributes first last (by simp [first]) (by simp [last])
  have hid : Json.required? "id" (first ++ e.attributes.entries ++ last) = some (.int e.id) := by
    rw [Json.required?, Json.single?, List.filter_append, List.filter_append,
      Json.filter_entries hattributes (by simp)]
    rfl
  have hlist : Json.required? "translations" (first ++ e.attributes.entries ++ last) =
      some (.arr (e.translations.map Translation.json)) := by
    rw [Json.required?, Json.single?, List.filter_append, List.filter_append,
      Json.filter_entries hattributes (by simp)]
    rfl
  have hjson : e.json.obj? = some (first ++ e.attributes.entries ++ last) := rfl
  rw [ofJson?, hjson]
  simp only [Option.bind_eq_bind, Option.bind_some, hid, hlist, htranslations, hothers, Json.int64?, if_pos h.id]

theorem read_text (hkeys : e.HasOwnKeys) (hdepth : e.json.depth ≤ Json.maxDepth) :
    read e.json.text = .ok e := by
  rw [read, Json.readAs, Json.read?_text hdepth (isWhole_json h)]
  simp only [ofJson?_json h hkeys]
  rfl

end Held

theorem read_eq_ok {s : String} {e : Entry} (h : read s = .ok e) :
    ∃ j, Json.read? s = some j ∧ ofJson? j = some e := by
  rw [read, Json.readAs] at h
  split at h
  case h_1 => cases h
  case h_2 j hj =>
    split at h
    case h_1 => cases h
    case h_2 e' he =>
      cases h
      exact ⟨j, hj, he⟩

theorem keys_and_depth_of_read {s : String} {e : Entry} (h : read s = .ok e) :
    e.HasOwnKeys ∧ e.json.depth ≤ Json.maxDepth := by
  obtain ⟨j, hj, he⟩ := read_eq_ok h
  exact ⟨hasOwnKeys_of_ofJson? he, Nat.le_trans (depth_json_le he) (Json.isRead_of_read? hj).depth⟩

-- Entries are written without loss: an entry without floating-point numbers is read from its text as it is just
-- when its attributes have keys of their own and nothing is nested deeper than is read, and every entry that is
-- read from a text without floating-point numbers is one of these.
theorem text_lossless :
    (∀ e : Entry, e.IsHeld → (read e.json.text = .ok e ↔ e.HasOwnKeys ∧ e.json.depth ≤ 127)) ∧
      ∀ s j e, Json.read? s = some j → j.reals = [] → read s = .ok e →
        e.IsHeld ∧ e.HasOwnKeys ∧ read e.json.text = .ok e ∧
          (read e.json.text).map (·.json.text) = .ok e.json.text := by
  refine ⟨fun e he => ⟨keys_and_depth_of_read, fun h => read_text he h.1 h.2⟩, fun s j e hj hreals h => ?_⟩
  have ⟨hkeys, hdepth⟩ := keys_and_depth_of_read h
  obtain ⟨k, hk, he⟩ := read_eq_ok h
  cases hj.symm.trans hk
  have hheld := isHeld_of_ofJson? he ((Json.isRead_of_read? hj).whole hreals)
  have hagain := read_text hheld hkeys hdepth
  exact ⟨hheld, hkeys, hagain, congrArg (Except.map (·.json.text)) hagain⟩

-- Quotes, a control character and the widest integers; and keys out of order, one of them given twice.
theorem text_lossless_film :
    (∃ e : Entry, e.id = -9223372036854775808 ∧
      e.attributes.entries = [("note", .arr [.int 18446744073709551615, .str "\"\\\x01é"])] ∧
      e.translations.length = 1 ∧ read e.json.text = .ok e) ∧
    ∃ e : Entry, e.attributes.entries = [("b", .obj [("x", .int 2), ("y", .null)])] ∧
      read "\x7b\"translations\":[],\"b\":3,\"b\":\x7b\"y\":null,\"x\":2\x7d,\"id\":1\x7d" = .ok e ∧
      read e.json.text = .ok e := by
  constructor
  · let e : Entry := ⟨-9223372036854775808, .ofList [("note", .arr [.int 18446744073709551615, .str "\"\\\x01é"])],
        [⟨"en", .ofList [("name", .str "Up")]⟩]⟩
    have hint : Int64.minValue.toInt ≤ 18446744073709551615 ∧ 18446744073709551615 < (UInt64.size : Int) := by
      decide
    have hattributes : ∀ m ∈ e.attributes.entries, m.2.IsHeld :=
      List.forall_mem_singleton.mpr ⟨⟨hint, trivial, trivial⟩, rfl⟩
    have hfields : ∀ t ∈ e.translations, ∀ m ∈ t.fields.entries, m.2.IsHeld :=
      List.forall_mem_singleton.mpr (List.forall_mem_singleton.mpr ⟨trivial, rfl⟩)
    have hkeys : e.HasOwnKeys := ⟨by unfold Dictionary.Avoids; decide, by unfold Dictionary.Avoids; decide⟩
    exact ⟨e, rfl, rfl, rfl,
      (text_lossless.1 e ⟨by decide, hattributes, hfields⟩).mpr ⟨hkeys, by decide⟩⟩
  · let e : Entry := ⟨1, .ofList [("b", .obj [("x", .int 2), ("y", .null)])], []⟩
    let j : Json := .obj
      [("translations", .arr []), ("b", .int 3), ("b", .obj [("y", .null), ("x", .int 2)]), ("id", .int 1)]
    have hint : ∀ n ∈ [1, 2, 3], (Json.int n).IsWhole := by simp [Json.IsWhole]
    have hwhole : j.IsWhole :=
      ⟨trivial, hint 3 (by simp), ⟨trivial, hint 2 (by simp), trivial⟩, hint 1 (by simp), trivial⟩
    have hj : Json.read? "\x7b\"translations\":[],\"b\":3,\"b\":\x7b\"y\":null,\"x\":2\x7d,\"id\":1\x7d" =
        some j := by
      have htext : j.text = "\x7b\"translations\":[],\"b\":3,\"b\":\x7b\"y\":null,\"x\":2\x7d,\"id\":1\x7d" := by
        decide +kernel
      exact htext ▸ Json.read?_text (by decide) hwhole
    have hread : read "\x7b\"translations\":[],\"b\":3,\"b\":\x7b\"y\":null,\"x\":2\x7d,\"id\":1\x7d" = .ok e := by
      rw [read, Json.readAs, hj]
      rfl
    exact ⟨e, rfl, hread, (text_lossless.2 _ j e hj rfl hread).2.2.1⟩

end Entry

end MediaCatalog
