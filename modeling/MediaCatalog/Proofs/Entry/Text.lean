import MediaCatalog.Proofs.Entry.Record
import MediaCatalog.Proofs.Json.Canonical

namespace MediaCatalog

namespace Json

-- A value that holds at most texts and is in its canonical form.
structure IsShown (j : Json) : Prop where
  whole     : j.IsWhole
  depth     : j.depth ≤ 1
  canonical : j.canonical = j

theorem canonicalItems_str (l : List String) : canonicalItems (l.map str) = l.map str := by
  rw [canonicalItems_eq_map, List.map_map]
  rfl

end Json

theorem Value.isShown_json {τ : FieldType} {v : Value} (h : v.Suits τ) : v.json.IsShown := by
  rcases v with _ | (s | n | d) | l
  case scalar.int =>
    have hmin : Int64.minValue.toInt = -2 ^ 63 := rfl
    have hmax : Int64.maxValue.toInt = 2 ^ 63 - 1 := rfl
    have hsize : (UInt64.size : Int) = 2 ^ 64 := rfl
    have hrange : Int64.minValue.toInt ≤ n ∧ n < UInt64.size := by
      cases τ
      case integer =>
        have h : Int64.minValue.toInt ≤ n ∧ n ≤ Int64.maxValue.toInt := h
        omega
      case byte =>
        have h : -128 ≤ n ∧ n ≤ 127 := h
        omega
      all_goals exact h.elim
    exact ⟨hrange, Nat.zero_le 1, rfl⟩
  case list =>
    refine ⟨?_, ?_, ?_⟩
    · exact Json.areWhole_iff.mpr (by simp [Json.IsWhole])
    · exact Nat.succ_le_succ (Json.itemsDepth_le.mpr (by simp [Json.depth]))
    · exact congrArg Json.arr (Json.canonicalItems_str l)
  all_goals exact ⟨trivial, Nat.zero_le 1, rfl⟩

-- What a client sends for a draft.
def Draft.json (d : Draft) : Json :=
  .obj (d.attributes.entries ++ [("translations", .arr (d.translations.map Translation.json))])

-- Attributes that are sent as they are shown, and under keys of their own.
def Dictionary.AreShown (keys : List String) (attributes : Dictionary Json) : Prop :=
  ∀ e ∈ attributes.entries, e.1 ∉ keys ∧ e.2.IsShown

-- Attributes that can stand among members with the given keys: they are read back as they are.
def Dictionary.StandAmong (keys : List String) (attributes : Dictionary Json) : Prop :=
  ∀ e ∈ attributes.entries, e.1 ∉ keys ∧ e.2.canonical = e.2

theorem Dictionary.AreShown.standAmong {keys : List String} {attributes : Dictionary Json}
    (h : attributes.AreShown keys) : attributes.StandAmong keys :=
  fun e he => ⟨(h e he).1, (h e he).2.canonical⟩

structure Draft.IsShown (d : Draft) : Prop where
  attributes   : d.attributes.AreShown ["translations"]
  translations : ∀ t ∈ d.translations, t.fields.AreShown ["language"]

section Attributes

variable {keys : List String} {attributes : Dictionary Json} (h : attributes.StandAmong keys)

include h

theorem Json.others_entries (before after : List (String × Json)) (hb : ∀ m ∈ before, m.1 ∈ keys)
    (ha : ∀ m ∈ after, m.1 ∈ keys) : Json.others keys (before ++ attributes.entries ++ after) = attributes := by
  have hkept : attributes.entries.filter (fun m => !keys.contains m.1) = attributes.entries :=
    List.filter_eq_self.mpr fun m hm => by simpa using (h m hm).1
  have hdropped : ∀ ms : List (String × Json), (∀ m ∈ ms, m.1 ∈ keys) →
      ms.filter (fun m => !keys.contains m.1) = [] :=
    fun ms hms => List.filter_eq_nil_iff.mpr fun m hm => by simpa using hms m hm
  have hcanonical : attributes.entries.map (fun m => (m.1, m.2.canonical)) = attributes.entries := by
    conv_rhs => rw [← List.map_id attributes.entries]
    exact List.map_congr_left fun m hm => by rw [(h m hm).2, id]
  rw [Json.others, List.filter_append, List.filter_append, hkept, hdropped before hb, hdropped after ha,
    List.nil_append, List.append_nil, hcanonical, Dictionary.ofList_entries]

theorem Json.filter_entries {key : String} (hk : key ∈ keys) :
    attributes.entries.filter (·.1 = key) = [] := by
  refine List.filter_eq_nil_iff.mpr fun m hm => ?_
  rw [decide_eq_true_eq]
  rintro rfl
  exact (h m hm).1 hk

end Attributes

theorem Translation.ofJson?_json {t : Translation} (h : t.fields.StandAmong ["language"]) :
    ofJson? t.json = some t := by
  let first : List (String × Json) := [("language", .str t.language)]
  have hothers := Json.others_entries h first [] (by simp [first]) (by simp)
  have hlanguage : Json.required? "language" (("language", .str t.language) :: t.fields.entries) =
      some (.str t.language) := by
    rw [Json.required?, Json.single?, List.filter_cons_of_pos (by simp), Json.filter_entries h (by simp)]
    rfl
  have hjson : t.json.obj? = some (first ++ t.fields.entries) := rfl
  rw [ofJson?, hjson, Option.bind_eq_bind, Option.bind_some, List.singleton_append, hlanguage]
  rw [List.append_nil, List.singleton_append] at hothers
  simp only [Option.bind_eq_bind, Option.bind_some, Json.str?, hothers]

theorem Translation.listOfJson?_map {ts : List Translation}
    (h : ∀ t ∈ ts, t.fields.StandAmong ["language"]) :
    listOfJson? (.arr (ts.map json)) = some ts := by
  have hmap : (ts.map json).mapM ofJson? = some ts := by
    induction ts with
    | nil => rfl
    | cons t ts ih =>
      have ⟨ht, hts⟩ := List.forall_mem_cons.mp h
      simp [ofJson?_json ht, ih hts]
  simp only [listOfJson?, Json.arr?, Option.bind_eq_bind, Option.bind_some, hmap]

theorem Translation.isWhole_json {ts : List Translation}
    (h : ∀ t ∈ ts, ∀ m ∈ t.fields.entries, m.2.IsWhole) : (Json.arr (ts.map json)).IsWhole := by
  refine Json.areWhole_iff.mpr fun j hj => ?_
  obtain ⟨t, ht, rfl⟩ := List.mem_map.mp hj
  refine Json.areWholeMembers_iff.mpr fun m hm => ?_
  rcases List.mem_cons.mp hm with rfl | hm
  · trivial
  · exact h t ht m hm

namespace Draft

variable {d : Draft} (h : d.IsShown)

include h

theorem ofJson?_json : ofJson? d.json = some d := by
  let last : List (String × Json) := [("translations", .arr (d.translations.map Translation.json))]
  have hattributes := h.attributes.standAmong
  have htranslations := Translation.listOfJson?_map fun t ht => (h.translations t ht).standAmong
  have hothers := Json.others_entries hattributes [] last (by simp) (by simp [last])
  have hsingle : Json.single? "translations" (d.attributes.entries ++ last) =
      some (some (.arr (d.translations.map Translation.json))) := by
    rw [Json.single?, List.filter_append, Json.filter_entries hattributes (by simp)]
    rfl
  have hjson : d.json.obj? = some (d.attributes.entries ++ last) := rfl
  rw [ofJson?, hjson, Option.bind_eq_bind, Option.bind_some, hsingle]
  rw [List.nil_append] at hothers
  simp only [Option.bind_eq_bind, Option.bind_some, htranslations, hothers]

-- What is sent for a draft is read as the draft.
theorem read_json : read d.json.text = .ok d := by
  have hwhole : d.json.IsWhole := by
    refine Json.areWholeMembers_iff.mpr fun m hm => ?_
    rcases List.mem_append.mp hm with hm | hm
    · exact (h.attributes m hm).2.whole
    · rw [List.mem_singleton] at hm
      subst hm
      exact Translation.isWhole_json fun t ht m hm => (h.translations t ht m hm).2.whole
  have hdepth : d.json.depth ≤ 4 := by
    refine Nat.succ_le_succ (Json.membersDepth_le.mpr fun m hm => ?_)
    rcases List.mem_append.mp hm with hm | hm
    · exact Nat.le_trans (h.attributes m hm).2.depth (by decide)
    · rw [List.mem_singleton] at hm
      subst hm
      refine Nat.succ_le_succ (Json.itemsDepth_le.mpr fun j hj => ?_)
      obtain ⟨t, ht, rfl⟩ := List.mem_map.mp hj
      refine Nat.succ_le_succ (Json.membersDepth_le.mpr fun m hm => ?_)
      rcases List.mem_cons.mp hm with rfl | hm
      · exact Nat.zero_le 1
      · exact (h.translations t ht m hm).2.depth
  rw [read, Json.readAs, Json.read?_text (Nat.le_trans hdepth (by decide)) hwhole]
  simp only [ofJson?_json h]
  rfl

end Draft

section Shown

variable {s : Schema} (hs : s.IsUsable)

-- What is shown of columns can be sent again.
theorem Field.areShown {fs : List Field} {cs : Columns} (hc : cs.Suit fs) {keys : List String}
    (hk : ∀ f ∈ fs, f.name ∉ keys) : (shown fs cs).AreShown keys := by
  intro e he
  obtain ⟨f, hf, rfl⟩ := List.mem_map.mp (Dictionary.mem_of_mem_ofList he)
  exact ⟨hk f hf, Value.isShown_json (hc.suits f hf)⟩

include hs

theorem Record.IsOf.isShown {r : Record} (hr : r.IsOf s) (id : Int) : (r.entry s id).draft.IsShown where
  attributes := Field.areShown hr.root fun f hf hm =>
    hs.members f (Schema.mem_rootFields.mp hf).1 (by simp [List.mem_singleton.mp hm])
  translations t ht := by
    obtain ⟨u, hu, rfl⟩ := List.mem_map.mp ht
    refine Field.areShown (hr.columns u ((List.mergeSort_perm ..).mem_iff.mp hu)) fun f hf hm => ?_
    exact hs.members f (Schema.mem_translationFields.mp hf).1 (by simp [List.mem_singleton.mp hm])

end Shown

end MediaCatalog
