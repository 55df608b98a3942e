import Mathlib.Data.List.Forall2

variable {ε α β : Type}

namespace Except

theorem ok_bind (a : α) (f : α → Except ε β) : (Except.ok a : Except ε α) >>= f = f a :=
  rfl

@[simp]
theorem bind_eq_ok {x : Except ε α} {f : α → Except ε β} {b : β} :
    x >>= f = .ok b ↔ ∃ a, x = .ok a ∧ f a = .ok b := by
  cases x <;> simp [bind, Except.bind]

@[simp]
theorem map_eq_ok {x : Except ε α} {f : α → β} {b : β} :
    f <$> x = .ok b ↔ ∃ a, x = .ok a ∧ f a = b := by
  cases x <;> simp [Functor.map, Except.map]

@[simp]
theorem pure_eq_ok {a b : α} : (pure a : Except ε α) = .ok b ↔ a = b := by
  simp [pure, Except.pure]

@[simp]
theorem throw_ne_ok {x : ε} {a : α} : (throw x : Except ε α) ≠ .ok a := by
  intro h
  cases h

theorem bind_eq_error {x : Except ε α} {f : α → Except ε β} {e : ε} :
    x >>= f = .error e ↔ x = .error e ∨ ∃ a, x = .ok a ∧ f a = .error e := by
  cases x <;> simp [bind, Except.bind]

theorem mapError_eq_ok {ε' : Type} {x : Except ε α} {f : ε → ε'} {a : α} :
    x.mapError f = .ok a ↔ x = .ok a := by
  cases x <;> simp [Except.mapError]

theorem mapError_eq_error {ε' : Type} {x : Except ε α} {f : ε → ε'} {e : ε'} :
    x.mapError f = .error e ↔ ∃ e', x = .error e' ∧ f e' = e := by
  cases x <;> simp [Except.mapError]

theorem getDM_throw_eq_ok {o : Option α} {x : ε} {a : α} :
    o.getDM (throw x : Except ε α) = .ok a ↔ o = some a := by
  cases o <;> simp [Option.getDM]

theorem toOption_eq_some {x : Except ε α} {a : α} : x.toOption = some a ↔ x = .ok a := by
  cases x <;> simp [Except.toOption]

-- The failure of a computation, if it has failed.
def error? : Except ε α → Option ε
  | .ok _    => none
  | .error e => some e

theorem error?_eq_some {x : Except ε α} {e : ε} : x.error? = some e ↔ x = .error e := by
  cases x <;> simp [error?]

theorem error?_eq_none {x : Except ε α} : x.error? = none ↔ ∃ a, x = .ok a := by
  cases x <;> simp [error?]

end Except

-- Where a state is passed on, what comes next starts from the state that is left.
namespace ExceptT

variable {σ : Type} {m : ExceptT ε (StateM σ) α} {f : α → ExceptT ε (StateM σ) β} {x y : σ}

theorem run_bind_of_ok {a : α} (h : (ExceptT.run m).run x = (.ok a, y)) :
    (ExceptT.run (m >>= f)).run x = (ExceptT.run (f a)).run y := by
  rw [ExceptT.run_bind, StateT.run_bind, h]
  rfl

theorem run_bind_of_error {e : ε} (h : (ExceptT.run m).run x = (.error e, y)) :
    (ExceptT.run (m >>= f)).run x = (.error e, y) := by
  rw [ExceptT.run_bind, StateT.run_bind, h]
  rfl

end ExceptT

-- A list of results has one for each item.
theorem List.mapM_eq_ok {f : α → Except ε β} {as : List α} {bs : List β} :
    as.mapM f = .ok bs ↔ Forall₂ (fun a b => f a = .ok b) as bs := by
  induction as generalizing bs with
  | nil =>
    rw [mapM_nil, Except.pure_eq_ok, forall₂_nil_left_iff, eq_comm]
  | cons a as ih =>
    rw [mapM_cons]
    simp only [Except.bind_eq_ok, Except.pure_eq_ok, ih, forall₂_cons_left_iff]
    constructor
    · rintro ⟨b, hb, bs, hbs, rfl⟩
      exact ⟨b, bs, hb, hbs, rfl⟩
    · rintro ⟨b, bs, hb, hbs, rfl⟩
      exact ⟨b, hb, bs, hbs, rfl⟩

namespace List

theorem Forall₂.exists_of_mem {r : α → β → Prop} {as : List α} {bs : List β} (h : Forall₂ r as bs) :
    ∀ b ∈ bs, ∃ a ∈ as, r a b := by
  induction h with
  | nil => simp
  | cons hab _ ih =>
    intro b hb
    cases hb with
    | head => exact ⟨_, mem_cons_self, hab⟩
    | tail _ hb =>
      have ⟨a, ha, hab⟩ := ih b hb
      exact ⟨a, mem_cons_of_mem _ ha, hab⟩

theorem Forall₂.map_eq {γ : Type} {f : α → γ} {g : β → γ} {as : List α} {bs : List β}
    (h : Forall₂ (fun a b => f a = g b) as bs) : as.map f = bs.map g := by
  induction h with
  | nil => rfl
  | cons hab _ ih => rw [map_cons, map_cons, hab, ih]

section

variable {f : α → Except ε β} {as : List α} {bs : List β}

theorem exists_of_mapM_eq_ok (h : as.mapM f = .ok bs) : ∀ b ∈ bs, ∃ a ∈ as, f a = .ok b :=
  (mapM_eq_ok.mp h).exists_of_mem

-- There is a list of results if there is one for each item.
theorem exists_mapM_iff : (∃ bs, as.mapM f = .ok bs) ↔ ∀ a ∈ as, ∃ b, f a = .ok b := by
  simp only [mapM_eq_ok]
  induction as with
  | nil => simp
  | cons a as ih =>
    simp only [forall₂_cons_left_iff, forall_mem_cons, ← ih]
    constructor
    · rintro ⟨_, b, bs, hb, hbs, rfl⟩
      exact ⟨⟨b, hb⟩, bs, hbs⟩
    · rintro ⟨⟨b, hb⟩, bs, hbs⟩
      exact ⟨_, b, bs, hb, hbs, rfl⟩

-- A list of results fails where one of its items does.
theorem exists_of_mapM_eq_error {e : ε} (h : as.mapM f = .error e) : ∃ a ∈ as, f a = .error e := by
  induction as with
  | nil => cases h
  | cons a as ih =>
    rw [mapM_cons, Except.bind_eq_error] at h
    rcases h with h | ⟨_, _, h⟩
    · exact ⟨a, mem_cons_self, h⟩
    · rcases Except.bind_eq_error.mp h with h | ⟨_, _, h⟩
      · have ⟨a, ha, hf⟩ := ih h
        exact ⟨a, mem_cons_of_mem _ ha, hf⟩
      · cases h

-- The failure is that of the first item that fails.
theorem mapM_eq_error {g : α → Option ε} (hg : ∀ a e, f a = .error e ↔ g a = some e) {e : ε} :
    as.mapM f = .error e ↔ as.findSome? g = some e := by
  induction as with
  | nil => exact ⟨nofun, nofun⟩
  | cons a as ih =>
    rw [mapM_cons, findSome?_cons]
    cases hf : f a with
    | error e' =>
      rw [(hg a e').mp hf]
      simp [bind, Except.bind]
    | ok b =>
      have hnone : g a = none := Option.eq_none_iff_forall_ne_some.mpr fun e' he' => by
        rw [(hg a e').mpr he'] at hf
        cases hf
      rw [hnone, ← ih]
      cases as.mapM f <;> simp [bind, Except.bind, pure, Except.pure]

-- All items before it have results.
theorem mapM_eq_error_iff {e : ε} : as.mapM f = .error e ↔
    ∃ before a after, as = before ++ a :: after ∧ (∀ b ∈ before, ∃ c, f b = .ok c) ∧ f a = .error e := by
  rw [mapM_eq_error fun a e => (Except.error?_eq_some (x := f a) (e := e)).symm, findSome?_eq_some_iff]
  simp only [Except.error?_eq_some, Except.error?_eq_none]
  constructor
  · rintro ⟨before, a, after, has, ha, hbefore⟩
    exact ⟨before, a, after, has, hbefore, ha⟩
  · rintro ⟨before, a, after, has, hbefore, ha⟩
    exact ⟨before, a, after, has, ha, hbefore⟩

-- A test of the items can be made on their results.
theorem any_of_mapM_eq_ok (h : as.mapM f = .ok bs) {p : α → Bool} {q : β → Bool}
    (hpq : ∀ a b, f a = .ok b → p a = q b) : as.any p = bs.any q := by
  rw [mapM_eq_ok] at h
  induction h with
  | nil => rfl
  | cons hab _ ih => rw [any_cons, any_cons, ih, hpq _ _ hab]

theorem all_of_mapM_eq_ok (h : as.mapM f = .ok bs) {p : α → Prop} {q : β → Prop}
    (hpq : ∀ a ∈ as, ∀ b, f a = .ok b → (p a ↔ q b)) : (∀ a ∈ as, p a) ↔ ∀ b ∈ bs, q b := by
  rw [mapM_eq_ok] at h
  induction h with
  | nil => simp
  | cons hab _ ih =>
    rw [forall_mem_cons, forall_mem_cons, hpq _ mem_cons_self _ hab,
      ih fun a ha => hpq a (mem_cons_of_mem _ ha)]

-- Where one computation gives a result for every item, so does another one that gives one for the same items.
theorem exists_mapM_eq_ok {γ : Type} {g : α → Except ε γ} {r : β → γ → Prop} (h : as.mapM f = .ok bs)
    (hr : ∀ a b, f a = .ok b → ∃ c, g a = .ok c ∧ r b c) : ∃ cs, as.mapM g = .ok cs ∧ Forall₂ r bs cs := by
  rw [mapM_eq_ok] at h
  simp only [mapM_eq_ok]
  induction h with
  | nil => exact ⟨[], .nil, .nil⟩
  | cons hab _ ih =>
    have ⟨c, hc, hbc⟩ := hr _ _ hab
    have ⟨cs, hcs, hrs⟩ := ih
    exact ⟨c :: cs, .cons hc hcs, .cons hbc hrs⟩

-- What is computed from the results of items is computed from the items in two steps each.
theorem mapM_of_mapM_eq_ok {γ : Type} {g : β → Except ε γ} (h : as.mapM f = .ok bs) :
    bs.mapM g = as.mapM fun a => f a >>= g := by
  rw [mapM_eq_ok] at h
  induction h with
  | nil => rfl
  | cons hab _ ih => rw [mapM_cons, mapM_cons, ih, hab, Except.ok_bind]

-- Lists that are the same for one computation are related under another one if their items are.
theorem exists_forall₂_of_mapM_eq {γ : Type} {g : α → Except ε γ} {r : γ → γ → Prop} {as' : List α}
    (h : as.mapM f = .ok bs) (h' : as'.mapM f = .ok bs)
    (hr : ∀ a a' b, f a = .ok b → f a' = .ok b → ∃ c c', g a = .ok c ∧ g a' = .ok c' ∧ r c c') :
    ∃ cs cs', as.mapM g = .ok cs ∧ as'.mapM g = .ok cs' ∧ Forall₂ r cs cs' := by
  rw [mapM_eq_ok] at h h'
  simp only [mapM_eq_ok]
  induction h generalizing as' with
  | nil =>
    cases h'
    exact ⟨[], [], .nil, .nil, .nil⟩
  | cons hab _ ih =>
    cases h' with
    | cons hab' h' =>
      have ⟨c, c', hc, hc', hcc⟩ := hr _ _ _ hab hab'
      have ⟨cs, cs', hcs, hcs', hrs⟩ := ih h'
      exact ⟨c :: cs, c' :: cs', .cons hc hcs, .cons hc' hcs', .cons hcc hrs⟩

end

end List
