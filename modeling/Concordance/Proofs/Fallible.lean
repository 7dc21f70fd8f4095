/-!
# Fallible maps and chains

When a computation that may be refused runs to its end: a chain of two steps, a map over a list.
-/

namespace Concordance.Fallible

variable {α β ε : Type}

theorem bind_eq_ok {x : Except ε α} {f : α → Except ε β} {b : β} :
    x >>= f = .ok b ↔ ∃ a, x = .ok a ∧ f a = .ok b := by
  cases x <;> simp [Bind.bind, Except.bind]

theorem bind_eq_error {x : Except ε α} {f : α → Except ε β} {e : ε} :
    x >>= f = .error e ↔ x = .error e ∨ ∃ a, x = .ok a ∧ f a = .error e := by
  cases x <;> simp [Bind.bind, Except.bind]

/-- A computation is refused if and only if it has no result. -/
theorem exists_error_iff {x : Except ε α} : (∃ e, x = .error e) ↔ ¬ ∃ a, x = .ok a := by
  cases x <;> simp

/-- A step goes on from the result of the one before. -/
theorem bind_of_ok {x : Except ε α} {a : α} (h : x = .ok a) (f : α → Except ε β) :
    x >>= f = f a := by
  rw [h]
  rfl

/-- Steps that go on alike from a result that there is. -/
theorem bind_congr_ok {x : Except ε α} {f g : α → Except ε β} (h : ∀ a, x = .ok a → f a = g a) :
    x >>= f = x >>= g := by
  cases x with
  | error e => rfl
  | ok a => exact h a rfl

theorem map_bind {γ : Type} (x : Except ε α) (f : α → Except ε β) (g : β → γ) :
    (x >>= f).map g = (do (f (← x)).map g) := by
  cases x <;> rfl

theorem mapError_eq_ok {ε' : Type} {x : Except ε α} {f : ε → ε'} {a : α} :
    x.mapError f = .ok a ↔ x = .ok a := by
  cases x with
  | error e => constructor <;> intro h <;> cases h
  | ok b => constructor <;> intro h <;> cases h <;> rfl

/-- What is known of a result that there is, is known of the result. -/
theorem exists_of_toOption_map {x : Except ε α} {f : α → β} {b : β}
    (h : x.toOption.map f = some b) : ∃ a, x = .ok a ∧ f a = b := by
  cases x with
  | error e => cases h
  | ok a => exact ⟨a, rfl, Option.some.inj h⟩

/-- That a computation succeeds with a certain result can be found out by running it. -/
theorem exists_ok_iff {x : Except ε α} {p : α → Prop} :
    (∃ a, x = .ok a ∧ p a) ↔ ∃ a ∈ x.toOption, p a := by
  cases x with
  | error e => simp [Except.toOption]
  | ok a => simp [Except.toOption]

theorem map_eq_ok {x : Except ε α} {f : α → β} {b : β} :
    x.map f = .ok b ↔ ∃ a, x = .ok a ∧ f a = b := by
  cases x <;> simp [Except.map]

/-- A map runs to its end member by member. -/
theorem mapM_cons_eq_ok {f : α → Except ε β} {a : α} {l : List α} {r : List β} :
    (a :: l).mapM f = .ok r ↔ ∃ b more, f a = .ok b ∧ l.mapM f = .ok more ∧ r = b :: more := by
  rw [List.mapM_cons, bind_eq_ok]
  constructor
  · rintro ⟨b, hb, h⟩
    obtain ⟨more, hmore, heq⟩ := bind_eq_ok.mp h
    cases heq
    exact ⟨b, more, hb, hmore, rfl⟩
  · rintro ⟨b, more, hb, hmore, rfl⟩
    exact ⟨b, hb, bind_eq_ok.mpr ⟨more, hmore, rfl⟩⟩

/-- Every result of a map comes from some member. -/
theorem exists_of_mem_mapM {f : α → Except ε β} {l : List α} {r : List β}
    (h : l.mapM f = .ok r) {b : β} (hb : b ∈ r) : ∃ a ∈ l, f a = .ok b := by
  induction l generalizing r with
  | nil =>
      cases h
      cases hb
  | cons a rest ih =>
      obtain ⟨b', more, hb', hmore, rfl⟩ := mapM_cons_eq_ok.mp h
      rcases List.mem_cons.mp hb with rfl | hb
      · exact ⟨a, List.mem_cons_self, hb'⟩
      · obtain ⟨x, hx, hfx⟩ := ih hmore hb
        exact ⟨x, List.mem_cons_of_mem _ hx, hfx⟩

/-- A map runs to its end when every member has a result, and then answers these. -/
theorem mapM_eq_ok_map {f : α → Except ε β} {g : α → β} {l : List α}
    (h : ∀ a ∈ l, f a = .ok (g a)) : l.mapM f = .ok (l.map g) := by
  induction l with
  | nil => rfl
  | cons a rest ih =>
      have hrest := ih fun x hx => h x (List.mem_cons_of_mem _ hx)
      exact mapM_cons_eq_ok.mpr ⟨g a, rest.map g, h a List.mem_cons_self, hrest, rfl⟩

/-- A map that ran to its end has a result for every member. -/
theorem exists_mem_of_mapM {f : α → Except ε β} {l : List α} {r : List β} (h : l.mapM f = .ok r)
    {a : α} (ha : a ∈ l) : ∃ b ∈ r, f a = .ok b := by
  induction l generalizing r with
  | nil => cases ha
  | cons x rest ih =>
      obtain ⟨b, more, hb, hmore, rfl⟩ := mapM_cons_eq_ok.mp h
      rcases List.mem_cons.mp ha with rfl | ha
      · exact ⟨b, List.mem_cons_self, hb⟩
      · obtain ⟨b', hb', hfa⟩ := ih hmore ha
        exact ⟨b', List.mem_cons_of_mem _ hb', hfa⟩

theorem ok_of_mapM_eq_ok {f : α → Except ε β} {l : List α} {r : List β} (h : l.mapM f = .ok r)
    {a : α} (ha : a ∈ l) : ∃ b, f a = .ok b := by
  obtain ⟨b, -, hb⟩ := exists_mem_of_mapM h ha
  exact ⟨b, hb⟩

/-- A map with the same results where there are any. -/
theorem mapM_eq_ok_of_imp {f g : α → Except ε β} {l : List α} {r : List β}
    (hfg : ∀ a b, f a = .ok b → g a = .ok b) (h : l.mapM f = .ok r) : l.mapM g = .ok r := by
  induction l generalizing r with
  | nil => exact h
  | cons a rest ih =>
      obtain ⟨b, more, hb, hmore, rfl⟩ := mapM_cons_eq_ok.mp h
      exact mapM_cons_eq_ok.mpr ⟨b, more, hfg a b hb, ih hmore, rfl⟩

/-- A map runs to its end if and only if it does for every member. -/
theorem exists_mapM_iff {f : α → Except ε β} {l : List α} :
    (∃ r, l.mapM f = .ok r) ↔ ∀ a ∈ l, ∃ b, f a = .ok b := by
  constructor
  · rintro ⟨r, h⟩ a ha
    exact ok_of_mapM_eq_ok h ha
  · intro h
    induction l with
    | nil => exact ⟨[], rfl⟩
    | cons a rest ih =>
        obtain ⟨b, hb⟩ := h a List.mem_cons_self
        obtain ⟨more, hmore⟩ := ih fun x hx => h x (List.mem_cons_of_mem _ hx)
        exact ⟨b :: more, mapM_cons_eq_ok.mpr ⟨b, more, hb, hmore, rfl⟩⟩

/-- The results of a map stand in the places of the members that they come from. -/
theorem exists_getElem?_mapM {f : α → Except ε β} {l : List α} {r : List β}
    (h : l.mapM f = .ok r) {i : Nat} {a : α} (ha : l[i]? = some a) :
    ∃ b, r[i]? = some b ∧ f a = .ok b := by
  induction l generalizing r i with
  | nil => simp at ha
  | cons x rest ih =>
      obtain ⟨b, more, hb, hmore, rfl⟩ := mapM_cons_eq_ok.mp h
      cases i with
      | zero =>
          cases ha
          exact ⟨b, rfl, hb⟩
      | succ i => exact ih hmore (by simpa using ha)

/-- What is known of the results of a map from the members that they come from. -/
theorem map_eq_of_mapM {γ : Type} {f : α → Except ε β} {g : β → γ} {k : α → γ}
    (hgk : ∀ a b, f a = .ok b → g b = k a) {l : List α} {r : List β} (h : l.mapM f = .ok r) :
    r.map g = l.map k := by
  induction l generalizing r with
  | nil =>
      cases h
      rfl
  | cons a rest ih =>
      obtain ⟨b, more, hb, hmore, rfl⟩ := mapM_cons_eq_ok.mp h
      rw [List.map_cons, List.map_cons, hgk a b hb, ih hmore]

theorem map_map {γ : Type} (x : Except ε α) (f : α → β) (g : β → γ) :
    (x.map f).map g = x.map fun a => g (f a) := by
  cases x <;> rfl

theorem map_eq_error {x : Except ε α} {f : α → β} {e : ε} : x.map f = .error e ↔ x = .error e := by
  cases x <;> simp [Except.map]

theorem mapError_eq_error {ε' : Type} {x : Except ε α} {f : ε → ε'} {e' : ε'} :
    x.mapError f = .error e' ↔ ∃ e, x = .error e ∧ f e = e' := by
  cases x with
  | error e =>
      constructor
      · rintro ⟨⟩
        exact ⟨e, rfl, rfl⟩
      · rintro ⟨_, ⟨⟩, rfl⟩
        rfl
  | ok a =>
      constructor
      · rintro ⟨⟩
      · rintro ⟨_, ⟨⟩, _⟩

/-- A map is refused at some member. -/
theorem exists_of_mapM_eq_error {f : α → Except ε β} {l : List α} {e : ε}
    (h : l.mapM f = .error e) : ∃ a ∈ l, f a = .error e := by
  induction l with
  | nil => cases h
  | cons a rest ih =>
      rw [List.mapM_cons] at h
      rcases bind_eq_error.mp h with hfirst | ⟨b, -, h⟩
      · exact ⟨a, List.mem_cons_self, hfirst⟩
      · rcases bind_eq_error.mp h with hmore | ⟨more, -, h⟩
        · obtain ⟨x, hx, hfx⟩ := ih hmore
          exact ⟨x, List.mem_cons_of_mem _ hx, hfx⟩
        · cases h

/-- A chain of steps is refused at the first step that is. -/
theorem exists_of_foldlM_eq_error {f : β → α → Except ε β} {l : List α} {b : β} {e : ε}
    (h : l.foldlM f b = .error e) :
    ∃ before a after b', l = before ++ a :: after ∧ before.foldlM f b = .ok b' ∧
      f b' a = .error e := by
  induction l generalizing b with
  | nil => cases h
  | cons a rest ih =>
      rw [List.foldlM_cons] at h
      rcases bind_eq_error.mp h with hfirst | ⟨b', hfirst, hrest⟩
      · exact ⟨[], a, rest, b, rfl, rfl, hfirst⟩
      · obtain ⟨before, x, after, b'', rfl, hbefore, hx⟩ := ih hrest
        refine ⟨a :: before, x, after, b'', rfl, ?_, hx⟩
        rw [List.foldlM_cons]
        exact bind_eq_ok.mpr ⟨b', hfirst, hbefore⟩

/-- What every step keeps is kept by a chain of them. -/
theorem foldlM_keeps {f : β → α → Except ε β} {l : List α} {P : β → Prop} {b b' : β}
    (hstep : ∀ b, ∀ a ∈ l, ∀ b', f b a = .ok b' → P b → P b') (h : l.foldlM f b = .ok b')
    (hb : P b) : P b' := by
  induction l generalizing b with
  | nil =>
      cases h
      exact hb
  | cons a rest ih =>
      obtain ⟨b₁, hfirst, hrest⟩ := bind_eq_ok.mp h
      exact ih (fun b x hx => hstep b x (List.mem_cons_of_mem _ hx)) hrest
        (hstep b a List.mem_cons_self b₁ hfirst hb)

end Concordance.Fallible
