import Mathlib.Data.List.Forall2

/-!
# Reading one after another

Reading a list of things stops at the first failure (`mapM_eq_error_iff`).  It succeeds exactly when
each of them is read (`mapM_eq_ok_iff`, `exists_mapM_eq_ok_iff`), and then the last one is read as the
last result (`mapM_getLast?`).  What was written one by one is read one by one (`mapM_map_eq_ok`).
-/

namespace ResourceUrl

variable {α β ε : Type}

theorem exists_of_map_eq_ok (f : α → β) (x : Except ε α) (b : β) (h : x.map f = .ok b) :
    ∃ a, x = .ok a ∧ f a = b := by
  cases x with
  | error e => cases h
  | ok a => exact ⟨a, rfl, Except.ok.inj h⟩

theorem eq_error_of_map_eq_error (f : α → β) (x : Except ε α) (e : ε) (h : x.map f = .error e) :
    x = .error e := by
  cases x with
  | error e' => exact congrArg Except.error (Except.error.inj h)
  | ok a => cases h

theorem exists_of_mapError_eq_error {ε' : Type} (f : ε → ε') (x : Except ε α) (e : ε')
    (h : x.mapError f = .error e) : ∃ cause, x = .error cause ∧ f cause = e := by
  cases x with
  | error cause => exact ⟨cause, rfl, Except.error.inj h⟩
  | ok a => cases h

theorem eq_ok_of_mapError_eq_ok {ε' : Type} (f : ε → ε') (x : Except ε α) (a : α)
    (h : x.mapError f = .ok a) : x = .ok a := by
  cases x with
  | error e => cases h
  | ok a => exact congrArg Except.ok (Except.ok.inj h)

theorem mapM_eq_ok_iff (f : α → Except ε β) (l : List α) (r : List β) :
    l.mapM f = .ok r ↔ List.Forall₂ (fun a b => f a = .ok b) l r := by
  induction l generalizing r with
  | nil =>
    rw [List.mapM_nil, List.forall₂_nil_left_iff]
    exact ⟨fun h => (Except.ok.inj h).symm, fun h => by rw [h]; rfl⟩
  | cons a l ih =>
    rw [List.mapM_cons, List.forall₂_cons_left_iff]
    cases ha : f a with
    | error e => simp [bind, Except.bind]
    | ok b =>
      cases hl : l.mapM f with
      | error e =>
        have : ∀ s, ¬ List.Forall₂ (fun a b => f a = .ok b) l s := by
          intro s hs
          rw [← ih, hl] at hs
          cases hs
        simp [bind, Except.bind, this]
      | ok bs =>
        simp only [bind, Except.bind, pure, Except.pure, Except.ok.injEq]
        constructor
        · rintro rfl
          exact ⟨b, bs, rfl, (ih bs).mp hl, rfl⟩
        · rintro ⟨c, cs, rfl, hcs, rfl⟩
          have := (ih cs).mpr hcs
          rw [hl] at this
          rw [Except.ok.inj this]

theorem mapM_cons_of_ok (f : α → Except ε β) (a : α) (b : β) (l : List α) (h : f a = .ok b) :
    (a :: l).mapM f = (l.mapM f).map (b :: ·) := by
  rw [List.mapM_cons, h]
  cases l.mapM f <;> rfl

theorem exists_of_mem_mapM (f : α → Except ε β) (l : List α) (r : List β) (h : l.mapM f = .ok r)
    (b : β) (hb : b ∈ r) : ∃ a ∈ l, f a = .ok b := by
  rw [mapM_eq_ok_iff] at h
  induction h with
  | nil => cases hb
  | cons hab _ ih =>
    rcases List.mem_cons.mp hb with rfl | hb
    · exact ⟨_, List.mem_cons_self, hab⟩
    · obtain ⟨a, ha, hf⟩ := ih hb
      exact ⟨a, List.mem_cons_of_mem _ ha, hf⟩

/-- Reading fails with the fault of the first thing that is not read. -/
theorem mapM_eq_error_iff (f : α → Except ε β) (l : List α) (e : ε) :
    l.mapM f = .error e ↔ ∃ before a after, l = before ++ a :: after ∧
      (∀ x ∈ before, ∃ b, f x = .ok b) ∧ f a = .error e := by
  induction l with
  | nil =>
    constructor
    · intro h
      cases h
    · rintro ⟨before, a, after, h, -⟩
      simp at h
  | cons a l ih =>
    cases ha : f a with
    | error e' =>
      have hfirst : (a :: l).mapM f = .error e' := by rw [List.mapM_cons, ha]; rfl
      rw [hfirst]
      constructor
      · intro h
        obtain rfl := Except.error.inj h
        exact ⟨[], a, l, rfl, by simp, ha⟩
      · rintro ⟨before, x, after, hl, hbefore, hx⟩
        cases before with
        | nil =>
          obtain ⟨rfl, rfl⟩ := List.cons.inj hl
          obtain rfl := Except.error.inj (ha.symm.trans hx)
          rfl
        | cons y before =>
          obtain ⟨rfl, -⟩ := List.cons.inj hl
          obtain ⟨b, hb⟩ := hbefore a List.mem_cons_self
          rw [ha] at hb
          cases hb
    | ok b =>
      have hrest : (a :: l).mapM f = .error e ↔ l.mapM f = .error e := by
        rw [mapM_cons_of_ok f a b l ha]
        cases l.mapM f <;> simp [Except.map]
      rw [hrest, ih]
      constructor
      · rintro ⟨before, x, after, rfl, hbefore, hx⟩
        refine ⟨a :: before, x, after, rfl, fun y hy => ?_, hx⟩
        rcases List.mem_cons.mp hy with rfl | hy
        · exact ⟨b, ha⟩
        · exact hbefore y hy
      · rintro ⟨before, x, after, hl, hbefore, hx⟩
        cases before with
        | nil =>
          obtain ⟨rfl, -⟩ := List.cons.inj hl
          rw [ha] at hx
          cases hx
        | cons y before =>
          obtain ⟨rfl, rfl⟩ := List.cons.inj hl
          exact ⟨before, x, after, rfl, fun z hz => hbefore z (List.mem_cons_of_mem _ hz), hx⟩

theorem exists_mapM_eq_ok_iff (f : α → Except ε β) (l : List α) :
    (∃ bs, l.mapM f = .ok bs) ↔ ∀ a ∈ l, ∃ b, f a = .ok b := by
  constructor
  · rintro ⟨bs, h⟩
    rw [mapM_eq_ok_iff] at h
    induction h with
    | nil => simp
    | @cons a b l bs hab _ ih =>
      intro x hx
      rcases List.mem_cons.mp hx with rfl | hx
      · exact ⟨b, hab⟩
      · exact ih x hx
  · intro h
    cases hl : l.mapM f with
    | ok bs => exact ⟨bs, rfl⟩
    | error e =>
      obtain ⟨before, a, after, rfl, -, ha⟩ := (mapM_eq_error_iff f l e).mp hl
      obtain ⟨b, hb⟩ := h a (by simp)
      rw [ha] at hb
      cases hb

theorem mapM_map_eq_ok (f : α → Except ε β) (g : β → α) (l : List β)
    (h : ∀ b ∈ l, f (g b) = .ok b) : (l.map g).mapM f = .ok l := by
  rw [mapM_eq_ok_iff, List.forall₂_map_left_iff, List.forall₂_same]
  exact h

/-- Where each result of a reader is made from one of another, so are all of them. -/
theorem mapM_eq_map_of_ok {γ ε' : Type} (f : α → Except ε γ) (g : α → Except ε' β) (make : β → γ)
    (h : ∀ a c, f a = .ok c → ∃ b, g a = .ok b ∧ make b = c) (l : List α) (cs : List γ)
    (hl : l.mapM f = .ok cs) : ∃ bs, l.mapM g = .ok bs ∧ cs = bs.map make := by
  simp only [mapM_eq_ok_iff] at hl ⊢
  induction hl with
  | nil => exact ⟨[], .nil, rfl⟩
  | @cons a c l cs hac _ ih =>
    obtain ⟨b, hb, rfl⟩ := h a c hac
    obtain ⟨bs, hbs, rfl⟩ := ih
    exact ⟨b :: bs, .cons hb hbs, rfl⟩

theorem mapM_getLast? (f : α → Except ε β) (l : List α) (bs : List β) (h : l.mapM f = .ok bs) :
    l.getLast?.mapM f = .ok bs.getLast? := by
  have hsome : ∀ a, (some a).mapM f = (f a).map some := fun _ => rfl
  rw [mapM_eq_ok_iff] at h
  induction h with
  | nil => rfl
  | @cons a b l bs hab _ ih =>
    rw [List.getLast?_cons, List.getLast?_cons, hsome]
    cases hl : l.getLast? with
    | none =>
      rw [hl] at ih
      obtain hbs : none = bs.getLast? := Except.ok.inj ih
      rw [← hbs, Option.getD_none, Option.getD_none, hab]
      rfl
    | some x =>
      rw [hl, hsome] at ih
      obtain ⟨y, hx, hy⟩ := exists_of_map_eq_ok some (f x) bs.getLast? ih
      rw [← hy, Option.getD_some, Option.getD_some, hx]
      rfl

end ResourceUrl
