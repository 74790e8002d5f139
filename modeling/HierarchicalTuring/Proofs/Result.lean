/-! # Computations that may fail

* `bind_eq_ok_iff` takes a computation of two parts apart. `foldlM_keeps` carries a property through
  a fold that goes well, and `foldlM_eq_error` is where a fold fails.
* `mapM_map_eq_ok` and `mem_iff_of_mapM_eq_ok` say what is computed from the items of a list, and
  `agree_mapM_filter` that only the items count for which the computation may fail.
* `Agree E R`: two computations both fail, with errors related by `E`, or both go well, with values
  related by `R`.
-/

set_option autoImplicit false

namespace HierarchicalTuring

variable {ε ε' α β : Type}

theorem bind_eq_ok_iff {x : Except ε α} {f : α → Except ε β} {b : β} :
    (x >>= f) = .ok b ↔ ∃ a, x = .ok a ∧ f a = .ok b := by
  cases x with
  | error e => exact ⟨nofun, fun ⟨_, ha, _⟩ => nomatch ha⟩
  | ok a =>
    constructor
    · exact fun h => ⟨a, rfl, h⟩
    · rintro ⟨a', ha, h⟩
      cases ha
      exact h

theorem map_eq_ok_iff {x : Except ε α} {f : α → β} {b : β} :
    x.map f = .ok b ↔ ∃ a, x = .ok a ∧ f a = b := by
  cases x with
  | error e => exact ⟨nofun, fun ⟨_, ha, _⟩ => nomatch ha⟩
  | ok a =>
    constructor
    · intro h
      cases h
      exact ⟨a, rfl, rfl⟩
    · rintro ⟨a', ha, rfl⟩
      cases ha
      rfl

theorem map_eq_error_iff {x : Except ε α} {f : α → β} {e : ε} :
    x.map f = .error e ↔ x = .error e := by
  cases x <;> simp [Except.map]

theorem eq_ok_of_toOption {x : Except ε α} {a : α} (h : x.toOption = some a) : x = .ok a := by
  cases x with
  | error e => cases h
  | ok b =>
    cases h
    rfl

/-- What every step of a fold keeps, the fold keeps. -/
theorem foldlM_keeps {f : β → α → Except ε β} {P : β → Prop} {l : List α} {b c : β}
    (hstep : ∀ {b c : β}, ∀ a ∈ l, P b → f b a = .ok c → P c) (h : l.foldlM f b = .ok c)
    (hb : P b) : P c := by
  induction l generalizing b with
  | nil =>
    cases h
    exact hb
  | cons a l ih =>
    rw [List.foldlM_cons] at h
    obtain ⟨d, hd, hrest⟩ := bind_eq_ok_iff.mp h
    exact ih (fun a' ha' => hstep a' (List.mem_cons_of_mem _ ha')) hrest
      (hstep a List.mem_cons_self hb hd)

/-- A fold fails with the first step that does. -/
theorem foldlM_eq_error {f : β → α → Except ε β} {before after : List α} {a : α} {b c : β} {e : ε}
    (hbefore : before.foldlM f b = .ok c) (h : f c a = .error e) :
    (before ++ a :: after).foldlM f b = .error e := by
  rw [List.foldlM_append, hbefore]
  show (a :: after).foldlM f c = .error e
  rw [List.foldlM_cons, h]
  rfl

theorem mapM_map_eq_ok {f : β → Except ε α} {g : α → β} {l : List α}
    (h : ∀ a ∈ l, f (g a) = .ok a) : (l.map g).mapM f = .ok l := by
  induction l with
  | nil => rfl
  | cons a l ih =>
    obtain ⟨ha, hl⟩ := List.forall_mem_cons.mp h
    rw [List.map_cons, List.mapM_cons, ha, ih hl]
    rfl

theorem exists_of_mapM_eq_ok {f : α → Except ε β} {l : List α} {results : List β}
    (h : l.mapM f = .ok results) : ∀ b ∈ results, ∃ a ∈ l, f a = .ok b := by
  induction l generalizing results with
  | nil =>
    cases h
    exact fun _ h => absurd h List.not_mem_nil
  | cons a l ih =>
    rw [List.mapM_cons] at h
    obtain ⟨first, hfirst, h⟩ := bind_eq_ok_iff.mp h
    obtain ⟨others, hothers, h⟩ := bind_eq_ok_iff.mp h
    cases h
    refine List.forall_mem_cons.mpr ⟨⟨a, List.mem_cons_self, hfirst⟩, fun b hb => ?_⟩
    obtain ⟨a', ha', hb⟩ := ih hothers b hb
    exact ⟨a', List.mem_cons_of_mem _ ha', hb⟩

theorem mem_iff_of_mapM_eq_ok {f : α → Except ε β} {l : List α} {results : List β}
    (h : l.mapM f = .ok results) (b : β) : b ∈ results ↔ ∃ a ∈ l, f a = .ok b := by
  refine ⟨exists_of_mapM_eq_ok h b, ?_⟩
  induction l generalizing results with
  | nil => exact fun ⟨_, ha, _⟩ => absurd ha List.not_mem_nil
  | cons first l ih =>
    rw [List.mapM_cons] at h
    obtain ⟨result, hresult, h⟩ := bind_eq_ok_iff.mp h
    obtain ⟨others, hothers, h⟩ := bind_eq_ok_iff.mp h
    cases h
    rintro ⟨a, ha, hb⟩
    rcases List.mem_cons.mp ha with rfl | ha
    · rw [hresult] at hb
      cases hb
      exact List.mem_cons_self
    · exact List.mem_cons_of_mem _ (ih hothers ⟨a, ha, hb⟩)

/-- Both fail with related errors, or both go well with related values. -/
inductive Agree (E : ε → ε' → Prop) (R : α → β → Prop) : Except ε α → Except ε' β → Prop
  | error {e : ε} {e' : ε'} : E e e' → Agree E R (.error e) (.error e')
  | ok {a : α} {b : β} : R a b → Agree E R (.ok a) (.ok b)

theorem Agree.imp {E : ε → ε' → Prop} {R S : α → β → Prop} {x : Except ε α} {y : Except ε' β}
    (h : Agree E R x y) (hRS : ∀ a b, R a b → S a b) : Agree E S x y := by
  cases h with
  | error he => exact .error he
  | ok hab => exact .ok (hRS _ _ hab)

/-- As `Agree.imp`, where the new relation may depend on the two values being the results. -/
theorem Agree.imp_of_ok {E : ε → ε' → Prop} {R S : α → β → Prop} {x : Except ε α}
    {y : Except ε' β} (h : Agree E R x y)
    (hRS : ∀ a b, x = .ok a → y = .ok b → R a b → S a b) : Agree E S x y := by
  cases h with
  | error he => exact .error he
  | ok hab => exact .ok (hRS _ _ rfl rfl hab)

theorem Agree.eq {x y : Except ε α} (h : Agree Eq Eq x y) : x = y := by
  cases h with
  | error he => rw [he]
  | ok ha => rw [ha]

theorem Agree.refl (x : Except ε α) : Agree Eq Eq x x := by
  cases x with
  | error e => exact .error rfl
  | ok a => exact .ok rfl

theorem Agree.bind {γ δ : Type} {E : ε → ε' → Prop} {R : α → β → Prop} {S : γ → δ → Prop}
    {x : Except ε α} {y : Except ε' β} {f : α → Except ε γ} {g : β → Except ε' δ}
    (h : Agree E R x y) (hfg : ∀ a b, R a b → Agree E S (f a) (g b)) :
    Agree E S (x >>= f) (y >>= g) := by
  cases h with
  | error he => exact .error he
  | ok hab => exact hfg _ _ hab

theorem mapM_congr_left {f g : α → Except ε β} {l : List α} (h : ∀ a ∈ l, f a = g a) :
    l.mapM f = l.mapM g := by
  induction l with
  | nil => rfl
  | cons a l ih =>
    obtain ⟨ha, hl⟩ := List.forall_mem_cons.mp h
    rw [List.mapM_cons, List.mapM_cons, ha, ih hl]

/-- The first failure over a list is the first one over the items that may fail. -/
theorem agree_mapM_filter {f : α → Except ε β} {p : α → Bool} {l : List α}
    (h : ∀ a ∈ l, p a = false → ∃ b, f a = .ok b) :
    Agree Eq (fun _ _ => True) (l.mapM f) ((l.filter p).mapM f) := by
  induction l with
  | nil => exact .ok trivial
  | cons a l ih =>
    obtain ⟨ha, hl⟩ := List.forall_mem_cons.mp h
    rw [List.mapM_cons]
    cases hp : p a with
    | false =>
      obtain ⟨b, hb⟩ := ha hp
      have hrest : Agree Eq (fun _ _ => True) (l.mapM f >>= fun results => pure (b :: results))
          ((l.filter p).mapM f >>= pure) := (ih hl).bind fun _ _ _ => .ok trivial
      rw [bind_pure] at hrest
      rwa [List.filter_cons_of_neg (by simp [hp]), hb]
    | true =>
      rw [List.filter_cons_of_pos hp, List.mapM_cons]
      refine (Agree.refl (f a)).bind ?_
      rintro b _ rfl
      exact (ih hl).bind fun _ _ _ => .ok trivial

end HierarchicalTuring
