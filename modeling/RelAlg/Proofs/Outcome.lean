set_option autoImplicit false

namespace RelAlg

variable {ε α β : Type}

theorem bind_ok {x : Except ε α} {f : α → Except ε β} {b : β} (h : x >>= f = .ok b) :
    ∃ a, x = .ok a ∧ f a = .ok b := by
  cases x with
  | error e => cases h
  | ok a => exact ⟨a, rfl, h⟩

theorem bind_of_ok {x : Except ε α} {a : α} (h : x = .ok a) (f : α → Except ε β) :
    x >>= f = f a := by
  rw [h]
  rfl

theorem bind_congr_ok {x : Except ε α} {f g : α → Except ε β}
    (h : ∀ a, x = .ok a → f a = g a) : x >>= f = x >>= g := by
  cases x with
  | error e => rfl
  | ok a => exact h a rfl

theorem bind_map {γ : Type} (x : Except ε α) (f : α → β) (g : β → Except ε γ) :
    x.map f >>= g = x >>= fun a => g (f a) := by
  cases x with
  | error e => rfl
  | ok a => rfl

theorem mapError_map {ε' : Type} (x : Except ε α) (f : α → β) (g : ε → ε') :
    (x.map f).mapError g = (x.mapError g).map f := by
  cases x with
  | error e => rfl
  | ok a => rfl

theorem mapError_bind {ε' : Type} (x : Except ε α) (f : α → Except ε β) (g : ε → ε') :
    (x >>= f).mapError g = x.mapError g >>= fun a => (f a).mapError g := by
  cases x with
  | error e => rfl
  | ok a => rfl

/-- Two steps with the same values fail both or neither. -/
theorem same_outcome {x y : Except ε α} (h : ∀ a, x = .ok a ↔ y = .ok a) :
    (∃ a, x = .ok a ∧ y = .ok a) ∨ (∃ e, x = .error e) ∧ ∃ e, y = .error e := by
  match x, y with
  | .ok a, _ => exact .inl ⟨a, rfl, (h a).1 rfl⟩
  | .error e, .error e' => exact .inr ⟨⟨e, rfl⟩, e', rfl⟩
  | .error _, .ok a => cases (h a).2 rfl

theorem mapM_ok {f : α → Except ε β} {as : List α} {bs : List β} (h : as.mapM f = .ok bs) :
    ∀ a ∈ as, ∃ b ∈ bs, f a = .ok b := by
  induction as generalizing bs with
  | nil =>
    intro a ha
    cases ha
  | cons a as ih =>
    rw [List.mapM_cons] at h
    obtain ⟨b, hb, h⟩ := bind_ok h
    obtain ⟨bs', hbs, h⟩ := bind_ok h
    cases h
    intro x hx
    rcases List.mem_cons.1 hx with rfl | hx
    · exact ⟨b, List.mem_cons_self, hb⟩
    · obtain ⟨y, hy, hf⟩ := ih hbs x hx
      exact ⟨y, List.mem_cons_of_mem b hy, hf⟩

theorem foldlM_ok {f : α → β → Except ε α} {bs : List β} {a a' : α} {P : α → Prop}
    (hf : ∀ a b a', b ∈ bs → P a → f a b = .ok a' → P a') (h : P a)
    (hr : bs.foldlM f a = .ok a') : P a' := by
  induction bs generalizing a with
  | nil =>
    cases hr
    exact h
  | cons b bs ih =>
    rw [List.foldlM_cons] at hr
    obtain ⟨a₁, hb, hr⟩ := bind_ok hr
    exact ih (fun x c y hc => hf x c y (List.mem_cons_of_mem b hc))
      (hf a b a₁ List.mem_cons_self h hb) hr

/-- The same outcome, or an error that `E` lets stand in its place. -/
def UpTo (E : ε → Prop) (x y : Except ε α) : Prop :=
  (∃ e, x = .error e ∧ E e) ∨ x = y

section UpTo

variable {E : ε → Prop} {x y : Except ε α}

theorem UpTo.refl (x : Except ε α) : UpTo E x x := .inr rfl

theorem UpTo.error {e : ε} (h : E e) (y : Except ε α) : UpTo E (.error e) y := .inl ⟨e, rfl, h⟩

theorem UpTo.eq_ok {a : α} (h : UpTo E x y) (hx : x = .ok a) : y = .ok a := by
  rcases h with ⟨e, he, -⟩ | rfl
  · rw [hx] at he
    cases he
  · exact hx

theorem UpTo.of_error {e : ε} (h : UpTo E (.error e) y) : E e ∨ y = .error e := by
  rcases h with ⟨_, he, hE⟩ | rfl
  · cases he
    exact .inl hE
  · exact .inr rfl

theorem UpTo.bind {f g : α → Except ε β} (h : UpTo E x y) (hf : ∀ a, UpTo E (f a) (g a)) :
    UpTo E (x >>= f) (y >>= g) := by
  rcases h with ⟨e, rfl, he⟩ | rfl
  · exact .error he _
  · cases x with
    | error e => exact .refl _
    | ok a => exact hf a

end UpTo

/-- A value satisfies `P` and an error `E`. -/
def Meets (x : Except ε α) (P : α → Prop) (E : ε → Prop) : Prop :=
  (∀ a, x = .ok a → P a) ∧ ∀ e, x = .error e → E e

variable {P : α → Prop} {Q : β → Prop} {E : ε → Prop}

theorem meets_ok {a : α} (h : P a) : Meets (.ok a) P E := by
  refine ⟨fun b hb => ?_, fun e he => by cases he⟩
  cases hb
  exact h

theorem meets_error {e : ε} (h : E e) : Meets (.error e) P E := by
  refine ⟨fun a ha => (by cases ha), fun e' he => ?_⟩
  cases he
  exact h

theorem meets_bind {x : Except ε α} {f : α → Except ε β} (hx : Meets x P E)
    (hf : ∀ a, P a → Meets (f a) Q E) : Meets (x >>= f) Q E := by
  cases x with
  | error e => exact meets_error (hx.2 e rfl)
  | ok a => exact hf a (hx.1 a rfl)

end RelAlg
