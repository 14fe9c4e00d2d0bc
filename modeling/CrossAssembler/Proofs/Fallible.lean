import Mathlib.Data.List.Forall2

/-!
# Computations that may fail

How a computation with several steps succeeds (`bind_eq_ok`, `map_eq_ok`) or fails
(`bind_eq_error`, `map_eq_error`), and what a step that is done for every member of a list gives:
all the values (`mapM_eq_ok_iff`), or the first fault in the list (`exists_of_mapM_eq_error`, and
`mapM_eq_elim` for both). A result is written `fault.elim (.ok value) .error`: the fault, if there
is one, and else the value. `error?` reads the error back, and that of two steps is the first of
theirs (`error?_elim_bind`). `bimap` changes an outcome, and does so step by step (`bind_bimap`).
-/

namespace CrossAssembler.Fallible

variable {ε δ α β γ : Type}

theorem bind_eq_ok {x : Except ε α} {f : α → Except ε β} {b : β} :
    (x >>= f) = .ok b ↔ ∃ a, x = .ok a ∧ f a = .ok b := by
  cases x with
  | error e => exact ⟨nofun, nofun⟩
  | ok a => exact ⟨fun h => ⟨a, rfl, h⟩, by rintro ⟨_, ⟨⟩, h⟩; exact h⟩

theorem exists_eq_ok {x : Except ε α} (h : x.isOk = true) : ∃ a, x = .ok a := by
  cases x with
  | error e => cases h
  | ok a => exact ⟨a, rfl⟩

theorem toOption_eq_some {x : Except ε α} {a : α} : x.toOption = some a ↔ x = .ok a := by
  cases x <;> simp [Except.toOption]

theorem map_eq_ok {x : Except ε α} {f : α → β} {b : β} :
    f <$> x = .ok b ↔ ∃ a, x = .ok a ∧ f a = b := by
  cases x with
  | error e => exact ⟨nofun, nofun⟩
  | ok a => exact ⟨fun h => ⟨a, rfl, Except.ok.inj h⟩, by rintro ⟨_, ⟨⟩, rfl⟩; rfl⟩

theorem map_eq_error {x : Except ε α} {f : α → β} {e : ε} : f <$> x = .error e ↔ x = .error e := by
  cases x with
  | error e' => exact ⟨fun h => congrArg _ (Except.error.inj h), fun h => h ▸ rfl⟩
  | ok a => exact ⟨nofun, nofun⟩

theorem mapError_eq_ok {x : Except ε α} {f : ε → δ} {a : α} : x.mapError f = .ok a ↔ x = .ok a := by
  cases x with
  | error e => exact ⟨nofun, nofun⟩
  | ok a' => exact ⟨fun h => congrArg _ (Except.ok.inj h), fun h => h ▸ rfl⟩

theorem mapError_eq_error {x : Except ε α} {f : ε → δ} {d : δ} :
    x.mapError f = .error d ↔ ∃ e, x = .error e ∧ f e = d := by
  cases x with
  | error e => exact ⟨fun h => ⟨e, rfl, Except.error.inj h⟩, by rintro ⟨_, ⟨⟩, rfl⟩; rfl⟩
  | ok a => exact ⟨nofun, nofun⟩

/-- Two guarded steps succeed if the guard holds and each of them succeeds. -/
theorem guarded_eq_ok_iff {p : Prop} [Decidable p] {x : Except ε α} {y : Except ε β}
    {f : α → β → γ} {e : ε} {c : γ} :
    (if p then (do let a ← x; let b ← y; .ok (f a b)) else .error e) = .ok c ↔
      p ∧ ∃ a b, x = .ok a ∧ y = .ok b ∧ f a b = c := by
  by_cases hp : p
  · rw [if_pos hp, bind_eq_ok]
    simp only [bind_eq_ok, Except.ok.injEq, hp, true_and]
    constructor
    · rintro ⟨a, ha, b, hb, h⟩
      exact ⟨a, b, ha, hb, h⟩
    · rintro ⟨a, b, ha, hb, h⟩
      exact ⟨a, ha, b, hb, h⟩
  · rw [if_neg hp]
    exact ⟨nofun, fun h => absurd h.1 hp⟩

theorem bind_eq_error {x : Except ε α} {f : α → Except ε β} {e : ε} :
    (x >>= f) = .error e ↔ x = .error e ∨ ∃ a, x = .ok a ∧ f a = .error e := by
  cases x with
  | error e' =>
    constructor
    · exact fun h => .inl (congrArg _ (Except.error.inj h))
    · rintro (h | ⟨a, h, -⟩)
      · exact congrArg _ (Except.error.inj h)
      · cases h
  | ok a =>
    constructor
    · exact fun h => .inr ⟨a, rfl, h⟩
    · rintro (h | ⟨_, ⟨⟩, h⟩)
      · cases h
      · exact h

/-- Two guarded steps fail by the guard, or where the first of them fails. -/
theorem guarded_eq_error_iff {p : Prop} [Decidable p] {x : Except ε α} {y : Except ε β}
    {f : α → β → γ} {refusal e : ε} :
    (if p then (do let a ← x; let b ← y; .ok (f a b)) else .error refusal) = .error e ↔
      ¬ p ∧ refusal = e ∨ p ∧ (x = .error e ∨ (∃ a, x = .ok a) ∧ y = .error e) := by
  by_cases hp : p
  · rw [if_pos hp]
    simp [bind_eq_error, hp]
  · rw [if_neg hp]
    simp [hp]

theorem elim_eq_ok {fault : Option ε} {a b : α} :
    fault.elim (.ok a) .error = (.ok b : Except ε α) ↔ fault = none ∧ a = b := by
  cases fault <;> simp

/-- A step done for every member of a list fails with the first fault. -/
theorem mapM_eq_elim {f : α → Except ε β} {fault? : α → Option ε} {g : α → β}
    (hf : ∀ a, f a = (fault? a).elim (.ok (g a)) .error) (as : List α) :
    as.mapM f = (as.findSome? fault?).elim (.ok (as.map g)) .error := by
  induction as with
  | nil => rfl
  | cons a as ih =>
    rw [List.mapM_cons, hf, ih, List.findSome?_cons]
    cases fault? a with
    | some e => rfl
    | none => cases as.findSome? fault? <;> rfl

/-- A step done for every member of a list succeeds if it does so for each member. -/
theorem mapM_eq_ok_iff {f : α → Except ε β} {as : List α} {bs : List β} :
    as.mapM f = .ok bs ↔ List.Forall₂ (fun a b => f a = .ok b) as bs := by
  induction as generalizing bs with
  | nil =>
    rw [List.mapM_nil, List.forall₂_nil_left_iff]
    exact ⟨fun h => (Except.ok.inj h).symm, fun h => h ▸ rfl⟩
  | cons a as ih =>
    rw [List.mapM_cons, bind_eq_ok, List.forall₂_cons_left_iff]
    constructor
    · rintro ⟨b, hb, h⟩
      obtain ⟨rest, hrest, h⟩ := bind_eq_ok.1 h
      exact ⟨b, rest, hb, ih.1 hrest, (Except.ok.inj h).symm⟩
    · rintro ⟨b, rest, hb, hrest, rfl⟩
      exact ⟨b, hb, bind_eq_ok.2 ⟨rest, ih.2 hrest, rfl⟩⟩

theorem exists_eq_ok_of_mem {f : α → Except ε β} {as : List α} {bs : List β}
    (h : as.mapM f = .ok bs) : ∀ a ∈ as, ∃ b, f a = .ok b :=
  ((List.forall₂_and_left as bs).1 ((mapM_eq_ok_iff.1 h).imp fun _ b hb => ⟨⟨b, hb⟩, hb⟩)).1

/-- A step done for every member of a list fails where it fails first. -/
theorem exists_of_mapM_eq_error {f : α → Except ε β} {as : List α} {e : ε}
    (h : as.mapM f = .error e) : ∃ before a after, as = before ++ a :: after ∧
      (∀ a ∈ before, ∃ b, f a = .ok b) ∧ f a = .error e := by
  induction as with
  | nil => cases h
  | cons head as ih =>
    rw [List.mapM_cons] at h
    cases hhead : f head with
    | error e' =>
      rw [hhead] at h
      cases h
      exact ⟨[], head, as, rfl, nofun, hhead⟩
    | ok b =>
      rw [hhead] at h
      have hrest : as.mapM f = .error e := map_eq_error.1 h
      obtain ⟨before, a, after, rfl, hbefore, ha⟩ := ih hrest
      exact ⟨head :: before, a, after, rfl, List.forall_mem_cons.2 ⟨⟨b, hhead⟩, hbefore⟩, ha⟩

theorem mapM_mapError (f : α → Except ε β) (g : ε → δ) (as : List α) :
    (as.mapM fun a => (f a).mapError g) = (as.mapM f).mapError g := by
  induction as with
  | nil => rfl
  | cons a as ih =>
    rw [List.mapM_cons, List.mapM_cons, ih]
    cases f a with
    | error e => rfl
    | ok b => cases as.mapM f <;> rfl

/-- The error of a result, if it is one. -/
def error? : Except ε α → Option ε
  | .ok _ => none
  | .error e => some e

theorem error?_eq_some_iff {x : Except ε α} {e : ε} : error? x = some e ↔ x = .error e := by
  cases x <;> simp [error?]

theorem error?_eq_none_iff {x : Except ε α} : error? x = none ↔ ∃ a, x = .ok a := by
  cases x <;> simp [error?]

theorem error?_elim_bind (fault : Option ε) (a : α) (f : α → Except ε β) :
    error? (fault.elim (.ok a) .error >>= f) = fault.or (error? (f a)) := by
  cases fault <;> rfl

/-! ## Changed outcomes -/

/-- The outcome with its error and its value changed. -/
def bimap (h : ε → δ) (f : α → β) : Except ε α → Except δ β
  | .error e => .error (h e)
  | .ok a => .ok (f a)

theorem bimap_elim (h : ε → δ) (f : α → β) (fault : Option ε) (a : α) :
    bimap h f (fault.elim (.ok a) .error) = (fault.map h).elim (.ok (f a)) .error := by
  cases fault <;> rfl

/-- Two steps lead to the changed outcome if each of them does. -/
theorem bind_bimap {α' β' : Type} {h : ε → δ} {f : α → α'} {g : β → β'} {x : Except ε α}
    {k : α → Except ε β} {k' : α' → Except δ β'}
    (hk : ∀ a, x = .ok a → k' (f a) = bimap h g (k a)) :
    (bimap h f x >>= k') = bimap h g (x >>= k) := by
  cases x with
  | error e => rfl
  | ok a => exact hk a rfl

end CrossAssembler.Fallible
