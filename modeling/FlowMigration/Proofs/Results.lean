import Mathlib.Data.List.Forall2

/-!
# Results of steps that may fail

When results that are put together are values, and which.

* `bind_eq_ok_iff`, `map_eq_ok_iff`, `mapError_eq_ok_iff`: one result that is used further.
* `mapM_eq_ok_iff`: a list of values is found when each of them is.
* `isOk_iff`, `map_toOption_eq_some_iff`, `any_toOption_iff`: what is read off a result.
* `exists_of_isOk`, `exists_of_map_toOption`: what is read off a run, which also leaves a state.
-/

namespace FlowMigration

variable {α β σ ε : Type}

theorem bind_eq_ok_iff {x : Except ε α} {f : α → Except ε β} {b : β} :
    x >>= f = .ok b ↔ ∃ a, x = .ok a ∧ f a = .ok b := by
  cases x with
  | error e => exact ⟨nofun, fun ⟨_, h, _⟩ => nomatch h⟩
  | ok a => exact ⟨fun h => ⟨a, rfl, h⟩, fun ⟨_, rfl, h⟩ => h⟩

theorem bind_eq_ok {x : Except ε α} {f : α → Except ε β} {b : β} (h : x.bind f = .ok b) :
    ∃ a, x = .ok a ∧ f a = .ok b :=
  bind_eq_ok_iff.1 h

theorem map_eq_ok_iff {x : Except ε α} {f : α → β} {b : β} :
    x.map f = .ok b ↔ ∃ a, x = .ok a ∧ f a = b := by
  cases x <;> simp [Except.map]

theorem mapError_eq_ok_iff {δ : Type} {x : Except ε α} {f : ε → δ} {a : α} :
    x.mapError f = .ok a ↔ x = .ok a := by
  cases x <;> simp [Except.mapError]

/-- **Values that `mapM` finds**, one by one: `f` comes to each of them. -/
theorem mapM_eq_ok_iff {f : α → Except ε β} {xs : List α} {ys : List β} :
    xs.mapM f = .ok ys ↔ List.Forall₂ (fun x y => f x = .ok y) xs ys := by
  induction xs generalizing ys with
  | nil => cases ys <;> simp [pure, Except.pure]
  | cons x xs ih =>
    rw [List.mapM_cons, bind_eq_ok_iff, List.forall₂_cons_left_iff]
    refine exists_congr fun y => ⟨?_, ?_⟩
    · rintro ⟨hx, h⟩
      obtain ⟨more, hmore, h⟩ := bind_eq_ok_iff.1 h
      exact ⟨more, hx, ih.1 hmore, (Except.ok.inj h).symm⟩
    · rintro ⟨more, hx, hmore, rfl⟩
      exact ⟨hx, bind_eq_ok_iff.2 ⟨more, ih.2 hmore, rfl⟩⟩

theorem mem_of_mapM_ok {f : α → Except ε β} {xs : List α} {ys : List β} (h : xs.mapM f = .ok ys)
    {y : β} (hy : y ∈ ys) : ∃ x ∈ xs, f x = .ok y := by
  obtain ⟨i, hi, rfl⟩ := List.getElem_of_mem hy
  obtain ⟨hlength, hget⟩ := List.forall₂_iff_get.1 (mapM_eq_ok_iff.1 h)
  exact ⟨xs[i], List.getElem_mem _, hget i (hlength ▸ hi) hi⟩

theorem toOption_eq_some_iff {x : Except ε α} {a : α} : x.toOption = some a ↔ x = .ok a := by
  cases x <;> simp [Except.toOption]

theorem map_toOption_eq_some_iff {x : Except ε α} {f : α → β} {b : β} :
    x.toOption.map f = some b ↔ ∃ a, x = .ok a ∧ f a = b := by
  simp [Option.map_eq_some_iff, toOption_eq_some_iff]

theorem any_toOption_iff {x : Except ε α} {p : α → Bool} :
    x.toOption.any p = true ↔ ∃ a, x = .ok a ∧ p a = true := by
  simp [Option.any_eq_true, toOption_eq_some_iff]

theorem isOk_iff {x : Except ε α} : x.isOk = true ↔ ∃ a, x = .ok a := by
  cases x <;> simp [Except.isOk, Except.toBool]

theorem ne_ok_of_isOk {x : Except ε α} (h : x.isOk = false) (a : α) : x ≠ .ok a := by
  rintro rfl
  cases h

theorem exists_of_isOk {run : Except ε α × σ} (h : run.1.isOk = true) :
    ∃ a s, run = (.ok a, s) := by
  obtain ⟨a, ha⟩ := isOk_iff.1 h
  exact ⟨a, run.2, Prod.ext ha rfl⟩

theorem exists_of_map_toOption {run : Except ε α × σ} {f : α → β} {b : β}
    (h : run.1.toOption.map f = some b) : ∃ a s, run = (.ok a, s) ∧ f a = b := by
  obtain ⟨a, ha, hb⟩ := map_toOption_eq_some_iff.1 h
  exact ⟨a, run.2, Prod.ext ha rfl, hb⟩

end FlowMigration
