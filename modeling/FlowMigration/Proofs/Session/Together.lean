import FlowMigration.Proofs.Session.Runs

/-!
# Two sessions side by side

`Session.Together J Q s s'`: on disks that are related by `J` the steps `s` and `s'` both fail or
both come to a value, of which `Q` holds, and the disks that they leave are again related by `J`.
-/

namespace FlowMigration

/-- Two results that are both failures, or values of which `Q` holds. -/
inductive Agree {α β : Type} (Q : α → β → Prop) : Except Failure α → Except Failure β → Prop
  | ok {a : α} {b : β} (h : Q a b) : Agree Q (.ok a) (.ok b)
  | error (failure failure' : Failure) : Agree Q (.error failure) (.error failure')

namespace Agree

variable {α β : Type} {Q : α → β → Prop} {r : Except Failure α} {r' : Except Failure β}

theorem refl (r : Except Failure α) : Agree Eq r r := by
  cases r with
  | ok a => exact .ok rfl
  | error failure => exact .error _ _

theorem isOk (h : Agree Q r r') : r'.isOk = r.isOk := by cases h <;> rfl

end Agree

namespace Session

variable {α β γ δ : Type} {J : Disk → Disk → Prop} {Q : α → β → Prop} {R : γ → δ → Prop}

/-- On related disks both `s` and `s'` fail or come to related values, and leave related disks. -/
def Together (J : Disk → Disk → Prop) (Q : α → β → Prop) (s : Session α) (s' : Session β) : Prop :=
  ∀ p p', J p.disk p'.disk → Agree Q (s p).1 (s' p').1 ∧ J (s p).2.disk (s' p').2.disk

namespace Together

theorem pure {a : α} {b : β} (h : Q a b) :
    Together J Q (Pure.pure a : Session α) (Pure.pure b : Session β) :=
  fun _ _ hJ => ⟨.ok h, hJ⟩

theorem say (entries entries' : List LogEntry) :
    Together J (fun _ _ => True) (Session.say entries) (Session.say entries') :=
  fun _ _ hJ => ⟨.ok trivial, hJ⟩

theorem info (text text' : String) :
    Together J (fun _ _ => True) (Session.info text) (Session.info text') := say _ _

theorem disk : Together J J Session.disk Session.disk := fun _ _ hJ => ⟨.ok hJ, hJ⟩

theorem look {find : Disk → Except Failure α} {find' : Disk → Except Failure β}
    (h : ∀ disk disk', J disk disk' → Agree Q (find disk) (find' disk')) :
    Together J Q (Session.look find) (Session.look find') :=
  fun _ _ hJ => ⟨h _ _ hJ, hJ⟩

theorem get {r : Except Failure α} {r' : Except Failure β} (h : Agree Q r r') :
    Together J Q (Session.get r) (Session.get r') :=
  fun _ _ hJ => ⟨h, hJ⟩

/-- Steps whose runs are known are `Together` if these agree. -/
theorem of_runs {s : Session α} {s' : Session β}
    (h : ∀ disk disk', J disk disk' → ∃ r r' left left', s.Runs disk r left ∧
      s'.Runs disk' r' left' ∧ Agree Q r r' ∧ J left left') : Together J Q s s' := by
  intro p p' hJ
  obtain ⟨r, r', left, left', hs, hs', hagree, hleft⟩ := h _ _ hJ
  obtain ⟨hr, hl⟩ := hs.of_eq (show s p = ((s p).1, (s p).2) from rfl)
  obtain ⟨hr', hl'⟩ := hs'.of_eq (show s' p' = ((s' p').1, (s' p').2) from rfl)
  rw [← hr, ← hr', ← hl, ← hl']
  exact ⟨hagree, hleft⟩

/-- **Steps after steps** that go `Together`. -/
theorem bind {s : Session α} {s' : Session β} {next : α → Session γ} {next' : β → Session δ}
    (hs : Together J Q s s') (hn : ∀ a b, Q a b → Together J R (next a) (next' b)) :
    Together J R (s >>= next) (s' >>= next') := by
  intro p p' hJ
  obtain ⟨hagree, hleft⟩ := hs p p' hJ
  rcases hr : s p with ⟨r, q⟩
  rcases hr' : s' p' with ⟨r', q'⟩
  rw [hr, hr'] at hagree hleft
  cases hagree with
  | ok h =>
    rw [bind_of_ok hr, bind_of_ok hr']
    exact hn _ _ h q q' hleft
  | error failure failure' =>
    rw [bind_of_error hr, bind_of_error hr']
    exact ⟨.error _ _, hleft⟩

end Together

end Session

end FlowMigration
