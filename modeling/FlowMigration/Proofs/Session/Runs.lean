import FlowMigration.Session

/-!
# Sessions from disk to disk

`Session.Runs s disk r disk'`: on `disk` the steps `s` come to the result `r` and leave `disk'`,
whatever has been logged and delivered before. `Session.bind_eq_ok` takes steps that came to a value
apart, and `say_bind` and its like take off those that cannot fail.
-/

namespace FlowMigration.Session

variable {α β : Type}

theorem bind_of_ok {s : Session α} {next : α → Session β} {p q : Progress} {a : α}
    (h : s p = (.ok a, q)) : (s >>= next) p = next a q := by
  simp only [Bind.bind, h]

theorem bind_of_error {s : Session α} {next : α → Session β} {p q : Progress} {failure : Failure}
    (h : s p = (.error failure, q)) : (s >>= next) p = (.error failure, q) := by
  simp only [Bind.bind, h]

/-- On `disk` the steps `s` come to the result `r` and to `disk'`. -/
def Runs (s : Session α) (disk : Disk) (r : Except Failure α) (disk' : Disk) : Prop :=
  ∀ log deliveries, ∃ log' deliveries',
    s ⟨disk, log, deliveries⟩ = (r, ⟨disk', log', deliveries'⟩)

namespace Runs

variable {disk disk' disk'' : Disk}

theorem pure (a : α) : (Pure.pure a : Session α).Runs disk (.ok a) disk :=
  fun log deliveries => ⟨log, deliveries, rfl⟩

theorem get (r : Except Failure α) : (Session.get r).Runs disk r disk :=
  fun log deliveries => ⟨log, deliveries, rfl⟩

theorem look (find : Disk → Except Failure α) : (Session.look find).Runs disk (find disk) disk :=
  fun log deliveries => ⟨log, deliveries, rfl⟩

theorem read : Session.disk.Runs disk (.ok disk) disk :=
  fun log deliveries => ⟨log, deliveries, rfl⟩

theorem say (entries : List LogEntry) : (Session.say entries).Runs disk (.ok ()) disk :=
  fun log deliveries => ⟨log ++ entries, deliveries, rfl⟩

theorem info (text : String) : (Session.info text).Runs disk (.ok ()) disk := say _

theorem deliver (files : List (String × String)) : (Session.deliver files).Runs disk (.ok ()) disk :=
  fun log deliveries => ⟨log, deliveries ++ files, rfl⟩

/-- **Steps after steps**: `next` on what `s` came to. -/
theorem bind {s : Session α} {next : α → Session β} {a : α} {r : Except Failure β}
    (hs : s.Runs disk (.ok a) disk') (hn : (next a).Runs disk' r disk'') :
    (s >>= next).Runs disk r disk'' := by
  intro log deliveries
  obtain ⟨log', deliveries', he⟩ := hs log deliveries
  obtain ⟨log'', deliveries'', he'⟩ := hn log' deliveries'
  exact ⟨log'', deliveries'', (bind_of_ok he).trans he'⟩

theorem bind_error {s : Session α} {next : α → Session β} {failure : Failure}
    (hs : s.Runs disk (.error failure) disk') :
    (s >>= next).Runs disk (.error failure) disk' := by
  intro log deliveries
  obtain ⟨log', deliveries', he⟩ := hs log deliveries
  exact ⟨log', deliveries', bind_of_error he⟩

theorem unique {s : Session α} {r r' : Except Failure α} (h : s.Runs disk r disk')
    (h' : s.Runs disk r' disk'') : r = r' ∧ disk' = disk'' := by
  obtain ⟨_, _, he⟩ := h [] []
  obtain ⟨_, _, he'⟩ := h' [] []
  rw [he] at he'
  obtain ⟨hr, hp⟩ := Prod.mk.inj he'
  exact ⟨hr, (Progress.mk.inj hp).1⟩

theorem of_eq {s : Session α} {r r' : Except Failure α} {p q : Progress}
    (h : s.Runs p.disk r disk') (he : s p = (r', q)) : r = r' ∧ disk' = q.disk := by
  obtain ⟨_, _, hs⟩ := h p.log p.deliveries
  rw [hs] at he
  obtain ⟨hr, hp⟩ := Prod.mk.inj he
  exact ⟨hr, by rw [← hp]⟩

end Runs

/-! ## Steps after one that cannot fail -/

theorem say_bind (entries : List LogEntry) (next : Unit → Session β) (p : Progress) :
    (say entries >>= next) p = next () { p with log := p.log ++ entries } := rfl

theorem info_bind (text : String) (next : Unit → Session β) (p : Progress) :
    (info text >>= next) p = next () { p with log := p.log ++ [.info text] } := rfl

theorem deliver_bind (files : List (String × String)) (next : Unit → Session β) (p : Progress) :
    (deliver files >>= next) p = next () { p with deliveries := p.deliveries ++ files } := rfl

theorem disk_bind (next : Disk → Session β) (p : Progress) :
    (disk >>= next) p = next p.disk p := rfl

theorem bind_eq_ok {s : Session α} {next : α → Session β} {p q : Progress} {b : β}
    (h : (s >>= next) p = (.ok b, q)) : ∃ a mid, s p = (.ok a, mid) ∧ next a mid = (.ok b, q) := by
  rcases hs : s p with ⟨failure | a, mid⟩
  · rw [bind_of_error hs] at h
    cases h
  · rw [bind_of_ok hs] at h
    exact ⟨a, mid, rfl, h⟩

end FlowMigration.Session
