/- What the parts of a build come to on a tree of files, and how that is put together. -/
import SchemaScript.Project.Build
import SchemaScript.Proofs.Files.Looking

namespace SchemaScript.Project

variable {α β : Type} {t t' t'' : FileTree}

namespace Attempt

theorem run_bind (x : Attempt (StateM FileTree) α) (f : α → Attempt (StateM FileTree) β) :
    (x >>= f).run.run t =
      match x.run.run t with
      | (.ok a, t') => (f a).run.run t'
      | (.error e, t') => (.error e, t') := by
  have hrun : (x >>= f).run.run t = ExceptT.bindCont f (x.run.run t).1 (x.run.run t).2 := rfl
  rw [hrun]
  rcases x.run.run t with ⟨_ | a, t'⟩ <;> rfl

theorem run_bind_eq_ok {x : Attempt (StateM FileTree) α} {f : α → Attempt (StateM FileTree) β}
    {b : β} : (x >>= f).run.run t = (.ok b, t'') ↔
      ∃ a t', x.run.run t = (.ok a, t') ∧ (f a).run.run t' = (.ok b, t'') := by
  rw [run_bind]
  rcases x.run.run t with ⟨_ | a, t'⟩
  · constructor
    · intro h
      cases h
    · rintro ⟨_, _, h, -⟩
      cases h
  · constructor
    · exact fun h => ⟨a, t', rfl, h⟩
    · rintro ⟨_, _, h, hf⟩
      cases h
      exact hf

theorem run_orFail_eq_ok {failure : FileError → Failure} {x : StateM FileTree (Except FileError α)}
    {a : α} : (orFail failure x).run.run t = (.ok a, t') ↔ x.run t = (.ok a, t') := by
  have hlift : (liftM x : Attempt (StateM FileTree) _).run.run t =
      (.ok (x.run t).1, (x.run t).2) := rfl
  unfold orFail
  rw [run_bind, hlift]
  rcases x.run t with ⟨_ | a', t''⟩
  · constructor
    · intro h
      cases h
    · intro h
      cases h
  · constructor
    · intro h
      cases h
      rfl
    · intro h
      cases h
      rfl

theorem run_orFail_eq_error {failure : FileError → Failure}
    {x : StateM FileTree (Except FileError α)} {e : Failure} :
    (orFail failure x).run.run t = (.error e, t') ↔
      ∃ e', x.run t = (.error e', t') ∧ e = failure e' := by
  have hlift : (liftM x : Attempt (StateM FileTree) _).run.run t =
      (.ok (x.run t).1, (x.run t).2) := rfl
  unfold orFail
  rw [run_bind, hlift]
  rcases x.run t with ⟨e' | a, t''⟩
  · constructor
    · intro h
      cases h
      exact ⟨e', rfl, rfl⟩
    · rintro ⟨_, h, rfl⟩
      cases h
      rfl
  · constructor
    · intro h
      cases h
    · rintro ⟨_, h, -⟩
      cases h

end Attempt

namespace Building

variable {log log' log'' : List Notice} {a : α} {b : β}

/-- The answer of a part of a build and the log behind it, or a failure, and the files. -/
def outcome (x : Building (StateM FileTree) α) (log : List Notice) (t : FileTree) :
    Except Failure (α × List Notice) × FileTree :=
  (x.run log).run t

theorem outcome_pure (a : α) :
    outcome (pure a : Building (StateM FileTree) α) log t = (.ok (a, log), t) := rfl

theorem outcome_note (n : Notice) :
    outcome (note n : Building (StateM FileTree) Unit) log t = (.ok ((), log ++ [n]), t) := rfl

theorem outcome_liftM (x : StateM FileTree α) :
    outcome (liftM x : Building (StateM FileTree) α) log t =
      (.ok ((x.run t).1, log), (x.run t).2) := rfl

theorem outcome_attempt (x : Attempt (StateM FileTree) α) :
    outcome (liftM x : Building (StateM FileTree) α) log t =
      match x.run.run t with
      | (.ok a, t') => (.ok (a, log), t')
      | (.error e, t') => (.error e, t') := by
  have hrun : outcome (liftM x : Building (StateM FileTree) α) log t =
      ExceptT.bindCont (fun a => (pure (a, log) : Attempt (StateM FileTree) (α × List Notice)))
        (x.run.run t).1 (x.run.run t).2 := rfl
  rw [hrun]
  rcases x.run.run t with ⟨_ | a, t'⟩ <;> rfl

theorem outcome_bind (x : Building (StateM FileTree) α) (f : α → Building (StateM FileTree) β) :
    outcome (x >>= f) log t =
      match outcome x log t with
      | (.ok (a, log'), t') => outcome (f a) log' t'
      | (.error e, t') => (.error e, t') := by
  have hrun : outcome (x >>= f) log t =
      ExceptT.bindCont (fun r : α × List Notice => (f r.1).run r.2) (outcome x log t).1
        (outcome x log t).2 := rfl
  rw [hrun]
  rcases outcome x log t with ⟨_ | ⟨a, log'⟩, t'⟩ <;> rfl

theorem outcome_bind_eq_ok {x : Building (StateM FileTree) α}
    {f : α → Building (StateM FileTree) β} :
    outcome (x >>= f) log t = (.ok (b, log''), t'') ↔
      ∃ a log' t', outcome x log t = (.ok (a, log'), t') ∧
        outcome (f a) log' t' = (.ok (b, log''), t'') := by
  rw [outcome_bind]
  rcases outcome x log t with ⟨_ | ⟨a, log'⟩, t'⟩
  · simp
  · constructor
    · exact fun h => ⟨a, log', t', rfl, h⟩
    · rintro ⟨_, _, _, h, hf⟩
      cases h
      exact hf

theorem outcome_bind_eq_error {x : Building (StateM FileTree) α}
    {f : α → Building (StateM FileTree) β} {e : Failure} :
    outcome (x >>= f) log t = (.error e, t'') ↔ outcome x log t = (.error e, t'') ∨
      ∃ a log' t', outcome x log t = (.ok (a, log'), t') ∧
        outcome (f a) log' t' = (.error e, t'') := by
  rw [outcome_bind]
  rcases outcome x log t with ⟨_ | ⟨a, log'⟩, t'⟩
  · simp
  · constructor
    · exact fun h => .inr ⟨a, log', t', rfl, h⟩
    · rintro (h | ⟨_, _, _, h, hf⟩)
      · cases h
      · cases h
        exact hf

theorem outcome_attempt_eq_ok {x : Attempt (StateM FileTree) α} :
    outcome (liftM x : Building (StateM FileTree) α) log t = (.ok (a, log'), t') ↔
      x.run.run t = (.ok a, t') ∧ log' = log := by
  rw [outcome_attempt]
  rcases x.run.run t with ⟨_ | a', t''⟩
  · constructor
    · intro h
      cases h
    · rintro ⟨h, -⟩
      cases h
  · constructor
    · intro h
      cases h
      exact ⟨rfl, rfl⟩
    · rintro ⟨h, rfl⟩
      cases h
      rfl

theorem outcome_orFail_eq_ok {failure : FileError → Failure}
    {x : StateM FileTree (Except FileError α)} :
    outcome (liftM (Attempt.orFail failure x) : Building (StateM FileTree) α) log t =
        (.ok (a, log'), t') ↔ x.run t = (.ok a, t') ∧ log' = log := by
  rw [outcome_attempt_eq_ok, Attempt.run_orFail_eq_ok]

theorem outcome_ofExcept_eq_ok {ε : Type} {failure : ε → Failure} {x : Except ε α} :
    outcome (liftM (Attempt.ofExcept (m := StateM FileTree) failure x) :
        Building (StateM FileTree) α) log t = (.ok (a, log'), t') ↔
      x = .ok a ∧ log' = log ∧ t' = t := by
  rw [outcome_attempt_eq_ok]
  cases x with
  | error e =>
      constructor
      · rintro ⟨h, -⟩
        cases h
      · rintro ⟨h, -⟩
        cases h
  | ok a' =>
      constructor
      · rintro ⟨h, hlog⟩
        cases h
        exact ⟨rfl, hlog, rfl⟩
      · rintro ⟨h, hlog, rfl⟩
        cases h
        exact ⟨rfl, hlog⟩

theorem outcome_mapM_cons_eq_ok {f : α → Building (StateM FileTree) β} {l : List α} {bs : List β} :
    outcome ((a :: l).mapM f) log t = (.ok (bs, log''), t'') ↔
      ∃ b log' t', outcome (f a) log t = (.ok (b, log'), t') ∧
        ∃ bs', outcome (l.mapM f) log' t' = (.ok (bs', log''), t'') ∧ bs = b :: bs' := by
  rw [List.mapM_cons, outcome_bind_eq_ok]
  simp only [outcome_bind_eq_ok, outcome_pure]
  constructor
  · rintro ⟨b, log', t', hb, bs', _, _, hbs', h⟩
    cases h
    exact ⟨b, log', t', hb, bs', hbs', rfl⟩
  · rintro ⟨b, log', t', hb, bs', hbs', rfl⟩
    exact ⟨b, log', t', hb, bs', _, _, hbs', rfl⟩

/-- Work on a list ends early at its first member, or at a later one when the first is done. -/
theorem outcome_mapM_cons_eq_error {f : α → Building (StateM FileTree) β} {l : List α}
    {e : Failure} :
    outcome ((a :: l).mapM f) log t = (.error e, t'') ↔ outcome (f a) log t = (.error e, t'') ∨
      ∃ b log' t', outcome (f a) log t = (.ok (b, log'), t') ∧
        outcome (l.mapM f) log' t' = (.error e, t'') := by
  rw [List.mapM_cons, outcome_bind_eq_error]
  simp only [outcome_bind_eq_error, outcome_pure, Prod.mk.injEq, reduceCtorEq, false_and, and_false,
    exists_false, or_false]

end Building

theorem readText_eq_ok {failure : FileError → Failure} {p : Path} {text : Text} :
    (Attempt.orFail failure (Files.readText (m := StateM FileTree) p)).run.run t = (.ok text, t') ↔
      t.text? p = some text ∧ t' = t := by
  rw [Attempt.run_orFail_eq_ok, Files.looks_readText p |>.run, ← Files.toOption_readText]
  rcases ((Files.readText (m := StateM FileTree) p).run t).1 with e | text'
  · constructor
    · intro h
      cases h
    · rintro ⟨h, -⟩
      cases h
  · constructor
    · intro h
      cases h
      exact ⟨rfl, rfl⟩
    · rintro ⟨h, rfl⟩
      cases h
      rfl

theorem readSource_eq_ok {file : Path} {source : Source} :
    (readSource (m := StateM FileTree) file).run.run t = (.ok source, t') ↔
      t.text? file = some source.content ∧ source.path = file ∧ t' = t := by
  unfold readSource
  rw [Attempt.run_bind_eq_ok]
  simp only [readText_eq_ok]
  constructor
  · rintro ⟨content, t₁, ⟨htext, rfl⟩, h⟩
    cases h
    exact ⟨htext, rfl, rfl⟩
  · rintro ⟨htext, rfl, rfl⟩
    exact ⟨source.content, t', ⟨htext, rfl⟩, rfl⟩

theorem readConfig_eq_ok {path : Path} {c : Config} :
    (Building.readConfig (m := StateM FileTree) path).run.run t = (.ok c, t') ↔
      (t.text? path).bind Config.read? = some c ∧ t' = t := by
  unfold Building.readConfig
  rw [Attempt.run_bind_eq_ok]
  simp only [readText_eq_ok, Option.bind_eq_some_iff]
  constructor
  · rintro ⟨content, t₁, ⟨htext, rfl⟩, h⟩
    cases hc : Config.read? content with
    | none =>
        rw [hc] at h
        cases h
    | some c' =>
        rw [hc] at h
        cases h
        exact ⟨⟨content, htext, hc⟩, rfl⟩
  · rintro ⟨⟨content, htext, hc⟩, rfl⟩
    refine ⟨content, t', ⟨htext, rfl⟩, ?_⟩
    rw [hc]
    rfl

end SchemaScript.Project
