/- What the bound on the depth of vendors changes of a build: it cuts short what goes deeper, and
   nothing else. -/
import SchemaScript.Proofs.Project.Tasks
import Mathlib.Data.Nat.Init

namespace SchemaScript.Project

variable {α β : Type} {site : Site} {log : List Notice} {t : FileTree}

/-- What is too deep is so whatever answer was wanted. -/
theorem error_deep {α β : Type} {e : Failure}
    (h : (.error e : Except Failure α) = .error .vendorsTooDeep) :
    (.error e : Except Failure β) = .error .vendorsTooDeep :=
  congrArg Except.error (Except.error.inj h)

/-- Work that needs no depth of vendors. -/
def Attempt.Shallow (x : Attempt (StateM FileTree) α) : Prop :=
  ∀ t, (x.run.run t).1 ≠ .error .vendorsTooDeep

namespace Attempt.Shallow

theorem pure (a : α) : Shallow (pure a) := by
  intro t h
  cases h

theorem throw {failure : Failure} (h : failure ≠ .vendorsTooDeep) :
    Shallow (α := α) (throw failure) := by
  intro t hrun
  cases hrun
  exact h rfl

theorem bind {x : Attempt (StateM FileTree) α} {f : α → Attempt (StateM FileTree) β}
    (hx : x.Shallow) (hf : ∀ a, (f a).Shallow) : (x >>= f).Shallow := by
  intro t
  rw [run_bind]
  have hhead := hx t
  rcases h : x.run.run t with ⟨_ | a, t'⟩
  · rw [h] at hhead
    exact fun hrun => hhead (error_deep hrun)
  · exact hf a t'

theorem lift (x : StateM FileTree α) : Shallow (liftM x) := by
  intro t h
  cases h

theorem ofExcept {ε : Type} {failure : ε → Failure} (h : ∀ e, failure e ≠ .vendorsTooDeep)
    (x : Except ε α) : Shallow (Attempt.ofExcept failure x) := by
  cases x with
  | ok a => exact .pure a
  | error e => exact .throw (h e)

theorem orFail {failure : FileError → Failure} (h : ∀ e, failure e ≠ .vendorsTooDeep)
    (x : StateM FileTree (Except FileError α)) : Shallow (Attempt.orFail failure x) := by
  refine (lift x).bind fun answer => ?_
  cases answer with
  | ok a => exact .pure a
  | error e => exact .throw (h e)

end Attempt.Shallow

namespace Building

def Shallow (x : Building (StateM FileTree) α) : Prop := ∀ log, (x.run log).Shallow

namespace Shallow

theorem pure (a : α) : Shallow (pure a) := fun log => .pure (a, log)

theorem throw {failure : Failure} (h : failure ≠ .vendorsTooDeep) :
    Shallow (α := α) (throw failure) := fun _ t => Attempt.Shallow.throw h t

theorem bind {x : Building (StateM FileTree) α} {f : α → Building (StateM FileTree) β}
    (hx : Shallow x) (hf : ∀ a, Shallow (f a)) : Shallow (x >>= f) :=
  fun log => (hx log).bind fun r => hf r.1 r.2

theorem note (n : Notice) : Shallow (note n) := fun log => .pure ((), log ++ [n])

theorem attempt {x : Attempt (StateM FileTree) α} (h : x.Shallow) : Shallow (liftM x) :=
  fun log => h.bind fun a => .pure (a, log)

theorem lift (x : StateM FileTree α) : Shallow (liftM x) := attempt (.lift x)

theorem mapM {f : α → Building (StateM FileTree) β} (hf : ∀ a, Shallow (f a)) (l : List α) :
    Shallow (l.mapM f) := by
  induction l with
  | nil => exact .pure []
  | cons a l ih =>
      rw [List.mapM_cons]
      exact (hf a).bind fun b => ih.bind fun bs => .pure (b :: bs)

theorem filterM {f : α → Building (StateM FileTree) Bool} (hf : ∀ a, Shallow (f a)) (l : List α) :
    Shallow (l.filterM f) := by
  -- The filter keeps what it has chosen beside the rest of the list.
  have haux (l kept : List α) : Shallow (l.filterAuxM f kept) := by
    induction l generalizing kept with
    | nil => exact .pure kept
    | cons a l ih => exact (hf a).bind fun keep => ih _
  exact (haux l []).bind fun kept => .pure _

end Shallow

theorem shallow_databaseFiles (entry : DatabaseEntry) (root : Path) :
    Shallow (databaseFiles entry root) := by
  have hnote (files : List Path) : Shallow
      (if files.isEmpty then do
        note (m := StateM FileTree) (.databaseMissing (root.join entry.path))
        return files
      else return files) := by
    split
    · exact (Shallow.note _).bind fun _ => .pure files
    · exact .pure files
  have hexpand (pattern : Path) : (expandPattern (m := StateM FileTree) pattern).Shallow :=
    (Attempt.Shallow.lift _).bind fun found => .ofExcept (by nofun) found
  unfold databaseFiles
  refine (Shallow.lift _).bind fun isThere => ?_
  dsimp only
  split
  · refine (Shallow.attempt (hexpand _)).bind fun found => ?_
    exact (Shallow.filterM (fun _ => .lift _) found).bind hnote
  · split
    · exact (Shallow.pure _).bind hnote
    · exact (Shallow.pure _).bind hnote

theorem shallow_postText (root : Path) (posts : List Path) : Shallow (postText root posts) := by
  refine (Shallow.mapM (fun post => ?_) posts).bind fun sections => .pure _
  refine (Shallow.lift _).bind fun answer => ?_
  cases answer with
  | ok content => exact .pure _
  | error e => exact (Shallow.note _).bind fun _ => .pure []

theorem shallow_buildDatabase (site : Site) (root : Path) (indent : Option Int) (entry : DatabaseEntry)
    (file : Path) : Shallow (buildDatabase site root indent entry file) := by
  have hread : (readSource (m := StateM FileTree) file).Shallow :=
    (Attempt.Shallow.orFail (by nofun) _).bind fun content => .pure _
  refine (Shallow.attempt hread).bind fun source => ?_
  refine (Shallow.attempt (.ofExcept (by nofun) _)).bind fun schema => ?_
  refine (shallow_postText root entry.post).bind fun post => ?_
  split
  · exact .throw nofun
  · exact (Shallow.attempt (.orFail (by nofun) _)).bind fun _ => .pure _

/-- Only vendors take depth: what a configuration does by itself needs none. -/
theorem shallow_buildOwn (site : Site) (config root : Path) : Shallow (buildOwn site config root) := by
  have hconfig (path : Path) : (readConfig (m := StateM FileTree) path).Shallow := by
    refine (Attempt.Shallow.orFail (by nofun) _).bind fun content => ?_
    split
    · exact .pure _
    · exact .throw nofun
  have hvendors (c : Config) : Shallow (do
      let vendors ← Attempt.ofExcept (m := StateM FileTree) .vendor c.vendorEntries
      return tasksOf site vendors) :=
    (Shallow.attempt (.ofExcept (by nofun) _)).bind fun vendors => .pure _
  have hentries (c : Config) : Shallow (buildDatabases site root c.indent (c.databases.getD [])) := by
    refine (Shallow.mapM (fun entry => ?_) _).bind fun names => .note _
    exact (shallow_databaseFiles entry root).bind fun files =>
      .mapM (shallow_buildDatabase site root c.indent entry) files
  refine (Shallow.note _).bind fun _ => (Shallow.attempt (hconfig _)).bind fun c => ?_
  dsimp only
  split
  · exact (hentries c).bind fun _ => hvendors c
  · exact hvendors c

theorem outcome_bind_deep {x : Building (StateM FileTree) α} {f : α → Building (StateM FileTree) β}
    (h : (outcome x log t).1 = .error .vendorsTooDeep) :
    (outcome (x >>= f) log t).1 = .error .vendorsTooDeep := by
  rw [outcome_bind]
  rcases hx : outcome x log t with ⟨_ | r, t'⟩
  · rw [hx] at h
    exact error_deep h
  · rw [hx] at h
    cases h

/-- The first of two parts of a build fails for want of depth, or does the same as the second. -/
def Truncates (x y : Building (StateM FileTree) α) : Prop :=
  ∀ log t, (outcome x log t).1 = .error .vendorsTooDeep ∨ outcome x log t = outcome y log t

namespace Truncates

theorem refl (x : Building (StateM FileTree) α) : Truncates x x := fun _ _ => .inr rfl

theorem trans {x y z : Building (StateM FileTree) α} (h : Truncates x y) (h' : Truncates y z) :
    Truncates x z := by
  intro log t
  rcases h log t with hdeep | hsame
  · exact .inl hdeep
  · rw [hsame]
    exact h' log t

theorem bind {x y : Building (StateM FileTree) α} {f g : α → Building (StateM FileTree) β}
    (h : Truncates x y) (hf : ∀ a, Truncates (f a) (g a)) : Truncates (x >>= f) (y >>= g) := by
  intro log t
  rcases h log t with hdeep | hsame
  · exact .inl (outcome_bind_deep hdeep)
  · rw [outcome_bind, outcome_bind, hsame]
    rcases outcome y log t with ⟨_ | ⟨a, log'⟩, t'⟩
    · exact .inr rfl
    · exact hf a log' t'

theorem forM {f g : α → Building (StateM FileTree) Unit} (h : ∀ a, Truncates (f a) (g a))
    (l : List α) : Truncates (l.forM f) (l.forM g) := by
  induction l with
  | nil => exact refl _
  | cons a l ih => exact (h a).bind fun _ => ih

theorem outcome_eq {x y : Building (StateM FileTree) α} (h : Truncates x y)
    (hx : (outcome x log t).1 ≠ .error .vendorsTooDeep) : outcome y log t = outcome x log t :=
  ((h log t).resolve_left hx).symm

end Truncates

theorem buildConfig_truncates_succ (site : Site) (depth : Nat) (config root : Path) :
    Truncates (buildConfig site depth config root) (buildConfig site (depth + 1) config root) := by
  induction depth generalizing config root with
  | zero => exact fun _ _ => .inl rfl
  | succ depth ih =>
      rw [buildConfig_succ site depth, buildConfig_succ site (depth + 1)]
      refine (Truncates.refl _).bind fun tasks => Truncates.forM (fun task => ?_) tasks
      cases task with
      | vendor name => exact .refl _
      | config config root => exact ih config root

/-- More depth changes nothing of a build that has enough. -/
theorem buildConfig_truncates {depth more : Nat} (h : depth ≤ more) (site : Site)
    (config root : Path) :
    Truncates (buildConfig site depth config root) (buildConfig site more config root) := by
  induction more, h using Nat.le_induction with
  | base => exact .refl _
  | succ more _ ih => exact ih.trans (buildConfig_truncates_succ site more config root)

theorem forM_perform_truncates {depth more : Nat} (h : depth ≤ more) (site : Site)
    (tasks : List Task) :
    Truncates (tasks.forM (perform site depth)) (tasks.forM (perform site more)) := by
  refine Truncates.forM (fun task => ?_) tasks
  cases task with
  | vendor name => exact .refl _
  | config config root => exact buildConfig_truncates h site config root

/-- Of two depths that are enough for some tasks, it does not matter which one it is. -/
theorem forM_perform_agree {depth other : Nat} {tasks : List Task}
    (h : (outcome (tasks.forM (perform site depth)) log t).1 ≠ .error .vendorsTooDeep)
    (h' : (outcome (tasks.forM (perform site other)) log t).1 ≠ .error .vendorsTooDeep) :
    outcome (tasks.forM (perform site depth)) log t =
      outcome (tasks.forM (perform site other)) log t := by
  rcases Nat.le_total depth other with hle | hle
  · exact ((forM_perform_truncates hle site tasks).outcome_eq h).symm
  · exact (forM_perform_truncates hle site tasks).outcome_eq h'

end Building

end SchemaScript.Project
