/- What a build touches, however it ends: directories that it makes for the scripts, and the scripts in
   them. -/
import SchemaScript.Proofs.Files.Growing
import SchemaScript.Proofs.Project.Kept
import SchemaScript.Proofs.Project.Partway

namespace SchemaScript.Project

open FileTree

variable {site : Site} {made : List Product} {t t' : FileTree} {l : Location}
  {time : Timestamp} {config output vendors : Path}

theorem Writes.sameWays (h : Writes site t made t') : SameWays t t' := by
  induction h with
  | nil => exact .refl _
  | cons _ _ written _ ih => exact (sameWays_of_write written).trans ih

/-- Scripts that are written one after the other change the places to which their paths lead. -/
theorem Writes.entry (h : Writes site t made t') (l : Location) :
    t'.entry? l = t.entry? l ∨ ∃ p ∈ made, ∃ script, p.file.fileStem?.isSome = true ∧
      p.content? site.time = some script ∧ t.locate (site.output.join p.name) = .ok l ∧
        t'.entry? l = some (.file (Utf8.encode script)) := by
  induction h with
  | nil => exact .inl rfl
  | @cons p script later t₁ t₂ named made written rest ih =>
      rcases ih with hkept | ⟨q, hq, script', hnamed, hmade, hlocate, hentry⟩
      -- What no later script changes is as this one left it.
      · obtain ⟨k, hk, -, hdirectory, rfl⟩ := write_eq_ok.1 written
        split at hkept
        · exact .inl hkept
        · by_cases hl : l = k
          · subst hl
            refine .inr ⟨p, List.mem_cons_self, script, named, made, hk, ?_⟩
            rw [hkept, insert_entry_self (ne_nil_of_not_directory hdirectory)]
          · rw [insert_entry_of_ne hl] at hkept
            exact .inl hkept
      · have hlocate' := (sameWays_of_write written).locate_eq_ok.1 hlocate
        exact .inr ⟨q, List.mem_cons_of_mem p hq, script', hnamed, hmade, hlocate', hentry⟩

/-- At a location there is a script that a build has made before it ended: that of a document which an
entry led to and which was understood, in the directory for scripts and under the document's name. -/
inductive Scripted (time : Timestamp) (config output vendors : Path) (t t' : FileTree) :
    Location → Prop
  | intro {site : Site} {opened : FileTree} {made : List Product} {p : Product}
      {stem script : Text} {directory : Location}
      (opens : (openSite (m := StateM FileTree) time output vendors).run.run t = (.ok site, opened))
      (begins : Begins site opened [.config config ['.']] made t') (mem : p ∈ made)
      (named : p.file.fileStem? = some stem) (understood : p.content? time = some script)
      (inside : t'.find output = .ok (directory, .directory))
      (entry : t'.entry? (directory ++ [stem ++ ".sql".toList]) =
        some (.file (Utf8.encode script))) :
      Scripted time config output vendors t t' (directory ++ [stem ++ ".sql".toList])

/-- Of two trees the later one has new directories on the way to the scripts, and scripts, and is the
same elsewhere. -/
structure Touches (time : Timestamp) (config output vendors : Path) (t t' : FileTree) : Prop where
  here : t'.here = t.here
  entry : ∀ l, t'.entry? l = t.entry? l ∨
    ( t.entry? l = none ∧ t'.entry? l = some .directory ∧
      ∃ p ∈ output :: output.ancestors, t'.locate p = .ok l) ∨
    Scripted time config output vendors t t' l

theorem Touches.of_grows (h : Grows (output :: output.ancestors) t t') :
    Touches time config output vendors t t' :=
  ⟨h.here, fun l => (h.entry l).imp_right .inl⟩

theorem looks_canonical (p : Path) : Looks (FileSystem.canonical (m := StateM FileTree) p) :=
  fun _ => rfl

theorem canonical_eq_ok {failure : FileError → Failure} {p resolved : Path} :
    (Attempt.orFail failure (FileSystem.canonical (m := StateM FileTree) p)).run.run t =
      (.ok resolved, t') ↔ (∃ l e, t.find p = .ok (l, e) ∧ resolved = pathOf l) ∧ t' = t := by
  rw [Attempt.run_orFail_eq_ok, (looks_canonical p).run]
  have hrun : ((FileSystem.canonical (m := StateM FileTree) p).run t).1 = t.canonical p := rfl
  rw [hrun, canonical]
  cases t.find p with
  | error e =>
      constructor
      · intro h
        cases h
      · rintro ⟨⟨_, _, h, -⟩, -⟩
        cases h
  | ok found =>
      constructor
      · intro h
        cases h
        exact ⟨⟨found.1, found.2, rfl, rfl⟩, rfl⟩
      · rintro ⟨⟨l, e, h, rfl⟩, rfl⟩
        cases h
        rfl

theorem run_bind_still {α β : Type} {x : Attempt (StateM FileTree) α}
    {f : α → Attempt (StateM FileTree) β} (hf : ∀ a, (f a).Still) :
    ((x >>= f).run.run t).2 = (x.run.run t).2 := by
  rw [Attempt.run_bind]
  rcases x.run.run t with ⟨_ | a, t'⟩
  · rfl
  · exact hf a t'

theorem openSite_grows (time : Timestamp) (output vendors : Path) (t : FileTree) :
    Grows (output :: output.ancestors) t
      ((openSite (m := StateM FileTree) time output vendors).run.run t).2 := by
  unfold openSite
  rw [run_bind_still]
  · unfold Attempt.orFail
    rw [run_bind_still]
    · exact Files.extends_makeDirectories output t
    · intro answer
      cases answer with
      | ok u => exact .pure u
      | error e => exact .throw _
  · intro u
    refine (Attempt.Still.orFail (looks_canonical output)).bind fun resolved => ?_
    refine (Attempt.Still.looks (looks_canonical vendors)).bind fun answer => ?_
    cases answer with
    | ok path => exact .pure _
    | error e => exact .pure _

/-- The directory for scripts is known by its place, so that the way to it plays no part any more. -/
theorem output_of_openSite
    (h : (openSite (m := StateM FileTree) time output vendors).run.run t = (.ok site, t')) :
    ∃ directory e, t'.find output = .ok (directory, e) ∧ site.output = pathOf directory := by
  obtain ⟨u, t₁, -, h₁⟩ := Attempt.run_bind_eq_ok.1 h
  obtain ⟨resolved, t₂, hresolved, h₂⟩ := Attempt.run_bind_eq_ok.1 h₁
  obtain ⟨⟨directory, e, hfind, rfl⟩, rfl⟩ := canonical_eq_ok.1 hresolved
  obtain ⟨answer, t₃, hanswer, h₃⟩ := Attempt.run_bind_eq_ok.1 h₂
  have hsame : t₃ = t₂ := (Attempt.Still.looks (looks_canonical vendors)).eq_of_run hanswer
  cases answer with
  | ok path =>
      cases h₃
      exact ⟨directory, e, hsame ▸ hfind, rfl⟩
  | error e' =>
      cases h₃
      exact ⟨directory, e, hsame ▸ hfind, rfl⟩

theorem Begins.touches {opened : FileTree} (hhere : ∀ name ∈ t.here, IsName name)
    (hopen : (openSite (m := StateM FileTree) time output vendors).run.run t = (.ok site, opened))
    (h : Begins site opened [.config config ['.']] made t') :
    Touches time config output vendors t t' := by
  have hgrows : Grows (output :: output.ancestors) t opened := by
    have h := openSite_grows time output vendors t
    rw [hopen] at h
    exact h
  have hways := h.writes.sameWays
  obtain ⟨directory, e, hfind, houtput⟩ := output_of_openSite hopen
  have hlocate := (find_eq_ok hfind).1
  have hnames := names_locate (fun name hname => hhere name (hgrows.here ▸ hname)) hlocate
  refine ⟨hways.here.trans hgrows.here, fun l => ?_⟩
  rcases h.writes.entry l with hkept | ⟨p, hp, script, hnamed, hmade, hl, hentry⟩
  · rcases hgrows.entry l with hsame | ⟨hnone, hnew, q, hq, hl⟩
    · exact .inl (hkept.trans hsame)
    · exact .inr (.inl ⟨hnone, hkept.trans hnew, q, hq, hways.locate_eq_ok.2 hl⟩)
  · obtain ⟨stem, hstem⟩ := Option.isSome_iff_exists.1 hnamed
    have hname : p.name = stem ++ ".sql".toList := by
      rw [Product.name, hstem]
      rfl
    rw [houtput] at hl
    obtain ⟨rfl, hdirectory⟩ := locate_join_pathOf hnames (Product.isName hnamed) hl
    rw [time_of_openSite hopen] at hmade
    rw [hname] at hentry ⊢
    have hinside := find_directory (hways.locate_eq_ok.2 hlocate) ((hways.directory _).2 hdirectory)
    exact .inr (.inr (.intro hopen h hp hstem hmade hinside hentry))

/-- A build touches no more than its scripts and the way to them, whether it ends well or not and
however deep its vendors go. -/
theorem build_touches (hhere : ∀ name ∈ t.here, IsName name) (depth : Nat) (time : Timestamp)
    (config output vendors : Path) :
    Touches time config output vendors t
      ((build (m := StateM FileTree) depth time config output vendors).run.run t).2 := by
  unfold build
  rw [Attempt.run_bind]
  rcases hopen : (openSite (m := StateM FileTree) time output vendors).run.run t with ⟨e | site, t₀⟩
  · have hgrows := openSite_grows time output vendors t
    rw [hopen] at hgrows
    exact .of_grows hgrows
  · dsimp only
    rw [run_bind_still fun r : Unit × List Notice => Attempt.Still.pure r.2]
    obtain ⟨made, hbegins⟩ : ∃ made, Begins site t₀ [.config config ['.']] made _ :=
      Building.buildConfig_begins rfl
    exact hbegins.touches hhere hopen

end SchemaScript.Project
