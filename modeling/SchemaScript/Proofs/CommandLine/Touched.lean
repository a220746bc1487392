/- What a command line touches: nothing for a check, at most the file that is named for one document,
   and the scripts and the way to them for a build. -/
import SchemaScript.CommandLine.Run
import SchemaScript.Proofs.Project.Touched

namespace SchemaScript.Project

theorem still_documentsIn (directory : Path) :
    (documentsIn (m := StateM FileTree) directory).Still :=
  (Attempt.Still.mapM (fun _ => still_expandPattern _) _).bind fun _ => .pure _

theorem still_readSources (path : Path) : (readSources (m := StateM FileTree) path).Still := by
  have hkind : Looks (FileSystem.kind? (m := StateM FileTree) path) := fun _ => rfl
  refine (Attempt.Still.looks hkind).bind fun kind => ?_
  rcases kind with _ | _ | _ | _
  · exact .throw _
  · exact (still_readSource path).bind fun source => .pure _
  · exact (still_documentsIn path).bind fun found => .mapM still_readSource found
  · exact .throw _

theorem still_check (path : Path) : (check (m := StateM FileTree) path).Still := by
  refine (still_readSources path).bind fun sources => ?_
  dsimp only
  split
  · exact (Attempt.Still.throw _).bind fun _ => .pure _
  · exact .pure _

end SchemaScript.Project

namespace SchemaScript.CommandLine

open FileTree Project

variable {α β : Type} {t t' : FileTree} {output : Option Path}

/-- Of two trees the later one has a file at a path, if one is given, and is the same elsewhere. -/
structure Replaces (output : Option Path) (t t' : FileTree) : Prop where
  here : t'.here = t.here
  entry : ∀ l, t'.entry? l = t.entry? l ∨ ∃ path, output = some path ∧ t.locate path = .ok l ∧
    t.entry? l ≠ some .directory ∧ ∃ content, t'.entry? l = some (.file content)

theorem Replaces.refl (output : Option Path) (t : FileTree) : Replaces output t t :=
  ⟨rfl, fun _ => .inl rfl⟩

theorem replaces_of_write {path : Path} {content : Bytes} (h : t.write path content = .ok t') :
    Replaces (some path) t t' := by
  refine ⟨(sameWays_of_write h).here, fun l => ?_⟩
  obtain ⟨k, hk, -, hdirectory, rfl⟩ := write_eq_ok.1 h
  split
  · exact .inl rfl
  · by_cases hl : l = k
    · subst hl
      refine .inr ⟨path, rfl, hk, hdirectory, content, ?_⟩
      exact insert_entry_self (ne_nil_of_not_directory hdirectory) _
    · exact .inl (insert_entry_of_ne hl _)

/-- Work that ends early without a trace, and otherwise has written at most the file at a path. -/
def Leaves (output : Option Path) (x : Attempt (StateM FileTree) α) : Prop :=
  x.Spares ∧ ∀ t a t', x.run.run t = (.ok a, t') → Replaces output t t'

namespace Leaves

variable {x : Attempt (StateM FileTree) α} {f : α → Attempt (StateM FileTree) β}

theorem of_still (h : x.Still) (output : Option Path) : Leaves output x := by
  refine ⟨h.spares, fun t a t' hrun => ?_⟩
  obtain rfl : t' = t := h.eq_of_run hrun
  exact .refl output t'

theorem bind (hx : x.Still) (hf : ∀ a, Leaves output (f a)) : Leaves output (x >>= f) := by
  refine ⟨.bind hx fun a => (hf a).1, fun t b t' hrun => ?_⟩
  obtain ⟨a, t₁, hrun₁, hrun₂⟩ := Attempt.run_bind_eq_ok.1 hrun
  obtain rfl : t₁ = t := hx.eq_of_run hrun₁
  exact (hf a).2 t₁ b t' hrun₂

theorem map (hx : Leaves output x) (f : α → β) :
    Leaves output (x >>= fun a => Pure.pure (f a)) := by
  refine ⟨hx.1.map f, fun t b t' hrun => ?_⟩
  obtain ⟨a, t₁, hrun₁, hrun₂⟩ := Attempt.run_bind_eq_ok.1 hrun
  cases hrun₂
  exact hx.2 t a _ hrun₁

theorem writeText (path : Path) (text : Text) : Leaves (some path)
    (Attempt.orFail (.unwritable path) (Files.writeText (m := StateM FileTree) path text)) := by
  refine ⟨spares_writeText _ path text, fun t u t' hrun => ?_⟩
  rw [Attempt.run_orFail_eq_ok] at hrun
  exact replaces_of_write (Building.writeText_eq_ok.1 hrun)

end Leaves

theorem still_readSchema (file : Path) : (readSchema (m := StateM FileTree) file).Still :=
  (still_readSource file).bind fun _ => .ofExcept _ _

theorem leaves_writeScript (time : Timestamp) (file : Path) (indent : Option Int)
    (output : Option Path) :
    Leaves output (writeScript (m := StateM FileTree) time file indent output) := by
  refine Leaves.bind (still_readSchema file) fun schema => ?_
  cases output with
  | none => exact .of_still (.pure _) none
  | some path => exact (Leaves.writeText path _).map fun _ => writtenTo path

theorem leaves_writeSchema (file : Path) (output : Option Path) :
    Leaves output (writeSchema (m := StateM FileTree) file output) := by
  refine Leaves.bind (still_readSchema file) fun schema => ?_
  cases output with
  | none => exact .of_still (.pure _) none
  | some path => exact (Leaves.writeText path _).map fun _ => Text.trimEnd (writtenTo path) ++ ['\n']

/-- How a command ends when its work has come to something. -/
def Outcome.of : Except Failure Outcome → Outcome
  | .ok outcome => outcome
  | .error .vendorsTooDeep => .overflowed
  | .error failure => .failed failure

theorem run_of_read {time : Timestamp} {words : List Text} {command : Command}
    (h : read words = .ok command) (t : FileTree) :
    (run (m := StateM FileTree) time words).run t =
      (.of ((command.perform (m := StateM FileTree) time).run.run t).1,
        ((command.perform (m := StateM FileTree) time).run.run t).2) := by
  unfold run
  rw [h]
  dsimp only
  rw [StateT.run_bind]
  rcases (command.perform (m := StateM FileTree) time).run.run t with ⟨failure | outcome, t'⟩
  · cases failure <;> rfl
  · rfl

/-- A command whose work is done without a fault has the exit code zero. -/
theorem Leaves.run {x : Attempt (StateM FileTree) Text} (h : Leaves output x)
    {r : Except Failure Outcome}
    (hrun : (x >>= fun text => Pure.pure (Outcome.done text)).run.run t = (r, t')) :
    ((Outcome.of r).exitCode ≠ 0 → t' = t) ∧ Replaces output t t' := by
  have hdone := h.map Outcome.done
  cases r with
  | error e =>
      obtain rfl : t' = t := hdone.1 t e t' hrun
      exact ⟨fun _ => rfl, .refl output t'⟩
  | ok outcome =>
      refine ⟨fun hcode => ?_, hdone.2 t outcome t' hrun⟩
      obtain ⟨text, t₁, -, hpure⟩ := Attempt.run_bind_eq_ok.1 hrun
      cases hpure
      exact absurd rfl hcode

/-- Whatever the words are and however the command ends, it touches its outputs only. The tree has no
symbolic links, so that what is written at a location is written nowhere else. -/
theorem run_touches {time : Timestamp} {words : List Text} {outcome : Outcome}
    (hhere : ∀ name ∈ t.here, IsName name)
    (h : (run (m := StateM FileTree) time words).run t = (outcome, t')) :
    match read words with
    | .error _ => t' = t
    | .ok (.check _) => t' = t
    | .ok (.generate _ _ output) => (outcome.exitCode ≠ 0 → t' = t) ∧ Replaces output t t'
    | .ok (.parse _ output) => (outcome.exitCode ≠ 0 → t' = t) ∧ Replaces output t t'
    | .ok (.build config output vendors) =>
        t' = ((build (m := StateM FileTree) vendorDepth time config output vendors).run.run t).2 ∧
          ∀ depth, Touches time config output vendors t
            ((build (m := StateM FileTree) depth time config output vendors).run.run t).2 := by
  rcases hread : read words with stop | command
  · unfold run at h
    rw [hread] at h
    rcases stop with misuse | _ | _
    · exact (congrArg Prod.snd h).symm
    · exact (congrArg Prod.snd h).symm
    · exact (congrArg Prod.snd h).symm
  · rw [run_of_read hread] at h
    obtain ⟨rfl, rfl⟩ := Prod.mk.inj h
    cases command with
    | generate file indent output =>
        exact (leaves_writeScript time file indent output).run (Prod.eta _).symm
    | parse file output => exact (leaves_writeSchema file output).run (Prod.eta _).symm
    | build config output vendors =>
        refine ⟨run_bind_still fun log => .pure _, fun depth => ?_⟩
        exact build_touches hhere depth time config output vendors
    | check path => exact ((still_check path).bind fun report => .pure _) t

/-- A project of two databases, of which the second is none. -/
def halfSound : FileTree where
  entries := [(["config"], .directory),
    (["config", "databases.yml"], .file (Utf8.encode "databases:\n  - one.yml\n  - two.yml\n".toList)),
    (["one.yml"], .file (Utf8.encode "database:\n  name: one\n".toList)),
    (["two.yml"], .file (Utf8.encode "database: 2\n".toList))]

theorem run_touches_halfSound : ∃ outcome t',
    (run (m := StateM FileTree) namesakesTime ["build"]).run halfSound = (outcome, t') ∧
      outcome.exitCode = 1 ∧ ( FileTree.entry? t' ["build", "one.sql"]).isSome = true ∧
        Touches namesakesTime defaultConfig "build" "vendor" halfSound t' := by
  have hread : read ["build".toList] = .ok (.build defaultConfig "build" "vendor") := by
    decide +kernel
  have hends : ((run (m := StateM FileTree) namesakesTime ["build"]).run halfSound).1.exitCode = 1 ∧
      ( FileTree.entry? ((run (m := StateM FileTree) namesakesTime ["build"]).run halfSound).2
        ["build", "one.sql"]).isSome = true := by decide +kernel
  obtain ⟨⟨outcome, t'⟩, hrun⟩ : ∃ result,
      (run (m := StateM FileTree) namesakesTime ["build"]).run halfSound = result := ⟨_, rfl⟩
  rw [hrun] at hends
  have htouches := run_touches (fun name hname => absurd hname List.not_mem_nil) hrun
  rw [hread] at htouches
  obtain ⟨hsame, htouches⟩ := htouches
  refine ⟨outcome, t', hrun, hends.1, hends.2, ?_⟩
  rw [hsame]
  exact htouches vendorDepth

end SchemaScript.CommandLine
