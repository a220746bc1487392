/- When a build comes to an end: the vendors of its configurations must not lead to one another for
   ever. -/
import SchemaScript.Proofs.Project.Depth
import Mathlib.Order.WellFounded

namespace SchemaScript.Project

open Building

/-- A configuration that a build comes to, in a directory, with the log and the files as they are
then. -/
structure Call where
  config : Path
  root : Path
  log : List Notice
  tree : FileTree

def Call.outcome (site : Site) (depth : Nat) (c : Call) :
    Except Failure (Unit × List Notice) × FileTree :=
  Building.outcome (buildConfig site depth c.config c.root) c.log c.tree

/-- From building one configuration a build comes to another one: that of a vendor, once all that stands
in front of it is done. -/
inductive Calls (site : Site) : Call → Call → Prop
  | vendor {call next : Call} {before after : List Task} {log : List Notice} {t : FileTree}
      {depth : Nat}
      (own : Building.outcome (buildOwn site call.config call.root) call.log call.tree =
        (.ok (before ++ .config next.config next.root :: after, log), t))
      (done : Building.outcome (before.forM (perform site depth)) log t =
        (.ok ((), next.log), next.tree)) : Calls site next call

variable {site : Site} {log log' : List Notice} {t t' : FileTree} {depth : Nat}

theorem forM_perform_append (before after : List Task) :
    (before ++ after).forM (perform (m := StateM FileTree) site depth) =
      before.forM (perform site depth) >>= fun _ => after.forM (perform site depth) := by
  simp only [List.forM_eq_forM, List.forM_append]

theorem forM_perform_concat (before : List Task) (task : Task) :
    (before ++ [task]).forM (perform (m := StateM FileTree) site depth) =
      before.forM (perform site depth) >>= fun _ => perform site depth task := by
  simp only [List.forM_eq_forM, List.forM_append, List.forM_cons, List.forM_nil, bind_pure_unit]

theorem forM_perform_cons (task : Task) (after : List Task) :
    (task :: after).forM (perform (m := StateM FileTree) site depth) =
      perform site depth task >>= fun _ => after.forM (perform site depth) := rfl

/-- From a build with depth enough there is no endless chain of calls. -/
theorem acc_of_outcome {c : Call} (h : (c.outcome site depth).1 ≠ .error .vendorsTooDeep) :
    Acc (Calls site) c := by
  induction depth generalizing c with
  | zero => exact absurd rfl h
  | succ depth ih =>
      refine Acc.intro c fun next hcalls => ?_
      cases hcalls with
      | @vendor _ _ before after log t enough own done =>
          rw [Call.outcome, buildConfig_succ, outcome_bind, own] at h
          dsimp only at h
          rw [forM_perform_append] at h
          -- With this depth, what stands in front of the vendor comes to the same as before.
          have hbefore : Building.outcome (before.forM (perform site depth)) log t =
              (.ok ((), next.log), next.tree) := by
            rw [← done]
            refine forM_perform_agree (fun hdeep => h (outcome_bind_deep hdeep)) ?_
            rw [done]
            nofun
          rw [outcome_bind, hbefore] at h
          exact ih fun hdeep => h (outcome_bind_deep hdeep)

theorem forM_perform_of_le {more : Nat} {tasks : List Task} (h : depth ≤ more)
    (done : Building.outcome (tasks.forM (perform site depth)) log t = (.ok ((), log'), t')) :
    Building.outcome (tasks.forM (perform site more)) log t = (.ok ((), log'), t') := by
  rw [(forM_perform_truncates h site tasks).outcome_eq (done ▸ nofun), done]

theorem perform_config_of_le {more : Nat} {config root : Path} (h : depth ≤ more)
    (done : Building.outcome (buildConfig site depth config root) log t = (.ok ((), log'), t')) :
    Building.outcome (perform site more (.config config root)) log t = (.ok ((), log'), t') := by
  rw [perform, (buildConfig_truncates h site config root).outcome_eq (done ▸ nofun), done]

/-- What is left to do of some tasks can be done with some depth, if that is so for each configuration
that the tasks come to. -/
theorem exists_depth_of_calls {c : Call} {tasks before after : List Task}
    {start : List Notice} {t₀ : FileTree}
    (own : Building.outcome (buildOwn site c.config c.root) c.log c.tree = (.ok (tasks, start), t₀))
    (hcalls : ∀ next, Calls site next c →
      ∃ depth, (next.outcome site depth).1 ≠ .error .vendorsTooDeep)
    (htasks : tasks = before ++ after)
    (done : Building.outcome (before.forM (perform site depth)) start t₀ = (.ok ((), log), t)) :
    ∃ depth, (Building.outcome (after.forM (perform site depth)) log t).1 ≠
      .error .vendorsTooDeep := by
  induction after generalizing before log t depth with
  | nil => exact ⟨0, nofun⟩
  | cons task after ih =>
      have hsplit : tasks = (before ++ [task]) ++ after := by simp [htasks]
      cases task with
      | vendor name =>
          have hdone : Building.outcome ((before ++ [Task.vendor name]).forM (perform site depth))
              start t₀ = (.ok ((), log ++ [.vendor name]), t) := by
            rw [forM_perform_concat, outcome_bind, done]
            rfl
          obtain ⟨more, hmore⟩ := ih hsplit hdone
          refine ⟨more, ?_⟩
          rw [forM_perform_cons, outcome_bind]
          exact hmore
      | config config root =>
          have hnext : Calls site ⟨config, root, log, t⟩ c := Calls.vendor (htasks ▸ own) done
          obtain ⟨enough, henough⟩ := hcalls _ hnext
          rcases hr : Building.outcome (buildConfig site enough config root) log t with
            ⟨e | ⟨u, log'⟩, t'⟩
          -- A failure ends the build here, whatever is left to do.
          · refine ⟨enough, ?_⟩
            rw [Call.outcome, hr] at henough
            rw [forM_perform_cons, outcome_bind, perform, hr]
            exact fun hdeep => henough (error_deep hdeep)
          -- What stands in front needs one depth, this vendor another: the greater one does for both.
          · have hdone : Building.outcome ((before ++ [Task.config config root]).forM
                (perform site (max depth enough))) start t₀ = (.ok ((), log'), t') := by
              rw [forM_perform_concat, outcome_bind,
                forM_perform_of_le (Nat.le_max_left depth enough) done]
              exact perform_config_of_le (Nat.le_max_right depth enough) hr
            obtain ⟨more, hmore⟩ := ih hsplit hdone
            have hrest := (forM_perform_truncates (Nat.le_max_left more enough) site after).outcome_eq
              hmore
            refine ⟨max more enough, ?_⟩
            rw [forM_perform_cons, outcome_bind,
              perform_config_of_le (Nat.le_max_right more enough) hr]
            dsimp only
            rw [hrest]
            exact hmore

/-- If there is no endless chain of calls, then some depth is enough. -/
theorem exists_outcome_of_acc {c : Call} (h : Acc (Calls site) c) :
    ∃ depth, (c.outcome site depth).1 ≠ .error .vendorsTooDeep := by
  induction h with
  | intro c _ ih =>
      rcases own : Building.outcome (buildOwn site c.config c.root) c.log c.tree with
        ⟨e | ⟨tasks, log⟩, t⟩
      · refine ⟨1, ?_⟩
        have hown : (Building.outcome (buildOwn site c.config c.root) c.log c.tree).1 ≠
            .error .vendorsTooDeep := shallow_buildOwn site c.config c.root c.log c.tree
        rw [own] at hown
        rw [Call.outcome, buildConfig_succ, outcome_bind, own]
        exact fun hdeep => hown (error_deep hdeep)
      · have hnone : Building.outcome (([] : List Task).forM (perform site 0)) log t =
            (.ok ((), log), t) := rfl
        obtain ⟨depth, hdepth⟩ := exists_depth_of_calls own ih (List.nil_append tasks).symm hnone
        refine ⟨depth + 1, ?_⟩
        rw [Call.outcome, buildConfig_succ, outcome_bind, own]
        exact hdepth

theorem shallow_openSite (time : Timestamp) (output vendors : Path) :
    (openSite (m := StateM FileTree) time output vendors).Shallow := by
  refine (Attempt.Shallow.orFail (by nofun) _).bind fun _ => ?_
  refine (Attempt.Shallow.orFail (by nofun) _).bind fun resolved => ?_
  refine (Attempt.Shallow.lift _).bind fun answer => ?_
  cases answer with
  | ok vendors => exact .pure _
  | error e => exact .pure _

/-- The configuration that a build starts with, once the places of the build are found. -/
def Call.first (time : Timestamp) (site : Site) (config : Path) (t : FileTree) : Call where
  config := config
  root := ['.']
  log := [.started time site.output]
  tree := t

theorem build_run {time : Timestamp} {config output vendors : Path} {t₀ : FileTree} (depth : Nat)
    (h : (openSite (m := StateM FileTree) time output vendors).run.run t = (.ok site, t₀)) :
    (build (m := StateM FileTree) depth time config output vendors).run.run t =
      (((Call.first time site config t₀).outcome site depth).1.map Prod.snd,
        ((Call.first time site config t₀).outcome site depth).2) := by
  unfold build
  rw [Attempt.run_bind, h]
  dsimp only
  rw [Attempt.run_bind]
  have hrun : ((buildConfig (m := StateM FileTree) site depth config ['.']).run
      [.started time site.output]).run.run t₀ = (Call.first time site config t₀).outcome site depth := rfl
  rw [hrun]
  rcases (Call.first time site config t₀).outcome site depth with ⟨_ | r, t'⟩
  · rfl
  · rfl

theorem map_eq_deep {α β : Type} {f : α → β} {x : Except Failure α} :
    x.map f = .error .vendorsTooDeep ↔ x = .error .vendorsTooDeep := by
  cases x with
  | error e => simp [Except.map]
  | ok a => simp [Except.map]

/-- A build comes to an end, with a log or with a failure, exactly if its configurations do not lead to
one another for ever. -/
theorem build_ends_iff (time : Timestamp) (config output vendors : Path) (t : FileTree) :
    (∃ depth result, result.1 ≠ .error .vendorsTooDeep ∧ ∀ more, depth ≤ more →
      (build (m := StateM FileTree) more time config output vendors).run.run t = result) ↔
        ∀ site t₀,
          (openSite (m := StateM FileTree) time output vendors).run.run t = (.ok site, t₀) →
            ¬ ∃ calls : Nat → Call, calls 0 = .first time site config t₀ ∧
              ∀ n, Calls site (calls (n + 1)) (calls n) := by
  simp only [← not_acc_iff_exists_descending_chain, not_not]
  constructor
  · rintro ⟨depth, result, hresult, hbuild⟩ site t₀ hsite
    refine acc_of_outcome (fun hdeep => hresult ?_ : (Call.outcome site depth _).1 ≠ _)
    rw [← hbuild depth le_rfl, build_run depth hsite]
    exact map_eq_deep.2 hdeep
  · intro hacc
    rcases hsite : (openSite (m := StateM FileTree) time output vendors).run.run t with ⟨e | site, t₀⟩
    · refine ⟨0, (.error e, t₀), ?_, fun more _ => ?_⟩
      · have hshallow := shallow_openSite time output vendors t
        rw [hsite] at hshallow
        exact fun hdeep => hshallow (error_deep hdeep)
      · unfold build
        rw [Attempt.run_bind, hsite]
    · obtain ⟨depth, hdepth⟩ := exists_outcome_of_acc (hacc site t₀ hsite)
      refine ⟨depth, (build (m := StateM FileTree) depth time config output vendors).run.run t, ?_,
        fun more hmore => ?_⟩
      · rw [build_run depth hsite]
        exact fun hdeep => hdepth (map_eq_deep.1 hdeep)
      · have hsame : (Call.first time site config t₀).outcome site more =
            (Call.first time site config t₀).outcome site depth :=
          (buildConfig_truncates hmore site _ _).outcome_eq hdepth
        rw [build_run depth hsite, build_run more hsite, hsame]

/-- In the files, a configuration has no databases, and its first vendor leads to another one. -/
def Leads (site : Site) (t : FileTree) (config root next nextRoot : Path) : Prop :=
  ∃ c vendors name after, (t.text? (root.join config)).bind Config.read? = some c ∧
    c.databases.getD [] = [] ∧ c.vendorEntries = .ok vendors ∧
      tasksOf site vendors = .vendor name :: .config next nextRoot :: after

/-- A configuration that leads to one that is never done is never done itself. -/
theorem Leads.deep {config root next nextRoot : Path} (h : Leads site t config root next nextRoot)
    (hnext : ∀ log, (Building.outcome (buildConfig site depth next nextRoot) log t).1 =
      .error .vendorsTooDeep) (log : List Notice) :
    (Building.outcome (buildConfig site (depth + 1) config root) log t).1 =
      .error .vendorsTooDeep := by
  obtain ⟨c, vendors, name, after, hread, hempty, hvendors, htasks⟩ := h
  have hown : Building.outcome (buildOwn site config root) log t =
      (.ok (tasksOf site vendors, log ++ [.config (root.join config)]), t) := by
    refine outcome_bind_eq_ok.2 ⟨(), _, t, outcome_note _, ?_⟩
    refine outcome_bind_eq_ok.2 ⟨c, _, t, outcome_attempt_eq_ok.2 ⟨?_, rfl⟩, ?_⟩
    · exact readConfig_eq_ok.2 ⟨hread, rfl⟩
    · rw [hempty]
      exact outcome_bind_eq_ok.2 ⟨vendors, _, t, outcome_ofExcept_eq_ok.2 ⟨hvendors, rfl, rfl⟩, rfl⟩
  rw [buildConfig_succ, outcome_bind, hown, htasks]
  dsimp only
  rw [forM_perform_cons, outcome_bind]
  exact outcome_bind_deep (hnext _)

/-- A configuration that leads to itself is never done. -/
theorem deep_of_leads_self {config root : Path} (h : Leads site t config root config root)
    (depth : Nat) (log : List Notice) :
    (Building.outcome (buildConfig site depth config root) log t).1 = .error .vendorsTooDeep := by
  induction depth generalizing log with
  | zero => rfl
  | succ depth ih => exact h.deep ih log

/-- A project with a vendor that is its own vendor. -/
def circle : FileTree where
  entries := [(["config"], .directory),
    (["config", "databases.yml"], .file (Utf8.encode "vendors:\n  loop:\n".toList)),
    (["vendor"], .directory), (["vendor", "loop"], .directory),
    (["vendor", "loop", "config"], .directory),
    (["vendor", "loop", "config", "databases.yml"],
      .file (Utf8.encode "vendors:\n  loop:\n".toList))]

def circleTime : Timestamp := ⟨2024, 1, 2, 3, 4, 5, 0⟩

def openedCircle : FileTree :=
  ((openSite (m := StateM FileTree) circleTime "build" "vendor").run.run circle).2

theorem leads_of_circle {root : Path} (hsite : site.vendors = "/vendor".toList)
    (hread : ((openedCircle.text? (root.join defaultConfig)).bind Config.read?).map
      (fun c => (c.databases.getD [], c.vendorEntries.toOption)) =
        some ([], some [⟨"loop", [none]⟩])) :
    Leads site openedCircle defaultConfig root defaultConfig "/vendor/loop" := by
  obtain ⟨c, hc, hmap⟩ := Option.map_eq_some_iff.1 hread
  cases hvendors : c.vendorEntries with
  | error fault => simp [hvendors, Except.toOption] at hmap
  | ok vendors =>
      rw [hvendors] at hmap
      obtain ⟨hempty, hloop⟩ := Prod.mk.inj hmap
      cases hloop
      refine ⟨c, _, "loop", [], hc, hempty, hvendors, ?_⟩
      rw [tasksOf, hsite]
      rfl

theorem build_of_circle (depth : Nat) :
    ((build (m := StateM FileTree) depth circleTime defaultConfig "build" "vendor").run.run
      circle).1 = .error .vendorsTooDeep := by
  have hopened : ((openSite (m := StateM FileTree) circleTime "build" "vendor").run.run
      circle).1.toOption.map (·.vendors) = some "/vendor".toList := by decide +kernel
  rcases hopen : (openSite (m := StateM FileTree) circleTime "build" "vendor").run.run circle with
    ⟨e | site, t₀⟩
  · rw [hopen] at hopened
    cases hopened
  · obtain rfl : openedCircle = t₀ := congrArg Prod.snd hopen
    rw [hopen] at hopened
    have hsite : site.vendors = "/vendor".toList := Option.some.inj hopened
    have hfirst : Leads site openedCircle defaultConfig ['.'] defaultConfig "/vendor/loop" :=
      leads_of_circle hsite (by decide +kernel)
    have hself : Leads site openedCircle defaultConfig "/vendor/loop" defaultConfig "/vendor/loop" :=
      leads_of_circle hsite (by decide +kernel)
    rw [build_run depth hopen]
    refine map_eq_deep.2 ?_
    cases depth with
    | zero => rfl
    | succ depth => exact hfirst.deep (deep_of_leads_self hself depth) _

/-- However deep a build may go, it does not get to the end of a vendor that is its own vendor. -/
theorem circle_never_ends :
    ¬ ∃ depth result, result.1 ≠ .error .vendorsTooDeep ∧ ∀ more, depth ≤ more →
      (build (m := StateM FileTree) more circleTime defaultConfig "build" "vendor").run.run circle =
        result := by
  rintro ⟨depth, result, hresult, hbuild⟩
  rw [← hbuild depth le_rfl] at hresult
  exact hresult (build_of_circle depth)

end SchemaScript.Project
