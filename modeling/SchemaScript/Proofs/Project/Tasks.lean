/- A build as a list of tasks: what a configuration leads to is told and built in the order in which its
   vendors stand. -/
import SchemaScript.Proofs.Project.Outcome

namespace SchemaScript.Project

/-- What is left to do of a build: to tell of a vendor, or to build a configuration in a directory. -/
inductive Task
  | vendor (name : Text)
  | config (config root : Path)

namespace Building

variable {m : Type → Type} [Monad m] [FileSystem m]

def tasksOf (site : Site) (vendors : List Vendor) : List Task :=
  vendors.flatMap fun vendor =>
    .vendor vendor.name :: vendor.configs.map fun config =>
      .config (config.getD defaultConfig) (site.vendors.join vendor.name)

/-- What building a configuration does by itself, and the tasks that it leaves for its vendors. -/
def buildOwn (site : Site) (config root : Path) : Building m (List Task) := do
  let path := root.join config
  note (.config path)
  let c ← readConfig (m := m) path
  let entries := c.databases.getD []
  if !entries.isEmpty then buildDatabases site root c.indent entries
  let vendors ← Attempt.ofExcept (m := m) .vendor c.vendorEntries
  return tasksOf site vendors

def perform (site : Site) (depth : Nat) : Task → Building m Unit
  | .vendor name => note (.vendor name)
  | .config config root => buildConfig site depth config root

variable [LawfulMonad m]

theorem forM_tasksOf (site : Site) (depth : Nat) (vendors : List Vendor) :
    (tasksOf site vendors).forM (perform (m := m) site depth) =
      vendors.forM (fun vendor => do
        note (.vendor vendor.name)
        vendor.configs.forM fun config =>
          buildConfig site depth (config.getD defaultConfig) (site.vendors.join vendor.name)) := by
  induction vendors with
  | nil => rfl
  | cons vendor vendors ih =>
      simp only [tasksOf, List.forM_eq_forM, List.flatMap_cons, List.forM_append, List.forM_cons,
        List.forM_map, bind_assoc] at ih ⊢
      rw [ih]
      rfl

/-- Building a configuration is building its own part and then the tasks that this leaves. -/
theorem buildConfig_succ (site : Site) (depth : Nat) (config root : Path) :
    buildConfig (m := m) site (depth + 1) config root =
      buildOwn site config root >>= fun tasks => tasks.forM (perform site depth) := by
  rw [buildConfig, buildOwn]
  simp only [bind_assoc]
  congr 1
  funext u
  congr 1
  funext c
  split
  · simp only [bind_assoc, pure_bind, forM_tasksOf]
  · simp only [bind_assoc, pure_bind, forM_tasksOf]

end Building

end SchemaScript.Project
