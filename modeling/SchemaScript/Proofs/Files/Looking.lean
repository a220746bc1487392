/- Work that looks at a tree of files and leaves it as it is: reading a file, and the search for the
   paths that match a pattern. -/
import SchemaScript.Files.Glob
import SchemaScript.Files.Tree

namespace SchemaScript

def Looks {α : Type} (x : StateM FileTree α) : Prop := ∀ t, (x.run t).2 = t

namespace Looks

variable {α β : Type}

theorem pure (a : α) : Looks (pure a) := fun _ => rfl

theorem bind {x : StateM FileTree α} {f : α → StateM FileTree β} (hx : Looks x)
    (hf : ∀ a, Looks (f a)) : Looks (x >>= f) := by
  intro t
  have hrun : (x >>= f).run t = (f (x.run t).1).run (x.run t).2 := rfl
  rw [hrun, hf, hx]

theorem ite {c : Prop} [Decidable c] {x y : StateM FileTree α} (hx : Looks x) (hy : Looks y) :
    Looks (if c then x else y) := by
  split
  · exact hx
  · exact hy

theorem mapM {f : α → StateM FileTree β} (hf : ∀ a, Looks (f a)) (l : List α) :
    Looks (l.mapM f) := by
  induction l with
  | nil => exact pure []
  | cons a l ih =>
      rw [List.mapM_cons]
      exact (hf a).bind fun b => ih.bind fun bs => pure (b :: bs)

theorem run {x : StateM FileTree α} (h : Looks x) (t : FileTree) : x.run t = ((x.run t).1, t) :=
  Prod.ext rfl (h t)

end Looks

namespace FileTree

/-- The text of the file at a path, if there is a file and its content is a text. -/
def text? (t : FileTree) (p : Path) : Option Text := (t.read p).toOption.bind Utf8.decode?

end FileTree

namespace Files

open FileSystem

theorem looks_isPresent (p : Path) : Looks (isPresent p) := fun _ => rfl

theorem looks_isDirectory (p : Path) : Looks (isDirectory p) := fun _ => rfl

theorem looks_children (p : Path) : Looks (children p) := fun _ => rfl

theorem looks_descendants (p : Path) : Looks (descendants p) := fun _ => rfl

theorem isFile_run (p : Path) (t : FileTree) :
    (isFile (m := StateM FileTree) p).run t = (t.kind? p == some .file, t) := rfl

theorem looks_readText (p : Path) : Looks (readText p) := by
  have hread : Looks (FileSystem.read p) := fun _ => rfl
  refine hread.bind fun answer => ?_
  cases answer with
  | error e => exact .pure _
  | ok content =>
      dsimp only
      cases Utf8.decode? content with
      | none => exact .pure _
      | some text => exact .pure _

theorem toOption_readText (p : Path) (t : FileTree) :
    ((readText (m := StateM FileTree) p).run t).1.toOption = t.text? p := by
  have hread : (FileSystem.read (m := StateM FileTree) p).run t = (t.read p, t) := rfl
  unfold readText FileTree.text?
  rw [StateT.run_bind, hread]
  dsimp only [bind, Id.run]
  cases t.read p with
  | error e => rfl
  | ok content =>
      dsimp only [Except.toOption, Option.bind_some]
      cases Utf8.decode? content with
      | none => rfl
      | some text => rfl

end Files

namespace Glob

open FileSystem

theorem looks_collect {α : Type} {f : α → StateM FileTree (List Path)} (hf : ∀ a, Looks (f a))
    (l : List α) : Looks (collect f l) :=
  (Looks.mapM hf l).bind fun found => .pure found.flatten

theorem looks_found (needsDirectory : Bool) (p : Path) : Looks (found needsDirectory p) := by
  unfold found
  exact (Files.looks_isDirectory p).bind fun isThere => .ite (.pure [p]) (.pure [])

theorem looks_expandFrom (needsDirectory : Bool) (patterns : List NamePattern) (p : Path) :
    Looks (expandFrom needsDirectory patterns p) := by
  fun_induction expandFrom (m := StateM FileTree) needsDirectory patterns p with
  | case1 p => exact looks_found needsDirectory p
  | case2 name patterns p next _ _ ih =>
      exact (Files.looks_isDirectory p).bind fun isThere => .ite ih (.pure [])
  | case3 name patterns p next _ _ ih =>
      exact (Files.looks_isPresent next).bind fun isThere => .ite ih (.pure [])
  | case4 tokens patterns p ihAround ihInside =>
      refine (Files.looks_isDirectory p).bind fun isThere => .ite (.pure []) ?_
      refine (Files.looks_children p).bind fun names => ?_
      refine (looks_collect ihAround _).bind fun around => ?_
      exact (looks_collect ihInside _).bind fun inside => .pure (around ++ inside)
  | case5 patterns p ih => exact ih
  | case6 p =>
      refine (Files.looks_isDirectory p).bind fun isThere => .ite (.pure []) ?_
      exact (Files.looks_descendants p).bind fun all =>
        looks_collect (fun names => looks_found true _) all
  | case7 pattern patterns p _ ih =>
      refine (Files.looks_isDirectory p).bind fun isThere => .ite (.pure []) ?_
      exact (Files.looks_descendants p).bind fun all => looks_collect ih _

theorem looks_expand (pattern : Path) : Looks (expand pattern) := by
  unfold expand
  dsimp only
  split
  · exact .pure _
  · exact (looks_expandFrom _ _ _).bind fun found => .pure _

end Glob

end SchemaScript
