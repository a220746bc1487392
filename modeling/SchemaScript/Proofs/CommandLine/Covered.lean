/- What is said of a checked directory: a line for each document in it, how many there are, and whether
   one of them has a fault. -/
import SchemaScript.Proofs.CommandLine.Touched
import SchemaScript.Proofs.Project.Covered

namespace SchemaScript.CommandLine

open FileTree Glob Project

variable {t : FileTree} {p : Path} {l : Location} {time : Timestamp} {words : List Text}

theorem run_check {report : Report} (hread : read words = .ok (.check p))
    (hcheck : (check (m := StateM FileTree) p).run.run t = (.ok report, t)) :
    (run (m := StateM FileTree) time words).run t =
      (if report.errorCount = 0 then .done (report.text ++ ['\n'])
        else .faulty (report.text ++ ['\n']), t) := by
  have hperform : ((Command.check p).perform (m := StateM FileTree) time).run.run t =
      (.ok (if report.errorCount = 0 then .done (report.text ++ ['\n'])
        else .faulty (report.text ++ ['\n'])), t) := by
    rw [Command.perform, Attempt.run_bind, hcheck]
    rfl
  rw [run_of_read hread, hperform]
  rfl

/-- A check of a directory prints the report that covers it, and fails if and only if the report has
an error; for a plain path, and documents that can be read, this is so unless the path stumbles or
something with the ending of a document is no file. -/
theorem run_check_covers_iff (hread : read words = .ok (.check p)) (hnamed : Named t)
    (hfind : t.find p = .ok (l, .directory)) (hplain : Plain p) (hback : '\\' ∉ p)
    (hsome : ∃ names, IsDocument t l names)
    (htext : ∀ names, IsDocument t l names →
      (t.text? (p.join (Text.join ['/'] names))).isSome = true) :
    (∃ report outcome, (check (m := StateM FileTree) p).run.run t = (.ok report, t) ∧
        Covers t l report ∧ (run (m := StateM FileTree) time words).run t = (outcome, t) ∧
          outcome.output = Text.join ['\n'] (report.findings.map Report.findingLine ++
            [Report.counted report.errorCount "error" ++ " in ".toList ++
              Report.counted report.findings.length "file" ++ ['.']]) ++ ['\n'] ∧
            outcome.exitCode = if report.errorCount = 0 then 0 else 1) ↔
      stumbles p = false ∧ ∀ names ∈ t.below l, Lookalike names →
        ∃ content, t.entry? (l ++ names) = some (.file content) := by
  rw [← check_covers_iff hnamed hfind hplain hback hsome htext]
  constructor
  · rintro ⟨report, -, hcheck, hcovers, -⟩
    exact ⟨report, hcheck, hcovers⟩
  · rintro ⟨report, hcheck, hcovers⟩
    refine ⟨report, _, hcheck, hcovers, run_check hread hcheck, ?_⟩
    split
    · exact ⟨rfl, rfl⟩
    · exact ⟨rfl, rfl⟩

/-- A directory with a document, another one further down that has a fault, and something else. -/
def library : FileTree where
  entries := [(["schemas"], .directory),
    (["schemas", "shop.yml"], .file (Utf8.encode "database:\n  name: shop\n".toList)),
    (["schemas", "notes.txt"], .file []),
    (["schemas", "old"], .directory),
    (["schemas", "old", "shop.yasql"], .file (Utf8.encode "database: 1\n".toList))]

theorem run_check_covers_iff_library : ∃ report outcome,
    (check (m := StateM FileTree) "schemas").run.run library = (.ok report, library) ∧
      Covers library ["schemas"] report ∧
        (run (m := StateM FileTree) namesakesTime ["check", "schemas"]).run library =
            (outcome, library) ∧
          outcome.exitCode = if report.errorCount = 0 then 0 else 1 := by
  have hread : read ["check".toList, "schemas".toList] = .ok (.check "schemas") := by decide +kernel
  have hfind : library.find "schemas" = .ok (["schemas".toList], .directory) := by decide +kernel
  have hshop : IsDocument library ["schemas".toList] ["shop.yml".toList] := by decide +kernel
  have htext : ∀ names ∈ library.below ["schemas".toList], IsDocument library ["schemas".toList] names →
      (library.text? (Path.join "schemas" (Text.join ['/'] names))).isSome = true := by
    decide +kernel
  have hfiles : ∀ names ∈ library.below ["schemas".toList], Lookalike names →
      ∃ content, library.entry? (["schemas".toList] ++ names) = some (.file content) := by
    decide +kernel
  obtain ⟨report, outcome, hcheck, hcovers, hrun, -, hcode⟩ :=
    (run_check_covers_iff hread (by decide +kernel) hfind rfl (by decide) ⟨_, hshop⟩
      fun names h => htext names h.1 h).2 ⟨by decide, hfiles⟩
  exact ⟨report, outcome, hcheck, hcovers, hrun, hcode⟩

/-- A document in a directory whose name has brackets in it. -/
def bracketed : FileTree where
  entries := [(["a[1]"], .directory),
    (["a[1]", "shop.yml"], .file (Utf8.encode "database:\n  name: shop\n".toList))]

/-- The brackets are taken for a class of characters, so that the document is not found. -/
theorem check_misses_bracketed :
    read ["check", "a[1]"] = .ok (.check "a[1]") ∧ Named bracketed ∧
      bracketed.find "a[1]" = .ok (["a[1]"], .directory) ∧
        IsDocument bracketed ["a[1]"] ["shop.yml"] ∧
          (∀ names, IsDocument bracketed ["a[1]"] names →
            (bracketed.text? (Path.join "a[1]" (Text.join ['/'] names))).isSome = true) ∧
            ¬ ∃ report, (check (m := StateM FileTree) "a[1]").run.run bracketed =
              (.ok report, bracketed) ∧ Covers bracketed ["a[1]"] report := by
  have htext : ∀ names ∈ bracketed.below ["a[1]".toList], IsDocument bracketed ["a[1]".toList] names →
      (bracketed.text? (Path.join "a[1]" (Text.join ['/'] names))).isSome = true := by
    decide +kernel
  have hfails : ((check (m := StateM FileTree) "a[1]").run.run bracketed).1.isOk = false := by
    decide +kernel
  refine ⟨by decide +kernel, by decide +kernel, by decide +kernel, by decide +kernel,
    fun names h => htext names h.1 h, ?_⟩
  rintro ⟨report, hcheck, -⟩
  rw [hcheck] at hfails
  cases hfails

end SchemaScript.CommandLine
