import KubeCompose.CommandLine.Report

/-!
# Summaries for people

Each part of a run has a summary of a few indented lines.
-/

namespace KubeCompose.Summary

/-- The text of lines, each ended. -/
def lines (ls : List String) : String := String.join (ls.map (· ++ "\n"))

/-- A title with a rule of the same width below it. -/
def title (text : String) : List String :=
  ["  " ++ text, "  " ++ String.ofList (List.replicate text.length '─')]

/-- The last piece of a path. -/
def shortName (path : String) : String := (Path.fileName? path).getD ""

/-- What is done, and from where to where. -/
def header (what source target : String) : String :=
  lines ["", "  Berth ─ " ++ what, "", "  Source: " ++ source, "  Target: " ++ target, ""]

/-- What a service becomes. -/
def workloadKind (c : Classification) : String :=
  match c.database with
  | some d => "statefulset (" ++ d.name ++ ")"
  | none => "deployment"

/-- The services of a conversion. -/
def services (r : ConversionReport) : List String :=
  if r.services.isEmpty then []
  else
    title "Services" ++
      (r.services.map fun s =>
        Text.join " " ["  ●", s.name, workloadKind s.classification, s.image]) ++ [""]

/-- The files of a conversion. -/
def files (r : ConversionReport) : List String :=
  title "Generated Files" ++
    (r.written.map fun path => "  ✓ " ++ shortName path) ++
    (r.copied.map fun path => "  → " ++ shortName path) ++
    (r.revision.daemonSets.map fun path => "  ↻ " ++ shortName path ++ " (daemonset)") ++
    r.revision.renamed.map fun (source, target) =>
      "  ↻ " ++ shortName source ++ " → " ++ shortName target

/-- What went wrong in a revision. -/
def problems (r : Manifest.RevisionReport) : List String :=
  if r.problems.isEmpty then []
  else
    "" :: title "Post-processing Issues" ++
      r.problems.map fun (path, problem) => "  ⚠ " ++ path ++ ": " ++ problem.message

/-- The summary of a conversion. -/
def conversion (r : ConversionReport) : String :=
  lines <|
    services r ++ files r ++ problems r.revision ++
      ["",
       "  Done: " ++ Number.decimal r.written.length ++ " file(s) in namespace " ++ r.namespace ++
        ", " ++ Number.decimal r.revision.moved ++ " image(s) rewritten",
       ""]

/-- The outcome for a service. -/
def outcome (service : String) : PushOutcome → String
  | .pushed image => "  ✓ " ++ service ++ " " ++ image
  | .skipped reason => "  ○ " ++ service ++ " " ++ reason.message
  | .failed cause => "  ✗ " ++ service ++ " " ++ cause.message

/-- The summary of a push. -/
def push (r : PushReport) : String :=
  lines <|
    title "Images" ++ (r.services.map fun (service, o) => outcome service o) ++
      ["",
       "  Images: " ++ Number.decimal r.pushed ++ " pushed, " ++ Number.decimal r.skipped ++
        " skipped, " ++ Number.decimal r.failed ++ " failed",
       ""]

/-- The lines of a text; a line break at its very end ends the last of them. -/
def textLines (text : String) : List String :=
  let pieces := Text.splitOn '\n' text.toList
  let pieces := if pieces.getLast? == some [] then pieces.dropLast else pieces
  pieces.map fun line => String.ofList (if line.getLast? == some '\r' then line.dropLast else line)

/-- What kubectl says about a manifest. -/
def verdict (v : Verdict) : List String :=
  match v.refusal with
  | none => ["  ✓ " ++ shortName v.path]
  | some refusal =>
    ("  ✗ " ++ shortName v.path) :: (textLines refusal).map fun line => "      " ++ line

/-- The summary of a validation. -/
def validation (verdicts : List Verdict) : String :=
  lines (title "Validation" ++ verdicts.flatMap verdict ++ [""])

end KubeCompose.Summary
