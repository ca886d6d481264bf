import KubeCompose.Conversion
import KubeCompose.Push
import KubeCompose.Tool.Manifests

/-!
# Reports for programs

A report is a value of nested lists and named fields, written as JSON with two spaces for each
level.
-/

namespace KubeCompose

/-- A report. -/
inductive Report where
  | null
  | flag (b : Bool)
  | number (n : Nat)
  | text (s : String)
  | list (items : List Report)
  | record (fields : List (String × Report))

namespace Report

/-- A character inside the quotes of a text. -/
def escaped (c : Char) : List Char :=
  match c with
  | '"' => ['\\', '"']
  | '\\' => ['\\', '\\']
  | '\n' => ['\\', 'n']
  | '\r' => ['\\', 'r']
  | '\t' => ['\\', 't']
  | '\x08' => ['\\', 'b']
  | '\x0c' => ['\\', 'f']
  | c =>
    if c.toNat < 0x20 then
      '\\' :: 'u' :: '0' :: '0' :: [Nat.digitChar (c.toNat / 16), Nat.digitChar (c.toNat % 16)]
    else [c]

/-- A text in quotes. -/
def quoted (s : String) : String := String.ofList ('"' :: s.toList.flatMap escaped ++ ['"'])

/-- A new line at a level. -/
def lineAt (level : Nat) : String := String.ofList ('\n' :: List.replicate (2 * level) ' ')

mutual

/-- The text of a report whose first line stands at a level. -/
def pretty (level : Nat) : Report → String
  | .null => "null"
  | .flag b => if b then "true" else "false"
  | .number n => Number.decimal n
  | .text s => quoted s
  | .list [] => "[]"
  | .list items => "[" ++ prettyItems (level + 1) items ++ lineAt level ++ "]"
  | .record [] => "\x7b\x7d"
  | .record fields => "\x7b" ++ prettyFields (level + 1) fields ++ lineAt level ++ "\x7d"

/-- The lines of items at a level. -/
def prettyItems (level : Nat) : List Report → String
  | [] => ""
  | [item] => lineAt level ++ pretty level item
  | item :: rest => lineAt level ++ pretty level item ++ "," ++ prettyItems level rest

/-- The lines of fields at a level. -/
def prettyFields (level : Nat) : List (String × Report) → String
  | [] => ""
  | [(key, value)] => lineAt level ++ quoted key ++ ": " ++ pretty level value
  | (key, value) :: rest =>
    lineAt level ++ quoted key ++ ": " ++ pretty level value ++ "," ++ prettyFields level rest

end

/-- The text of a whole report, with the end of its last line. -/
def line (r : Report) : String := r.pretty 0 ++ "\n"

/-- A list of texts. -/
def texts (items : List String) : Report := .list (items.map .text)

/-- A text or null. -/
def optional : Option String → Report
  | some s => .text s
  | none => .null

end Report

open Report (texts optional)

/-- What is told of a classification. -/
def Classification.report (c : Classification) : Report :=
  .record
    [("isDatabase", .flag c.database.isSome), ("dbKind", optional (c.database.map (·.name))),
     ("needsIngress", .flag c.needsIngress), ("needsPvc", .flag c.needsClaim)]

/-- What is told of a service. -/
def ServiceReport.report (r : ServiceReport) : Report :=
  .record
    [("service", .text r.service), ("k8s_name", .text r.name), ("image", .text r.image),
     ("classification", r.classification.report), ("files", texts r.files)]

/-- What is told of a revision. -/
def Manifest.RevisionReport.report (r : RevisionReport) : Report :=
  .record
    [("files_processed", .number r.revised), ("images_rewritten", .number r.moved),
     ("daemonsets", texts r.daemonSets),
     ("renamed", .list (r.renamed.map fun (source, target) => texts [source, target])),
     ("issues",
      .list (r.problems.map fun (path, problem) =>
        .record [("path", .text path), ("message", .text problem.message)]))]

/-- What is told of a conversion. -/
def ConversionReport.report (r : ConversionReport) : Report :=
  .record
    [("namespace", .text r.namespace), ("output_dir", .text r.directory),
     ("written", texts r.written), ("copied", texts r.copied),
     ("services", .list (r.services.map (·.report))), ("post_process", r.revision.report)]

/-- What is told of the outcome for a service. -/
def PushOutcome.fields : PushOutcome → List (String × Report)
  | .pushed image => [("status", .text "pushed"), ("image", .text image)]
  | .skipped reason => [("status", .text "skipped"), ("reason", .text reason.message)]
  | .failed cause => [("status", .text "failed"), ("error", .text cause.message)]

/-- What is told of a push. -/
def PushReport.report (r : PushReport) : Report :=
  .record
    [("registry", .text r.registry),
     ("services",
      .list (r.services.map fun (service, outcome) =>
        .record (("service", .text service) :: outcome.fields)))]

/-- What is told of a validation. -/
def validationReport (verdicts : List Verdict) : Report :=
  .record
    [("files",
      .list (verdicts.map fun v =>
        .record
          ([("path", .text v.path), ("valid", .flag v.isValid)] ++
            (v.refusal.map fun refusal => ("error", Report.text refusal)).toList)))]

end KubeCompose
