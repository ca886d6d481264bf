import KubeCompose.Settings.Document

/-!
# Steps that change settings in place

Settings are built up in steps: a document is laid over them, or an address is given for the
registry. A step works on the settings where they are held, and leaves there what it has made of
them when it fails. The steps after it are taken all the same.
-/

namespace KubeCompose.Settings

/-- An action on settings that are held in one place. -/
abbrev InPlace (α : Type) := ExceptT SettingsError (StateM Settings) α

/-- Lays the document of a text over the settings that are held. -/
def overlayInPlace (text : String) : InPlace Unit := do
  let document ← ExceptT.mk (pure ((Yaml.parse text).mapError .unreadableOverlay))
  match document with
  | .null => return ()
  | .map _ =>
    let merged := (← get).toYaml.merge document
    let read ← ExceptT.mk (pure ((decode merged).mapError .badOverlay))
    set <|
      if namesHost document then { read with registry := { read.registry with enabled := true } }
      else read
  | _ => throw .overlayNotMapping

/-- Uses a registry at an explicit address. -/
def registryUrlInPlace (url : String) : InPlace Unit := do
  modify fun s => { s with registry := { s.registry with url := some url } }
  modify fun s => { s with registry := { s.registry with enabled := true } }

/-- A step. -/
inductive Step where
  | overlay (text : String)
  | registryUrl (url : String)
  deriving DecidableEq, Repr

/-- Takes a step. -/
def Step.take : Step → InPlace Unit
  | overlay text => overlayInPlace text
  | registryUrl url => registryUrlInPlace url

/-- Takes all steps in order: what each of them gives, and the settings in the end. -/
def takeAll (s : Settings) : List Step → List (Except SettingsError Unit) × Settings
  | [] => ([], s)
  | step :: rest =>
    let (result, t) := step.take s
    let (results, u) := takeAll t rest
    (result :: results, u)

/-- The steps that succeed when all are taken. -/
def succeeding (s : Settings) : List Step → List Step
  | [] => []
  | step :: rest =>
    match step.take s with
    | (.ok (), t) => step :: succeeding t rest
    | (.error _, t) => succeeding t rest

end KubeCompose.Settings
