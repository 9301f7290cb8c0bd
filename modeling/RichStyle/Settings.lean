import RichStyle.Files
import RichStyle.Json.Reader
import RichStyle.Log
import RichStyle.Text

/-!
# Settings

How sources are found and where results go.
-/

namespace RichStyle

/-!
## Settings and their file

Every setting has a default; a settings file is JSON and may name any of them.
-/

structure Settings where
  extension : String
  assetFileName : String
  /-- The directory for the record if none is given. -/
  outDir : String
  /-- Whether a printed sheet starts with the banner. -/
  banner : Bool
deriving DecidableEq

namespace Settings

def default : Settings := ⟨".csspp", "csspp-assets.json", "dist", true⟩

def fileName : String := "csspp.config.json"

structure Draft where
  extension : Option String
  assetFileName : Option String
  outDir : Option String
  banner : Option Bool

def form : Json.Form Draft Settings where
  title := "struct CompilerOptions"
  isStrict := true
  isOpen := true
  blank := ⟨none, none, none, none⟩
  fields :=
    [⟨"extension", fun d => d.extension.isSome, fun d s => do
        let (v, rest) ← Json.readText "a string" s
        .ok ({ d with extension := some v }, rest)⟩,
     ⟨"assetFileName", fun d => d.assetFileName.isSome, fun d s => do
        let (v, rest) ← Json.readText "a string" s
        .ok ({ d with assetFileName := some v }, rest)⟩,
     ⟨"outDir", fun d => d.outDir.isSome, fun d s => do
        let (v, rest) ← Json.readText "path string" s
        .ok ({ d with outDir := some v }, rest)⟩,
     ⟨"banner", fun d => d.banner.isSome, fun d s => do
        let (v, rest) ← Json.readFlag s
        .ok ({ d with banner := some v }, rest)⟩]
  finish d :=
    .ok ⟨d.extension.getD default.extension, d.assetFileName.getD default.assetFileName,
      d.outDir.getD default.outDir, d.banner.getD default.banner⟩

def read (text : String) : Except Json.Failure Settings :=
  form.readDocument text.toList

/-- A module id without its query. -/
def moduleKey (id : String) : String :=
  String.ofList (id.toList.takeWhile (· ≠ '?'))

/-- Whether a module id names a source file. -/
def owns (settings : Settings) (id : String) : Bool :=
  (Text.dropTrailing? settings.extension.toList (moduleKey id).toList).isSome

end Settings

/-!
## Loading settings

Settings come from a file that is named, or else from a file of a fixed name in a directory if there
is one, or else they are the defaults.
-/

inductive SettingsError where
  | file (error : FileError)
  | invalid (path : String) (failure : Json.Failure)
deriving DecidableEq

def SettingsError.message : SettingsError → String
  | file error => error.message
  | invalid path failure => "invalid config '" ++ path ++ "': " ++ failure.message

namespace Settings

variable {m : Type → Type} [Monad m]

def load (files : Files m) (path : String) : m (Except SettingsError Settings) := do
  match ← files.read path with
  | .error e => return .error (.file e)
  | .ok text =>
      match Settings.read text with
      | .ok settings => return .ok settings
      | .error failure => return .error (.invalid path failure)

/-- Finds settings, and tells if they were found in the directory. -/
def discover (files : Files m) (path : Option String) (directory : String) :
    m (List Event × Except SettingsError Settings) := do
  match path with
  | some path => return ([], ← load files path)
  | none =>
      let candidate := Path.join directory fileName
      if ← files.isFile candidate then
        return ([.settingsFound candidate], ← load files candidate)
      else return ([], .ok .default)

end Settings

end RichStyle
