import LedSketch.Document.Format
import LedSketch.Session.Settings
import LedSketch.Text.Utf8

/-!
# Settings in files

Settings are kept in a document, whose format is told by the extension of the file's name. A
document without content leaves all settings as they are.

This is `load_config` of section 9 of the specification (`SPEC_FULL.md:289-291`).

* `SettingsFile.config` — the settings in a file, in their ranges.
-/

namespace LedSketch

/-- Why the settings in a file are refused. -/
inductive SettingsFault where
  | document (r : Refusal)
  | settings (p : SettingsProblem)
deriving DecidableEq, Repr

namespace SettingsFile

/-- The words that report a fault. -/
def faultText : SettingsFault → String
  | .document r => r.text
  | .settings p => p.text

/-- The last part of a path. -/
def fileName (path : List Char) : List Char := (path.reverse.takeWhile (· != '/')).reverse

/-- The extension of a path: from the last dot of the file's name on, unless dots alone precede. -/
def extension (path : String) : String :=
  let name := (fileName path.toList).dropWhile (· == '.')
  if name.contains '.' then "." ++ String.ofList (name.reverse.takeWhile (· != '.')).reverse else ""

/-- The settings in a document. -/
def ofDocument (d : Datum) : Except SettingsFault Config :=
  let d := match d with
    | .null => .map []
    | d => d
  match Settings.ofDatum d with
  | .error p => .error (.settings p)
  | .ok s => s.config.mapError .settings

/-- The settings in a file of a name; octets that are no text count as U+FFFD. -/
def config (path : String) (octets : List UInt8) : Except SettingsFault Config :=
  let text := Utf8.decodeReplacing octets
  let format := (Format.ofName? (extension path)).getD (Format.ofText text)
  match format.read text with
  | .error r => .error (.document r)
  | .ok d => ofDocument d

end SettingsFile
end LedSketch
