import LedSketch.Document.Json
import LedSketch.Document.Toml
import LedSketch.Document.Yaml

/-!
# Formats of documents

A document is JSON, YAML or TOML. The end of its file's name tells which; failing that, a text that
starts with a brace or a bracket is taken for JSON and any other for YAML.

The formats are those that section 9 of the specification names (`SPEC_FULL.md:289-291`).

* `Format.read` — the datum of a text.
-/

namespace LedSketch

/-- A format of documents. -/
inductive Format where
  | json
  | yaml
  | toml
deriving DecidableEq, Repr

namespace Format

/-- The name of a format. -/
def name : Format → String
  | json => "json"
  | yaml => "yaml"
  | toml => "toml"

/-- The format of a name. -/
def ofLabel? (s : String) : Option Format := [json, yaml, toml].find? (·.name == s)

/-- What the names of files of a format end with. -/
def endings : Format → List String
  | json => [".json"]
  | yaml => [".yaml", ".yml"]
  | toml => [".toml"]

/-- The format that the end of a file's name tells, in any case. -/
def ofName? (file : String) : Option Format :=
  let low := Text.lower file
  [json, yaml, toml].find? fun f => f.endings.any fun e => low.endsWith e

/-- The format that a text looks like. -/
def ofText (s : String) : Format :=
  match Text.skipSpace s.toList with
  | '{' :: _ | '[' :: _ => json
  | _ => yaml

/-- The format of a file's name, or else of a text. -/
def detect (file : String) (text : Option String) : Option Format :=
  match ofName? file with
  | some f => some f
  | none => text.map ofText

/-- Reads a text in a format. -/
def read : Format → String → Except Refusal Datum
  | json, s => Json.read s
  | yaml, s => Yaml.read s
  | toml, s => Toml.read s

/-- Reads a text in the format of a name, or in the one that it looks like if the name is empty. -/
def readAs (label s : String) : Except Refusal Datum :=
  if label = "" then (ofText s).read s
  else match ofLabel? label with
    | some f => f.read s
    | none => .error (.unknownFormat label)

end Format
end LedSketch
