import LedSketch.Document.Datum

/-!
# Why documents are refused

A document is refused because its text is malformed, because its format is unknown, or because a
mishap befalls the construction of a value.
-/

namespace LedSketch

/-- Why a document is refused. -/
inductive Refusal where
  /-- A JSON text with a defect, as reported. -/
  | badJson (report : String)
  | badYaml
  | badToml
  | unknownFormat (name : String)
  | mishap (m : Mishap)
deriving DecidableEq, Repr

namespace Refusal

/-- The class of a refusal. -/
def kind : Refusal → MishapKind
  | mishap m => m.kind
  | _ => .badValue

/-- The words that report a refusal. -/
def text : Refusal → String
  | badJson report => "Invalid JSON: " ++ report
  | badYaml => "Invalid YAML"
  | badToml => "Invalid TOML"
  | unknownFormat name => "Unsupported format: " ++ Text.quoted name
  | mishap m => m.text

end Refusal
end LedSketch
