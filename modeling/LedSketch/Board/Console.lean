import LedSketch.Store.Display

/-!
# The console

An ordered list of lines that only grows, unless it is cleared as a whole. Every line has a
severity.

This is the console of section 6 of the specification (`SPEC_FULL.md:252-254`).

* `Console.messages_write` — a written line is the last one of the messages.
-/

namespace LedSketch

/-- How serious a line is. -/
inductive Severity where
  | info
  | warn
  | error
deriving DecidableEq, Repr

namespace Severity

/-- The name of a severity. -/
def name : Severity → String
  | info => "info"
  | warn => "warn"
  | error => "error"

/-- The mark in front of a line. -/
def mark : Severity → String
  | info => "[INFO]"
  | warn => "[WARN]"
  | error => "[ERR]"

/-- The severity of a name. -/
def ofName? (s : String) : Option Severity := [info, warn, error].find? (·.name = s)

theorem ofName?_name (s : Severity) : ofName? s.name = some s := by
  cases s <;> rfl

/-- The severity that a value names. -/
def ofValue (st : Store) : Value → Except Mishap Severity
  | .str s => match ofName? s with
    | some severity => .ok severity
    | none => .error (.refused ("Unknown console level " ++ Text.quoted s))
  | .list _ => .error (.unhashable "list")
  | v => do throw (.refused ("Unknown console level " ++ (← st.shown v)))

end Severity

/-- A line of the console. -/
structure ConsoleLine where
  severity : Severity
  text : String
deriving DecidableEq, Repr

/-- The line with its mark. -/
def ConsoleLine.marked (l : ConsoleLine) : String := l.severity.mark ++ " " ++ l.text

/-- The lines written so far. -/
structure Console where
  lines : Array ConsoleLine := #[]
deriving DecidableEq, Repr

namespace Console

instance : Inhabited Console := ⟨{}⟩

/-- Writes a line. -/
def write (c : Console) (severity : Severity) (text : String) : Console :=
  ⟨c.lines.push ⟨severity, text⟩⟩

/-- Removes all lines. -/
def clear (_ : Console) : Console := {}

/-- The texts of the lines that satisfy `p`. -/
def messages (c : Console) (p : Severity → Bool) : List String :=
  (c.lines.toList.filter fun l => p l.severity).map (·.text)

theorem messages_write (c : Console) (severity : Severity) (text : String) :
    (c.write severity text).messages (fun _ => true) = c.messages (fun _ => true) ++ [text] := by
  simp [write, messages]

/-- All lines with their marks. -/
def format (c : Console) : String :=
  "\n".intercalate (c.lines.toList.map ConsoleLine.marked)

end Console
end LedSketch
