import LedSketch.Store.Display
import LedSketch.Text.Lines

/-!
# Reports of errors

A report says where an error arose, if that is known, what it is, shows the lines around the place,
and lists the calls that were active. Writing the arguments of those calls can itself go wrong,
since an integer may have too many digits to be written.

The form of a report is given in section 7 of the specification (`SPEC_FULL.md:270-273`).

* `excerpt` — the lines around a place, the line itself marked and a caret under its column;
* `Fault.report` — the whole message.
-/

namespace LedSketch.Report

/-- A text pushed to the right until it has a width. -/
def padLeft (width : Nat) (s : String) : String :=
  String.ofList (List.replicate (width - s.length) ' ') ++ s

/-- The lines around a line, which is marked; a caret stands under the column. -/
def excerpt (source : String) (line : Int) (col : Option Int) (radius : Int) : String :=
  let lines := Text.splitLines source
  if line < 1 ∨ (lines.length : Int) < line then ""
  else
    let start := max 1 (line - radius)
    let stop := min (lines.length : Int) (line + radius)
    let width := (Decimal.intText stop).length
    let row (k : Nat) : List String :=
      let i := start + k
      let mark := if i = line then ">" else " "
      let text := lines.getD (i - 1).toNat ""
      let shown := mark ++ " " ++ padLeft width (Decimal.intText i) ++ " | " ++ text
      match col with
      | some c =>
        if i = line then [shown, padLeft (width + 2) "" ++ " | " ++ padLeft (c - 1).toNat "" ++ "^"]
        else [shown]
      | none => [shown]
    "\n".intercalate ((List.range (stop + 1 - start).toNat).flatMap row)

/-- How many lines a report shows on either side. -/
def radius : Int := 2

/-- A call with its arguments. -/
def frame (st : Store) (f : Frame) : Except Mishap String := do
  let args ← f.args.mapM fun v => match v with
    | .str s => .ok (Text.quoted s)
    | v => st.display v
  let shown := " ".intercalate args
  return if shown.isEmpty then s!"({f.name})" else s!"({f.name} {shown})"

/-- The calls that were active, the outermost first. -/
def trace (st : Store) (calls : List Frame) : Except Mishap String :=
  if calls.isEmpty then .ok ""
  else return "Sketch stacktrace: " ++ " ".intercalate (← calls.mapM (frame st))

/-- The headline with its place in front and the excerpt behind it. -/
def placed (headline : String) (place : Option Place) (source : Option String) : String :=
  match place with
  | some ⟨some line, col⟩ =>
    let column := match col with
      | some c => ", col " ++ Decimal.intText c
      | none => ""
    let first := "Error on line " ++ Decimal.intText line ++ column ++ ": " ++ headline
    let context := match source with
      | some s => excerpt s line col radius
      | none => ""
    if context.isEmpty then first else first ++ "\n" ++ context
  | _ => headline

/-- A whole report. -/
def compose (st : Store) (headline : String) (place : Option Place) (calls : List Frame)
    (source : Option String) : Except Mishap String := do
  let first := placed headline place source
  let shown ← trace st calls
  return if shown.isEmpty then first else first ++ "\n" ++ shown

end Report

/-- The first words of a report. -/
def Fault.headline : Fault → String
  | .sketch e => e.complaint.kind.label ++ ": " ++ e.complaint.text
  | .mishap m => "InternalError: " ++ m.kind.label ++ ": " ++ m.text

/-- The report of a fault; `calls` are those known to whoever reports a mishap. -/
def Fault.report (st : Store) (f : Fault) (source : Option String) (calls : List Frame) :
    Except Mishap String :=
  match f with
  | .sketch e => Report.compose st f.headline e.place (e.stack.getD []) source
  | .mishap _ => Report.compose st f.headline none calls source

end LedSketch
