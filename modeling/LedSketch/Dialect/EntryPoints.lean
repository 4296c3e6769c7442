import LedSketch.Dialect.Words
import LedSketch.Scan.Scanner
import LedSketch.Fault.SketchError

/-!
# Which entry points a sketch declares

A quick check of a sketch that does not rewrite it: an entry point is declared where its name
follows a return type in code and precedes a parenthesis.

This is `check_structure` of section 4.3 of the specification (`SPEC_FULL.md:183-186`). It takes any
return type in front of the names, where the specification says `void`.
-/

namespace LedSketch.Dialect

open Text Scan

/-- The entry points declared in what is left of a source, each as often as it is declared;
`previous` is the word just before. -/
def declaredFrom (s : Scanner) (previous : Option String) : List Char → List String
  | [] => []
  | c :: cs =>
    let t := s.step c cs
    if t.kind = .code && isName t.text then
      let w := String.ofList t.text
      let found := previous.any returnTypeWords.contains && entryPoints.contains w
        && peekChar? t.rest == some '('
      (if found then [w] else []) ++ declaredFrom t.scanner (some w) t.rest
    else if t.kind = .code && isBlank t.text then declaredFrom t.scanner previous t.rest
    else declaredFrom t.scanner none t.rest
termination_by cs => cs.length
decreasing_by all_goals exact s.length_rest_lt c cs

/-- Whether a sketch declares both entry points. -/
def declaresEntryPoints (source : String) : Bool :=
  let found := declaredFrom {} none source.toList
  entryPoints.all found.contains

/-- Refuses a sketch that does not declare both entry points. -/
def checkEntryPoints (source : String) : Except Complaint Unit :=
  if declaresEntryPoints source then .ok () else .error .entryPointsUndeclared

end LedSketch.Dialect
