import LedSketch.Dialect.Words
import LedSketch.Scan.Scanner

/-!
# From the sketch dialect to the host form

`toHostForm` rewrites a sketch in one pass over its segments. Comments, strings and templates are
copied. In code:

* `void setup()` and `void loop()` become `async function`, other typed functions `function`, and
  the types of their parameters are dropped;
* typed variables become `let`, or keep the binding word in front of them;
* a call of `delay` inside a body that may suspend gets an `await`.

Dropped words take only the blanks behind them on the same line along, so line numbers survive.

This is `transpile` of section 4.3 of the specification (`SPEC_FULL.md:159-181`): `declaration`
embeds its rules 1 and 3, `typedBinding` rule 2, and `word` decides which rule applies and embeds
rule 4.

* `Rewriter.length_rest_lt` — each step shortens what is left, so the pass ends on every source.
-/

namespace LedSketch.Dialect

open Text Scan

/-- The state of the rewriting pass between two segments. -/
structure Rewriter where
  scanner : Scanner := {}
  /-- The previous significant token, if the last significant text was code. -/
  previous : Option String := none
  parens : Nat := 0
  /-- The parenthesis depth outside of a parameter list whose types are being dropped. -/
  paramLevel : Option Nat := none

/-- What a step of the pass writes and leaves. -/
structure Rewritten where
  out : List Char
  rest : List Char
  rewriter : Rewriter

namespace Rewriter

/-- Records that a function declaration was recognised. -/
def declare (r : Rewriter) (suspendable : Bool) : Rewriter :=
  { r with scanner := { r.scanner with nesting := r.scanner.nesting.declare suspendable } }

/-- Whether the previous token is one of the given words. -/
def previousIn (r : Rewriter) (words : List String) : Bool := r.previous.any words.contains

/-- An ordinary word is copied; `function` is noted, and `delay` may be awaited. -/
def copyWord (r : Rewriter) (word rest : List Char) : Rewritten :=
  let w := String.ofList word
  let done := { r with previous := some w }
  if w = "function" then ⟨word, rest, done.declare (r.previous == some "async")⟩
  else if w = "delay" && peekChar? rest == some '(' && r.scanner.nesting.suspendable
      && !r.scanner.inInterpolation && !r.previousIn quietBefore then
    ⟨"await ".toList ++ word, rest, done⟩
  else ⟨word, rest, done⟩

/-- A typed function: the entry points suspend and take no parameters, others lose the types of
their parameters. -/
def declaration (r : Rewriter) (a : Ahead) : Rewritten :=
  let head := a.blank ++ a.name
  let plain : Rewritten :=
    ⟨"function".toList ++ head, a.rest,
      { r.declare false with paramLevel := some r.parens, previous := some (String.ofList a.name) }⟩
  if entryPoints.contains (String.ofList a.name) then
    let inside := (skipSpace a.rest).drop 1
    match skipSpace inside with
    | ')' :: rest =>
      ⟨"async function".toList ++ head ++ a.rest.takeWhile isSpace ++ '('
          :: inside.takeWhile isSpace ++ [')'],
        rest, { r.declare true with previous := some ")" }⟩
    | _ => plain
  else plain

/-- A typed variable: `let` takes the place of the type, unless a binding word or a parameter list
makes the type superfluous. -/
def typedBinding (r : Rewriter) (rest : List Char) : Rewritten :=
  if r.paramLevel.isSome || r.previousIn bindingWords then
    ⟨[], rest.dropWhile isHorizontal, r⟩
  else ⟨"let".toList, rest, { r with previous := some "let" }⟩

/-- A word of code. -/
def word (r : Rewriter) (word rest : List Char) : Rewritten :=
  let w := String.ofList word
  if returnTypeWords.contains w && r.previous ≠ some "." then
    match peekName? rest with
    | some a =>
      if isIdentifier a.name then
        if peekChar? a.rest == some '(' && r.paramLevel.isNone then r.declaration a
        else if w ≠ "void" then r.typedBinding rest
        else r.copyWord word rest
      else if w = "unsigned" && typeWords.contains (String.ofList a.name) then
        ⟨[], rest.dropWhile isHorizontal, r⟩
      else r.copyWord word rest
    | none => r.copyWord word rest
  else r.copyWord word rest

/-- Code that is no word: blanks leave no trace, parentheses are counted, and a semicolon outside
them ends a prototype. -/
def punctuation (r : Rewriter) (text : List Char) : Rewriter :=
  if isBlank text then r
  else
    let done := { r with previous := some (String.ofList text) }
    if text = ['('] then { done with parens := r.parens + 1 }
    else if text = [')'] then
      let parens := r.parens - 1
      { done with
        parens
        paramLevel := r.paramLevel.bind fun l => if parens ≤ l then none else some l }
    else if text = [';'] && r.parens == 0 then
      { done with scanner := { r.scanner with nesting := r.scanner.nesting.cancelPending } }
    else done

/-- Takes one segment and writes what stands for it. -/
def step (r : Rewriter) (c : Char) (cs : List Char) : Rewritten :=
  let t := r.scanner.step c cs
  let r := { r with scanner := t.scanner }
  match t.kind with
  | .code =>
    if isName t.text then r.word t.text t.rest
    else ⟨t.text, t.rest, r.punctuation t.text⟩
  | .string | .template => ⟨t.text, t.rest, { r with previous := none }⟩
  | .lineComment | .blockComment => ⟨t.text, t.rest, r⟩

theorem length_rest_copyWord (r : Rewriter) (w rest : List Char) :
    (r.copyWord w rest).rest = rest := by
  unfold copyWord
  grind

theorem length_rest_declaration_le (r : Rewriter) (a : Ahead) :
    (r.declaration a).rest.length ≤ a.rest.length := by
  unfold declaration
  dsimp only
  split
  · split
    · rename_i rest h
      have h₁ := length_dropWhile_le isSpace ((skipSpace a.rest).drop 1)
      have h₂ := length_dropWhile_le isSpace a.rest
      rw [skipSpace] at h
      rw [h] at h₁
      simp only [List.length_cons, List.length_drop, skipSpace] at h₁ ⊢
      omega
    · exact Nat.le_refl _
  · exact Nat.le_refl _

theorem length_rest_word_le (r : Rewriter) (w rest : List Char) :
    (r.word w rest).rest.length ≤ rest.length := by
  have hb := length_dropWhile_le isHorizontal rest
  unfold word
  dsimp only
  split
  · split
    · rename_i a ha
      have h₁ := length_rest_lt_of_peekName? ha
      have h₂ := length_rest_declaration_le r a
      split
      · split
        · omega
        · split
          · unfold typedBinding
            split <;> simp_all
          · simp [length_rest_copyWord]
      · split
        · exact hb
        · simp [length_rest_copyWord]
    · simp [length_rest_copyWord]
  · simp [length_rest_copyWord]

theorem length_rest_lt (r : Rewriter) (c : Char) (cs : List Char) :
    (r.step c cs).rest.length < (c :: cs).length := by
  have h := r.scanner.length_rest_lt c cs
  unfold step
  dsimp only
  split
  · split
    · have := length_rest_word_le { r with scanner := (r.scanner.step c cs).scanner }
        (r.scanner.step c cs).text (r.scanner.step c cs).rest
      omega
    · exact h
  all_goals exact h

/-- Rewrites what is left of a source. -/
def run (r : Rewriter) : List Char → List Char
  | [] => []
  | c :: cs => (r.step c cs).out ++ run (r.step c cs).rewriter (r.step c cs).rest
termination_by cs => cs.length
decreasing_by exact length_rest_lt r c cs

end Rewriter

/-- The host form of a sketch. -/
def toHostForm (source : String) : String :=
  String.ofList (({} : Rewriter).run source.toList)

end LedSketch.Dialect
