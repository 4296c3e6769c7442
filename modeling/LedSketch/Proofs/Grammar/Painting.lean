import LedSketch.Grammar.HostForm
import LedSketch.Proofs.Grammar.Readings
import LedSketch.Scan.Scanner

/-!
# What the grammar takes a character for

Each lexeme that a run takes gives its characters a kind: strings and templates have rules of their
own, and blanks and ends of statements are read for the comments in them.

The end of a statement looks for a comment end that has one of its own behind it, and may pass by
others on the way. `properEnd?` is the same end with every comment closed at the first comment end,
as comments are closed everywhere else.

* `length_gapKinds`, `map_length_endKinds?`: the kinds are as many as the characters taken.
* `Reading.kinds`: the kinds that a reading gives its characters.
* `Reading.Proper`: a reading that closes every comment at the first comment end.
-/

namespace LedSketch.Grammar

open Text Scan

/-- The kinds of the white space and comments at the start. -/
def gapKinds : List Char → List Kind
  | [] => []
  | '/' :: '/' :: cs =>
    let n := runLength (· ≠ '\n') cs
    List.replicate (2 + n) .lineComment ++ gapKinds (cs.drop n)
  | '/' :: '*' :: cs =>
    match commentEnd? cs with
    | some n => List.replicate (2 + n) .blockComment ++ gapKinds (cs.drop n)
    | none => []
  | c :: cs => if isWhiteSpace c then .code :: gapKinds cs else []
termination_by cs => cs.length
decreasing_by all_goals simp [List.length_drop]; try omega

mutual

/-- The kinds of the end of a statement. -/
def endKinds? : List Char → Option (List Kind)
  | [] => some []
  | c :: cs =>
    if isHorizontal c then (endKinds? cs).map (.code :: ·)
    else if c = ';' || c = '\n' then some [.code]
    else if c = '}' then some []
    else match c, cs with
      | '\r', '\n' :: _ => some [.code, .code]
      | '/', '/' :: _ => some []
      | '/', '*' :: cs => (kindsBehindComment? cs).map ([.blockComment, .blockComment] ++ ·)
      | _, _ => none
termination_by cs => cs.length

/-- The kinds of the end of a statement inside of a comment. -/
def kindsBehindComment? : List Char → Option (List Kind)
  | [] => none
  | '*' :: '/' :: cs =>
    match endKinds? cs with
    | some ks => some (.blockComment :: .blockComment :: ks)
    | none => (kindsBehindComment? ('/' :: cs)).map (.blockComment :: ·)
  | c :: cs => if c = '\n' then none else (kindsBehindComment? cs).map (.blockComment :: ·)
termination_by cs => cs.length

end

/-- The kinds of the end of a statement that closes every comment at the first comment end. -/
def properEnd? : List Char → Option (List Kind)
  | [] => some []
  | c :: cs =>
    if isHorizontal c then (properEnd? cs).map (.code :: ·)
    else if c = ';' || c = '\n' then some [.code]
    else if c = '}' then some []
    else match c, cs with
      | '\r', '\n' :: _ => some [.code, .code]
      | '/', '/' :: _ => some []
      | '/', '*' :: cs =>
        match commentEnd? cs with
        | some n => (properEnd? (cs.drop n)).map (List.replicate (2 + n) .blockComment ++ ·)
        | none => none
      | _, _ => none
termination_by cs => cs.length
decreasing_by all_goals simp [List.length_drop]; try omega

theorem length_gapKinds (cs : List Char) : (gapKinds cs).length = gapLength cs := by
  fun_induction gapKinds cs with
  | case1 => simp [gapLength]
  | case2 cs n ih =>
    rw [gapLength, List.length_append, List.length_replicate, ih]
  | case3 cs n hn ih => rw [gapLength]; simp [ih, hn]
  | case4 cs hn => rw [gapLength]; simp [hn]
  | case5 c cs h₁ h₂ hc ih => rw [gapLength] <;> simp_all; omega
  | case6 c cs h₁ h₂ hc => rw [gapLength] <;> simp_all

theorem map_length_kinds :
    (∀ cs, (endKinds? cs).map List.length = endOfStatement? cs) ∧
      ∀ cs, (kindsBehindComment? cs).map List.length = endBehindComment? cs := by
  refine endKinds?.mutual_induct _ _ ?nil ?blank ?mark ?brace ?feed ?line ?block ?other
    ?behindNil ?close ?later ?newline ?inside
  case nil => simp [endKinds?, endOfStatement?]
  case behindNil => simp [kindsBehindComment?, endBehindComment?]
  case blank =>
    intro c cs hc ih
    rw [endKinds?.eq_def, endOfStatement?.eq_def]
    simp [hc, ← ih, Function.comp_def]
  case mark =>
    intro c cs h₁ h₂
    rw [endKinds?.eq_def, endOfStatement?.eq_def]
    simp only [if_neg h₁, if_pos h₂]
    rfl
  case brace =>
    intro cs h₁ h₂
    rw [endKinds?.eq_def, endOfStatement?.eq_def]
    rfl
  case feed =>
    intro cs h₁ h₂ h₃
    rw [endKinds?.eq_def, endOfStatement?.eq_def]
    rfl
  case line =>
    intro cs h₁ h₂ h₃
    rw [endKinds?.eq_def, endOfStatement?.eq_def]
    rfl
  case block =>
    intro cs h₁ h₂ h₃ ih
    rw [endKinds?.eq_def, endOfStatement?.eq_def]
    simp only [if_neg h₁, if_neg h₂, if_neg h₃, ← ih, Option.map_map]
    rfl
  case other =>
    intro c cs h₁ h₂ h₃ h₄ h₅ h₆
    rw [endKinds?.eq_def, endOfStatement?.eq_def]
    simp only [if_neg h₁, if_neg h₂, if_neg h₃]
    rfl
  case close =>
    intro cs ks hks ih
    rw [hks] at ih
    simp [kindsBehindComment?, endBehindComment?, hks, ← ih]
  case later =>
    intro cs hks ih ih'
    rw [hks] at ih
    simp [kindsBehindComment?, endBehindComment?, hks, ← ih, ← ih', Function.comp_def]
  case newline =>
    intro cs h
    simp [kindsBehindComment?, endBehindComment?]
  case inside =>
    intro c cs h₁ h₂ ih
    rw [kindsBehindComment?, endBehindComment?, if_neg h₂, if_neg h₂, ← ih]
    · simp [Function.comp_def]
    · exact h₁
    · exact h₁

/-- The kinds that a reading gives its characters. -/
def Reading.kinds (r : Reading Rule) : List Kind :=
  match r.rule with
  | .blank => gapKinds r.place.rest
  | .endOfStatement => (endKinds? r.place.rest).getD []
  | .string => List.replicate r.count .string
  | .template | .interpolation => List.replicate r.count .template
  | _ => List.replicate r.count .code

/-- Unless it is an end of statement that passes by a comment end. -/
def Reading.Proper (r : Reading Rule) : Prop :=
  r.rule = .endOfStatement → endKinds? r.place.rest = properEnd? r.place.rest

instance (r : Reading Rule) : Decidable r.Proper :=
  inferInstanceAs (Decidable (r.rule = .endOfStatement → _))

/-- The lexemes that the parser takes from a source. -/
def lexemes (source : List Char) : List (Reading Rule) :=
  readings hostForm (fuelFor source) .program (.rule .program) (Cursor.start source)

/-- What the parser takes every character of a source for. -/
def parsedKinds (source : List Char) : List Kind := (lexemes source).flatMap Reading.kinds

end LedSketch.Grammar
