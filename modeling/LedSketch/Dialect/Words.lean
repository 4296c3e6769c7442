import LedSketch.Text.Classes

/-!
# The words of the sketch dialect

The closed sets of words that the dialect gives a meaning, and looking ahead for the next word or
character behind blanks.

The type words are those of section 4.3 of the specification (`SPEC_FULL.md:167-172`).

* `length_rest_lt_of_peekName?` — behind a name there is less text than before it.
-/

namespace LedSketch.Dialect

open Text

/-- The two functions that every sketch declares. -/
def entryPoints : List String := ["setup", "loop"]

/-- The type names that declare a variable. -/
def typeWords : List String :=
  ["int", "float", "double", "long", "short", "byte", "bool", "boolean", "String", "string", "char",
    "unsigned"]

/-- The type names that declare a function. -/
def returnTypeWords : List String := typeWords ++ ["void"]

/-- The words that already introduce a binding. -/
def bindingWords : List String := ["let", "const", "var"]

/-- The words of the host form that name nothing. -/
def keywords : List String :=
  ["if", "else", "for", "while", "do", "return", "break", "continue", "let", "const", "var",
    "function", "async", "await", "true", "false", "null", "undefined", "new", "typeof"]

/-- Tokens after which a call of the pausing builtin is a declaration or already awaited. -/
def quietBefore : List String := [".", "await", "function", "async"]

/-- Whether a word can name a variable or a function. -/
def isIdentifier (word : List Char) : Bool :=
  let w := String.ofList word
  !keywords.contains w && !returnTypeWords.contains w

/-- A name that comes next. -/
structure Ahead where
  blank : List Char
  name : List Char
  rest : List Char

/-- The name that comes next behind blanks. -/
def peekName? (cs : List Char) : Option Ahead :=
  match cs.dropWhile isSpace with
  | c :: r =>
    if isNameStart c then
      some ⟨cs.takeWhile isSpace, c :: r.takeWhile isNameChar, r.dropWhile isNameChar⟩
    else none
  | [] => none

/-- The character that comes next behind blanks. -/
def peekChar? (cs : List Char) : Option Char := (skipSpace cs).head?

/-- Whether the whole text is blank, and not empty. -/
def isBlank (text : List Char) : Bool := !text.isEmpty && text.all isSpace

/-- Whether the whole text is one name. -/
def isName (text : List Char) : Bool :=
  match text with
  | [] => false
  | c :: cs => isNameStart c && cs.all isNameChar

theorem isName_cons {c : Char} {w : List Char} :
    isName (c :: w) = true ↔ isNameStart c = true ∧ ∀ d ∈ w, isNameChar d = true := by
  simp [isName]

theorem length_dropWhile_le (p : Char → Bool) (cs : List Char) :
    (cs.dropWhile p).length ≤ cs.length := (List.dropWhile_suffix p).length_le

theorem length_rest_lt_of_peekName? {cs : List Char} {a : Ahead} (h : peekName? cs = some a) :
    a.rest.length < cs.length := by
  unfold peekName? at h
  have hd := length_dropWhile_le isSpace cs
  split at h
  · rename_i c r hr
    rw [hr] at hd
    split at h
    · cases h
      have := length_dropWhile_le isNameChar r
      simp only [List.length_cons] at hd ⊢
      omega
    · cases h
  · cases h

end LedSketch.Dialect
