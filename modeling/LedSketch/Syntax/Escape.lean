import LedSketch.Grammar.Lexeme

/-!
# Escapes in strings and templates

A backslash starts an escape: two hexadecimal digits behind `x` or four behind `u` name a character,
a few letters stand for controls, an escaped line break stands for nothing, and any other character
stands for itself. A backslash at the very end stands for itself.

The texts are those of the rules `string` and `template_chunk`
(`grammar/lumalab_grammar.yaml:594-613`).
-/

namespace LedSketch.Escape

open Grammar

/-- The number that hexadecimal digits stand for. -/
def hexValue (cs : List Char) : Nat :=
  cs.foldl (fun n c => n * 16 + (Text.letterDigit? c).getD 0) 0

/-- The character that `count` hexadecimal digits name, and the rest. -/
def hexChar? (count : Nat) (cs : List Char) : Option (Char × List Char) :=
  let ds := cs.take count
  if ds.length = count && ds.all isHexDigit then some (Char.ofNat (hexValue ds), cs.drop count)
  else none

/-- What a character behind a backslash stands for. -/
def simple : Char → Char
  | 'n' => '\n'
  | 't' => '\t'
  | 'r' => '\r'
  | '0' => Char.ofNat 0
  | 'b' => Char.ofNat 8
  | 'f' => Char.ofNat 12
  | 'v' => Char.ofNat 11
  | c => c

/-- Replaces every escape, `fuel` of them at most. -/
def decodeWithin : Nat → List Char → List Char
  | 0, cs => cs
  | _ + 1, [] => []
  | fuel + 1, '\\' :: c :: cs =>
    let named := if c = 'x' then hexChar? 2 cs else if c = 'u' then hexChar? 4 cs else none
    match named with
    | some (d, rest) => d :: decodeWithin fuel rest
    | none =>
      match c, cs with
      | '\n', cs => decodeWithin fuel cs
      | '\r', '\n' :: cs => decodeWithin fuel cs
      | c, cs => simple c :: decodeWithin fuel cs
  | fuel + 1, c :: cs => c :: decodeWithin fuel cs

/-- Replaces every escape. -/
def decode (cs : List Char) : List Char := decodeWithin cs.length cs

/-- Replaces every escape of a text. -/
def decodeText (s : String) : String := String.ofList (decode s.toList)

end LedSketch.Escape
