import LedSketch.Text.Quoted

/-!
# UTF-8

Octets are read one at a time. An octet that cannot go on what was begun ends it as a flaw, and is
then read as the start of something new; so each flaw covers the longest beginning of a character
that was still sound.

* `decodeReplacing` — shows each flaw as U+FFFD;
* `decode` — refuses a text at its first flaw;
* `decode_ascii`, `decodeReplacing_ascii` — octets below 128 stand for themselves.
-/

namespace LedSketch.Utf8

/-- Why octets are no character. -/
inductive FlawKind where
  | badStart
  | badContinuation
  | truncated
deriving DecidableEq, Repr

/-- Octets that are no character, and where they start. -/
structure Flaw where
  kind : FlawKind
  start : Nat
  octets : List UInt8
deriving DecidableEq

/-- The words for a kind of flaw. -/
def FlawKind.words : FlawKind → String
  | badStart => "invalid start byte"
  | badContinuation => "invalid continuation byte"
  | truncated => "unexpected end of data"

/-- The words that report a flaw. -/
def Flaw.text (f : Flaw) : String :=
  let place := match f.octets with
    | [b] => "byte 0x" ++ String.ofList (Text.hexFixed 2 b.toNat) ++ s!" in position {f.start}"
    | bs => s!"bytes in position {f.start}-{f.start + bs.length - 1}"
  s!"'utf-8' codec can't decode {place}: {f.kind.words}"

/-- A character that has been begun: its octets, the last first, how many are owed, the range of the
next one, and the value so far. -/
structure Begun where
  octets : List UInt8
  owed : Nat
  least : Nat := 0x80
  greatest : Nat := 0xBF
  value : Nat

/-- What an octet beyond ASCII begins. -/
def begin? (b : UInt8) : Option Begun :=
  let n := b.toNat
  if 0xC2 ≤ n && n ≤ 0xDF then some { octets := [b], owed := 1, value := n - 0xC0 }
  else if n = 0xE0 then some { octets := [b], owed := 2, least := 0xA0, value := 0 }
  else if n = 0xED then some { octets := [b], owed := 2, greatest := 0x9F, value := 13 }
  else if 0xE1 ≤ n && n ≤ 0xEF then some { octets := [b], owed := 2, value := n - 0xE0 }
  else if n = 0xF0 then some { octets := [b], owed := 3, least := 0x90, value := 0 }
  else if 0xF1 ≤ n && n ≤ 0xF3 then some { octets := [b], owed := 3, value := n - 0xF0 }
  else if n = 0xF4 then some { octets := [b], owed := 3, greatest := 0x8F, value := 4 }
  else none

/-- What has been read of a text: a character or a flaw. -/
abbrev Piece := Except Flaw Char

/-- Reads an octet with nothing begun. -/
def openWith (at_ : Nat) (b : UInt8) : List Piece × Option Begun :=
  if b.toNat < 0x80 then ([.ok (Char.ofNat b.toNat)], none)
  else match begin? b with
    | some begun => ([], some begun)
    | none => ([.error ⟨.badStart, at_, [b]⟩], none)

/-- Ends what was begun as a flaw in front of the octet with this number. -/
def Begun.broken (begun : Begun) (kind : FlawKind) (at_ : Nat) : Piece :=
  .error ⟨kind, at_ - begun.octets.length, begun.octets.reverse⟩

/-- Reads an octet behind what was begun. -/
def goOn (at_ : Nat) (begun : Begun) (b : UInt8) : List Piece × Option Begun :=
  let n := b.toNat
  if begun.least ≤ n && n ≤ begun.greatest then
    let value := begun.value * 64 + (n - 0x80)
    if begun.owed ≤ 1 then ([.ok (Char.ofNat value)], none)
    else ([], some { octets := b :: begun.octets, owed := begun.owed - 1, value })
  else
    let (pieces, next) := openWith at_ b
    (begun.broken .badContinuation at_ :: pieces, next)

/-- The pieces of octets, the first of which has the number `at_`. -/
def piecesFrom (at_ : Nat) : Option Begun → List UInt8 → List Piece
  | none, [] => []
  | some begun, [] => [begun.broken .truncated at_]
  | begun?, b :: bs =>
    let (pieces, next) := match begun? with
      | none => openWith at_ b
      | some begun => goOn at_ begun b
    pieces ++ piecesFrom (at_ + 1) next bs

/-- The pieces of octets. -/
def pieces (bs : List UInt8) : List Piece := piecesFrom 0 none bs

/-- The text of octets, in which each flaw is shown as U+FFFD. -/
def decodeReplacing (bs : List UInt8) : String :=
  String.ofList ((pieces bs).map fun p => match p with
    | .ok c => c
    | .error _ => Char.ofNat 0xFFFD)

/-- The text of octets, or their first flaw. -/
def decode (bs : List UInt8) : Except Flaw String := do
  let cs ← (pieces bs).mapM fun p => p
  return String.ofList cs

theorem piecesFrom_ascii {bs : List UInt8} (h : ∀ b ∈ bs, b.toNat < 0x80) (n : Nat) :
    piecesFrom n none bs = bs.map fun b => .ok (Char.ofNat b.toNat) := by
  induction bs generalizing n with
  | nil => rfl
  | cons b bs ih =>
    have hb := h b (by simp)
    simp [piecesFrom, openWith, hb, ih fun c hc => h c (by simp [hc])]

theorem decodeReplacing_ascii {bs : List UInt8} (h : ∀ b ∈ bs, b.toNat < 0x80) :
    decodeReplacing bs = String.ofList (bs.map fun b => Char.ofNat b.toNat) := by
  simp only [decodeReplacing, pieces, piecesFrom_ascii h, List.map_map]
  rfl

theorem decode_ascii {bs : List UInt8} (h : ∀ b ∈ bs, b.toNat < 0x80) :
    decode bs = .ok (String.ofList (bs.map fun b => Char.ofNat b.toNat)) := by
  have key : ∀ cs : List UInt8,
      (cs.map fun b => (Except.ok (Char.ofNat b.toNat) : Piece)).mapM (fun p => p) =
        .ok (cs.map fun b => Char.ofNat b.toNat) := by
    intro cs
    induction cs with
    | nil => rfl
    | cons c cs ih =>
      rw [List.map_cons, List.mapM_cons, ih]
      rfl
  rw [decode, pieces, piecesFrom_ascii h, key]
  rfl

end LedSketch.Utf8
