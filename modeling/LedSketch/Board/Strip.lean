import LedSketch.Store.Display

/-!
# The strip of lights

A strip has at least one pin; each pin has a level from 0 to 255 and a mode. Pins are addressed from
zero by integers, also by doubles that are integers. Writing needs a pin that is an output. A
command that is refused leaves the strip as it was, since it yields no other strip.

This is the strip of section 6 of the specification (`SPEC_FULL.md:242-248`): a `Command` is one of
its operations that write, and `obey` is what the operation does.

* `Strip.pin?_lt` — an accepted index is one of the pins;
* `levelOf_le` — what is written as a level lies in the range;
* `length_render` — a strip is drawn with one character a pin.
-/

namespace LedSketch

-- Sums start from the zero of the core library, also where another one is in scope.
attribute [local instance (high)] Zero.ofOfNat0

/-- What a pin is used for. -/
inductive PinMode where
  | output
  | input
deriving DecidableEq, Repr

/-- The name of a mode in sketches. -/
def PinMode.name : PinMode → String
  | output => "OUTPUT"
  | input => "INPUT"

/-- The mode that a value names. -/
def PinMode.ofValue? : Value → Option PinMode
  | .str s => if s = output.name then some output else if s = input.name then some input else none
  | _ => none

/-- One light: how bright it is and what its pin is used for. -/
structure Pin where
  level : Nat := 0
  mode : PinMode := .output
deriving DecidableEq, Repr

/-- A strip of lights. -/
structure Strip where
  pins : List Pin
deriving DecidableEq, Repr

namespace Strip

/-- The level of a light that is fully on. -/
def fullLevel : Nat := 255

/-- A strip of dark outputs. -/
def dark (count : Nat) : Strip := ⟨List.replicate count {}⟩

instance : Inhabited Strip := ⟨dark 1⟩

/-- The number of pins. -/
def count (s : Strip) : Nat := s.pins.length

/-- The levels of all pins. -/
def levels (s : Strip) : List Nat := s.pins.map (·.level)

/-- The modes of all pins. -/
def modes (s : Strip) : List PinMode := s.pins.map (·.mode)

/-- The strip with other levels, pin by pin. -/
def withLevels (s : Strip) (levels : List Nat) : Strip :=
  ⟨List.zipWith (fun p l => { p with level := l }) s.pins levels⟩

/-- All pins dark outputs again. -/
def reset (s : Strip) : Strip := dark s.count

/-! ## Counts and levels from values -/

/-- Whether a value is the number one, or true. -/
def isHigh (v : Value) : Bool := v.isNumeric && v.toNumber.eq (.int 1)

/-- Whether a value is the number zero, or false. -/
def isLow (v : Value) : Bool := v.isNumeric && v.toNumber.eq (.int 0)

/-- The number of pins that a value asks for: a positive integer, or true for one. -/
def countOf? : Value → Option Nat
  | .bool b => if b then some 1 else none
  | .num (.int n) => if 1 ≤ n then some n.toNat else none
  | _ => none

/-- The level nearest to a number; what is no number gives a dark light. -/
def levelOf (v : Value) : Nat :=
  if !v.isNumeric || v.toNumber.isNaN then 0
  else if v.toNumber.lt (.int 0) then 0
  else if v.toNumber.lt (.int fullLevel) then
    min fullLevel (v.toNumber.truncate.toOption.getD 0).toNat
  else fullLevel

theorem levelOf_le (v : Value) : levelOf v ≤ fullLevel := by
  unfold levelOf
  grind

/-! ## Commands -/

/-- Why a strip refuses a command. -/
inductive Refusal where
  | invalidPin (index : Value) (last : Int)
  | notOutput (pin : Nat)
  | unknownMode (mode : Value)
deriving DecidableEq

/-- What a strip can be told to do. -/
inductive Command where
  | configure (pin mode : Value)
  | writeDigital (pin value : Value)
  | writeLevel (pin level : Value)
  | toggle (pin : Value)
  | setAll (level : Value)
  | shiftLeft
  | shiftRight
deriving DecidableEq

/-- The pin that a value addresses. -/
def pin? (s : Strip) (index : Value) : Except Refusal Nat :=
  let index : Value := match index with
    | .float x => .num (.ofIntegral x)
    | v => v
  match index with
  | .num (.int n) =>
    if 0 ≤ n ∧ n < s.count then .ok n.toNat else .error (.invalidPin index (s.count - 1))
  | _ => .error (.invalidPin index (s.count - 1))

/-- The mode of a pin; a pin that does not exist counts as an input. -/
def modeAt (s : Strip) (pin : Nat) : PinMode := (s.pins[pin]?.map (·.mode)).getD .input

/-- The level of a pin. -/
def levelAt (s : Strip) (pin : Nat) : Nat := (s.pins[pin]?.map (·.level)).getD 0

/-- The pin that a value addresses, if it is an output. -/
def outputPin? (s : Strip) (index : Value) : Except Refusal Nat := do
  let p ← s.pin? index
  if s.modeAt p = .output then return p else throw (.notOutput p)

/-- Changes one pin. -/
def modifyPin (s : Strip) (pin : Nat) (f : Pin → Pin) : Strip := ⟨s.pins.modify pin f⟩

/-- Sets the level of one pin. -/
def setLevel (s : Strip) (pin : Nat) (level : Nat) : Strip :=
  s.modifyPin pin fun p => { p with level }

/-- Does what a command says. -/
def obey (s : Strip) : Command → Except Refusal Strip
  | .configure index mode => do
    let p ← s.pin? index
    match PinMode.ofValue? mode with
    | some m => return s.modifyPin p fun p => { p with mode := m }
    | none => throw (.unknownMode mode)
  | .writeDigital index value => do
    let p ← s.outputPin? index
    return s.setLevel p (if isHigh value then fullLevel else 0)
  | .writeLevel index level => do
    let p ← s.outputPin? index
    return s.setLevel p (levelOf level)
  | .toggle index => do
    let p ← s.pin? index
    return s.setLevel p (if 0 < s.levelAt p then 0 else fullLevel)
  | .setAll level =>
    let l := if isHigh level then fullLevel else if isLow level then 0 else levelOf level
    .ok (s.withLevels (List.replicate s.count l))
  | .shiftLeft => .ok (s.withLevels (s.levels.drop 1 ++ [0]))
  | .shiftRight => .ok (s.withLevels (0 :: s.levels.dropLast))

/-- The level of the pin that a value addresses. -/
def read (s : Strip) (index : Value) : Except Refusal Nat := return s.levelAt (← s.pin? index)

theorem pin?_lt {s : Strip} {index : Value} {p : Nat} (h : s.pin? index = .ok p) : p < s.count := by
  unfold pin? at h
  grind

/-! ## Views -/

/-- The number of lights that are not dark. -/
def lit (s : Strip) : Nat := (s.levels.filter (0 < ·)).length

/-- The brightness over all pins in percent of the fullest, a half going to the even neighbour. -/
def averagePercent (s : Strip) : Nat :=
  match Binary64.ofRatio? false s.levels.sum (max 1 s.count * fullLevel) with
  | none => 0
  | some share =>
    match Binary64.decode? (share * 100.0) with
    | none => 0
    | some d =>
      let (num, den) := d.ratio
      Binary64.roundHalfEven num den

/-- How bright a light is drawn, from dark to full. -/
def ramp : List Char := " .:-=+*#%@".toList

/-- The character that draws a level. -/
def glyph (level : Nat) : Char :=
  ramp.getD (min (ramp.length - 1) (level * ramp.length / (fullLevel + 1))) ' '

/-- The strip as text, one character a pin. -/
def render (s : Strip) : String := String.ofList (s.levels.map glyph)

theorem length_render (s : Strip) : s.render.toList.length = s.count := by
  simp [render, levels, count]

/-- The line that sums up a strip on a terminal. -/
def summary (s : Strip) : String :=
  s!"[{s.render}] lit={s.lit} avg={s.averagePercent}%"

/-- A description of the strip; `countText` is how its count was asked for. -/
def describe (s : Strip) (countText : String) : String :=
  let shown := ", ".intercalate (s.levels.map fun l => toString l)
  s!"<LedStrip pins={countText} levels=[{shown}]>"

end Strip

/-- The complaint about a refused command. -/
def Strip.Refusal.complaint (st : Store) : Strip.Refusal → Except Mishap Complaint
  | .invalidPin index last => return .invalidPin (← st.plain index) last
  | .notOutput pin => return .pinNotOutput pin
  | .unknownMode mode => return .unknownPinMode (← st.shown mode)

end LedSketch
