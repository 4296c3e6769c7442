import LedSketch.Document.Datum

/-!
# Settings of a run

Settings bound the time and the size of a run. They are given as data under five names, and are used
only after they have been found to lie in their ranges.

These are the settings of section 9 of the specification, with its ranges and defaults
(`SPEC_FULL.md:285-288`).

* `Settings.config_inRange` — settings that are accepted lie in their ranges.
-/

namespace LedSketch

/-- The settings of a run, as given. -/
structure Settings where
  maxRuntime : Datum := .num (.int 15000)
  safetyDelay : Datum := .num (.int 0)
  pinCount : Datum := .num (.int 12)
  yieldOnZeroDelay : Datum := .bool true
  cacheSize : Datum := .null

/-- The settings of a run, in their ranges. -/
structure Config where
  maxRuntime : Number := .int 15000
  safetyDelay : Number := .int 0
  pinCount : Nat := 12
  yieldsOnZeroDelay : Bool := true
  cacheSize : Option Nat := none
deriving DecidableEq

instance : Inhabited Config := ⟨{}⟩

/-- Why settings are refused. -/
inductive SettingsProblem where
  | safetyDelay
  | maxRuntime
  | pinCount
  | yieldOnZeroDelay
  | cacheSize
  | notAMapping (type : String)
  | unknownKey (shown : String)
  /-- An unknown name where settings are given by name. -/
  | unknownName (name : String)
deriving DecidableEq, Repr

/-- The words that refuse settings. -/
def SettingsProblem.text : SettingsProblem → String
  | safetyDelay => "Loop safety delay must be in range 0..2000ms."
  | maxRuntime => "Max runtime must be in range 100..120000ms."
  | pinCount => "Pin count must be an integer in range 1..64."
  | yieldOnZeroDelay => "yield_on_zero_delay must be true or false."
  | cacheSize => "Cache size must be a positive integer or null."
  | notAMapping type => s!"Run configuration must be a mapping, got {type}"
  | unknownKey shown => s!"Unknown run configuration key: {shown}"
  | unknownName name => s!"RunConfig.__init__() got an unexpected keyword argument '{name}'"

namespace Settings

/-- Whether a number lies between two integers. -/
def between (low high : Int) (n : Number) : Bool := (Number.int low).le n && n.le (.int high)

/-- A number between two integers. -/
def numberBetween? (low high : Int) : Datum → Option Number
  | .num n => if between low high n then some n else none
  | _ => none

/-- A positive integer up to a bound, if there is one. -/
def count? (most : Option Int) : Datum → Option Nat
  | .num (.int n) => if 1 ≤ n ∧ (∀ m ∈ most, n ≤ m) then some n.toNat else none
  | _ => none

/-- A truth value. -/
def flag? : Datum → Option Bool
  | .bool b => some b
  | _ => none

/-- A positive integer, or null for none. -/
def bound? : Datum → Option (Option Nat)
  | .null => some none
  | d => (count? none d).map some

/-- The value, or the problem if there is none. -/
def need {α : Type} (problem : SettingsProblem) : Option α → Except SettingsProblem α
  | some a => .ok a
  | none => .error problem

/-- The settings, if they lie in their ranges. -/
def config (s : Settings) : Except SettingsProblem Config := do
  let safetyDelay ← need .safetyDelay (numberBetween? 0 2000 s.safetyDelay)
  let maxRuntime ← need .maxRuntime (numberBetween? 100 120000 s.maxRuntime)
  let pinCount ← need .pinCount (count? (some 64) s.pinCount)
  let yieldsOnZeroDelay ← need .yieldOnZeroDelay (flag? s.yieldOnZeroDelay)
  let cacheSize ← need .cacheSize (bound? s.cacheSize)
  return { maxRuntime, safetyDelay, pinCount, yieldsOnZeroDelay, cacheSize }

theorem numberBetween?_between {low high : Int} {d : Datum} {n : Number}
    (h : numberBetween? low high d = some n) : between low high n = true := by
  unfold numberBetween? at h
  grind

theorem need_bind {α β : Type} {problem : SettingsProblem} {o : Option α}
    {f : α → Except SettingsProblem β} {b : β} (h : (need problem o >>= f) = .ok b) :
    ∃ a, o = some a ∧ f a = .ok b := by
  cases o with
  | none => cases h
  | some a => exact ⟨a, rfl, h⟩

theorem config_inRange {s : Settings} {c : Config} (h : s.config = .ok c) :
    between 0 2000 c.safetyDelay = true ∧ between 100 120000 c.maxRuntime = true := by
  obtain ⟨_, h₁, h⟩ := need_bind h
  obtain ⟨_, h₂, h⟩ := need_bind h
  obtain ⟨_, _, h⟩ := need_bind h
  obtain ⟨_, _, h⟩ := need_bind h
  obtain ⟨_, _, h⟩ := need_bind h
  cases h
  exact ⟨numberBetween?_between h₁, numberBetween?_between h₂⟩

/-- Sets the setting of a name. -/
def set? (s : Settings) (name : String) (d : Datum) : Option Settings :=
  match name with
  | "max_runtime_ms" => some { s with maxRuntime := d }
  | "safety_delay_ms" => some { s with safetyDelay := d }
  | "pin_count" => some { s with pinCount := d }
  | "yield_on_zero_delay" => some { s with yieldOnZeroDelay := d }
  | "cache_size" => some { s with cacheSize := d }
  | _ => none

/-- Sets settings by their names. -/
def ofNames (entries : List (Datum × Datum)) : Except SettingsProblem Settings :=
  entries.foldlM (fun s e => need (.unknownName e.1.plain) (s.set? e.1.plain e.2)) {}

/-- Reads settings from a mapping, in whose keys a hyphen stands for an underscore. -/
def ofDatum : Datum → Except SettingsProblem Settings
  | .map entries => entries.foldlM (fun s e =>
      let name := String.ofList (e.1.plain.toList.map fun c => if c == '-' then '_' else c)
      need (.unknownKey e.1.shown) (s.set? name e.2)) {}
  | d => .error (.notAMapping d.typeName)

end Settings
end LedSketch
