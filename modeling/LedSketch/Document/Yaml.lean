import LedSketch.Document.Yaml.Node

/-!
# YAML documents

The datum of a document is the datum of its only node, or null if it has none. A map whose key is
`<<` takes over the entries of other maps; its own entries count more. Of two entries of one key the
last one counts, at the place of the first.

* `read` — the datum of a text.
-/

namespace LedSketch.Yaml

namespace Form

/-! ## Data of texts -/

/-- Without underscores. -/
def withoutLines (s : String) : List Char := s.toList.filter (· != '_')

/-- A text with a sign that may be missing; there must be a character. -/
def signed (cs : List Char) : Except Refusal (Bool × List Char) :=
  if cs.isEmpty then .error (.mishap .noSuchCharacter) else .ok (Reading.takeSign cs)

/-- An integer of a base. -/
def ofBase (base : Nat) (cs : List Char) : Except Refusal Int :=
  (Reading.readInt base cs).mapError .mishap

/-- An integer in any of its forms. -/
def int (s : String) : Except Refusal Int := do
  let (negative, cs) ← signed (withoutLines s)
  let n ← match cs with
    | ['0'] => pure 0
    | '0' :: 'b' :: rest => ofBase 2 rest
    | '0' :: 'x' :: rest => ofBase 16 rest
    | '0' :: _ => ofBase 8 cs
    | [] => .error (.mishap .noSuchCharacter)
    | cs => match colonParts cs with
      | [whole] => ofBase 10 whole
      | parts => do
        let ns ← parts.mapM (ofBase 10)
        pure (ns.foldl (fun n d => n * 60 + d) 0)
  return if negative then -n else n

/-- A decimal fraction in any of its forms. -/
def float (s : String) : Except Refusal Float := do
  let (negative, cs) ← signed ((Text.lower (String.ofList (withoutLines s))).toList)
  let read (cs : List Char) : Except Refusal Float := (Reading.readFloat cs).mapError .mishap
  if cs = ".nan".toList then return Binary64.nan
  else
    let x ←
      if cs = ".inf".toList then pure (Binary64.signedInfinity false)
      else match colonParts cs with
        | [whole] => read whole
        | parts => do
          let xs ← parts.mapM read
          let add (acc : Float × Float) (x : Float) : Float × Float :=
            (acc.1 + x * acc.2, acc.2 * 60.0)
          pure (xs.reverse.foldl add (0.0, 1.0)).1
    return if negative then -1.0 * x else x

/-- A truth value. -/
def bool (s : String) : Except Refusal Bool :=
  match truths.lookup (Text.lower s) with
  | some b => .ok b
  | none => .error (.mishap (.missingField (Text.lower s)))

/-- The bound of zones, in minutes. -/
def zoneBound : Int := 24 * 60

/-- The refusal of a zone that is too far away. -/
def zoneRefusal (minutes : Int) : Refusal :=
  let seconds := minutes * 60
  let days := seconds / 86400
  let left := seconds % 86400
  let delta := if left = 0 then s!"days={days}" else s!"days={days}, seconds={left}"
  .mishap (.refused ("offset must be a timedelta strictly between -timedelta(hours=24) and "
    ++ s!"timedelta(hours=24), not datetime.timedelta({delta})"))

/-- A date with or without a time; it must be in the calendar. -/
def moment (s : String) : Except Refusal Datum :=
  let sound (problem : Option String) : Except Refusal Unit := match problem with
    | some words => .error (.mishap (.refused words))
    | none => .ok ()
  match stamp? s.toList with
  | none => .error (.mishap (.noMember "NoneType" "groupdict"))
  | some t => do
    match t.time with
    | none =>
      sound t.date.problem?
      return t.date.datum
    | some (time, zone) =>
      if zone.any fun z => zoneBound ≤ z || z ≤ -zoneBound then
        .error (zoneRefusal (zone.getD 0))
      else
        sound t.date.problem?
        sound time.problem?
        return t.date.withTime time zone

/-- The digit that a character of base 64 stands for. -/
def digit64? (c : Char) : Option Nat :=
  if 'A' ≤ c && c ≤ 'Z' then some (c.toNat - 65)
  else if 'a' ≤ c && c ≤ 'z' then some (c.toNat - 71)
  else if '0' ≤ c && c ≤ '9' then some (c.toNat + 4)
  else if c = '+' then some 62
  else if c = '/' then some 63
  else none

/-- Whether digits of base 64 are complete: `have_` of four are there, and `pads` paddings. -/
def isComplete64 (have_ pads : Nat) : List Char → Bool
  | [] => have_ == 0
  | c :: rest =>
    if c = '=' then
      if 2 ≤ have_ && 4 ≤ have_ + pads + 1 then true
      else isComplete64 have_ (if 2 ≤ have_ then pads + 1 else pads) rest
    else if (digit64? c).isSome then isComplete64 ((have_ + 1) % 4) 0 rest
    else isComplete64 have_ pads rest

/-- Octets in base 64. -/
def octets (s : String) : Except Refusal Datum :=
  if s.toList.all (·.toNat < 128) && isComplete64 0 0 s.toList then .ok (.other "bytes" "b''")
  else refuse

/-- The datum of a text with a tag. -/
def datum (t : Tag) (s : String) : Except Refusal Datum :=
  match t with
  | .str => .ok (.str s)
  | .null => .ok .null
  | .bool => (bool s).map .bool
  | .int => (int s).map fun n => .num (.int n)
  | .float => (float s).map fun x => .num (.float x)
  | .timestamp => moment s
  | .binary => octets s
  | .seq | .map | .set | .orderedMap | .pairs | .merge | .default | .unknown => refuse

end Form

/-! ## Data of nodes -/

namespace Node

/-- The tag of a node. -/
def tag : Node → Tag
  | .text t _ | .list t _ | .map t _ => t
  | .around _ => .unknown

/-- Whether a datum may be a key. -/
def isKey : Datum → Bool
  | .list _ | .map _ => false
  | .other type _ => type != "set"
  | _ => true

mutual

/-- The datum of a node. -/
def datum : Node → Except Refusal Datum
  | .text t s => Form.datum t s
  | .list t items =>
    match t with
    | .seq => do return .list (← data items)
    | .orderedMap | .pairs => do return .list (← pairs items)
    | _ => refuse
  | .map t entries =>
    match t with
    | .map => do
      let (merged, own) ← members entries
      return .map ((merged ++ own).foldl (fun es e => Datum.put es e.1 e.2) [])
    | .set => do
      let _ ← members entries
      return .other "set" ""
    | .str | .null | .bool | .int | .float | .timestamp | .binary => textOf t entries
    | _ => refuse
  | .around _ => .ok .null

/-- The data of some nodes. -/
def data : List Node → Except Refusal (List Datum)
  | [] => .ok []
  | n :: ns => do
    let d ← datum n
    return d :: (← data ns)

/-- The only entries of some maps, as rows. -/
def pairs : List Node → Except Refusal (List Datum)
  | [] => .ok []
  | .map _ [(k, v)] :: ns => do
    let k ← datum k
    let v ← datum v
    return .row [k, v] :: (← pairs ns)
  | _ :: _ => refuse

/-- The entries that a map takes over, and its own ones. -/
def members : List (Node × Node) → Except Refusal (List (Datum × Datum) × List (Datum × Datum))
  | [] => .ok ([], [])
  | (k, v) :: rest =>
    if k.tag = .merge then do
      let here ← taken v
      let (merged, own) ← members rest
      return (here ++ merged, own)
    else do
      let key ← match k with
        | .text .default s => pure (.str s)
        | k => datum k
      if isKey key then
        let d ← datum v
        let (merged, own) ← members rest
        return (merged, (key, d) :: own)
      else refuse

/-- The entries of a map, or of some maps, that another one takes over. -/
def taken : Node → Except Refusal (List (Datum × Datum))
  | .map _ entries => do
    let (merged, own) ← members entries
    return merged ++ own
  | .list _ items => takenAll items
  | _ => refuse

/-- The entries of some maps; those of the first map come last and count most. -/
def takenAll : List Node → Except Refusal (List (Datum × Datum))
  | [] => .ok []
  | .map _ entries :: ns => do
    let (merged, own) ← members entries
    return (← takenAll ns) ++ merged ++ own
  | _ :: _ => refuse

/-- The text of a map with the key `=`. -/
def textOf (t : Tag) : List (Node × Node) → Except Refusal Datum
  | [] => refuse
  | (k, v) :: rest =>
    if k.tag = .default then
      match v with
      | .text _ s => Form.datum t s
      | .map _ entries => textOf t entries
      | _ => refuse
    else textOf t rest

end

end Node

/-- Reads a document. -/
def read (s : String) : Except Refusal Datum := do
  match ← document s with
  | none => return .null
  | some n => n.datum

end LedSketch.Yaml
