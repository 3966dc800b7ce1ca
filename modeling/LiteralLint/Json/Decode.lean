import LiteralLint.Json.Draft
import LiteralLint.Number.Shortest
import LiteralLint.Text.Quotation

/-! # Reading typed values from JSON

A decoder walks a draft in the order of the text and stops at the first thing that is wrong, be it a
value of another type or a fault of the text itself. -/

set_option autoImplicit false

namespace LiteralLint

/-- What can be wrong with a value where another type is wanted. How the value that was found is
described is left to the format it was written in. -/
inductive Mismatch (Found : Type) where
  | invalidType (found : Found) (expected : String)
  | invalidValue (found : Found) (expected : String)
  | invalidLength (found : Nat) (expected : String)
  | unknownVariant (found : String) (known : List String)
  | missingField (name : String)
  | duplicateField (name : String)
deriving DecidableEq, Repr

def choiceOf (names : List String) : String :=
  match names.map fun n => s!"\x60{n}\x60" with
  | [] => ""
  | [a] => a
  | [a, b] => s!"{a} or {b}"
  | many => "one of " ++ ", ".intercalate many

namespace Json

inductive Found where
  | null
  | bool (value : Bool)
  | integer (value : Int)
  | real (value : Binary64)
  | string (value : String)
  | sequence
  | map
deriving DecidableEq, Repr

def Found.describe : Found → String
  | null => "null"
  | bool b => s!"boolean \x60{b}\x60"
  | integer n => s!"integer \x60{n}\x60"
  | real f => s!"floating point \x60{String.ofList f.fractional}\x60"
  | string s => s!"string {Text.quoted s}"
  | sequence => "sequence"
  | map => "map"

def describeMismatch : Mismatch Found → String
  | .invalidType found expected => s!"invalid type: {found.describe}, expected {expected}"
  | .invalidValue found expected => s!"invalid value: {found.describe}, expected {expected}"
  | .invalidLength found expected => s!"invalid length {found}, expected {expected}"
  | .unknownVariant found known => s!"unknown variant \x60{found}\x60, expected {choiceOf known}"
  | .missingField name => s!"missing field \x60{name}\x60"
  | .duplicateField name => s!"duplicate field \x60{name}\x60"

inductive DecodeError where
  | malformed
  | mismatch (cause : Mismatch Found)
deriving DecidableEq, Repr

abbrev Decoder (α : Type) := Draft → Except DecodeError α

def Draft.found : Decoder Found
  | .null => .ok .null
  | .bool b => .ok (.bool b)
  | .number n =>
    match n.value? with
    | some (.natural v) => .ok (.integer v)
    | some (.negative v) => .ok (.integer v)
    | some (.real f) => .ok (.real f)
    | none => .error .malformed
  | .string (some s) => .ok (.string s)
  | .string none => .error .malformed
  | .array _ _ => .ok .sequence
  | .object _ _ => .ok .map
  | .faulty => .error .malformed

def wrongType {α : Type} (expected : String) (d : Draft) : Except DecodeError α := do
  throw (.mismatch (.invalidType (← d.found) expected))

mutual

/-- Whether a value can be passed over: its text has no fault. -/
def Draft.isSound : Draft → Bool
  | .array items closed => soundItems items && closed
  | .object members closed => soundMembers members && closed
  | .faulty => false
  | _ => true

def soundItems : List Draft → Bool
  | [] => true
  | d :: ds => d.isSound && soundItems ds

def soundMembers : List (Option String × Draft) → Bool
  | [] => true
  | (_, d) :: ds => d.isSound && soundMembers ds

end

namespace Decode

def integerIn (least greatest : Int) (expected : String) : Decoder Int := fun d =>
  let check (v : Int) :=
    if least ≤ v ∧ v ≤ greatest then .ok v
    else .error (.mismatch (.invalidValue (.integer v) expected))
  match d with
  | .number n =>
    match n.value? with
    | some (.natural v) => check v
    | some (.negative v) => check v
    | _ => wrongType expected d
  | d => wrongType expected d

def natural : Decoder Nat := fun d => Int.toNat <$> integerIn 0 greatestNatural "usize" d

def int32 : Decoder Int32 := fun d =>
  Int32.ofInt <$> integerIn Int32.minValue.toInt Int32.maxValue.toInt "i32" d

def bool : Decoder Bool
  | .bool b => .ok b
  | d => wrongType "a boolean" d

def stringAs (expected : String) : Decoder String
  | .string (some s) => .ok s
  | d => wrongType expected d

def string : Decoder String := stringAs "a string"

def path : Decoder String := stringAs "a UTF-8 path string"

def optional {α : Type} (item : Decoder α) : Decoder (Option α)
  | .null => .ok none
  | d => some <$> item d

def list {α : Type} (item : Decoder α) : Decoder (List α)
  | .array items closed => do
    let values ← items.mapM item
    if closed then return values else throw .malformed
  | d => wrongType "a sequence" d

/-- One of several names: as a string, or as an object with that one member set to null. -/
def variant {α : Type} (all : List α) (name : α → String) : Decoder α := fun d =>
  let find (s : String) : Except DecodeError α :=
    match all.find? fun a => name a == s with
    | some a => .ok a
    | none => .error (.mismatch (.unknownVariant s (all.map name)))
  match d with
  | .string (some s) => find s
  | .object ((some s, value) :: members) closed => do
    let a ← find s
    match value with
    | .null => if members.isEmpty && closed then return a else throw .malformed
    | value => wrongType "unit" value
  | _ => .error .malformed

end Decode

/-- How a record is read: the names of its fields in order, the check of one named field, and the
record built from the fields that were given. -/
structure Record (α : Type) where
  names : List String
  accept : String → Draft → Except DecodeError Unit
  build : (String → Option Draft) → (String → DecodeError) → Except DecodeError α

namespace Record

def pure {α : Type} (a : α) : Record α := ⟨[], fun _ _ => .ok (), fun _ _ => .ok a⟩

def field {α : Type} (name : String) (item : Decoder α) (default? : Option α) : Record α where
  names := [name]
  accept n d := if n = name then (item d).map fun _ => () else .ok ()
  build given missing :=
    match given name, default? with
    | some d, _ => item d
    | none, some a => .ok a
    | none, none => .error (missing name)

def required {α : Type} (name : String) (item : Decoder α) : Record α := field name item none

def and {α β γ : Type} (f : α → β → γ) (a : Record α) (b : Record β) : Record γ where
  names := a.names ++ b.names
  accept n d := do
    a.accept n d
    b.accept n d
  build given missing := do
    let x ← a.build given missing
    let y ← b.build given missing
    return f x y

def apply {α β : Type} (f : Record (α → β)) (a : Record α) : Record β := and (· ·) f a

/-- Reads the members in order. Unknown ones are passed over, repeated ones are refused. -/
def ofMembers {α : Type} (r : Record α) (closed : Bool) :
    List (String × Draft) → List (Option String × Draft) → Except DecodeError α
  | seen, [] =>
    if closed then r.build (List.lookup · seen) fun name => .mismatch (.missingField name)
    else .error .malformed
  | _, (none, _) :: _ => .error .malformed
  | seen, (some name, d) :: members =>
    if name ∈ r.names then
      if (List.lookup name seen).isSome then .error (.mismatch (.duplicateField name))
      else do
        r.accept name d
        r.ofMembers closed ((name, d) :: seen) members
    else if d.isSound then r.ofMembers closed seen members
    else .error .malformed

def ofItems {α : Type} (r : Record α) (title : String) (items : List Draft) (closed : Bool) :
    Except DecodeError α := do
  let given := r.names.zip items
  given.forM fun (name, d) => r.accept name d
  let count := r.names.length
  let plural := if count = 1 then "" else "s"
  let tooFew := Mismatch.invalidLength items.length s!"struct {title} with {count} element{plural}"
  if items.length ≥ count ∨ closed then
    let a ← r.build (List.lookup · given) fun _ => .mismatch tooFew
    if items.length ≤ count ∧ closed then return a else throw .malformed
  else throw .malformed

def decoder {α : Type} (r : Record α) (title : String) : Decoder α
  | .array items closed => r.ofItems title items closed
  | .object members closed => r.ofMembers closed [] members
  | d => wrongType s!"struct {title}" d

end Record

/-- Decodes a whole text. What follows the value counts only once the value itself is right. -/
def decodeText {α : Type} (decoder : Decoder α) (text : String) : Except DecodeError α := do
  let document := read text.toList
  let a ← decoder document.root
  if document.complete then return a else throw .malformed

end Json

end LiteralLint
