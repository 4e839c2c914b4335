import BoxLayout.Json
import BoxLayout.Error
import BoxLayout.Text.Quoted

/-!
# Reading typed data

Values of the library's types are read from JSON values and written as such.

* `WireError` — why a value is not one of a type; `WireError.message` is its text.
* `Json.toSingle`, `Json.toBool`, `Json.toText`, `Json.toCount` — the simple types.
* `Json.toVariant` — one of a list of names, by itself or as the only member of an object.
* `Schema` — a record by its fields: `Schema.write` makes an object of it, and `Schema.read` takes
  an object, in any order of its members, or a list of the fields in their order.
-/

namespace BoxLayout

/-! ## Errors -/

/-- What was expected where something else was found. -/
inductive Expected where
  | float
  | boolean
  | text
  | count
  | nothing
  | variant
  | flags
  | record (name : String)

def Expected.words : Expected → String
  | float => "f32"
  | boolean => "a boolean"
  | text => "a string"
  | count => "usize"
  | nothing => "unit"
  | variant => "string or map"
  | flags => "a string value of `|` separated flags"
  | record name => "struct " ++ name

/-- Why a value cannot be read. -/
inductive WireError where
  /-- A value of another sort. -/
  | wrongType (found : Json) (expected : Expected)
  /-- A negative count. -/
  | negativeCount (found : Int)
  /-- A variant as an object that has not exactly one member. -/
  | manyVariants
  | unknownVariant (name : String) (known : List String)
  | missingField (name : String)
  /-- Two members of one name. -/
  | repeatedField (name : String)
  /-- A list with fewer items than the record has fields. -/
  | shortList (length : Nat) (record : String) (fields : Nat)
  /-- A list with more items than the record has fields. -/
  | longList (length : Nat)
  | emptyFlag
  | invalidHexFlag
  | unknownFlag
  /-- Well-typed data that a check refuses. -/
  | invalid (error : ValidationError Float32)

def Json.sort [NumberReader] : Json → String
  | null => "null"
  | bool b => s!"boolean `{b}`"
  | number n =>
    match n.integer? with
    | some i => s!"integer `{i}`"
    | none => s!"floating point `{n.doubleText}`"
  | string s => "string " ++ Text.quoteShown s
  | array _ => "sequence"
  | object _ => "map"

namespace WireError

def alternatives (names : List String) : String :=
  let quoted := names.map fun name => s!"`{name}`"
  match quoted with
  | [first, second] => s!"{first} or {second}"
  | [only] => only
  | _ => "one of " ++ ", ".intercalate quoted

def message [NumberReader] : WireError → String
  | wrongType found expected => s!"invalid type: {found.sort}, expected {expected.words}"
  | negativeCount found =>
    s!"invalid value: integer `{found}`, expected {Expected.count.words}"
  | manyVariants => "invalid value: map, expected map with a single key"
  | unknownVariant name known => s!"unknown variant `{name}`, expected {alternatives known}"
  | missingField name => s!"missing field `{name}`"
  | repeatedField name => s!"duplicate field `{name}`"
  | shortList length record fields =>
    s!"invalid length {length}, expected struct {record} with {fields} elements"
  | longList length => s!"invalid length {length}, expected fewer elements in array"
  | emptyFlag => "encountered empty flag"
  | invalidHexFlag => "invalid hex flag"
  | unknownFlag => "unrecognized named flag"
  | invalid error => error.message

end WireError

/-! ## Simple types -/

namespace Json

def toSingle [NumberReader] : Json → Except WireError Float32
  | number n => .ok n.toSingle
  | v => .error (.wrongType v .float)

def toBool : Json → Except WireError Bool
  | bool b => .ok b
  | v => .error (.wrongType v .boolean)

def toText : Json → Except WireError String
  | string s => .ok s
  | v => .error (.wrongType v .text)

def toCount : Json → Except WireError Nat
  | number n =>
    match n.integer? with
    | some (.ofNat i) => .ok i
    | some i => .error (.negativeCount i)
    | none => .error (.wrongType (number n) .count)
  | v => .error (.wrongType v .count)

/-- A value that may be `null`. -/
def toOption {β : Type} (read : Json → Except WireError β) : Json → Except WireError (Option β)
  | null => .ok none
  | v => (read v).map some

def chosen {β : Type} (known : List (String × β)) (name : String) : Except WireError β :=
  match known.find? fun (other, _) => other == name with
  | some (_, choice) => .ok choice
  | none => .error (.unknownVariant name (known.map Prod.fst))

/-- One of several choices: its name, or an object with the name as its only member's and `null`
in it. -/
def toVariant {β : Type} (known : List (String × β)) : Json → Except WireError β
  | string name => chosen known name
  | object [(name, v)] => do
    let choice ← chosen known name
    match v with
    | null => return choice
    | v => throw (.wrongType v .nothing)
  | object _ => .error .manyVariants
  | v => .error (.wrongType v .variant)

/-- A value or `null`. -/
def ofOption {β : Type} (write : β → Json) : Option β → Json
  | some value => write value
  | none => null

end Json

/-! ## Records -/

/-- A field of a record: its name, how it is written, and how it is read into a record. -/
structure Field (ρ : Type) where
  key : String
  write : ρ → Json
  read : Json → ρ → Except WireError ρ

/-- A record by its fields. -/
structure Schema (ρ : Type) where
  name : String
  fields : List (Field ρ)
  /-- The record that the fields are read into. -/
  base : ρ
  /-- Whether a missing field keeps the value of `base`. -/
  lenient : Bool

def Field.of {ρ β : Type} (key : String) (get : ρ → β) (set : ρ → β → ρ) (write : β → Json)
    (read : Json → Except WireError β) : Field ρ :=
  { key, write := fun r => write (get r), read := fun v r => (read v).map (set r) }

namespace Schema

variable {ρ : Type}

def write (s : Schema ρ) (r : ρ) : Json := .object (s.fields.map fun f => (f.key, f.write r))

/-- The members of an object, read in the order of the text. A member that no field has the name of
is ignored; one whose field is in `seen` was there before. -/
def readMembers (fields : List (Field ρ)) (seen : List String) :
    List (String × Json) → ρ → Except WireError ρ
  | [], r => .ok r
  | (key, v) :: members, r =>
    match fields.find? fun f => f.key == key with
    | none => readMembers fields seen members r
    | some f =>
      if key ∈ seen then .error (.repeatedField key)
      else do readMembers fields (key :: seen) members (← f.read v r)

/-- The fields read from the items of a list, in order. `length` is the length of the whole list. -/
def readItems (s : Schema ρ) (length : Nat) : List (Field ρ) → List Json → ρ → Except WireError ρ
  | [], [], r => .ok r
  | [], _ :: _, _ => .error (.longList length)
  | _ :: _, [], r => if s.lenient then .ok r else .error (.shortList length s.name s.fields.length)
  | f :: fields, v :: items, r => do s.readItems length fields items (← f.read v r)

/-- The first field that is not a member of an object. -/
def missing? (s : Schema ρ) (members : List (String × Json)) : Option String :=
  (s.fields.map Field.key).find? fun key => (Json.member? key members).isNone

def read (s : Schema ρ) : Json → Except WireError ρ
  | .object members => do
    -- Members are read before it is asked whether one is missing.
    let r ← readMembers s.fields [] members s.base
    match s.missing? members with
    | some key => if s.lenient then return r else throw (.missingField key)
    | none => return r
  | .array items => s.readItems items.length s.fields items s.base
  | v => .error (.wrongType v (.record s.name))

end Schema

end BoxLayout
