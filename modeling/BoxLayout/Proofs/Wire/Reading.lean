import Mathlib
import BoxLayout.Wire.Flags
import BoxLayout.Wire.Geometry
import BoxLayout.Proofs.Json.Floats

/-!
# Records through text

A record is saved as an object of its fields and read again. Between the two stands the text, where numbers
may get other digits, and the reader of numbers.

## The architecture

* **`ComesBack`** — a value that is written comes back when it is read; single values one sort at a time,
  up to **`ofText_text`**: the text of a set of switches, bits without a name included, is that set again.
* **`Schema.readMembers_written`**, **`Schema.read_respelled`** — a record is read from what is written of
  its fields, one after another.
* **`Schema.ReadsTo`** — what comes back of the fields of a record, field by field; **`ReadsTo.read`** — and
  of the whole.
-/

namespace BoxLayout

open Json

/-! ## Single values -/

section Values

variable {β : Type} {read : Json → Except WireError β} {v : Json} {x : β}

/-- A value is written as `v`, and read again as `x`. -/
structure ComesBack (read : Json → Except WireError β) (v : Json) (x : β) : Prop where
  plain : Plain v
  read_eq : read v.respelled = .ok x

/-- A switch is written as itself. -/
theorem comesBack_bool (b : Bool) : ComesBack toBool (.bool b) b := ⟨.bool b, rfl⟩

/-- A text comes back with all its characters. -/
theorem comesBack_text (s : String) : ComesBack toText (.string s) s := ⟨.string s, rfl⟩

/-- A count of 64 bits is read back. -/
theorem comesBack_count (n : UInt64) : ComesBack toCount (.number (.ofNat n.toNat)) n.toNat := by
  have hinteger : (Numeral.ofNat n.toNat).integer? = some (n.toNat : ℤ) := if_pos n.toNat_lt
  refine ⟨.count _, ?_⟩
  show toCount (.number (.ofNat n.toNat)) = _
  simp only [toCount, hinteger]

/-- A choice that is written by its name. -/
theorem comesBack_name {known : List (String × β)} {name : β → String}
    (h : ∀ b, chosen known (name b) = .ok b) (b : β) :
    ComesBack (toVariant known) (.string (name b)) b := ⟨.string _, h b⟩

/-- What may be missing comes back if it comes back where it is there, and is not written as `null`
there. -/
theorem comesBack_option {write : β → Json} {value : Option β}
    (h : ∀ b, value = some b → ComesBack read (write b) b ∧ write b ≠ .null) :
    ComesBack (toOption read) (ofOption write value) value := by
  cases value with
  | none => exact ⟨.null, rfl⟩
  | some b =>
    obtain ⟨⟨hplain, hread⟩, hnull⟩ := h b rfl
    refine ⟨hplain, ?_⟩
    show toOption read (write b).respelled = _
    generalize write b = v at *
    cases v with
    -- if it were written as `null`, it would be read as missing
    | null => exact absurd rfl hnull
    | _ => exact congrArg (Except.map some) hread

/-- A number is written by its digits. -/
theorem ofSingle_of_isFinite {x : Float32} (hx : x.isFinite = true) :
    Json.ofSingle x = .number (.ofSingle x) := if_pos hx

/-- A float that is a number comes back if the reader of numbers gives floats back. -/
theorem comesBack_single [NumberReader] (h : NumberReader.ReadsBack) {x : Float32}
    (hx : x.isFinite = true) : ComesBack toSingle (Json.ofSingle x) x := by
  refine ⟨Single.plain_ofSingle x, ?_⟩
  rw [ofSingle_of_isFinite hx]
  exact congrArg Except.ok (h.toSingle_respelled hx)

end Values

/-! ## Switches -/

namespace DebugFlags

/-- The characters of a set's text. -/
def chars (flags : DebugFlags) : List Char :=
  let names := (named.filter fun (_, flag) => flags.contains flag).map fun (name, _) => name.toList
  let rest := flags.unnamed.bits.toNat
  let hex := if rest = 0 then [] else ['0' :: 'x' :: Text.hex rest]
  [' ', '|', ' '].intercalate (names ++ hex)

/-- The text has the characters that have been listed. -/
theorem toList_text (flags : DebugFlags) : flags.text.toList = flags.chars := by
  unfold text chars
  rw [String.toList_intercalate]
  dsimp only
  split_ifs <;> simp [Function.comp_def]

/-- A set of switches from the characters of its text. -/
def ofChars (cs : List Char) : Except WireError DebugFlags :=
  if (Text.trim cs).isEmpty then .ok off
  else
    (Text.splitAt '|' cs).foldlM (fun flags piece => return flags.union (← ofPiece piece)) off

/-- Reading a text is reading its characters. -/
theorem ofText_eq (s : String) : ofText s = ofChars s.toList := rfl

/-- **The text of a set of switches is read as the set**, whatever bits are in it. -/
theorem ofText_text (flags : DebugFlags) : ofText flags.text = .ok flags := by
  -- there are just 256 sets, and on lists of characters both directions evaluate
  have hread : ∀ bits : BitVec 8, (ofChars (chars ⟨⟨bits⟩⟩)).toOption = some ⟨⟨bits⟩⟩ := by
    decide +kernel
  obtain ⟨⟨bits⟩⟩ := flags
  rw [ofText_eq, toList_text]
  have := hread bits
  cases h : ofChars (chars ⟨⟨bits⟩⟩) with
  | error e =>
    rw [h] at this
    nomatch this
  | ok flags =>
    rw [h] at this
    exact congrArg Except.ok (Option.some.inj this)

/-- A set of switches comes back from its text. -/
theorem comesBack (flags : DebugFlags) : ComesBack ofJson (toJson flags) flags :=
  ⟨.string _, ofText_text flags⟩

end DebugFlags

/-! ## Records -/

namespace Schema

variable {ρ : Type} {s : Schema ρ} {r base : ρ} {fields all : List (Field ρ)}

/-- What the text holds of a record. -/
def respelled (s : Schema ρ) (r : ρ) : Json :=
  .object (s.fields.map fun f => (f.key, (f.write r).respelled))

/-- What is written of a record can be parsed, and is its members with numbers as they stand in the text.
-/
theorem read?_write (h : ∀ f ∈ s.fields, Plain (f.write r)) :
    Json.read? (s.write r).text = some (s.respelled r) := by
  rw [write, read?_object (List.forall_mem_map.mpr h), List.map_map]
  rfl

/-- What is written of the fields of a record, read into another one. -/
def readBack (r : ρ) (fields : List (Field ρ)) (base : ρ) : Except WireError ρ :=
  fields.foldlM (fun read f => f.read (f.write r).respelled read) base

/-- Where all names are different, a field is found by its name. -/
theorem find?_key (hkeys : (all.map Field.key).Nodup) {f : Field ρ} (hf : f ∈ all) :
    all.find? (fun g => g.key == f.key) = some f := by
  induction all with
  | nil => nomatch hf
  | cons g all ih =>
    obtain ⟨hg, hkeys⟩ := List.nodup_cons.mp hkeys
    rw [List.find?_cons]
    rcases List.mem_cons.mp hf with rfl | hf
    · rw [beq_self_eq_true]
    · have hne : g.key ≠ f.key := fun heq => hg (heq ▸ List.mem_map_of_mem hf)
      rw [beq_false_of_ne hne]
      exact ih hkeys hf

/-- **Members that were written are read one after another**, each by its own field. The induction is on
the fields whose members are still to be read. -/
theorem readMembers_written (hkeys : (all.map Field.key).Nodup) {seen : List String}
    (hall : ∀ f ∈ fields, f ∈ all) (hfields : (fields.map Field.key).Nodup)
    (hseen : ∀ f ∈ fields, f.key ∉ seen) :
    readMembers all seen (fields.map fun f => (f.key, (f.write r).respelled)) base =
      readBack r fields base := by
  induction fields generalizing seen base with
  | nil => rfl
  | cons f fields ih =>
    obtain ⟨hf, hall⟩ := List.forall_mem_cons.mp hall
    obtain ⟨hfirst, hseen⟩ := List.forall_mem_cons.mp hseen
    obtain ⟨hother, hfields⟩ := List.nodup_cons.mp hfields
    rw [List.map_cons, readMembers, find?_key hkeys hf, readBack, List.foldlM_cons]
    simp only [if_neg hfirst]
    -- the member is that of the first field, and no member after it has the name again
    refine bind_congr fun _ => ih hall hfields fun g hg hmem => ?_
    rcases List.mem_cons.mp hmem with heq | hmem
    · exact hother (heq ▸ List.mem_map_of_mem hg)
    · exact hseen g hg hmem

/-- A name that occurs among members is that of a member. -/
theorem isSome_member? {key : String} {members : List (String × Json)}
    (h : key ∈ members.map Prod.fst) : (member? key members).isSome = true := by
  induction members with
  | nil => nomatch h
  | cons member members ih =>
    unfold member?
    split_ifs with heq
    · rfl
    · exact ih ((List.mem_cons.mp h).resolve_left fun hkey => heq hkey.symm)

/-- **A record is read from what is written of its fields**, if their names are different. -/
theorem read_respelled (hkeys : (s.fields.map Field.key).Nodup) :
    s.read (s.respelled r) = readBack r s.fields s.base := by
  -- every field has been written, so none is missing
  have hmissing : s.missing? (s.fields.map fun f => (f.key, (f.write r).respelled)) = none := by
    refine List.find?_eq_none.mpr fun key hkey => ?_
    have hmember : key ∈ (s.fields.map fun f => (f.key, (f.write r).respelled)).map Prod.fst := by
      rwa [List.map_map]
    rw [← Option.not_isSome, isSome_member? hmember]
    decide
  rw [respelled, read, readMembers_written hkeys (fun _ hf => hf) hkeys fun _ _ => List.not_mem_nil,
    hmissing]
  exact bind_pure _

/-- Fields of a record that are written so that their text can be read, and what is read of them. -/
structure ReadsTo (r : ρ) (fields : List (Field ρ)) (base : ρ) (result : Except WireError ρ) : Prop where
  plain : ∀ f ∈ fields, Plain (f.write r)
  readBack_eq : readBack r fields base = result

namespace ReadsTo

variable {β : Type} {result : Except WireError ρ}

/-- Without fields nothing is read. -/
theorem nil : ReadsTo r [] base (.ok base) where
  plain _ hf := nomatch hf
  readBack_eq := rfl

/-- A field whose value comes back, before others. -/
theorem of {key : String} {get : ρ → β} {set : ρ → β → ρ} {write : β → Json}
    {read : Json → Except WireError β} {x : β} (h : ComesBack read (write (get r)) x)
    (hfields : ReadsTo r fields (set base x) result) :
    ReadsTo r (.of key get set write read :: fields) base result where
  plain := List.forall_mem_cons.mpr ⟨h.plain, hfields.plain⟩
  readBack_eq := by
    rw [readBack, List.foldlM_cons]
    show (read (write (get r)).respelled).map (set base) >>= _ = _
    rw [h.read_eq]
    exact hfields.readBack_eq

/-- **The whole record through text**, if its fields have different names. -/
theorem read (h : ReadsTo r s.fields s.base result) (hkeys : (s.fields.map Field.key).Nodup) :
    ∃ v, Json.read? (s.write r).text = some v ∧ s.read v = result :=
  ⟨s.respelled r, read?_write h.plain, (read_respelled hkeys).trans h.readBack_eq⟩

end ReadsTo

end Schema

end BoxLayout
