import Mathlib
import BoxLayout.Wire.Constraints
import BoxLayout.Proofs.Constraints.Recipe
import BoxLayout.Proofs.Wire.Objects

/-!
# Constraints read from data

A record is read in two steps. The first takes data from the text, where a field without a member has its
usual value, and the second makes a record of the data and checks it as a whole. The checks let pass what
edits could have built, so whatever has been saved can be loaded again, and nothing can be loaded that
edits would have refused.

## The architecture

* **`MeansLength`**, **`MeansOption`**, **`MeansChoice`**, **`MeansFlags`** — what a value of a text means,
  said without a reader; **`toOption_eq_ok_iff`** and the lemmas around it: the readers agree.
* **`Unchecked.facets`**, **`Unchecked.ToldBy`** — the fields of the data, with their names, their usual
  values and what is meant by a member; **`Unchecked.read_object_iff`** — an object is read as the data
  that it tells of.
* **`Unchecked.StandsFor`** — the record that data are for, field by field.
* **`validated_ofJson`** — the result, with the refusal where there is one.
-/

namespace BoxLayout

open Json

/-! ## What values mean -/

section Meanings

variable {β : Type}

/-- A number means the length that it is read as. -/
def MeansLength [NumberReader] (v : Json) (x : Float32) : Prop := ∃ n, v = .number n ∧ n.toSingle = x

/-- What is there means what it means by itself, and `null` means that there is nothing. -/
def MeansOption (means : Json → β → Prop) (v : Json) (x : Option β) : Prop :=
  v = .null ∧ x = none ∨ ∃ y, means v y ∧ x = some y

/-- A choice is meant by its name, alone or with `null` in an object. -/
def MeansChoice (choices : List (String × β)) (v : Json) (x : β) : Prop :=
  ∃ name, (name, x) ∈ choices ∧ (v = .string name ∨ v = .object [(name, .null)])

/-- Switches are meant by a text that names them. -/
def MeansFlags (v : Json) (flags : DebugFlags) : Prop :=
  ∃ s, v = .string s ∧ DebugFlags.ofText s = .ok flags

/-! The readers accept just what means something. -/

theorem toSingle_eq_ok_iff [NumberReader] {v : Json} {x : Float32} :
    toSingle v = .ok x ↔ MeansLength v x := by
  unfold MeansLength
  cases v <;> simp [toSingle]

theorem toBool_eq_ok_iff {v : Json} {b : Bool} : Json.toBool v = .ok b ↔ v = .bool b := by
  cases v <;> simp [Json.toBool]

theorem toText_eq_ok_iff {v : Json} {s : String} : toText v = .ok s ↔ v = .string s := by
  cases v <;> simp [toText]

theorem ofJson_eq_ok_iff {v : Json} {flags : DebugFlags} :
    DebugFlags.ofJson v = .ok flags ↔ MeansFlags v flags := by
  unfold MeansFlags
  cases v <;> simp [DebugFlags.ofJson]

/-- Nothing but the lack of a value is read from `null`. -/
theorem toOption_eq_ok_iff {read : Json → Except WireError β} {means : Json → β → Prop}
    (hread : ∀ v x, read v = .ok x ↔ means v x) (hnull : ∀ x, ¬ means .null x) {v : Json}
    {x : Option β} : toOption read v = .ok x ↔ MeansOption means v x := by
  have hsome {v : Json} (hv : v ≠ .null) : (read v).map some = .ok x ↔ MeansOption means v x := by
    simp only [MeansOption, hv, false_and, false_or, ← hread]
    cases read v <;> simp [Except.map, eq_comm]
  cases v with
  | null => simp [toOption, MeansOption, hnull, eq_comm]
  | _ => exact hsome nofun

/-- A name is that of one choice at most. -/
theorem chosen_eq_ok_iff {choices : List (String × β)} (hnames : (choices.map Prod.fst).Nodup)
    {name : String} {x : β} : chosen choices name = .ok x ↔ (name, x) ∈ choices := by
  unfold chosen
  split
  case h_1 other y hfound =>
    have hmem := List.mem_of_find?_eq_some hfound
    have hname : other = name := by simpa using List.find?_some hfound
    rw [Except.ok.injEq]
    refine ⟨fun heq => hname ▸ heq ▸ hmem, fun hx => ?_⟩
    -- two choices of one name are one choice
    exact congrArg Prod.snd (List.inj_on_of_nodup_map hnames hmem hx hname)
  case h_2 hnone =>
    refine ⟨nofun, fun hmem => ?_⟩
    exact absurd (beq_self_eq_true name) (List.find?_eq_none.mp hnone _ hmem)

/-- A choice is read just where one is meant. -/
theorem toVariant_eq_ok_iff {choices : List (String × β)} (hnames : (choices.map Prod.fst).Nodup)
    {v : Json} {x : β} : toVariant choices v = .ok x ↔ MeansChoice choices v x := by
  unfold MeansChoice
  cases v with
  | string name => simp [toVariant, chosen_eq_ok_iff hnames]
  | object members =>
    match members with
    | [] => simp [toVariant]
    | [(name, w)] =>
      simp only [toVariant, Except.bind_eq_ok_iff, chosen_eq_ok_iff hnames]
      -- only `null` may stand beside the name
      cases w <;> simp [pure, Except.pure, throw, throwThe, MonadExceptOf.throw]
    | _ :: _ :: _ => simp [toVariant]
  | _ => simp [toVariant]

/-- No choice is meant by `null`, so it is free to mean that nothing is chosen. -/
theorem not_meansChoice_null {choices : List (String × β)} (x : β) : ¬ MeansChoice choices .null x := by
  simp [MeansChoice]

end Meanings

/-! ## The fields of the data -/

namespace Unchecked

variable [NumberReader]

/-- The fields. Only a bound from above, an alignment and a name may be `null`. -/
def facets : List (Facet (Unchecked Float32)) := [
  ⟨"min_width", (·.min.width), Scalar.zero, MeansLength⟩,
  ⟨"max_width", (·.max.width), none, MeansOption MeansLength⟩,
  ⟨"min_height", (·.min.height), Scalar.zero, MeansLength⟩,
  ⟨"max_height", (·.max.height), none, MeansOption MeansLength⟩,
  ⟨"h_stretch_weight", (·.stretch.horizontal), Scalar.zero, MeansLength⟩,
  ⟨"v_stretch_weight", (·.stretch.vertical), Scalar.zero, MeansLength⟩,
  ⟨"ignore_natural_size", (·.ignoreNatural), false, fun v b => v = .bool b⟩,
  ⟨"desired_width_adjustment", (·.adjustment.width), Scalar.zero, MeansLength⟩,
  ⟨"desired_height_adjustment", (·.adjustment.height), Scalar.zero, MeansLength⟩,
  ⟨"left_margin", (·.margins.left), Scalar.zero, MeansLength⟩,
  ⟨"right_margin", (·.margins.right), Scalar.zero, MeansLength⟩,
  ⟨"top_margin", (·.margins.top), Scalar.zero, MeansLength⟩,
  ⟨"bottom_margin", (·.margins.bottom), Scalar.zero, MeansLength⟩,
  ⟨"h_spacing", (·.spacing.horizontal), Scalar.zero, MeansLength⟩,
  ⟨"v_spacing", (·.spacing.vertical), Scalar.zero, MeansLength⟩,
  ⟨"h_align", (·.hAlign), none, MeansOption (MeansChoice
    [("Left", .left), ("Center", .center), ("Right", .right), ("Fill", .fill)])⟩,
  ⟨"v_align", (·.vAlign), none, MeansOption (MeansChoice
    [("Top", .top), ("Center", .center), ("Bottom", .bottom), ("Fill", .fill)])⟩,
  ⟨"cell_positioning", (·.cells), .normal, MeansChoice [("Normal", .normal), ("Fill", .fill),
    ("FillWithAspectRatio", .fillWithAspectRatio), ("FitWithAspectRatio", .fitWithAspectRatio)]⟩,
  ⟨"debug_name", (·.name), none, MeansOption fun v s => v = .string s⟩,
  ⟨"debug_flags", (·.flags), .off, MeansFlags⟩]

/-- An object tells just what the data hold. It names no field twice; where it has a member for a field,
the data hold what the member means, and elsewhere what is usual. -/
def ToldBy (members : List (String × Json)) (d : Unchecked Float32) : Prop :=
  ∀ facet ∈ facets,
    (members.map Prod.fst).count facet.key ≤ 1 ∧ facet.Told members facet.usual d

/-- The fields have different names. -/
theorem nodup_keys : (schema.fields.map Field.key).Nodup := by
  have hkeys : schema.fields.map Field.key = ["min_width", "max_width", "min_height",
    "max_height", "h_stretch_weight", "v_stretch_weight", "ignore_natural_size",
    "desired_width_adjustment", "desired_height_adjustment", "left_margin", "right_margin", "top_margin",
    "bottom_margin", "h_spacing", "v_spacing", "h_align", "v_align", "cell_positioning", "debug_name",
    "debug_flags"] := rfl
  rw [hkeys]
  decide

section Facets

variable {key : String} {usual : Float32}

/-- A length is read as the number that a member holds. -/
theorem serves_length {get : Unchecked Float32 → Float32}
    {set : Unchecked Float32 → Float32 → Unchecked Float32} (hset : ∀ d x, get (set d x) = x) :
    (Field.single key get set).Serves ⟨key, get, usual, MeansLength⟩ :=
  Field.serves_of hset fun _ _ => toSingle_eq_ok_iff

/-- A bound is read as a length, or as missing. -/
theorem serves_bound {get : Unchecked Float32 → Option Float32}
    {set : Unchecked Float32 → Option Float32 → Unchecked Float32} (hset : ∀ d x, get (set d x) = x) :
    (Field.of key get set (ofOption ofSingle) (toOption toSingle)).Serves
      ⟨key, get, none, MeansOption MeansLength⟩ :=
  Field.serves_of hset fun _ _ => toOption_eq_ok_iff (fun _ _ => toSingle_eq_ok_iff) (by simp [MeansLength])

/-- Each field of the data is read as it is meant. -/
theorem forall₂_serves : List.Forall₂ Field.Serves schema.fields facets := by
  have hAlign (v : Json) (a : HAlign) : toVariant HAlign.named v = .ok a ↔ MeansChoice HAlign.named v a :=
    toVariant_eq_ok_iff (by decide)
  have vAlign (v : Json) (a : VAlign) : toVariant VAlign.named v = .ok a ↔ MeansChoice VAlign.named v a :=
    toVariant_eq_ok_iff (by decide)
  refine .cons (serves_length fun _ _ => rfl) (.cons (serves_bound fun _ _ => rfl) ?_)
  refine .cons (serves_length fun _ _ => rfl) (.cons (serves_bound fun _ _ => rfl) ?_)
  iterate 2 refine .cons (serves_length fun _ _ => rfl) ?_
  refine .cons (Field.serves_of (fun _ _ => rfl) fun _ _ => toBool_eq_ok_iff) ?_
  iterate 8 refine .cons (serves_length fun _ _ => rfl) ?_
  -- the alignments, the choice of cells, the name and the switches
  refine .cons (Field.serves_of (fun _ _ => rfl) fun _ _ =>
    toOption_eq_ok_iff hAlign not_meansChoice_null) ?_
  refine .cons (Field.serves_of (fun _ _ => rfl) fun _ _ =>
    toOption_eq_ok_iff vAlign not_meansChoice_null) ?_
  refine .cons (Field.serves_of (fun _ _ => rfl) fun _ _ => toVariant_eq_ok_iff (by decide)) ?_
  refine .cons (Field.serves_of (fun _ _ => rfl) fun _ _ =>
    toOption_eq_ok_iff (fun _ _ => toText_eq_ok_iff) (by simp)) ?_
  exact .cons (Field.serves_of (fun _ _ => rfl) fun _ _ => ofJson_eq_ok_iff) .nil

/-- No field writes where another one reads. -/
theorem keeps : ∀ facet ∈ facets, ∀ f ∈ schema.fields, f.key ≠ facet.key → f.Keeps facet.get := by
  unfold facets schema
  simp only [List.forall_mem_cons, List.not_mem_nil, false_imp_iff, implies_true, and_true]
  -- every field with every other one: the setters write to different places
  repeat' apply And.intro
  all_goals
    intro hne
    first
    | exact absurd rfl hne
    | exact Field.keeps_of fun _ _ => rfl

/-- The data that reading starts from are the usual ones. -/
theorem get_standard : ∀ facet ∈ facets, facet.get standard = facet.usual := by
  simp only [facets, List.forall_mem_cons]
  exact ⟨rfl, rfl, rfl, rfl, rfl, rfl, rfl, rfl, rfl, rfl, rfl, rfl, rfl, rfl, rfl, rfl, rfl, rfl, rfl,
    rfl, nofun⟩

/-- The fields are all that there is in the data. -/
theorem ext_facets {d d' : Unchecked Float32} (h : ∀ facet ∈ facets, facet.get d = facet.get d') :
    d = d' := by
  obtain ⟨⟨_, _⟩, ⟨_, _⟩, ⟨_, _⟩, _, ⟨_, _⟩, ⟨_, _, _, _⟩, ⟨_, _⟩, _, _, _, _, _⟩ := d
  obtain ⟨⟨_, _⟩, ⟨_, _⟩, ⟨_, _⟩, _, ⟨_, _⟩, ⟨_, _, _, _⟩, ⟨_, _⟩, _, _, _, _, _⟩ := d'
  simp only [facets, List.forall_mem_cons] at h
  obtain ⟨rfl, rfl, rfl, rfl, rfl, rfl, rfl, rfl, rfl, rfl, rfl, rfl, rfl, rfl, rfl, rfl, rfl, rfl, rfl,
    rfl, -⟩ := h
  rfl

end Facets

/-- **An object is read as the data that it tells of.** -/
theorem read_object_iff {members : List (String × Json)} {d : Unchecked Float32} :
    schema.read (.object members) = .ok d ↔ d.ToldBy members :=
  Schema.read_object_iff rfl forall₂_serves nodup_keys keeps get_standard
    fun _ _ => ext_facets

end Unchecked

/-! ## The record that data are for -/

namespace Unchecked

/-- A record has just what the data hold. A bound from above that is missing is unbounded. -/
structure StandsFor (d : Unchecked Float32) (c : Constraints Float32) : Prop where
  min : c.min = d.min
  max_width : d.max.width = some c.max.width ∨ d.max.width = none ∧ c.max.width = Scalar.infinity
  max_height : d.max.height = some c.max.height ∨ d.max.height = none ∧ c.max.height = Scalar.infinity
  stretch : c.stretch = d.stretch
  ignoreNatural : c.ignoreNatural = d.ignoreNatural
  adjustment : c.adjustment = d.adjustment
  margins : c.margins = d.margins
  spacing : c.spacing = d.spacing
  hAlign : c.hAlign = d.hAlign
  vAlign : c.vAlign = d.vAlign
  cells : c.cells = d.cells
  name : c.name = d.name
  flags : c.flags = d.flags

variable {d : Unchecked Float32} {c : Constraints Float32}

/-- A bound from above, with infinity where it is missing. -/
theorem getD_infinity_iff {bound : Option Float32} {x : Float32} :
    x = bound.getD Scalar.infinity ↔ bound = some x ∨ bound = none ∧ x = Scalar.infinity := by
  cases bound <;> simp [eq_comm]

/-- There is one such record, and it is the one that is checked. -/
theorem standsFor_iff : d.StandsFor c ↔ c = d.complete := by
  constructor
  · intro h
    obtain ⟨min, ⟨width, height⟩, stretch, ignoreNatural, adjustment, margins, spacing, hAlign, vAlign,
      cells, name, flags⟩ := c
    obtain ⟨rfl, hwidth, hheight, rfl, rfl, rfl, rfl, rfl, rfl, rfl, rfl, rfl, rfl⟩ := h
    -- all other fields are the same by now
    obtain rfl := getD_infinity_iff.mpr hwidth
    obtain rfl := getD_infinity_iff.mpr hheight
    rfl
  · rintro rfl
    exact ⟨rfl, getD_infinity_iff.mp rfl, getD_infinity_iff.mp rfl, rfl, rfl, rfl, rfl, rfl, rfl, rfl, rfl,
      rfl, rfl⟩

end Unchecked

namespace Constraints

/-- After the fields come the checks, whose refusal is the error. -/
theorem ofJson_of_read [NumberReader] {v : Json} {d : Unchecked Float32}
    (h : Unchecked.schema.read v = .ok d) : ofJson v = d.checked.mapError WireError.invalid := by
  rw [ofJson, h]
  simp only [bind, Except.bind]
  cases d.checked <;> rfl

/-- **Reading accepts just what edits can build**, as the record that they build, and otherwise fails with
the refusal of the first check that the record fails. This is so for all data, and the data are those that
an object tells of. -/
theorem validated_ofJson [NumberReader] (d : Unchecked Float32) :
    ∃ c, (∀ c', d.StandsFor c' ↔ c' = c) ∧
      (∀ c', d.checked = .ok c' ↔ c' = c ∧ ∃ edits, standard.after edits = c) ∧
      (∀ refusal, d.checked = .error refusal ↔ ∃ before check after,
        Check.inOrder = before ++ check :: after ∧ c.refusal? check = some refusal ∧
          ∀ earlier ∈ before, c.refusal? earlier = none) ∧
      (∀ v, Unchecked.schema.read v = .ok d → ofJson v = d.checked.mapError WireError.invalid) ∧
      ∀ members, Unchecked.schema.read (.object members) = .ok d ↔ d.ToldBy members := by
  refine ⟨d.complete, fun _ => Unchecked.standsFor_iff, fun c' => ?_, fun _ => validated_eq_error_iff,
    fun _ => ofJson_of_read, fun _ => Unchecked.read_object_iff⟩
  rw [Unchecked.checked, validated_eq_ok_iff, exists_after_eq_iff, and_comm]

/-- An object with a bound of each kind, and switches with and without a name. -/
def narrowMembers : List (String × Json) :=
  [("max_width", .number (.ofNat 40)), ("min_width", .number (.ofNat 5)), ("max_height", .null),
    ("debug_name", .string "narrow"), ("debug_flags", .string "LAYOUT | 0x80")]

/-- What the object tells. -/
def narrow : Unchecked Float32 :=
  { Unchecked.standard with
    min := ⟨Single.ofInt 5, Scalar.zero⟩, max := ⟨some (Single.ofInt 40), none⟩, name := some "narrow"
    flags := ⟨0x81⟩ }

/-- The record that stands for it, unbounded in height. -/
def narrowRecord : Constraints Float32 :=
  { (standard : Constraints Float32) with
    min := ⟨Single.ofInt 5, Scalar.zero⟩, max := ⟨Single.ofInt 40, Scalar.infinity⟩, name := some "narrow"
    flags := ⟨0x81⟩ }

/-- An object whose bounds are not in order, and whose margin, which is checked later, is negative. -/
def crossedMembers : List (String × Json) :=
  [("left_margin", .number ⟨true, ⟨1, 0⟩, true⟩), ("min_width", .number (.ofNat 30)),
    ("max_width", .number (.ofNat 10))]

/-- What the other object tells. -/
def crossed : Unchecked Float32 :=
  { Unchecked.standard with
    min := ⟨Single.ofInt 30, Scalar.zero⟩, max := ⟨some (Single.ofInt 10), none⟩
    margins := ⟨Scalar.zero, Scalar.zero, Scalar.zero, Single.ofInt (-1)⟩ }

/-- The first object is read as its record, which edits can build. Of the second, the order of the bounds
is refused and not the margin. -/
theorem validated_narrow :
    narrow.ToldBy narrowMembers ∧ (∃ edits, standard.after edits = narrowRecord) ∧
      ofJson (.object narrowMembers) = .ok narrowRecord ∧ crossed.ToldBy crossedMembers ∧
      ofJson (.object crossedMembers) =
        .error (.invalid (.minExceedsMax "width" (Single.ofInt 30) (Single.ofInt 10))) := by
  have hnarrow : Unchecked.schema.read (.object narrowMembers) = .ok narrow := rfl
  have hcrossed : Unchecked.schema.read (.object crossedMembers) = .ok crossed := rfl
  obtain ⟨c, hstands, hok, -, hread, htold⟩ := validated_ofJson narrow
  obtain ⟨-, -, -, -, hread', htold'⟩ := validated_ofJson crossed
  have hstandsFor : narrow.StandsFor narrowRecord :=
    ⟨rfl, Or.inl rfl, Or.inr ⟨rfl, rfl⟩, rfl, rfl, rfl, rfl, rfl, rfl, rfl, rfl, rfl, rfl⟩
  obtain rfl := (hstands _).mp hstandsFor
  have hchecked : narrow.checked = .ok narrowRecord := by rfl
  refine ⟨(htold _).mp hnarrow, ((hok _).mp hchecked).2, ?_, (htold' _).mp hcrossed, ?_⟩
  · rw [hread _ hnarrow, hchecked]
    rfl
  · rw [hread' _ hcrossed]
    rfl

end Constraints

end BoxLayout
