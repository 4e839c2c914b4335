/-!
# Arenas

A store whose entries are found by an id that is never valid again once its entry is gone. An id
names a slot and the version of the slot's content. The version goes up when an entry is erased and
again when the slot is used anew, so content and vacancy alternate.

* `ViewId` — an id, and its text.
* `Arena` — the slots, with a stack of the vacant ones.
* `Arena.get?`, `Arena.insert`, `Arena.update`, `Arena.erase` — the operations.
* `Arena.entries` — all entries in the order of their slots.
-/

namespace BoxLayout

/-- The id of an entry. -/
structure ViewId where
  slot : Nat
  version : Nat
  deriving DecidableEq

/-- An id as messages show it; slots are counted from one. -/
def ViewId.text (id : ViewId) : String := s!"ViewId({id.slot + 1}v{id.version})"

/-- A slot: the version of its present or next-to-last content, and the content if there is one. -/
structure Slot (β : Type) where
  version : Nat
  content : Option β

/-- A store with versioned slots. -/
structure Arena (β : Type) where
  slots : Array (Slot β)
  /-- The vacant slots, the one to be used next in front. -/
  free : List Nat

namespace Arena

variable {β : Type}

def empty : Arena β := ⟨#[], []⟩

/-- The entry of an id; none if it has been erased. -/
def get? (a : Arena β) (id : ViewId) : Option β :=
  match a.slots[id.slot]? with
  | some slot => if slot.version = id.version then slot.content else none
  | none => none

/-- The store with a new entry, and the entry's id. The slot vacated last is used first. -/
def insert (a : Arena β) (entry : β) : ViewId × Arena β :=
  match a.free with
  | [] => (⟨a.slots.size, 1⟩, { a with slots := a.slots.push ⟨1, some entry⟩ })
  | slot :: free =>
    -- A vacant slot keeps its version, so no version is given twice.
    let version := (a.slots[slot]?.elim 0 Slot.version) + 1
    (⟨slot, version⟩, ⟨a.slots.setIfInBounds slot ⟨version, some entry⟩, free⟩)

/-- The store with one entry changed; the same store if there is no such entry. -/
def update (a : Arena β) (id : ViewId) (change : β → β) : Arena β :=
  match a.get? id with
  | some entry =>
    { a with slots := a.slots.setIfInBounds id.slot ⟨id.version, some (change entry)⟩ }
  | none => a

/-- The store without an entry; the same store if there is no such entry. -/
def erase (a : Arena β) (id : ViewId) : Arena β :=
  match a.get? id with
  | some _ => ⟨a.slots.setIfInBounds id.slot ⟨id.version + 1, none⟩, id.slot :: a.free⟩
  | none => a

/-- All entries with their ids, in the order of their slots. -/
def entries (a : Arena β) : List (ViewId × β) :=
  a.slots.toList.zipIdx.filterMap fun (slot, index) =>
    slot.content.map fun entry => (⟨index, slot.version⟩, entry)

def size (a : Arena β) : Nat := a.entries.length

/-! ## What the operations do to look-ups

An id and the entry under it are all that a look-up shows. The store is described by what `get?`
gives for every id after an operation, by what it gave before. -/

@[simp] theorem get?_empty (id : ViewId) : (empty : Arena β).get? id = none := by
  simp [empty, get?]

/-- An entry is present just if its slot holds it in the version of the id. -/
theorem get?_eq_some_iff {a : Arena β} {id : ViewId} {entry : β} :
    a.get? id = some entry ↔ a.slots[id.slot]? = some ⟨id.version, some entry⟩ := by
  unfold get?
  split
  case h_1 slot h =>
    obtain ⟨version, content⟩ := slot
    simp only [h, Option.some.injEq, Slot.mk.injEq, Option.ite_none_right_eq_some]
  case h_2 h => simp [h]

/-- A slot has one entry at most: beside a present one no other id of its slot is valid. -/
theorem get?_eq_none_of_slot_eq {a : Arena β} {id other : ViewId} {entry : β}
    (held : a.get? id = some entry) (slot : other.slot = id.slot) (ne : other ≠ id) :
    a.get? other = none := by
  rw [Option.eq_none_iff_forall_ne_some]
  intro found present
  rw [get?_eq_some_iff] at held present
  rw [slot, held] at present
  obtain ⟨_, _⟩ := other
  obtain ⟨_, _⟩ := id
  simp_all

/-- Overwriting a slot changes nothing for the ids of other slots. -/
theorem get?_setIfInBounds_of_ne {a : Arena β} {index : Nat} {slot : Slot β} {free : List Nat}
    {other : ViewId} (ne : other.slot ≠ index) :
    get? ⟨a.slots.setIfInBounds index slot, free⟩ other = a.get? other := by
  simp [get?, Array.getElem?_setIfInBounds_ne ne.symm]

theorem get?_setIfInBounds_self {a : Arena β} {slot : Slot β} {free : List Nat}
    {other : ViewId} (bound : other.slot < a.slots.size) :
    get? ⟨a.slots.setIfInBounds other.slot slot, free⟩ other =
      if slot.version = other.version then slot.content else none := by
  simp [get?, bound]

theorem slot_lt_of_get? {a : Arena β} {id : ViewId} {entry : β} (held : a.get? id = some entry) :
    id.slot < a.slots.size := (Array.getElem?_eq_some_iff.1 (get?_eq_some_iff.1 held)).1

/-- An update changes what its id names and nothing else. -/
theorem get?_update (a : Arena β) (id other : ViewId) (change : β → β) :
    (a.update id change).get? other =
      if other = id then (a.get? id).map change else a.get? other := by
  unfold update
  split
  case h_1 entry held =>
    have bound := slot_lt_of_get? held
    by_cases slot : other.slot = id.slot
    · rw [← slot, get?_setIfInBounds_self (slot ▸ bound)]
      by_cases same : other = id
      · simp [same, held]
      · have version : id.version ≠ other.version := fun version =>
          same (by cases other; cases id; simp_all)
        rw [if_neg version, if_neg same, get?_eq_none_of_slot_eq held slot same]
    · rw [get?_setIfInBounds_of_ne slot, if_neg fun same => slot (congrArg ViewId.slot same)]
  case h_2 absent =>
    split
    case isTrue same => rw [same, absent]; rfl
    case isFalse => rfl

/-- Erasing takes away what its id names and nothing else. -/
theorem get?_erase (a : Arena β) (id other : ViewId) :
    (a.erase id).get? other = if other = id then none else a.get? other := by
  unfold erase
  split
  case h_1 entry held =>
    have bound := slot_lt_of_get? held
    by_cases slot : other.slot = id.slot
    · rw [← slot, get?_setIfInBounds_self (slot ▸ bound), ite_self]
      by_cases same : other = id
      · rw [if_pos same]
      · rw [if_neg same, get?_eq_none_of_slot_eq held slot same]
    · rw [get?_setIfInBounds_of_ne slot, if_neg fun same => slot (congrArg ViewId.slot same)]
  case h_2 absent =>
    split
    case isTrue same => rw [same, absent]
    case isFalse => rfl

end Arena

end BoxLayout
