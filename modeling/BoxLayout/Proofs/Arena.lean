import Mathlib
import BoxLayout.Arena

/-!
# Sound arenas

An arena hands out the slots of its stack of vacant ones first, so the stack must name vacant slots
only, and each of them once. Under this invariant an insertion overwrites no entry, and the id it
yields is that of no entry before it.

* **`Sound`** — the invariant; every operation keeps it.
* **`get?_insert`** — an insertion adds one entry under an id that had none (`get?_insert_id`).
* **`size_eq_ncard`**, **`ncard_live_le`** — there are as many entries as valid ids, and no more than
  slots.
-/

namespace BoxLayout.Arena

variable {β : Type}

/-- The stack of vacant slots names vacant slots, each once. -/
structure Sound (a : Arena β) : Prop where
  vacant : ∀ slot ∈ a.free, ∃ version, a.slots[slot]? = some ⟨version, none⟩
  nodup : a.free.Nodup

/-- Without slots there is nothing to name. -/
theorem sound_empty : (empty : Arena β).Sound where
  vacant := fun _ h => nomatch h
  nodup := List.nodup_nil

/-- A slot that holds an entry is not in the stack of vacant ones. -/
theorem Sound.slot_notMem_free {a : Arena β} (h : a.Sound) {id : ViewId} {entry : β}
    (hget : a.get? id = some entry) : id.slot ∉ a.free := by
  intro hmem
  obtain ⟨version, hvacant⟩ := h.vacant _ hmem
  rw [get?_eq_some_iff, hvacant] at hget
  nomatch hget

/-- A slot outside the stack can be overwritten, and pushed onto it if it is vacant then. -/
theorem Sound.overwrite {a : Arena β} (h : a.Sound) {slot : ℕ} (hslot : slot ∉ a.free)
    (content : Slot β) : Sound ⟨a.slots.setIfInBounds slot content, a.free⟩ where
  vacant other hother := by
    have hne : slot ≠ other := fun heq => hslot (heq ▸ hother)
    obtain ⟨version, hvacant⟩ := h.vacant other hother
    exact ⟨version, by rw [Array.getElem?_setIfInBounds_ne hne, hvacant]⟩
  nodup := h.nodup

theorem Sound.update {a : Arena β} (h : a.Sound) (id : ViewId) (change : β → β) :
    (a.update id change).Sound := by
  unfold Arena.update
  split
  case h_1 entry hget => exact h.overwrite (h.slot_notMem_free hget) _
  case h_2 => exact h

theorem Sound.erase {a : Arena β} (h : a.Sound) (id : ViewId) : (a.erase id).Sound := by
  unfold Arena.erase
  split
  case h_1 entry hget =>
    -- the slot held an entry, so it was not in the stack, and may be pushed onto it once
    have hslot := h.slot_notMem_free hget
    have hrest := h.overwrite hslot ⟨id.version + 1, none⟩
    refine ⟨fun slot hmem => ?_, List.nodup_cons.mpr ⟨hslot, h.nodup⟩⟩
    rcases List.mem_cons.mp hmem with rfl | hmem
    · refine ⟨id.version + 1, ?_⟩
      rw [Array.getElem?_setIfInBounds_self_of_lt (slot_lt_of_get? hget)]
    · exact hrest.vacant slot hmem
  case h_2 => exact h

theorem Sound.foldl_erase {a : Arena β} (h : a.Sound) (ids : List ViewId) :
    (ids.foldl Arena.erase a).Sound := by
  induction ids generalizing a with
  | nil => exact h
  | cons id ids ih => exact ih (h.erase id)

/-- Erasing entries one after another leaves the entries of all other ids. -/
theorem get?_foldl_erase (a : Arena β) (ids : List ViewId) (other : ViewId) :
    (ids.foldl Arena.erase a).get? other = if other ∈ ids then none else a.get? other := by
  induction ids generalizing a with
  | nil => rfl
  | cons id ids ih =>
    rw [List.foldl_cons, ih, get?_erase]
    by_cases hid : other = id <;> by_cases hids : other ∈ ids <;> simp [hid, hids]

/-! ## Insertion -/

/-- No id finds an entry in a vacant slot, whatever its version. -/
theorem get?_eq_none_of_vacant {a : Arena β} {id : ViewId} {version : ℕ}
    (h : a.slots[id.slot]? = some ⟨version, none⟩) : a.get? id = none := by
  unfold get?
  rw [h]
  exact ite_self _

/-- An id that names a slot which is not there yet is that of no entry. -/
theorem get?_eq_none_of_size_le {a : Arena β} {id : ViewId} (h : a.slots.size ≤ id.slot) :
    a.get? id = none := by
  unfold get?
  rw [Array.getElem?_eq_none h]

/-- The id of a new entry is that of no entry before it. -/
theorem Sound.get?_insert_id {a : Arena β} (h : a.Sound) (entry : β) :
    a.get? (a.insert entry).1 = none := by
  unfold Arena.insert
  split
  case h_1 => exact get?_eq_none_of_size_le le_rfl
  case h_2 slot free hfree =>
    obtain ⟨version, hvacant⟩ := h.vacant slot (by rw [hfree]; exact List.mem_cons_self)
    exact get?_eq_none_of_vacant hvacant

/-- **An insertion adds an entry and leaves all others.** -/
theorem Sound.get?_insert {a : Arena β} (h : a.Sound) (entry : β) (other : ViewId) :
    (a.insert entry).2.get? other =
      if other = (a.insert entry).1 then some entry else a.get? other := by
  unfold Arena.insert
  split
  case h_1 hfree =>
    by_cases hslot : other.slot = a.slots.size
    · -- the new slot is the first one that no id could name
      rw [get?_eq_none_of_size_le hslot.ge]
      obtain ⟨slot, version⟩ := other
      obtain rfl : slot = a.slots.size := hslot
      simp [get?, eq_comm]
    · have hne : other ≠ ⟨a.slots.size, 1⟩ := fun heq => hslot (congrArg ViewId.slot heq)
      have hpush : (a.slots.push ⟨1, some entry⟩)[other.slot]? = a.slots[other.slot]? := by
        rw [Array.getElem?_push, if_neg hslot]
      rw [if_neg hne, get?, get?, hpush]
  case h_2 slot free hfree =>
    obtain ⟨version, hvacant⟩ := h.vacant slot (by rw [hfree]; exact List.mem_cons_self)
    by_cases hslot : other.slot = slot
    · -- the slot was vacant, so its only id is the new one
      subst hslot
      obtain ⟨hlt, -⟩ := Array.getElem?_eq_some_iff.mp hvacant
      have hnone := get?_eq_none_of_vacant hvacant
      rw [get?_setIfInBounds_self hlt, hnone]
      obtain ⟨slot, version⟩ := other
      simp only [hvacant, Option.elim_some, ViewId.mk.injEq, true_and, eq_comm]
    · rw [get?_setIfInBounds_of_ne hslot, if_neg fun heq => hslot (congrArg ViewId.slot heq)]

/-- An insertion takes its slot off the stack. -/
theorem Sound.insert {a : Arena β} (h : a.Sound) (entry : β) : (a.insert entry).2.Sound := by
  unfold Arena.insert
  split
  case h_1 hfree =>
    refine ⟨fun slot hmem => ?_, h.nodup⟩
    rw [hfree] at hmem
    nomatch hmem
  case h_2 slot free hfree =>
    have hnodup := h.nodup
    rw [hfree, List.nodup_cons] at hnodup
    refine ⟨fun other hother => ?_, hnodup.2⟩
    -- the stack named the slot that was taken once, so what is left of it does not name it
    have hne : slot ≠ other := fun heq => hnodup.1 (heq ▸ hother)
    obtain ⟨version, hvacant⟩ := h.vacant other (by rw [hfree]; exact List.mem_cons_of_mem _ hother)
    exact ⟨version, by rw [Array.getElem?_setIfInBounds_ne hne, hvacant]⟩

/-- An update that puts back what is there changes nothing. -/
theorem update_eq_self {a : Arena β} {id : ViewId} {change : β → β}
    (h : ∀ entry, a.get? id = some entry → change entry = entry) : a.update id change = a := by
  unfold update
  split
  case h_1 entry hget =>
    rw [h entry hget]
    -- the slot is overwritten by what stands in it
    obtain ⟨hlt, hslot⟩ := Array.getElem?_eq_some_iff.mp (get?_eq_some_iff.mp hget)
    obtain ⟨slots, free⟩ := a
    rw [← hslot, Array.setIfInBounds, dif_pos hlt, Array.set_getElem_self]
  case h_2 => rfl

/-- Two updates of one entry are one update. -/
theorem update_update (a : Arena β) (id : ViewId) (first second : β → β) :
    (a.update id first).update id second = a.update id fun entry => second (first entry) := by
  have hget : (a.update id first).get? id = (a.get? id).map first := by
    rw [get?_update, if_pos rfl]
  cases h : a.get? id with
  | none =>
    rw [h] at hget
    simp [update, h]
  | some entry =>
    rw [h] at hget
    rw [update, hget]
    simp [update, h]

/-- The entries listed are those that look-ups find. -/
theorem mem_entries_iff {a : Arena β} {id : ViewId} {entry : β} :
    (id, entry) ∈ a.entries ↔ a.get? id = some entry := by
  rw [get?_eq_some_iff, entries, List.mem_filterMap]
  constructor
  · rintro ⟨⟨⟨version, content⟩, index⟩, hslot, heq⟩
    obtain ⟨found, rfl, hfound⟩ := Option.map_eq_some_iff.mp heq
    obtain ⟨rfl, rfl⟩ := Prod.mk.inj hfound
    simpa using List.mk_mem_zipIdx_iff_getElem?.mp hslot
  · intro hslot
    exact ⟨(⟨id.version, some entry⟩, id.slot),
      List.mk_mem_zipIdx_iff_getElem?.mpr (by simpa using hslot), rfl⟩

/-! ## Counting

Every entry takes a slot of its own, so there are no more entries than slots, and as many valid ids as
entries. -/

/-- The slots that hold entries, in their order, are some of all slots. -/
theorem slots_entries_sublist (a : Arena β) :
    ((a.entries.map Prod.fst).map ViewId.slot).Sublist (List.range a.slots.size) := by
  -- the indices beside the slots may be any, as the induction needs
  have hall (slots : List (Slot β × ℕ)) : (((slots.filterMap fun slot =>
      slot.1.content.map fun entry => ((⟨slot.2, slot.1.version⟩ : ViewId), entry)).map Prod.fst).map
        ViewId.slot).Sublist (slots.map Prod.snd) := by
    induction slots with
    | nil => exact List.Sublist.refl _
    | cons slot slots ih =>
      obtain ⟨⟨version, content⟩, index⟩ := slot
      cases content with
      | none => exact ih.cons index
      | some entry => exact ih.cons_cons index
  have hindices : a.slots.toList.zipIdx.map Prod.snd = List.range a.slots.size := by
    rw [List.zipIdx_map_snd, List.range_eq_range', Array.length_toList]
  exact hindices ▸ hall a.slots.toList.zipIdx

/-- No id is listed twice, since no slot is. -/
theorem nodup_ids_entries (a : Arena β) : (a.entries.map Prod.fst).Nodup :=
  List.Nodup.of_map ViewId.slot (a.slots_entries_sublist.nodup List.nodup_range)

theorem live_eq (a : Arena β) :
    {id | (a.get? id).isSome} = ((a.entries.map Prod.fst).toFinset : Set ViewId) := by
  ext id
  simp [Option.isSome_iff_exists, ← mem_entries_iff]

theorem finite_live (a : Arena β) : {id | (a.get? id).isSome}.Finite := by
  rw [live_eq]
  exact Finset.finite_toSet _

/-- **The size of a store is the number of ids that are valid.** -/
theorem size_eq_ncard (a : Arena β) : a.size = {id | (a.get? id).isSome}.ncard := by
  rw [live_eq, Set.ncard_coe_finset, List.toFinset_card_of_nodup a.nodup_ids_entries,
    List.length_map]
  rfl

theorem ncard_live_le (a : Arena β) : {id | (a.get? id).isSome}.ncard ≤ a.slots.size := by
  have hle := a.slots_entries_sublist.length_le
  rw [List.length_map, List.length_map, List.length_range] at hle
  exact a.size_eq_ncard ▸ hle

end BoxLayout.Arena
