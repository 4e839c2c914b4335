import Mathlib
import BoxLayout.Wire

/-!
# Records from objects

An object is read member by member, in the order of the text. What comes out can be said without that
order: no field is named twice, every field that is named holds what its member means, and every other
field holds what it held before.

## The architecture

* **`Facet`** — a field as a reader of the record sees it: its name, what the record holds in it, what it
  usually is, and what the values of a text mean there.
* **`Facet.Told`** — an object tells what a record holds in a field.
* **`Field.Serves`**, **`Field.Keeps`** — a field reads its own facet, and leaves another one alone.
* **`told_of_readMembers`** — what has been read is told, by induction on the members;
  **`exists_readMembers`** — and what is told can be read.
* **`read_object_iff`** — so an object is read as the record that it tells of.
-/

namespace BoxLayout

/-- A field of a record: its name, what the record holds in it, what it is usually, and what a value of a
text means there. -/
structure Facet (ρ : Type) where
  {β : Type}
  key : String
  get : ρ → β
  usual : β
  means : Json → β → Prop

variable {ρ : Type}

/-- An object tells what a record holds in a field: a member of the name means it, or there is no such
member and the record holds what it would hold without. -/
def Facet.Told (facet : Facet ρ) (members : List (String × Json)) (without : facet.β) (r : ρ) : Prop :=
  (∃ v, (facet.key, v) ∈ members ∧ facet.means v (facet.get r)) ∨
    facet.key ∉ members.map Prod.fst ∧ facet.get r = without

namespace Field

/-- A field reads a facet: it succeeds with just the values that mean something, and then the record holds
what they mean. -/
structure Serves (f : Field ρ) (facet : Facet ρ) : Prop where
  key_eq : f.key = facet.key
  means_of_read : ∀ {v r r'}, f.read v r = .ok r' → facet.means v (facet.get r')
  read_of_means : ∀ {v x} r, facet.means v x → ∃ r', f.read v r = .ok r' ∧ facet.get r' = x

/-- Reading a field does not change what the record holds elsewhere. -/
def Keeps {β : Type} (f : Field ρ) (get : ρ → β) : Prop :=
  ∀ ⦃v r r'⦄, f.read v r = .ok r' → get r' = get r

variable {β γ : Type} {key : String} {get : ρ → β} {set : ρ → β → ρ} {write : β → Json}
  {read : Json → Except WireError β}

theorem read_of_eq_ok_iff {v : Json} {r r' : ρ} :
    (Field.of key get set write read).read v r = .ok r' ↔ ∃ x, read v = .ok x ∧ set r x = r' := by
  show (read v).map (set r) = .ok r' ↔ _
  cases read v with
  | error e => simp [Except.map]
  | ok x => simp [Except.map]

theorem keeps_of {other : ρ → γ} (h : ∀ r x, other (set r x) = other r) :
    (Field.of key get set write read).Keeps other := by
  intro v r r' hread
  obtain ⟨x, -, rfl⟩ := read_of_eq_ok_iff.mp hread
  exact h r x

theorem serves_of {usual : β} {means : Json → β → Prop} (hset : ∀ r x, get (set r x) = x)
    (hread : ∀ v x, read v = .ok x ↔ means v x) :
    (Field.of key get set write read).Serves ⟨key, get, usual, means⟩ where
  key_eq := rfl
  means_of_read h := by
    obtain ⟨x, hx, rfl⟩ := read_of_eq_ok_iff.mp h
    dsimp only
    rw [hset]
    exact (hread _ x).mp hx
  read_of_means r h := ⟨_, read_of_eq_ok_iff.mpr ⟨_, (hread _ _).mpr h, rfl⟩, hset r _⟩

/-- A value means one thing at most. -/
theorem Serves.eq_of_means {f : Field ρ} {facet : Facet ρ} (h : f.Serves facet) (r : ρ) {v : Json}
    {x y : facet.β} (hx : facet.means v x) (hy : facet.means v y) : x = y := by
  obtain ⟨r₁, hread₁, rfl⟩ := h.read_of_means r hx
  obtain ⟨r₂, hread₂, rfl⟩ := h.read_of_means r hy
  rw [Except.ok.inj (hread₁.symm.trans hread₂)]

end Field

namespace Schema

variable {fields : List (Field ρ)} {members : List (String × Json)} {seen : List String} {r r' : ρ}

/-- The names of fields among the names of the members. -/
def named (fields : List (Field ρ)) (members : List (String × Json)) : List String :=
  (members.map Prod.fst).filter fun key => decide (key ∈ fields.map Field.key)

/-- A member's name is that of no field, or of the one that is found by it. -/
theorem find?_key_cases (fields : List (Field ρ)) (key : String) :
    fields.find? (fun f => f.key == key) = none ∧ key ∉ fields.map Field.key ∨
      ∃ f ∈ fields, f.key = key ∧ fields.find? (fun f => f.key == key) = some f := by
  cases hfound : fields.find? fun f => f.key == key with
  | none =>
    refine Or.inl ⟨rfl, fun hmem => ?_⟩
    obtain ⟨f, hf, hkey⟩ := List.mem_map.mp hmem
    exact List.find?_eq_none.mp hfound f hf (beq_iff_eq.mpr hkey)
  | some f =>
    have hkey := List.find?_some hfound
    exact Or.inr ⟨f, List.mem_of_find?_eq_some hfound, beq_iff_eq.mp hkey, rfl⟩

theorem named_cons_of_unknown {member : String × Json} (h : member.1 ∉ fields.map Field.key) :
    named fields (member :: members) = named fields members :=
  List.filter_cons_of_neg (by simpa using h)

theorem named_cons_of_known {member : String × Json} (h : member.1 ∈ fields.map Field.key) :
    named fields (member :: members) = member.1 :: named fields members :=
  List.filter_cons_of_pos (decide_eq_true h)

/-- No field is named twice just if each field is named once at most. -/
theorem nodup_named_iff :
    (named fields members).Nodup ↔ ∀ f ∈ fields, (members.map Prod.fst).count f.key ≤ 1 := by
  have hcount {key : String} (hkey : key ∈ fields.map Field.key) :
      (named fields members).count key = (members.map Prod.fst).count key :=
    List.count_filter (decide_eq_true hkey)
  rw [List.nodup_iff_count_le_one]
  refine ⟨fun h f hf => hcount (List.mem_map_of_mem hf) ▸ h f.key, fun h key => ?_⟩
  by_cases hkey : key ∈ fields.map Field.key
  · obtain ⟨f, hf, rfl⟩ := List.mem_map.mp hkey
    exact hcount hkey ▸ h f hf
  · -- a name of no field is left out
    have hmissing : key ∉ named fields members := fun hmem =>
      hkey (of_decide_eq_true (List.mem_filter.mp hmem).2)
    rw [List.count_eq_zero_of_not_mem hmissing]
    exact Nat.zero_le 1

/-! ## Reading members -/

/-- One step: a member that is ignored, or one that is read by the field of its name. -/
theorem readMembers_cons_eq_ok {key : String} {v : Json}
    (h : readMembers fields seen ((key, v) :: members) r = .ok r') :
    key ∉ fields.map Field.key ∧ readMembers fields seen members r = .ok r' ∨
      ∃ f ∈ fields, f.key = key ∧ key ∉ seen ∧ ∃ between, f.read v r = .ok between ∧
        readMembers fields (key :: seen) members between = .ok r' := by
  rw [readMembers] at h
  rcases find?_key_cases fields key with ⟨hnone, hunknown⟩ | ⟨f, hf, hkey, hsome⟩
  · rw [hnone] at h
    exact Or.inl ⟨hunknown, h⟩
  · rw [hsome] at h
    dsimp only at h
    split_ifs at h with hseen
    cases hread : f.read v r with
    | error e =>
      rw [hread] at h
      nomatch h
    | ok between =>
      rw [hread] at h
      exact Or.inr ⟨f, hf, hkey, hseen, between, hread, h⟩

/-- No field is named twice in what has been read. -/
theorem nodup_of_readMembers (h : readMembers fields seen members r = .ok r') :
    (named fields members).Nodup ∧ ∀ key ∈ named fields members, key ∉ seen := by
  induction members generalizing seen r with
  | nil => exact ⟨List.nodup_nil, nofun⟩
  | cons member members ih =>
    obtain ⟨key, v⟩ := member
    rcases readMembers_cons_eq_ok h with ⟨hunknown, h⟩ | ⟨f, hf, hkey, hseen, between, -, h⟩
    · rw [named_cons_of_unknown hunknown]
      exact ih h
    · obtain ⟨hnodup, hdisjoint⟩ := ih h
      rw [named_cons_of_known (hkey ▸ List.mem_map_of_mem hf : key ∈ fields.map Field.key)]
      refine ⟨List.nodup_cons.mpr ⟨fun hagain => hdisjoint key hagain List.mem_cons_self, hnodup⟩, ?_⟩
      refine List.forall_mem_cons.mpr ⟨hseen, fun other hother hmem => ?_⟩
      exact hdisjoint other hother (List.mem_cons_of_mem _ hmem)

/-- What has been read of a field stays as it is, since its name does not occur again. What has not been
read yet is told by the members that are left. -/
theorem told_of_readMembers {facet : Facet ρ} (hkey : facet.key ∈ fields.map Field.key)
    (hown : ∀ f ∈ fields, f.key = facet.key → f.Serves facet)
    (hother : ∀ f ∈ fields, f.key ≠ facet.key → f.Keeps facet.get)
    (h : readMembers fields seen members r = .ok r') :
    (facet.key ∈ seen → facet.get r' = facet.get r) ∧
      (facet.key ∉ seen → facet.Told members (facet.get r) r') := by
  induction members generalizing seen r with
  | nil =>
    obtain rfl := Except.ok.inj h
    exact ⟨fun _ => rfl, fun _ => Or.inr ⟨List.not_mem_nil, rfl⟩⟩
  | cons member members ih =>
    obtain ⟨key, v⟩ := member
    -- a member of another name tells nothing of the field
    have hskip (hne : facet.key ≠ key) {between : ρ} (hget : facet.get between = facet.get r)
        (htold : facet.Told members (facet.get between) r') :
        facet.Told ((key, v) :: members) (facet.get r) r' := by
      rcases htold with ⟨w, hw, hmeans⟩ | ⟨hmissing, husual⟩
      · exact Or.inl ⟨w, List.mem_cons_of_mem _ hw, hmeans⟩
      · refine Or.inr ⟨fun hmem => ?_, husual.trans hget⟩
        exact (List.mem_cons.mp hmem).elim hne hmissing
    rcases readMembers_cons_eq_ok h with ⟨hunknown, h⟩ | ⟨f, hf, rfl, hseen, between, hread, h⟩
    · obtain ⟨hold, hnew⟩ := ih h
      have hne : facet.key ≠ key := fun heq => hunknown (heq ▸ hkey)
      exact ⟨hold, fun hunseen => hskip hne rfl (hnew hunseen)⟩
    · obtain ⟨hold, hnew⟩ := ih h
      by_cases hfacet : f.key = facet.key
      · -- the field itself: what its member means is kept from here on
        rw [← hfacet] at hold ⊢
        refine ⟨fun hmem => absurd hmem hseen, fun _ => Or.inl ⟨v, ?_, ?_⟩⟩
        · rw [hfacet]
          exact List.mem_cons_self
        · rw [hold List.mem_cons_self]
          exact (hown f hf hfacet).means_of_read hread
      · have hget := hother f hf hfacet hread
        refine ⟨fun hmem => (hold (List.mem_cons_of_mem _ hmem)).trans hget, fun hunseen => ?_⟩
        refine hskip (Ne.symm hfacet) hget (hnew fun hmem => ?_)
        exact (List.mem_cons.mp hmem).elim (Ne.symm hfacet) hunseen

/-- If every member of a field can be read and none is there twice, then all can. -/
theorem exists_readMembers (hnodup : (named fields members).Nodup)
    (hdisjoint : ∀ key ∈ named fields members, key ∉ seen)
    (hread : ∀ f ∈ fields, ∀ v, (f.key, v) ∈ members → ∀ r, ∃ r', f.read v r = .ok r') (r : ρ) :
    ∃ r', readMembers fields seen members r = .ok r' := by
  induction members generalizing seen r with
  | nil => exact ⟨r, rfl⟩
  | cons member members ih =>
    obtain ⟨key, v⟩ := member
    have hmembers : ∀ f ∈ fields, ∀ v, (f.key, v) ∈ members → ∀ r, ∃ r', f.read v r = .ok r' :=
      fun f hf v hv => hread f hf v (List.mem_cons_of_mem _ hv)
    rw [readMembers]
    rcases find?_key_cases fields key with ⟨hnone, hunknown⟩ | ⟨f, hf, rfl, hsome⟩
    · rw [named_cons_of_unknown hunknown] at hnodup hdisjoint
      rw [hnone]
      exact ih hnodup hdisjoint hmembers r
    · rw [named_cons_of_known (List.mem_map_of_mem hf)] at hnodup hdisjoint
      obtain ⟨hseen, hdisjoint⟩ := List.forall_mem_cons.mp hdisjoint
      obtain ⟨hagain, hnodup⟩ := List.nodup_cons.mp hnodup
      obtain ⟨between, hbetween⟩ := hread f hf v List.mem_cons_self r
      have hrest : ∀ other ∈ named fields members, other ∉ f.key :: seen := fun other hother hmem =>
        (List.mem_cons.mp hmem).elim (fun heq => hagain (heq ▸ hother)) (hdisjoint other hother)
      obtain ⟨r', hr'⟩ := ih hnodup hrest hmembers between
      refine ⟨r', ?_⟩
      simp only [hsome, if_neg hseen, hbetween]
      exact hr'

/-- A field that is named once has one value. -/
theorem eq_of_nodup_named {key : String} (hkey : key ∈ fields.map Field.key)
    (hnodup : (named fields members).Nodup) {v w : Json} (hv : (key, v) ∈ members)
    (hw : (key, w) ∈ members) : v = w := by
  induction members with
  | nil => nomatch hv
  | cons member members ih =>
    have hnamed {x : Json} (hx : (key, x) ∈ members) : key ∈ named fields members :=
      List.mem_filter.mpr ⟨List.mem_map_of_mem hx, decide_eq_true hkey⟩
    by_cases hfirst : member.1 = key
    · rw [named_cons_of_known (hfirst ▸ hkey), hfirst] at hnodup
      have hagain := (List.nodup_cons.mp hnodup).1
      rcases List.mem_cons.mp hv with rfl | hv
      · rcases List.mem_cons.mp hw with heq | hw
        · exact (congrArg Prod.snd heq).symm
        · exact absurd (hnamed hw) hagain
      · exact absurd (hnamed hv) hagain
    · have hmem {x : Json} (hx : (key, x) ∈ member :: members) : (key, x) ∈ members :=
        (List.mem_cons.mp hx).resolve_left fun heq => hfirst (congrArg Prod.fst heq).symm
      refine ih (hnodup.sublist ?_) (hmem hv) (hmem hw)
      exact ((List.sublist_cons_self member members).map Prod.fst).filter _

/-! ## Whole objects -/

theorem exists_of_forall₂ {α β : Type*} {R : α → β → Prop} {l : List α} {u : List β}
    (h : List.Forall₂ R l u) {b : β} (hb : b ∈ u) : ∃ a ∈ l, R a b := by
  induction h with
  | nil => nomatch hb
  | cons hab _ ih =>
    rcases List.mem_cons.mp hb with rfl | hb
    · exact ⟨_, List.mem_cons_self, hab⟩
    · obtain ⟨a, ha, hab⟩ := ih hb
      exact ⟨a, List.mem_cons_of_mem _ ha, hab⟩

/-- A lenient record is read from the members that there are. -/
theorem read_object {s : Schema ρ} (hlenient : s.lenient = true) (members : List (String × Json)) :
    s.read (.object members) = readMembers s.fields [] members s.base := by
  simp only [read, hlenient, if_true]
  cases readMembers s.fields [] members s.base with
  | error e => rfl
  | ok r => cases s.missing? members <;> rfl

/-- A field that is named once is told one way. -/
theorem Told.unique {f : Field ρ} {facet : Facet ρ} (hserves : f.Serves facet)
    (hkey : facet.key ∈ fields.map Field.key) (hnodup : (named fields members).Nodup) {without : facet.β}
    (h : facet.Told members without r) (h' : facet.Told members without r') :
    facet.get r = facet.get r' := by
  rcases h with ⟨v, hv, hmeans⟩ | ⟨hmissing, hwithout⟩
  · rcases h' with ⟨w, hw, hmeans'⟩ | ⟨hmissing, -⟩
    · obtain rfl := eq_of_nodup_named hkey hnodup hv hw
      exact hserves.eq_of_means r hmeans hmeans'
    · exact absurd (List.mem_map_of_mem hv) hmissing
  · rcases h' with ⟨w, hw, -⟩ | ⟨-, hwithout'⟩
    · exact absurd (List.mem_map_of_mem hw) hmissing
    · exact hwithout.trans hwithout'.symm

/-- Members that tell something can be read. -/
theorem exists_read_of_told {f : Field ρ} {facet : Facet ρ} (hserves : f.Serves facet)
    (hkey : facet.key ∈ fields.map Field.key) (hnodup : (named fields members).Nodup) {without : facet.β}
    (h : facet.Told members without r) {v : Json} (hv : (f.key, v) ∈ members) (r₀ : ρ) :
    ∃ r', f.read v r₀ = .ok r' := by
  rw [hserves.key_eq] at hv
  rcases h with ⟨w, hw, hmeans⟩ | ⟨hmissing, -⟩
  · obtain rfl := eq_of_nodup_named hkey hnodup hv hw
    obtain ⟨r', hr', -⟩ := hserves.read_of_means r₀ hmeans
    exact ⟨r', hr'⟩
  · exact absurd (List.mem_map_of_mem hv) hmissing

/-- **An object is read as the record that it tells of**, in whatever order its members come, if it names
no field twice. Members of other names do not matter. -/
theorem read_object_iff {s : Schema ρ} {facets : List (Facet ρ)} (hlenient : s.lenient = true)
    (hserves : List.Forall₂ Field.Serves s.fields facets) (hkeys : (s.fields.map Field.key).Nodup)
    (hkeeps : ∀ facet ∈ facets, ∀ f ∈ s.fields, f.key ≠ facet.key → f.Keeps facet.get)
    (husual : ∀ facet ∈ facets, facet.get s.base = facet.usual)
    (hext : ∀ r r' : ρ, (∀ facet ∈ facets, facet.get r = facet.get r') → r = r')
    {members : List (String × Json)} {r : ρ} :
    s.read (.object members) = .ok r ↔ ∀ facet ∈ facets,
      (members.map Prod.fst).count facet.key ≤ 1 ∧ facet.Told members facet.usual r := by
  have hfield {facet : Facet ρ} (hfacet : facet ∈ facets) : ∃ f ∈ s.fields, f.Serves facet :=
    exists_of_forall₂ hserves hfacet
  have hkey {facet : Facet ρ} (hfacet : facet ∈ facets) : facet.key ∈ s.fields.map Field.key := by
    obtain ⟨f, hf, hserves⟩ := hfield hfacet
    exact hserves.key_eq ▸ List.mem_map_of_mem hf
  have htold {r : ρ} (h : readMembers s.fields [] members s.base = .ok r) {facet : Facet ρ}
      (hfacet : facet ∈ facets) : facet.Told members facet.usual r := by
    rw [← husual facet hfacet]
    refine (told_of_readMembers (hkey hfacet) (fun f hf hown => ?_) (hkeeps facet hfacet) h).2
      List.not_mem_nil
    obtain ⟨g, hg, hserves⟩ := hfield hfacet
    obtain rfl := List.inj_on_of_nodup_map hkeys hf hg (hown.trans hserves.key_eq.symm)
    exact hserves
  rw [read_object hlenient]
  constructor
  · intro h facet hfacet
    obtain ⟨f, hf, hserves⟩ := hfield hfacet
    exact ⟨hserves.key_eq ▸ nodup_named_iff.mp (nodup_of_readMembers h).1 f hf, htold h hfacet⟩
  · intro htells
    have hnodup : (named s.fields members).Nodup := nodup_named_iff.mpr fun f hf => by
      obtain ⟨facet, hfacet, hserves⟩ := exists_of_forall₂ hserves.flip hf
      exact hserves.key_eq ▸ (htells facet hfacet).1
    have hread : ∀ f ∈ s.fields, ∀ v, (f.key, v) ∈ members → ∀ r₀, ∃ r', f.read v r₀ = .ok r' := by
      intro f hf v hv r₀
      obtain ⟨facet, hfacet, hserves⟩ := exists_of_forall₂ hserves.flip hf
      exact exists_read_of_told hserves (hkey hfacet) hnodup (htells facet hfacet).2 hv r₀
    -- what is told can be read, and there is but one record of which all of it is true
    obtain ⟨r', hr'⟩ := exists_readMembers hnodup (fun _ _ => List.not_mem_nil) hread s.base
    rw [hr', hext r' r fun facet hfacet => ?_]
    obtain ⟨f, -, hserves⟩ := hfield hfacet
    exact Told.unique hserves (hkey hfacet) hnodup (htold hr' hfacet) (htells facet hfacet).2

end Schema

end BoxLayout
