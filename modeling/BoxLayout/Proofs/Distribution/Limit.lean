import Mathlib
import BoxLayout.Event
import BoxLayout.Proofs.Distribution.Bounds
import BoxLayout.Proofs.Scalar.Single

/-!
# The limit of passes

Passes end by themselves when one of them finds nothing to do, or closes no item. If they are cut off
before, a report says that space was left to hand out, or a deficit to take. The report is never
missing where a larger limit would have changed a size. But whether the passes have ended is only asked
at the beginning of a pass, so a limit that is just enough is reported as well: the report is right just
if one more pass would have changed a size.

## The architecture

* **`run_of_settled`**, **`run_of_unsettled`** — what a larger limit adds to passes that have ended, and
  to passes that were cut off; **`settled_eq_false_iff`** — which of them were.
* **`Share.Short`** — an open share has not reached its bound. This is what every pass keeps
  (`short_offer`), and it is why an item that is closed changes its size (`size_offer_ne`).
* **`Moves`**, **`exists_sizes_run_ne_iff`** — so no later pass changes a size if the next one does not.
* **`limit_distribute`** — the result, and **`warns_tightItem`**, where nothing at all is left over and
  the report is made.
-/

namespace BoxLayout

variable {α : Type} [Scalar α]

namespace Direction

variable {d : Direction} {epsilon available : α} {limit : ℕ} {shares : List (Share α)}

/-! ## Passes after passes -/

/-- A larger limit changes nothing if the passes have ended. -/
theorem run_of_settled (h : (d.run epsilon available limit shares).settled = true) (more : ℕ) :
    d.run epsilon available (limit + more) shares = d.run epsilon available limit shares := by
  fun_induction run d epsilon available limit shares with
  | case1 shares => exact absurd h Bool.false_ne_true
  | case2 limit shares hpassed =>
    rw [Nat.succ_add, run, hpassed]
  | case3 limit shares report after hpassed hclamped course ih =>
    rw [Nat.succ_add, run, hpassed]
    dsimp only
    rw [if_pos hclamped, ih h]
  | case4 limit shares report after hpassed hunclamped =>
    rw [Nat.succ_add, run, hpassed]
    dsimp only
    rw [if_neg hunclamped]

/-- Passes that were cut off go on from the shares that they left. -/
theorem run_of_unsettled (h : (d.run epsilon available limit shares).settled = false) (more : ℕ) :
    (d.run epsilon available (limit + more) shares).shares =
      (d.run epsilon available more (d.run epsilon available limit shares).shares).shares := by
  fun_induction run d epsilon available limit shares with
  | case1 shares => rw [Nat.zero_add]
  | case2 limit shares hpassed => exact absurd h.symm Bool.false_ne_true
  | case3 limit shares report after hpassed hclamped course ih =>
    rw [Nat.succ_add, run, hpassed]
    dsimp only
    rw [if_pos hclamped]
    exact ih h
  | case4 limit shares report after hpassed hunclamped => exact absurd h.symm Bool.false_ne_true

/-- **Passes are cut off just if all that the limit allows took place and each closed an item.** -/
theorem settled_eq_false_iff :
    (d.run epsilon available limit shares).settled = false ↔
      (d.run epsilon available limit shares).passes.length = limit ∧
        ∀ report ∈ (d.run epsilon available limit shares).passes, report.clamped = true := by
  fun_induction run d epsilon available limit shares with
  | case1 shares => simp
  | case2 limit shares hpassed => simp
  | case3 limit shares report after hpassed hclamped course ih =>
    simp only [List.length_cons, List.forall_mem_cons, hclamped, true_and, Nat.succ_inj]
    exact ih
  | case4 limit shares report after hpassed hunclamped => simp [hunclamped]

end Direction

/-! ## Open shares -/

/-- A share that is open has not reached its bound, if what it claims is a number. -/
def Share.Short (d : Direction) (s : Share α) : Prop :=
  s.closed = false → Scalar.isNaN (d.claim s.item) = false → d.reaches s.item s.size = false

namespace Direction

variable [Scalar.Rounded α] {d : Direction} {epsilon available amount total : α} {item : Item α}
  {shares after : List (Share α)} {report : PassReport α}

theorem short_opening (d : Direction) (item : Item α) : (d.opening item).Short d := by
  intro hopen hclaim
  change d.exempt item = false at hopen
  show d.reaches item item.natural = false
  cases d with
  | grow => exact (Bool.or_eq_false_iff.mp hopen).2
  | shrink =>
    -- an item at its minimum has no room, and takes no part
    refine decide_eq_false fun hle => of_decide_eq_false hopen ?_
    exact Scalar.sub_nonpos_of_le hle hclaim

omit [Scalar.Rounded α] in
theorem short_offer {s : Share α} (h : s.Short d) : (d.offer amount total s).Short d := by
  unfold offer
  dsimp only
  split_ifs with hclosed hreaches
  · exact h
  · nofun
  · exact fun _ _ => by simpa using hreaches

theorem short_run (limit : ℕ) (items : List (Item α)) :
    ∀ s ∈ (d.run epsilon available limit (items.map d.opening)).shares, s.Short d := by
  refine run_induction (P := fun shares => ∀ s ∈ shares, s.Short d) ?_ fun h hpassed => ?_
  · exact List.forall_mem_map.mpr fun item _ => d.short_opening item
  · obtain ⟨-, -, -, rfl⟩ := pass_eq_some_iff.mp hpassed
    exact List.forall_mem_map.mpr fun s hs => short_offer (h s hs)

/-- What reaches the bound of an item is a number, and so is the bound. -/
theorem reaches_bound {x : α} (h : d.reaches item x = true) : d.reaches item (d.bound item) = true := by
  cases d with
  | grow => exact decide_eq_true (Scalar.le_refl (Scalar.not_isNaN_of_le (of_decide_eq_true h)).1)
  | shrink => exact decide_eq_true (Scalar.le_refl (Scalar.not_isNaN_of_le (of_decide_eq_true h)).2)

/-- An offer that reaches the bound is no NaN, so the claim it is in proportion to is none. -/
theorem isNaN_claim_of_reaches (htotal : ¬ total ≤ Scalar.zero)
    (h : d.reaches item (d.target amount total item) = true) :
    Scalar.isNaN (d.claim item) = false := by
  have hpart {claim : α} (hnan : Scalar.isNaN (amount * claim / total) = false) :
      Scalar.isNaN claim = false :=
    (Scalar.not_isNaN_of_mul (Scalar.not_isNaN_of_div hnan (value_total_ne htotal)).1).2
  cases d with
  | grow =>
    have htarget := (Scalar.not_isNaN_of_le (of_decide_eq_true h)).2
    exact hpart (Scalar.not_isNaN_of_add htarget).2
  | shrink =>
    have htarget := (Scalar.not_isNaN_of_le (of_decide_eq_true h)).1
    exact hpart (Scalar.not_isNaN_of_sub htarget).2

/-- **An item that is closed changes its size**: it was short of its bound and is at it now. -/
theorem size_offer_ne {s : Share α} (hshort : s.Short d) (htotal : ¬ total ≤ Scalar.zero)
    (hcloses : d.closes amount total s = true) : (d.offer amount total s).size ≠ s.size := by
  have hopen : s.closed = false := by simpa using (Bool.and_eq_true_iff.mp hcloses).1
  have hreaches := (Bool.and_eq_true_iff.mp hcloses).2
  have hoffer : (d.offer amount total s).size = d.bound s.item := by
    simp [offer, hopen, hreaches]
  intro hsame
  have hbelow := hshort hopen (isNaN_claim_of_reaches htotal hreaches)
  rw [← hsame, hoffer, reaches_bound hreaches] at hbelow
  contradiction

/-- A pass that changes no size closes no item. -/
theorem clamped_of_sizes_eq (hshort : ∀ s ∈ shares, s.Short d)
    (hpassed : d.pass epsilon available shares = some (report, after))
    (hsame : after.map Share.size = shares.map Share.size) : report.clamped = false := by
  obtain ⟨htotal, -, rfl, rfl⟩ := pass_eq_some_iff.mp hpassed
  rw [List.map_map, List.map_inj_left] at hsame
  refine List.any_eq_false.mpr fun s hs hcloses => ?_
  exact size_offer_ne (hshort s hs) htotal hcloses (hsame s hs)

/-! ## One more pass -/

/-- The next pass would change a size. -/
def Moves (d : Direction) (epsilon available : α) (shares : List (Share α)) : Prop :=
  ∃ report after, d.pass epsilon available shares = some (report, after) ∧
    after.map Share.size ≠ shares.map Share.size

omit [Scalar.Rounded α] in
theorem shares_run_one (hpassed : d.pass epsilon available shares = some (report, after)) :
    (d.run epsilon available 1 shares).shares = after := by
  rw [run, hpassed]
  dsimp only
  split_ifs <;> rfl

/-- **If the next pass changes no size, no pass does**: it closes no item, and so it is the last. -/
theorem exists_sizes_run_ne_iff (hshort : ∀ s ∈ shares, s.Short d) :
    (∃ more, (d.run epsilon available more shares).shares.map Share.size ≠ shares.map Share.size) ↔
      d.Moves epsilon available shares := by
  constructor
  · rintro ⟨more, hne⟩
    cases more with
    | zero => exact absurd rfl hne
    | succ more =>
      cases hpassed : d.pass epsilon available shares with
      | none =>
        rw [run, hpassed] at hne
        exact absurd rfl hne
      | some result =>
        obtain ⟨report, after⟩ := result
        refine ⟨report, after, hpassed, fun hsame => hne ?_⟩
        -- a pass that closes no item is the last, whatever the limit allows
        have hunclamped := clamped_of_sizes_eq hshort hpassed hsame
        rw [run, hpassed]
        dsimp only
        rw [hunclamped, if_neg Bool.false_ne_true]
        exact hsame
  · rintro ⟨report, after, hpassed, hne⟩
    exact ⟨1, by rwa [shares_run_one hpassed]⟩

end Direction

/-! ## The whole distribution -/

/-- The passes are reported to have been cut off. -/
def Distribution.Warns (d : Distribution α) (settings : Settings α) : Prop :=
  ∃ direction, Event.passLimit direction settings.maxPasses ∈ d.events settings

/-- With some larger limit of passes, some item would get another size. -/
def Settings.LimitMatters (settings : Settings α) (items : List (Item α)) (available : α) : Prop :=
  ∃ limit, settings.maxPasses < limit ∧
    (distribute { settings with maxPasses := limit } items available).sizes ≠
      (distribute settings items available).sizes

section

variable {settings : Settings α} {items : List (Item α)} {available : α} {d : Direction}

/-- The passes of a distribution, if a direction is taken. -/
theorem course_of_choose? (h : Direction.choose? settings items available = some d) :
    (distribute settings items available).course =
      some (d, d.run settings.epsilon available settings.maxPasses (items.map d.opening)) := by
  unfold distribute
  rw [h]
  rfl

theorem course_of_choose?_eq_none (h : Direction.choose? settings items available = none) :
    (distribute settings items available).course = none := by
  unfold distribute
  rw [h]
  rfl

omit [Scalar α] in
/-- The report is made just if the passes have not ended. -/
theorem Distribution.warns_iff {d : Distribution α} :
    d.Warns settings ↔ ∃ direction course, d.course = some (direction, course) ∧
      course.settled = false := by
  unfold Warns events
  cases d.course with
  | none => simp
  | some taken =>
    obtain ⟨direction, course⟩ := taken
    cases hsettled : course.settled <;> simp [Course.events, hsettled]

/-- The sizes with a larger limit are those of the passes that go on. -/
theorem limitMatters_iff_of_choose? (h : Direction.choose? settings items available = some d) :
    settings.LimitMatters items available ↔ ∃ more,
      (d.run settings.epsilon available (settings.maxPasses + more)
        (items.map d.opening)).shares.map Share.size ≠
      (d.run settings.epsilon available settings.maxPasses
        (items.map d.opening)).shares.map Share.size := by
  -- the direction is chosen without a look at the limit
  have hsizes (limit : ℕ) : (distribute { settings with maxPasses := limit } items available).sizes =
      (d.run settings.epsilon available limit (items.map d.opening)).shares.map Share.size := by
    have hother : Direction.choose? { settings with maxPasses := limit } items available = some d := h
    exact sizes_distribute_of_choose? hother
  unfold Settings.LimitMatters
  rw [sizes_distribute_of_choose? h]
  constructor
  · rintro ⟨limit, hlt, hne⟩
    obtain ⟨more, rfl⟩ := Nat.exists_eq_add_of_lt hlt
    refine ⟨more + 1, ?_⟩
    rwa [hsizes, Nat.add_assoc] at hne
  · rintro ⟨more, hne⟩
    cases more with
    | zero => exact absurd rfl hne
    | succ more =>
      refine ⟨settings.maxPasses + (more + 1), by omega, ?_⟩
      rwa [hsizes]

theorem not_limitMatters_of_choose?_eq_none
    (h : Direction.choose? settings items available = none) :
    ¬ settings.LimitMatters items available := by
  rintro ⟨limit, -, hne⟩
  have hother : Direction.choose? { settings with maxPasses := limit } items available = none := h
  rw [sizes_distribute_of_choose?_eq_none hother, sizes_distribute_of_choose?_eq_none h] at hne
  contradiction

variable [Scalar.Rounded α]

/-- **A larger limit matters just if the passes were cut off before one that changes a size.** -/
theorem limitMatters_iff (settings : Settings α) (items : List (Item α)) (available : α) :
    settings.LimitMatters items available ↔ ∃ direction course,
      (distribute settings items available).course = some (direction, course) ∧
        course.settled = false ∧ direction.Moves settings.epsilon available course.shares := by
  cases hd : Direction.choose? settings items available with
  | none =>
    have hno := not_limitMatters_of_choose?_eq_none hd
    simp [course_of_choose?_eq_none hd, hno]
  | some d =>
    rw [limitMatters_iff_of_choose? hd, course_of_choose? hd]
    cases hsettled : (d.run settings.epsilon available settings.maxPasses
        (items.map d.opening)).settled with
    | true => simp [Direction.run_of_settled hsettled, hsettled]
    | false =>
      have hshort : ∀ s ∈ (d.run settings.epsilon available settings.maxPasses
          (items.map d.opening)).shares, s.Short d := d.short_run settings.maxPasses items
      simp only [Direction.run_of_unsettled hsettled, Direction.exists_sizes_run_ne_iff hshort]
      constructor
      · exact fun hmoves => ⟨d, _, rfl, hsettled, hmoves⟩
      · rintro ⟨direction, course, heq, -, hmoves⟩
        obtain ⟨rfl, rfl⟩ := Prod.mk.inj (Option.some.inj heq)
        exact hmoves

variable (settings items available) in
/-- **What the report of the limit says**, with rounding or without. It is made just if all the passes
that the limit allows took place and each closed an item. It is made whenever a larger limit would have
changed a size, and it is right just if the very next pass would have. -/
theorem limit_distribute :
    ((distribute settings items available).Warns settings ↔ ∃ direction course,
      (distribute settings items available).course = some (direction, course) ∧
        course.passes.length = settings.maxPasses ∧
          ∀ report ∈ course.passes, report.clamped = true) ∧
    (settings.LimitMatters items available → (distribute settings items available).Warns settings) ∧
    ((distribute settings items available).Warns settings →
      (settings.LimitMatters items available ↔ ∃ direction course,
        (distribute settings items available).course = some (direction, course) ∧
          direction.Moves settings.epsilon available course.shares)) := by
  refine ⟨?_, ?_, ?_⟩
  · rw [Distribution.warns_iff]
    cases hd : Direction.choose? settings items available with
    | none => simp [course_of_choose?_eq_none hd]
    | some d => simp [course_of_choose? hd, Direction.settled_eq_false_iff]
  · rw [limitMatters_iff, Distribution.warns_iff]
    rintro ⟨direction, course, hcourse, hsettled, -⟩
    exact ⟨direction, course, hcourse, hsettled⟩
  · rw [limitMatters_iff, Distribution.warns_iff]
    rintro ⟨direction, course, hcourse, hsettled⟩
    simp [hcourse, hsettled]

end

/-! ## A report without a reason -/

/-- An item that can grow from nothing to ten. -/
def tightItem : Item Float32 := ⟨Scalar.zero, Scalar.zero, Float32.ofBits 0x41200000, Scalar.one⟩

/-- The usual settings, but for one pass only. -/
def onePass : Settings Float32 := { Settings.standard with maxPasses := 1 }

/-- Ten are handed out to an item that takes them all. The one pass closes the item and leaves nothing
over, and it is reported that space was left to hand out. -/
theorem warns_tightItem :
    (Scalar.zero ≤ tightItem.min ∧ tightItem.min ≤ tightItem.natural ∧
      tightItem.natural ≤ tightItem.max ∧ Scalar.isExtent tightItem.weight = true ∧
      Scalar.zero ≤ onePass.epsilon) ∧
    (distribute onePass [tightItem] tightItem.max).leftover = Scalar.zero ∧
    (distribute onePass [tightItem] tightItem.max).Warns onePass ∧
      ¬ onePass.LimitMatters [tightItem] tightItem.max := by
  have hd : Direction.choose? onePass [tightItem] tightItem.max = some .grow := by decide +kernel
  refine ⟨by decide +kernel, by decide +kernel, ?_, ?_⟩
  · refine Distribution.warns_iff.mpr ⟨_, _, course_of_choose? hd, ?_⟩
    decide +kernel
  · rw [limitMatters_iff, course_of_choose? hd]
    rintro ⟨direction, course, heq, -, report, after, hpassed, -⟩
    obtain ⟨rfl, rfl⟩ := Prod.mk.inj (Option.some.inj heq)
    -- the item is closed, so that nothing is claimed
    rw [Direction.pass_of_closed _ _ _ (by decide +kernel)] at hpassed
    contradiction

end BoxLayout
