import BoxLayout.Constraints.Edit

/-!
# Refused edits

An edit is carried out on the record in place, so a refusal that came after a write would leave half
of the edit behind. None does: every check of an edit comes before its first write, and a write is
never refused.

* **`Editing.Atomic`**, **`Editing.Accepting`** — a refusal leaves the record as it was; there is no
  refusal.
* **`Edit.atomic_perform`** — every edit is atomic, by the order of its steps.
-/

namespace BoxLayout

variable {α : Type}

namespace Editing

variable {β γ : Type}

/-- A computation on a record that leaves the record as it was whenever it is refused. -/
def Atomic (x : Editing α β) : Prop :=
  ∀ c left refusal, x c = .error refusal left → left = c

/-- A computation on a record that is never refused. -/
def Accepting (x : Editing α β) : Prop := ∀ c left refusal, x c ≠ .error refusal left

theorem bind_eq_error_iff {x : Editing α β} {next : β → Editing α γ} {c left : Constraints α}
    {refusal : ValidationError α} :
    (x >>= next) c = .error refusal left ↔
      x c = .error refusal left ∨
        ∃ a between, x c = .ok a between ∧ next a between = .error refusal left := by
  show EStateM.bind x next c = _ ↔ _
  unfold EStateM.bind
  cases x c with
  | ok a between => simp [and_assoc]
  | error refusal left => simp

/-- A write is never refused. -/
theorem accepting_modify (change : Constraints α → Constraints α) :
    (modify change : Editing α Unit).Accepting := by
  intro c left refusal h
  nomatch h

/-- A sequence of steps that are never refused is never refused. -/
theorem Accepting.bind {x : Editing α β} {next : β → Editing α γ} (hx : x.Accepting)
    (hnext : ∀ a, (next a).Accepting) : (x >>= next).Accepting := by
  intro c left refusal h
  rcases bind_eq_error_iff.mp h with h | ⟨a, between, -, h⟩
  · exact hx c left refusal h
  · exact hnext a between left refusal h

theorem Accepting.atomic {x : Editing α β} (h : x.Accepting) : x.Atomic :=
  fun c left refusal hrefused => absurd hrefused (h c left refusal)

/-- A check writes nothing, so what follows it may still be refused. -/
theorem Atomic.check_bind {outcome : Except (ValidationError α) β} {next : β → Editing α γ}
    (h : ∀ a, (next a).Atomic) : (check outcome >>= next).Atomic := by
  intro c left refusal hrefused
  rcases bind_eq_error_iff.mp hrefused with hcheck | ⟨a, between, hcheck, hnext⟩
  · cases outcome with
    | ok value => nomatch hcheck
    | error _ =>
      injection hcheck with _ hleft
      exact hleft.symm
  · obtain ⟨-, rfl⟩ := check_eq_ok_iff.mp hcheck
    exact h a between left refusal hnext

/-- Nor does looking at the record write anything. -/
theorem Atomic.get_bind {next : Constraints α → Editing α γ} (h : ∀ a, (next a).Atomic) :
    ((get : Editing α _) >>= next).Atomic :=
  fun c left refusal hrefused => h c c left refusal hrefused

end Editing

open Editing

/-- **A refused edit leaves the record as it was.** The cases are grouped by the checks that come
first and the number of writes that follow. -/
theorem Edit.atomic_perform [Scalar α] (e : Edit α) : e.perform.Atomic := by
  have write (change : Constraints α → Constraints α) := accepting_modify change
  cases e
  case minExtent | maxExtent =>
    refine .check_bind fun _ => .get_bind fun _ => .check_bind fun _ => ?_
    exact (write _).atomic
  case minSize | maxSize =>
    -- both lengths, and then both orders
    refine .check_bind fun _ => .check_bind fun _ => ?_
    refine .get_bind fun _ => .check_bind fun _ => .get_bind fun _ => .check_bind fun _ => ?_
    exact ((write _).bind fun _ => write _).atomic
  case fixedSize =>
    refine .check_bind fun _ => .check_bind fun _ => Accepting.atomic ?_
    exact (write _).bind fun _ => (write _).bind fun _ => (write _).bind fun _ => write _
  case adjustment =>
    refine .check_bind fun _ => .check_bind fun _ => ?_
    exact ((write _).bind fun _ => write _).atomic
  case fixedExtent | stretchWeight | margins | spacing =>
    exact .check_bind fun _ => ((write _).bind fun _ => write _).atomic
  case stretchAlong | marginAt | marginsAlong | spacingAlong =>
    exact .check_bind fun _ => (write _).atomic
  -- the other edits check nothing
  case stretching | clearAlignment => exact ((write _).bind fun _ => write _).atomic
  case pureStretching =>
    exact ((write _).bind fun _ => (write _).bind fun _ => write _).atomic
  case ignoreNatural | hAlign | vAlign | cells | name | logLayout | flags =>
    exact (write _).atomic

end BoxLayout
