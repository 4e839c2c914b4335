import BoxLayout.Distribution
import BoxLayout.Proofs.Scalar.Likeness

/-!
# Sharing out like lengths

Items that are alike, sharing out an extent that counts as the same, get like shares: every decision
on the way is a comparison, and every amount the result of an operation.

* **`Item.Alike`**, **`Share.Alike`** — items and shares whose lengths are alike.
* **`Direction.pass_alike`**, **`Direction.run_alike`** — what one pass keeps, and then a whole
  course.
* **`distribute_alike`** — like sizes, and a like amount left over.
-/

namespace BoxLayout

open Scalar

variable {α : Type} [Scalar α] {L : Likeness α}

/-- Items whose lengths count as the same. -/
structure Item.Alike (L : Likeness α) (i i' : Item α) : Prop where
  natural : L.like i.natural i'.natural
  min : L.like i.min i'.min
  max : L.like i.max i'.max
  weight : L.like i.weight i'.weight

/-- Shares of like items, with like sizes and both open or both closed. -/
structure Share.Alike (L : Likeness α) (s s' : Share α) : Prop where
  item : s.item.Alike L s'.item
  size : L.like s.size s'.size
  closed : s.closed = s'.closed

/-- What is asked of one of two lists, element by element, is asked of the other. -/
theorem any_eq_of_forall₂ {β γ : Type} {R : β → γ → Prop} {p : β → Bool} {q : γ → Bool}
    (hpq : ∀ x y, R x y → p x = q y) {xs : List β} {ys : List γ} (h : List.Forall₂ R xs ys) :
    xs.any p = ys.any q := by
  induction h with
  | nil => rfl
  | cons hxy _ ih => rw [List.any_cons, List.any_cons, hpq _ _ hxy, ih]

namespace Direction

variable {d : Direction} {i i' : Item α} {s s' : Share α} {shares shares' : List (Share α)}
  {amount amount' total total' available available' : α}

/-! ## Single items -/

/-- What an item claims is its weight or its room, so like items claim alike. -/
theorem claim_alike (h : i.Alike L i') : L.like (d.claim i) (d.claim i') := by
  cases d with
  | grow => exact h.weight
  | shrink => exact L.sub h.natural h.min

theorem bound_alike (h : i.Alike L i') : L.like (d.bound i) (d.bound i') := by
  cases d with
  | grow => exact h.max
  | shrink => exact h.min

/-- Who takes no part is decided by comparing lengths, which does not tell like ones apart. -/
theorem exempt_eq (h : i.Alike L i') : d.exempt i = d.exempt i' := by
  cases d with
  | grow =>
    simp only [exempt, L.le_iff h.weight (L.refl zero), L.le_iff h.max h.natural]
  | shrink =>
    simp only [exempt, L.le_iff (L.sub h.natural h.min) (L.refl zero)]

theorem amount_alike (havailable : L.like available available') {used used' : α}
    (hused : L.like used used') : L.like (d.amount available used) (d.amount available' used') := by
  cases d with
  | grow => exact L.sub havailable hused
  | shrink => exact L.sub hused havailable

/-- What an item is offered is a quotient by the sum of claims, which is above zero. -/
theorem target_alike (hpos : ¬ total ≤ zero) (hamount : L.like amount amount')
    (htotal : L.like total total') (h : i.Alike L i') :
    L.like (d.target amount total i) (d.target amount' total' i') := by
  cases d with
  | grow => exact L.add h.natural (L.div hpos (L.mul hamount h.weight) htotal)
  | shrink =>
    exact L.sub h.natural (L.div hpos (L.mul hamount (L.sub h.natural h.min)) htotal)

/-- The same is true of who reaches the bound. -/
theorem reaches_eq (h : i.Alike L i') {target target' : α} (htarget : L.like target target') :
    d.reaches i target = d.reaches i' target' := by
  cases d with
  | grow => simp only [reaches, L.le_iff h.max htarget]
  | shrink => simp only [reaches, L.le_iff htarget h.min]

/-! ## Passes -/

theorem opening_alike (h : i.Alike L i') : (d.opening i).Alike L (d.opening i') :=
  ⟨h, h.natural, exempt_eq h⟩

/-- Claims are summed over the same places, since like shares are open together. -/
theorem totalClaim_alike (h : List.Forall₂ (Share.Alike L) shares shares') :
    L.like (d.totalClaim shares) (d.totalClaim shares') := by
  have hopen : List.Forall₂ (Share.Alike L) (shares.filter fun s => !s.closed)
      (shares'.filter fun s => !s.closed) := by
    refine List.rel_filter (R := Share.Alike L) (fun s s' hs => ?_) h
    exact Bool.eq_iff_iff.mp (congrArg not hs.closed)
  exact L.sum (List.rel_map (fun _ _ hs => claim_alike hs.item) hopen)

theorem used_alike (h : List.Forall₂ (Share.Alike L) shares shares') :
    L.like (used shares) (used shares') := by
  refine L.sum (List.rel_map (fun s s' hs => ?_) h)
  -- both count their size, or both their natural extent
  rw [hs.closed]
  split_ifs
  · exact hs.size
  · exact hs.item.natural

/-- An offer closes both of two like shares, or none. -/
theorem offer_alike (hpos : ¬ total ≤ zero) (hamount : L.like amount amount')
    (htotal : L.like total total') (h : s.Alike L s') :
    (d.offer amount total s).Alike L (d.offer amount' total' s') := by
  have htarget := target_alike (d := d) hpos hamount htotal h.item
  unfold offer
  rw [h.closed]
  dsimp only
  rw [reaches_eq h.item htarget]
  split_ifs
  · exact h
  · -- both reach their bounds, which are alike
    exact ⟨h.item, bound_alike h.item, rfl⟩
  · exact ⟨h.item, htarget, rfl⟩

theorem closes_eq (hpos : ¬ total ≤ zero) (hamount : L.like amount amount')
    (htotal : L.like total total') (h : s.Alike L s') :
    d.closes amount total s = d.closes amount' total' s' := by
  unfold closes
  rw [h.closed, reaches_eq h.item (target_alike hpos hamount htotal h.item)]

/-- **Like shares go through a pass alike.** It ends for both, or it leaves like shares and closes an
item of both or of none. -/
theorem pass_alike (epsilon : α) (havailable : L.like available available')
    (h : List.Forall₂ (Share.Alike L) shares shares') :
    Option.Rel
      (fun x y => x.1.clamped = y.1.clamped ∧ List.Forall₂ (Share.Alike L) x.2 y.2)
      (d.pass epsilon available shares) (d.pass epsilon available' shares') := by
  have htotal := totalClaim_alike (d := d) h
  have hamount := amount_alike (d := d) havailable (used_alike h)
  unfold pass
  simp only [L.le_iff htotal (L.refl zero), L.le_iff hamount (L.refl epsilon)]
  split_ifs with hclaims hleft
  · exact .none
  · exact .none
  · -- the divisor is not zero on either side
    have hpos := mt (L.le_iff htotal (L.refl zero)).mp hclaims
    exact .some ⟨any_eq_of_forall₂ (fun _ _ hs => closes_eq hpos hamount htotal hs) h,
      List.rel_map (fun _ _ hs => offer_alike hpos hamount htotal hs) h⟩

/-- **A whole course.** Induction on the limit, with what a pass leaves. -/
theorem run_alike {epsilon : α} (havailable : L.like available available') (limit : Nat)
    (h : List.Forall₂ (Share.Alike L) shares shares') :
    List.Forall₂ (Share.Alike L) (d.run epsilon available limit shares).shares
      (d.run epsilon available' limit shares').shares := by
  induction limit generalizing shares shares' with
  | zero => exact h
  | succ limit ih =>
    have hpass := pass_alike (d := d) epsilon havailable h
    unfold run
    -- the two passes are taken as related outcomes, so that they end together
    generalize d.pass epsilon available shares = x at hpass ⊢
    generalize d.pass epsilon available' shares' = y at hpass ⊢
    cases hpass with
    | none => exact h
    | some hafter =>
      obtain ⟨hclamped, hshares⟩ := hafter
      dsimp only
      rw [hclamped]
      split_ifs
      · exact ih hshares
      · exact hshares

end Direction

/-! ## The whole distribution -/

variable {settings settings' : Settings α} {items items' : List (Item α)} {available available' : α}

/-- Both surpluses and deficits are told by comparing the slack, so both distributions take one direction.
-/
theorem Direction.choose?_eq (hepsilon : settings.epsilon = settings'.epsilon)
    (havailable : L.like available available') (h : List.Forall₂ (Item.Alike L) items items') :
    Direction.choose? settings items available = Direction.choose? settings' items' available' := by
  have hslack : L.like (available - Scalar.sum (items.map Item.natural))
      (available' - Scalar.sum (items'.map Item.natural)) :=
    L.sub havailable (L.sum (List.rel_map (fun _ _ hi => hi.natural) h))
  have hweights : (items.any fun i => decide (zero < i.weight)) =
      items'.any fun i => decide (zero < i.weight) :=
    any_eq_of_forall₂ (fun _ _ hi => by simp only [L.lt_iff (L.refl zero) hi.weight]) h
  unfold choose?
  simp only [hepsilon, hweights, L.lt_iff (L.refl settings'.epsilon) hslack,
    L.lt_iff hslack (L.refl (-settings'.epsilon))]

/-- **Like items that share a like extent get like sizes.** -/
theorem distribute_alike (hepsilon : settings.epsilon = settings'.epsilon)
    (hpasses : settings.maxPasses = settings'.maxPasses) (havailable : L.like available available')
    (h : List.Forall₂ (Item.Alike L) items items') :
    List.Forall₂ L.like (distribute settings items available).sizes
        (distribute settings' items' available').sizes ∧
      L.like (distribute settings items available).leftover
        (distribute settings' items' available').leftover := by
  have hsizes : List.Forall₂ L.like (distribute settings items available).sizes
      (distribute settings' items' available').sizes := by
    unfold distribute
    rw [Direction.choose?_eq hepsilon havailable h, hepsilon, hpasses]
    cases Direction.choose? settings' items' available' with
    -- without slack every item keeps its natural extent
    | none => exact List.rel_map (fun _ _ hi => hi.natural) h
    | some d =>
      refine List.rel_map (fun _ _ hs => hs.size) (Direction.run_alike havailable _ ?_)
      exact List.rel_map (fun _ _ hi => Direction.opening_alike hi) h
  exact ⟨hsizes, L.sub havailable (L.sum hsizes)⟩

end BoxLayout
