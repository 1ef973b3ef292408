import Mathlib

/-!
# Ancestry in a store of blocks

Blocks live in a store keyed by their IDs, and each names its parent's ID; a block of height `0`
is a root. `InChain blocks c b` says that `c` is `b` or is reached from `b` by following parent
links through the store. The store of a running node only grows, so chains stay chains when
blocks are added (`InChain.mono`); conversely a chain in the grown store that starts from a block
of the old store stays in the old store when parents of old blocks are old blocks
(`InChain.of_grown`). A property that passes from blocks to their parents holds along every
chain (`InChain.of_parent`).
-/

namespace Jeth.Ancestry

variable {ι β : Type*} (parent : β → ι) (height : β → ℕ)

/-- `c` is `b` or one of its ancestors in `blocks`. -/
inductive InChain (blocks : ι → Option β) : β → β → Prop
  | self (b : β) : InChain blocks b b
  | parent {c b p : β} : height b ≠ 0 → blocks (parent b) = some p → InChain blocks c p →
      InChain blocks c b

variable {parent height} {blocks blocks' : ι → Option β}

theorem inChain_iff {c b : β} :
    InChain parent height blocks c b ↔
      c = b ∨ ∃ p, height b ≠ 0 ∧ blocks (parent b) = some p ∧ InChain parent height blocks c p := by
  constructor
  · rintro (_ | ⟨hb, hp, hc⟩)
    · exact Or.inl rfl
    · exact Or.inr ⟨_, hb, hp, hc⟩
  · rintro (rfl | ⟨p, hb, hp, hc⟩)
    · exact .self c
    · exact .parent hb hp hc

theorem InChain.trans {a c b : β} (hac : InChain parent height blocks a c)
    (hcb : InChain parent height blocks c b) : InChain parent height blocks a b := by
  induction hcb with
  | self => exact hac
  | parent hb hp _ ih => exact .parent hb hp ih

/-- Adding blocks to the store keeps every chain. -/
theorem InChain.mono (hgrow : ∀ i x, blocks i = some x → blocks' i = some x) {c b : β}
    (h : InChain parent height blocks c b) : InChain parent height blocks' c b := by
  induction h with
  | self => exact .self _
  | parent hb hp _ ih => exact .parent hb (hgrow _ _ hp) ih

/-- A chain of the grown store from an old block is a chain of the old store, when the parents
the grown store gives old blocks are old blocks of the old store. -/
theorem InChain.of_grown (old : β → Prop)
    (hold : ∀ x p, old x → height x ≠ 0 → blocks' (parent x) = some p →
      blocks (parent x) = some p ∧ old p)
    {c b : β} (h : InChain parent height blocks' c b) (hb : old b) :
    InChain parent height blocks c b ∧ old c := by
  induction h with
  | self => exact ⟨.self _, hb⟩
  | parent hx hp _ ih =>
    obtain ⟨hp', hold'⟩ := hold _ _ hb hx hp
    obtain ⟨hc, hcold⟩ := ih hold'
    exact ⟨.parent hx hp' hc, hcold⟩

/-- A property that passes from a block to its parent in the store holds all along a chain
from a block that has it. -/
theorem InChain.of_parent (P : β → Prop)
    (hP : ∀ x p, P x → height x ≠ 0 → blocks (parent x) = some p → P p)
    {c b : β} (h : InChain parent height blocks c b) (hb : P b) : P c := by
  induction h with
  | self => exact hb
  | parent hx hp _ ih => exact ih (hP _ _ hb hx hp)

end Jeth.Ancestry
