import Mathlib

/-! # Exclusive holdings

Places that hold a resource or nothing, beside a pool of resources that are shared.
What a place holds is in use, no other place holds it, and it is not one of those that
are shared. Two rules keep this: places get resources that were not in use, and places
give up what they hold, which is then free.
-/

namespace Foundation

structure Holdings (Place Resource : Type) where
  places : Set Place
  held : Place → Option Resource
  shared : Set Resource
  inUse : Set Resource

namespace Holdings

variable {Place Resource : Type}

structure Exclusive (holdings : Holdings Place Resource) : Prop where
  used : ∀ place ∈ holdings.places, ∀ resource, holdings.held place = some resource →
    resource ∈ holdings.inUse
  once : ∀ place ∈ holdings.places, ∀ other ∈ holdings.places, ∀ resource,
    holdings.held place = some resource → holdings.held other = some resource → place = other
  apart : ∀ place ∈ holdings.places, ∀ resource, holdings.held place = some resource →
    resource ∉ holdings.shared
  sharedUsed : holdings.shared ⊆ holdings.inUse

/-- What is held or shared afterwards was so before, or has come into use, then at one
place only. -/
structure Grants (before after : Holdings Place Resource) : Prop where
  inUse : before.inUse ⊆ after.inUse
  held : ∀ place ∈ after.places, ∀ resource, after.held place = some resource →
    place ∈ before.places ∧ before.held place = some resource ∨
      resource ∈ after.inUse ∧ resource ∉ before.inUse
  once : ∀ place ∈ after.places, ∀ other ∈ after.places, ∀ resource, resource ∉ before.inUse →
    after.held place = some resource → after.held other = some resource → place = other
  shared : ∀ resource ∈ after.shared, resource ∈ before.shared ∨
    resource ∈ after.inUse ∧ resource ∉ before.inUse ∧
      ∀ place ∈ after.places, after.held place ≠ some resource

/-- The places in `gone` hold nothing afterwards, and only what they held is not in use
any more. -/
structure Releases (before after : Holdings Place Resource) (gone : Set Place) : Prop where
  places : after.places ⊆ before.places
  held : ∀ place ∈ after.places, ∀ resource, after.held place = some resource →
    before.held place = some resource ∧ place ∉ gone
  shared : after.shared ⊆ before.shared
  inUse : ∀ resource ∈ before.inUse, resource ∈ after.inUse ∨
    ∃ place ∈ gone, place ∈ before.places ∧ before.held place = some resource

variable {before after : Holdings Place Resource}

theorem Exclusive.grant (exclusive : before.Exclusive) (grants : before.Grants after) :
    after.Exclusive where
  used place member resource holds := by
    rcases grants.held place member resource holds with ⟨earlier, held⟩ | ⟨used, -⟩
    · exact grants.inUse (exclusive.used place earlier resource held)
    · exact used
  once place member other otherMember resource holds otherHolds := by
    by_cases fresh : resource ∈ before.inUse
    · rcases grants.held place member resource holds with ⟨earlier, held⟩ | ⟨-, unused⟩
      · rcases grants.held other otherMember resource otherHolds with ⟨old, otherHeld⟩ | ⟨-, unused⟩
        · exact exclusive.once place earlier other old resource held otherHeld
        · exact absurd fresh unused
      · exact absurd fresh unused
    · exact grants.once place member other otherMember resource fresh holds otherHolds
  apart place member resource holds common := by
    rcases grants.shared resource common with earlier | ⟨-, -, nobody⟩
    · rcases grants.held place member resource holds with ⟨old, held⟩ | ⟨-, unused⟩
      · exact exclusive.apart place old resource held earlier
      · exact unused (exclusive.sharedUsed earlier)
    · exact nobody place member holds
  sharedUsed resource common := by
    rcases grants.shared resource common with earlier | ⟨used, -, -⟩
    · exact grants.inUse (exclusive.sharedUsed earlier)
    · exact used

theorem Exclusive.release {gone : Set Place} (exclusive : before.Exclusive)
    (releases : before.Releases after gone) : after.Exclusive where
  used place member resource holds := by
    rcases releases.held place member resource holds with ⟨held, stays⟩
    have earlier := releases.places member
    rcases releases.inUse resource (exclusive.used place earlier resource held) with used | freed
    · exact used
    · rcases freed with ⟨other, leaves, otherEarlier, otherHeld⟩
      have same := exclusive.once place earlier other otherEarlier resource held otherHeld
      exact absurd (same ▸ leaves) stays
  once place member other otherMember resource holds otherHolds :=
    exclusive.once place (releases.places member) other (releases.places otherMember) resource
      (releases.held place member resource holds).1
      (releases.held other otherMember resource otherHolds).1
  apart place member resource holds common :=
    exclusive.apart place (releases.places member) resource
      (releases.held place member resource holds).1 (releases.shared common)
  sharedUsed resource common := by
    have earlier := releases.shared common
    rcases releases.inUse resource (exclusive.sharedUsed earlier) with used | freed
    · exact used
    · rcases freed with ⟨other, -, member, held⟩
      exact absurd earlier (exclusive.apart other member resource held)

end Holdings

end Foundation
