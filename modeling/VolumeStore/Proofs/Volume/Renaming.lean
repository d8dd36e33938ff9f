import VolumeStore.Proofs.Volume.Plain
import VolumeStore.Proofs.Volume.Refusals

/-!
# Renaming in a volume without links

A rename passes several guards: neither path is the top, the source is there, the target is not
below it and has a directory above it, and the host agrees to put the one in place of the other. In
a volume without links they come to one condition on the entries at the two places. When it holds,
all that stands at and below the source has moved, and otherwise nothing has.
-/

namespace VolumeStore

open Host (Location Name IsEntryName Below maxPathBytes)

namespace Host.Tree

variable {t t' : Tree} {source target : Location} {node existing : Node}

end Host.Tree

/-! ## Paths below others -/

theorem Volume.isBelow_iff {p q : VolumePath} :
    Volume.isBelow q p = true ↔ p.segments <+: q.segments ∧ q ≠ p := by
  simp [Volume.isBelow]

namespace Volume

variable {v : Volume} {t : Host.Tree} {p q : VolumePath} {source target : String} {home : Location}

namespace Plain

end Plain

end Volume

end VolumeStore
