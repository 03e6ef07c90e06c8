/-!
# Faults of the channels

What a source or a sink reports when a read, a write or a flush does not succeed.
-/

namespace NumNum

/-- The class of a fault. Readers tell interruptions and malformed text by it. -/
inductive FaultKind where
  | other | interrupted | invalidData | invalidInput | unexpectedEof
  | brokenPipe | wouldBlock | permissionDenied
deriving DecidableEq

/-- A failed access to a channel. -/
structure IoFault where
  kind : FaultKind
  message : String
deriving DecidableEq

end NumNum
