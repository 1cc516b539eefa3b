import Udaf.AbilityC.CmdExecNode

/-!
`stop` of a `CmdExecNode` waits for its worker. Once the flag is down the worker does only
finitely many things more, and where it can do nothing more it has ended, or it and the
child that it runs are waiting for each other.
-/

namespace Udaf

open ByteString Runs Conveyor
open ProcessExecutor (Child Execution)

namespace CmdExecNode

/-- The worker or its child has done something; a wait that goes on is nothing. -/
def Event.OfWorker : Event → Prop
  | .started | .stopped | .offered _ _ | .consumed _ | .turned .waits => False
  | _ => True

section Steps

variable {capacity : Nat} {system next : System} {event : Event}

end Steps

end CmdExecNode

end Udaf
