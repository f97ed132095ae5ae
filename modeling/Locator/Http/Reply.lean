import Locator.Http.Body

/-!
# Replies of servers

`Reply.receive` reads a reply from the bytes that came over a connection: the head, after any
interim ones, and the body behind it.
-/

namespace Locator.Http

inductive Reply where
  | reply (head : Head) (body : Body)
  /-- There is no complete head and there will be none. -/
  | nothing
  /-- The head is still to come. -/
  | waiting
  deriving DecidableEq, Repr

/-- Reads a reply, after any interim ones. -/
def Reply.receive (arrived : Arrived) : Reply :=
  match _hhead : Head.scan arrived.bytes with
  | .bad => .nothing
  | .more => if arrived.stalls then .waiting else .nothing
  | .done head rest =>
    if head.isInterim then receive { arrived with bytes := rest }
    else
      match Framing.ofHead? head with
      | none => .nothing
      | some framing => .reply head (.receive framing { arrived with bytes := rest })
termination_by arrived.bytes.length
decreasing_by exact Head.consumes_scan _hhead

end Locator.Http
