import GameQuery.Dialog
import GameQuery.Endpoint

namespace GameQuery

/-!
# Connections

The owner of some sockets, bound to the active address of an endpoint.
-/

/-- A state with sockets that can be opened anew. -/
class SocketOwner (σ : Type) where
  /-- Gives up the sockets there are and opens new ones to an address. -/
  openSockets : SocketAddress → Dialog σ Unit

/-- The owner of some sockets and the endpoint they are bound to. -/
structure Connection (σ : Type) where
  endpoint : Endpoint
  owner : σ

namespace Connection

variable {σ τ : Type}

def ownerPart : Part (Connection σ) σ := .field (·.owner) fun owner c => { c with owner }

/-- Opens the sockets to the active address. -/
def reconnect [SocketOwner σ] : Dialog (Connection σ) Unit := do
  let c ← Dialog.state
  .on ownerPart (SocketOwner.openSockets c.endpoint.address)

/-- Opens the sockets to the next address. The answer is whether this is the first one again. -/
def rotate [SocketOwner σ] : Dialog (Connection σ) Bool := do
  let c ← Dialog.state
  let endpoint := c.endpoint.next
  Dialog.modifyState fun c => { c with endpoint }
  Dialog.note .info ("switching to " ++ toString endpoint)
  reconnect
  return endpoint.atFirst

/-- A new connection. -/
def establish [SocketOwner σ] (endpoint : Endpoint) (owner : σ) : Dialog τ (Connection σ) :=
  Dialog.build { endpoint, owner } reconnect

end Connection

end GameQuery
