import Mathlib.Tactic

/-!
# Bridge errors

The error kinds of the wire crate and the error value every host operation
returns.
-/

namespace InfinityBridge

/-- `ErrorKind`. -/
inductive ErrorKind where
  | transport
  | timeout
  | protocol
  | application
  | noClients
  deriving DecidableEq

/-- `BridgeError`: a kind and a message. -/
structure BridgeError where
  kind : ErrorKind
  message : String
  deriving DecidableEq

def BridgeError.transport (message : String) : BridgeError := ⟨.transport, message⟩

def BridgeError.timeout (message : String) : BridgeError := ⟨.timeout, message⟩

def BridgeError.application (message : String) : BridgeError := ⟨.application, message⟩

def BridgeError.noClients (message : String) : BridgeError := ⟨.noClients, message⟩

end InfinityBridge
