/-!
# Phases of the key exchange

A session starts idle, sends its public key, and then is established or rejected for good.
-/

namespace VaultLink

/-- How far the key exchange of a session got. -/
inductive Phase where
  /-- Nothing was sent. -/
  | idle
  /-- The public key was sent and no reply was taken. -/
  | keysSent
  /-- The proxy's key is known. -/
  | established
  /-- The key exchange failed. -/
  | rejected
  deriving DecidableEq, Repr

/-- The phase as a person is told of it. -/
def Phase.label : Phase → String
  | idle => "Idle"
  | keysSent => "KeysSent"
  | established => "Established"
  | rejected => "Rejected"

end VaultLink
