/-!
# Redacted identifiers

An identifier cut short, so that it can be told to a person without giving it away.
-/

namespace VaultLink

/-- The first eight characters, and an ellipsis if there are more. -/
def redact (identifier : String) : String :=
  let cs := identifier.toList
  if cs.length ≤ 8 then identifier else String.ofList (cs.take 8 ++ ['…'])

end VaultLink
