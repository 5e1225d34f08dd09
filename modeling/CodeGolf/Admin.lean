import CodeGolf.Course.Registry

/-!
# Administrators

A board asks its policy who may add courses, change allow-lists and replace the validator.
Two policies are at hand: one owner, and the members of a fixed set.
-/

namespace CodeGolf

/-- Who may administer a board. -/
structure AdminPolicy where
  accepts : Player → Bool

/-- Refuses a caller whom the policy does not accept. -/
def AdminPolicy.check (policy : AdminPolicy) (caller : Player) : Except RegistryError Unit :=
  if policy.accepts caller then .ok () else .error (.unauthorized caller)

/-- The policy of a single owner. -/
def AdminPolicy.owner (player : Player) : AdminPolicy := ⟨(· == player)⟩

/-- A set of administrators. -/
structure AdminSet where
  /-- The members, each once. -/
  members : List Player

namespace AdminSet

/-- The set of the listed players. -/
def ofList (players : List Player) : AdminSet := ⟨players.eraseDups⟩

/-- The number of members. -/
def size (s : AdminSet) : Nat := s.members.length

/-- Whether nobody is in the set. -/
def isEmpty (s : AdminSet) : Bool := s.members.isEmpty

/-- The policy that accepts the members. -/
def policy (s : AdminSet) : AdminPolicy := ⟨s.members.contains⟩

end AdminSet

end CodeGolf
