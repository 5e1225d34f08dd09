import CodeGolf.Commitment.Key
import CodeGolf.Table

/-!
# The ledger of commitments

A key can be committed once, by whoever comes first. A commitment may be revealed when it is
old enough and, if commitments are for a single use, as long as no reveal has consumed it. The
ledger only answers whether a reveal may go on; consuming is a step of its own, taken when the
reveal has succeeded.
-/

namespace CodeGolf

/-- A commitment to a solution. -/
structure Commitment where
  player : Player
  committedAt : Time
  /-- When it was first revealed. -/
  revealedAt : Option Time
  deriving DecidableEq

namespace Commitment

/-- How old the commitment is; none at all before it was made. -/
def age (c : Commitment) (now : Time) : UInt64 :=
  if c.committedAt ≤ now then now - c.committedAt else 0

/-- Whether it was revealed. -/
def isRevealed (c : Commitment) : Bool := c.revealedAt.isSome

/-- The commitment once revealed; the first reveal is the one that is kept. -/
def revealed (c : Commitment) (now : Time) : Commitment :=
  { c with revealedAt := some (c.revealedAt.getD now) }

end Commitment

/-- Why a commitment or a reveal is refused. -/
inductive CommitError where
  | alreadyCommitted (key : Digest)
  | notCommitted (key : Digest)
  | tooNew (key : Digest) (remaining : UInt64)
  | alreadyRevealed (key : Digest)
  deriving DecidableEq

/-- The wording of a refusal. -/
def CommitError.message : CommitError → String
  | .alreadyCommitted key => "Key already committed: " ++ key.hex
  | .notCommitted key => "Key not committed: " ++ key.hex
  | .tooNew key remaining =>
    "Commitment too new: " ++ key.hex ++ " reveals in " ++ toString remaining ++ "s"
  | .alreadyRevealed key => "Commitment already revealed: " ++ key.hex

/-- The position of an entry: that of its key. -/
def Commitment.rank (entry : Digest × Commitment) : Nat := entry.1.toNat

/-- The commitments of a board. -/
structure Ledger where
  entries : Table Commitment.rank
  /-- The age from which a commitment may be revealed. -/
  minAge : UInt64
  /-- Whether a reveal consumes its commitment. -/
  singleUse : Bool

namespace Ledger

/-- The age from which a commitment may be revealed unless a board says otherwise. -/
def standardMinAge : UInt64 := 60

/-- The ledger without commitments. -/
def empty (minAge : UInt64) (singleUse : Bool) : Ledger := ⟨.empty, minAge, singleUse⟩

/-- The ledger without commitments and with the usual settings. -/
def standard : Ledger := empty standardMinAge true

/-- The ledger of the listed commitments; of two with the same key the later one stays. -/
def ofList (entries : List (Digest × Commitment)) (minAge : UInt64) (singleUse : Bool) : Ledger :=
  ⟨.ofList entries, minAge, singleUse⟩

/-- The commitments in the order of their keys. -/
def toList (l : Ledger) : List (Digest × Commitment) := l.entries.toList

/-- The number of commitments. -/
def size (l : Ledger) : Nat := l.entries.size

/-- The commitment of a key. -/
def find? (l : Ledger) (key : Digest) : Option Commitment :=
  (l.entries.find? key.toNat).map Prod.snd

/-- The ledger with the commitment of a key added or replaced. -/
def insert (l : Ledger) (key : Digest) (c : Commitment) : Ledger :=
  { l with entries := l.entries.insert (key, c) }

/-- Commits a key for a player. -/
def commit (key : Digest) (player : Player) (now : Time) : EStateM CommitError Ledger Unit := do
  if ((← get).find? key).isSome then throw (.alreadyCommitted key)
  modify fun l => l.insert key ⟨player, now, none⟩

/-- Who may be credited with a reveal of the key; the ledger stays as it is. -/
def eligible (l : Ledger) (key : Digest) (now : Time) : Except CommitError Player :=
  match l.find? key with
  | none => .error (.notCommitted key)
  | some c =>
    if c.age now < l.minAge then .error (.tooNew key (l.minAge - c.age now))
    else if l.singleUse && c.isRevealed then .error (.alreadyRevealed key)
    else .ok c.player

/-- Notes that the key was revealed, and answers whether it was there. -/
def markRevealed (key : Digest) (now : Time) : EStateM CommitError Ledger Bool := do
  match (← get).find? key with
  | none => return false
  | some c =>
    modify fun l => l.insert key (c.revealed now)
    return true

theorem run_commit (l : Ledger) (key : Digest) (player : Player) (now : Time) :
    (commit key player now).run l =
      if (l.find? key).isSome then .error (.alreadyCommitted key) l
      else .ok () (l.insert key ⟨player, now, none⟩) := by
  simp only [commit, EStateM.run_bind, EStateM.run_get]
  split <;> rfl

theorem run_markRevealed (l : Ledger) (key : Digest) (now : Time) :
    (markRevealed key now).run l =
      match l.find? key with
      | none => .ok false l
      | some c => .ok true (l.insert key (c.revealed now)) := by
  simp only [markRevealed, EStateM.run_bind, EStateM.run_get]
  cases l.find? key <;> rfl

end Ledger

end CodeGolf
