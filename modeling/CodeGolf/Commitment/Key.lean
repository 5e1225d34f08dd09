import CodeGolf.Player
import CodeGolf.Course

/-!
# Commitment keys and run seeds

A commitment names a player, a solution and a salt through one digest. The bytes that are
digested begin with a tag, give the length of the solution before the solution and end with
the salt, so they determine the player, the solution and the salt. The seed of a run digests
bytes with another tag, and takes the first eight bytes of the digest.
-/

namespace CodeGolf

/-- A secret that keeps a commitment from being guessed. -/
abbrev Salt := Word

/-- The tag of commitments. -/
def commitmentTag : Bytes := Utf8.encode "golf.commitment.v1".toList

/-- The bytes that a commitment digests. -/
def commitmentPreimage (player : Player) (solution : Bytes) (salt : Salt) : Bytes :=
  commitmentTag ++ player.key.toBytes ++ Bytes.bigEndian 8 solution.length ++ solution ++
    salt.toBytes

/-- The key under which a player commits to a solution. -/
def commitmentKey (player : Player) (solution : Bytes) (salt : Salt) : Digest :=
  sha256 (commitmentPreimage player solution salt)

/-- The tag of seeds. -/
def seedTag : Bytes := Utf8.encode "golf.seed.v1".toList

/-- The bytes that the seed of a run digests: who submits, to which course, how many solutions
the course had, and when. -/
def seedPreimage (submitter : Player) (course : CourseId) (solutionCount : UInt64) (now : Time) :
    Bytes :=
  seedTag ++ submitter.key.toBytes ++ Bytes.bigEndian 4 course.number.toNat ++
    Bytes.bigEndian 8 solutionCount.toNat ++ Bytes.bigEndian 8 now.toNat

/-- The seed of a run. -/
def runSeed (submitter : Player) (course : CourseId) (solutionCount : UInt64) (now : Time) :
    UInt64 :=
  let digest := sha256 (seedPreimage submitter course solutionCount now)
  UInt64.ofNat (Bytes.ofBigEndian (digest.toBytes.take 8))

end CodeGolf
