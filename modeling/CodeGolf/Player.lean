import CodeGolf.Word

/-!
# Players

A player is a public key of 32 bytes; contestants and administrators alike are players.
-/

namespace CodeGolf

/-- A contestant or an administrator, known by a public key. -/
structure Player where
  key : Word
  deriving DecidableEq

namespace Player

/-- The player whose key comes first. -/
def least : Player := ⟨0⟩

/-- The player whose key comes last. -/
def greatest : Player := ⟨BitVec.allOnes 256⟩

/-- The player whose key has the given digits. -/
def parse (text : String) : Except Word.ParseError Player := (Word.parse text).map Player.mk

/-- The digits of the whole key. -/
def hex (p : Player) : String := p.key.hex

/-- The digits of the first four bytes, for lines that name many players. -/
def short (p : Player) : String := Hex.encode (p.key.toBytes.take 4)

/-- A player in a dump of data. -/
def describe (p : Player) : String := "Player(" ++ p.short ++ "..)"

end Player

/-- The wording of a key that cannot be read. -/
def Player.parseErrorMessage (fault : Word.ParseError) : String := fault.message "player"

end CodeGolf
