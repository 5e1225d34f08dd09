import CodeGolf.Snapshot

/-!
# Snapshots as bytes

A snapshot is written field by field. Numbers have a fixed width and start with the least
significant byte; keys are their 32 bytes; a list is the number of its elements in eight bytes
and then the elements, a text likewise with its UTF-8 bytes; an optional field is a zero byte,
or a one byte and the field; an allow-list is written as the text of its 64 digits. Around the
snapshot stands an envelope with the version of the format and the bytes of the snapshot as a
list. Bytes after either are not looked at.

A decoder takes what it needs from the front of the bytes and hands on the rest, so the decoder
of a record is the sequence of the decoders of its fields, in the order in which `encode`
writes them.
-/

namespace CodeGolf.Snapshot

/-- The version of the format. -/
def formatVersion : Nat := 1

/-! ## Writing -/

namespace Encode

/-- A number of 64 bits. -/
def word64 (n : UInt64) : Bytes := Bytes.littleEndian 8 n.toNat

/-- The number of elements of a list. -/
def length (n : Nat) : Bytes := Bytes.littleEndian 8 n

/-- The id of a course. -/
def courseId (id : CourseId) : Bytes := Bytes.littleEndian 4 id.number.toNat

/-- A player. -/
def player (p : Player) : Bytes := p.key.toBytes

/-- A text. -/
def text (s : String) : Bytes :=
  let bytes := Utf8.encode s.toList
  length bytes.length ++ bytes

/-- A field that may be absent. -/
def option {α : Type} (write : α → Bytes) : Option α → Bytes
  | none => [0]
  | some a => 1 :: write a

/-- A list. -/
def list {α : Type} (write : α → Bytes) (items : List α) : Bytes :=
  length items.length ++ items.flatMap write

/-- A course record. -/
def record (r : CourseRecord) : Bytes :=
  courseId r.id ++ text r.name ++ text r.allowed.hex ++ word64 r.leadingCost ++
    option player r.titleHolder ++ word64 r.solutionCount ++ word64 r.titleChanges ++
    word64 r.registeredAt

/-- A commitment with its key. -/
def commitment (entry : Digest × Commitment) : Bytes :=
  entry.1.toBytes ++ player entry.2.player ++ word64 entry.2.committedAt ++
    option word64 entry.2.revealedAt

/-- A par. -/
def par (p : Par) : Bytes :=
  courseId p.course ++ player p.holder ++ word64 p.bestCost ++ word64 p.submissions ++
    word64 p.createdAt ++ word64 p.bestAt

/-- The fields of a snapshot. -/
def body (s : Snapshot) : Bytes :=
  word64 s.takenAt ++ list record s.courses ++ list commitment s.commitments ++ list par s.pars

end Encode

/-- The bytes of a snapshot in their envelope. -/
def encode (s : Snapshot) : Bytes :=
  let body := Encode.body s
  Bytes.littleEndian 4 formatVersion ++ Encode.length body.length ++ body

/-! ## Reading -/

/-- Why bytes are not a snapshot. -/
inductive DecodeError where
  /-- The bytes end inside a number, a key, a list or the envelope. -/
  | endOfData
  /-- The bytes end inside a text. -/
  | endOfText
  | notUtf8 (fault : Utf8.Error)
  /-- An optional field starts with a byte other than zero and one. -/
  | badTag (tag : Nat)
  | badAllowList (fault : Word.ParseError)
  | unknownVersion (version : Nat)
  deriving DecidableEq

/-- The wording of a fault. -/
def DecodeError.message : DecodeError → String
  | .endOfData => "io error: unexpected end of file"
  | .endOfText => "io error: "
  | .notUtf8 fault => "string is not valid utf8: " ++ fault.message
  | .badTag tag => s!"tag for enum is not valid, found {tag}"
  | .badAllowList fault => OpcodeSet.parseErrorMessage fault
  | .unknownVersion version =>
    s!"unsupported snapshot version {version} (expected {formatVersion})"

/-- A decoder takes what it needs from the front of the bytes and hands on the rest. -/
abbrev Decoder (α : Type) := StateT Bytes (Except DecodeError) α

namespace Decode

/-- The next `n` bytes, or the fault `short` if there are fewer. -/
def take (short : DecodeError) (n : Nat) : Decoder Bytes := fun bytes =>
  let front := bytes.take n
  if front.length = n then .ok (front, bytes.drop n) else .error short

/-- A number of `width` bytes. -/
def number (width : Nat) : Decoder Nat := do
  let bytes ← take .endOfData width
  return Bytes.ofLittleEndian bytes

/-- A number of 64 bits. -/
def word64 : Decoder UInt64 := do
  let n ← number 8
  return UInt64.ofNat n

/-- The id of a course. -/
def courseId : Decoder CourseId := do
  let n ← number 4
  return ⟨UInt32.ofNat n⟩

/-- A word of 32 bytes. -/
def word : Decoder Word := do
  let bytes ← take .endOfData 32
  return Word.ofBytes bytes

/-- A player. -/
def player : Decoder Player := do
  let key ← word
  return ⟨key⟩

/-- A text. -/
def text : Decoder String := do
  let length ← number 8
  let bytes ← take .endOfText length
  match Utf8.decode bytes with
  | .ok chars => return String.ofList chars
  | .error fault => throw (.notUtf8 fault)

/-- The allow-list of a course. -/
def allowed : Decoder OpcodeSet := do
  let digits ← text
  match OpcodeSet.parse digits with
  | .ok set => return set
  | .error fault => throw (.badAllowList fault)

/-- A field that may be absent. -/
def option {α : Type} (read : Decoder α) : Decoder (Option α) := do
  let tag ← number 1
  match tag with
  | 0 => return none
  | 1 =>
    let a ← read
    return some a
  | tag => throw (.badTag tag)

/-- `n` elements one after the other. -/
def times {α : Type} (read : Decoder α) : (n : Nat) → Decoder (List α)
  | 0 => return []
  | n + 1 => do
    let a ← read
    let rest ← times read n
    return a :: rest

/-- A list. -/
def list {α : Type} (read : Decoder α) : Decoder (List α) := do
  let length ← number 8
  times read length

/-- A course record. -/
def record : Decoder CourseRecord := do
  let id ← courseId
  let name ← text
  let allowed ← allowed
  let leadingCost ← word64
  let titleHolder ← option player
  let solutionCount ← word64
  let titleChanges ← word64
  let registeredAt ← word64
  return ⟨id, name, allowed, leadingCost, titleHolder, solutionCount, titleChanges, registeredAt⟩

/-- A commitment with its key. -/
def commitment : Decoder (Digest × Commitment) := do
  let key ← word
  let player ← player
  let committedAt ← word64
  let revealedAt ← option word64
  return (key, ⟨player, committedAt, revealedAt⟩)

/-- A par. -/
def par : Decoder Par := do
  let course ← courseId
  let holder ← player
  let bestCost ← word64
  let submissions ← word64
  let createdAt ← word64
  let bestAt ← word64
  return ⟨course, holder, bestCost, submissions, createdAt, bestAt⟩

/-- The fields of a snapshot. -/
def body : Decoder Snapshot := do
  let takenAt ← word64
  let courses ← list record
  let commitments ← list commitment
  let pars ← list par
  return ⟨takenAt, courses, commitments, pars⟩

/-- The version and the bytes in an envelope. -/
def envelope : Decoder (Nat × Bytes) := do
  let version ← number 4
  let length ← number 8
  let data ← take .endOfData length
  return (version, data)

end Decode

/-- The snapshot that bytes start with. The version is looked at once the envelope is complete. -/
def decode (bytes : Bytes) : Except DecodeError Snapshot :=
  match Decode.envelope bytes with
  | .error fault => .error fault
  | .ok ((version, data), _) =>
    if version ≠ formatVersion then .error (.unknownVersion version)
    else
      match Decode.body data with
      | .error fault => .error fault
      | .ok (s, _) => .ok s

end CodeGolf.Snapshot
