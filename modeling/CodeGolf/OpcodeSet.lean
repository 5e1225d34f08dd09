import CodeGolf.Word

/-!
# Sets of opcodes

An allow-list is a set of opcode bytes held as a word of 256 bits: an opcode is in the set
when the bit of its number is set, so the word written in base sixteen with the most
significant digit first is the usual text of the set. Two sets with the same members are the
same word (`OpcodeSet.ext_contains`).
-/

namespace CodeGolf

/-- A set of opcodes. -/
structure OpcodeSet where
  /-- The word whose set bits are the members. -/
  mask : Word
  deriving DecidableEq

namespace OpcodeSet

/-- Whether an opcode is in the set. -/
def contains (s : OpcodeSet) (opcode : UInt8) : Bool := s.mask.getLsbD opcode.toNat

instance : Membership UInt8 OpcodeSet := ⟨fun s opcode => s.contains opcode = true⟩

instance (opcode : UInt8) (s : OpcodeSet) : Decidable (opcode ∈ s) :=
  inferInstanceAs (Decidable (s.contains opcode = true))

/-- The set without members. -/
def empty : OpcodeSet := ⟨0⟩

/-- The set of all 256 opcodes. -/
def full : OpcodeSet := ⟨BitVec.allOnes 256⟩

/-- The word with the one bit of an opcode. -/
def bit (opcode : UInt8) : Word := BitVec.twoPow 256 opcode.toNat

/-- The set with an opcode allowed. -/
def insert (s : OpcodeSet) (opcode : UInt8) : OpcodeSet := ⟨s.mask ||| bit opcode⟩

/-- The set with an opcode denied. -/
def erase (s : OpcodeSet) (opcode : UInt8) : OpcodeSet := ⟨s.mask &&& ~~~ bit opcode⟩

/-- The opcodes in both sets. -/
def inter (s t : OpcodeSet) : OpcodeSet := ⟨s.mask &&& t.mask⟩

/-- The set of the listed opcodes. -/
def ofList (opcodes : List UInt8) : OpcodeSet := opcodes.foldl insert empty

/-- The set of all opcodes but the listed ones. -/
def allExcept (opcodes : List UInt8) : OpcodeSet := opcodes.foldl erase full

/-- All opcodes in ascending order. -/
def opcodes : List UInt8 := (List.range 256).map UInt8.ofNat

/-- The members in ascending order. -/
def toList (s : OpcodeSet) : List UInt8 := opcodes.filter s.contains

/-- How many members the set has: how many bits of the word are set. -/
def size (s : OpcodeSet) : Nat := s.mask.cpop.toNat

/-- Whether the set has no members. -/
def isEmpty (s : OpcodeSet) : Bool := s.mask == 0

/-- Whether the set has all opcodes as members. -/
def isFull (s : OpcodeSet) : Bool := s.mask == BitVec.allOnes 256

/-! ## Membership -/

/-- The members of a set are the bits of its word. -/
theorem contains_mk (w : Word) (opcode : UInt8) :
    (OpcodeSet.mk w).contains opcode = w.getLsbD opcode.toNat := rfl

/-- The empty set contains no opcode. -/
@[simp] theorem contains_empty (opcode : UInt8) : empty.contains opcode = false := by
  simp [empty, contains]

/-- The full set contains every opcode. -/
@[simp] theorem contains_full (opcode : UInt8) : full.contains opcode = true := by
  have h : opcode.toNat < 256 := opcode.toNat_lt
  show (BitVec.allOnes 256).getLsbD opcode.toNat = true
  rw [BitVec.getLsbD_allOnes]
  exact decide_eq_true h

/-- What is contained after an insertion. -/
@[simp] theorem contains_insert (s : OpcodeSet) (x y : UInt8) :
    (s.insert x).contains y = (s.contains y || x == y) := by
  have h : y.toNat < 256 := y.toNat_lt
  by_cases hxy : x = y
  · subst hxy; simp [insert, contains, bit, h]
  · have hne : y.toNat ≠ x.toNat := fun e => hxy (UInt8.toNat_inj.mp e.symm)
    have hbeq : (x == y) = false := beq_eq_false_iff_ne.mpr hxy
    simp [insert, contains, bit, h, hbeq, hne]

/-- What is contained after an erasure. -/
@[simp] theorem contains_erase (s : OpcodeSet) (x y : UInt8) :
    (s.erase x).contains y = (s.contains y && !(x == y)) := by
  have h : y.toNat < 256 := y.toNat_lt
  by_cases hxy : x = y
  · subst hxy; simp [erase, contains, bit, h]
  · have hne : y.toNat ≠ x.toNat := fun e => hxy (UInt8.toNat_inj.mp e.symm)
    have hbeq : (x == y) = false := beq_eq_false_iff_ne.mpr hxy
    simp [erase, contains, bit, h, hbeq, hne]

/-- An opcode is in the common part of two sets if both contain it. -/
@[simp] theorem contains_inter (s t : OpcodeSet) (opcode : UInt8) :
    (s.inter t).contains opcode = (s.contains opcode && t.contains opcode) := by
  simp [inter, contains]

/-- Two sets with the same members are equal. -/
theorem ext_contains {s t : OpcodeSet} (h : ∀ opcode, s.contains opcode = t.contains opcode) :
    s = t := by
  obtain ⟨v⟩ := s
  obtain ⟨w⟩ := t
  congr 1
  apply BitVec.eq_of_getLsbD_eq
  intro i hi
  have hn : (UInt8.ofNat i).toNat = i := by simp; omega
  have := h (UInt8.ofNat i)
  rwa [contains_mk, contains_mk, hn] at this

/-! ## Text -/

/-- The set whose 32 bytes, the most significant first, are the given ones. -/
def ofBytes (bytes : Bytes) : OpcodeSet := ⟨Word.ofBytes bytes⟩

/-- The 32 bytes of a set, the most significant first. -/
def toBytes (s : OpcodeSet) : Bytes := s.mask.toBytes

/-- The 64 digits of a set. -/
def hex (s : OpcodeSet) : String := s.mask.hex

/-- The set with the given digits; one marker `0x` in front is allowed. -/
def parse (text : String) : Except Word.ParseError OpcodeSet := (Word.parse text).map OpcodeSet.mk

/-- The wording of a text that is no set. -/
def parseErrorMessage (fault : Word.ParseError) : String := fault.message "allow-list"

/-- The digits of a set behind the marker `0x`. -/
def render (s : OpcodeSet) : String := "0x" ++ s.hex

/-- A set in a dump of data, with the number of its members. -/
def describe (s : OpcodeSet) : String :=
  "OpcodeSet(" ++ s.render ++ ", " ++ toString s.size ++ " allowed)"

end OpcodeSet

end CodeGolf
