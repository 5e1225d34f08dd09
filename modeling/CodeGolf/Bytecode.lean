import CodeGolf.OpcodeSet

/-!
# Bytecode against an allow-list

Code is a sequence of instructions: an opcode and the operand bytes that the opcode calls for.
Only push opcodes have operands, and a table that is written once says how long they are. `scan`
walks the instructions of a code and stops at the first that is not in the allow-list or whose
operand runs past the end; operand bytes are skipped, whatever they are.
-/

namespace CodeGolf

/-! ## Operands -/

/-- The push that has no operand, and comes right before the pushes that have one. -/
def push0 : Nat := 0x5f

/-- The first push with an operand, of one byte. -/
def push1 : Nat := 0x60

/-- The last push with an operand, of thirty-two bytes. -/
def push32 : Nat := 0x7f

/-- The length of the operand of each opcode. All of them are zero at first, and then the pushes
with an operand get theirs, one after the other. The table is closed, so that nothing writes it
again where a length is only compared. -/
@[irreducible] def operandLengths : Vector UInt8 256 :=
  (List.range' push1 (push32 + 1 - push1)).foldl
    (fun table opcode => table.setIfInBounds opcode (UInt8.ofNat (opcode - push0)))
    (.replicate 256 0)

/-- How many operand bytes an opcode calls for. -/
def operandLength (opcode : UInt8) : Nat := (operandLengths.get opcode.toFin).toNat

/-! ## Verdicts -/

/-- What a scan found. -/
inductive Verdict where
  | valid (instructions : Nat)
  /-- The instruction at `offset` is not in the allow-list. -/
  | disallowed (offset : Nat) (opcode : UInt8)
  /-- The operand of the push at `offset` lacks `missing` bytes. -/
  | truncated (offset : Nat) (opcode : UInt8) (missing : Nat)
  deriving DecidableEq

namespace Verdict

/-- Whether the code passed. -/
def isValid : Verdict → Bool
  | .valid _ => true
  | _ => false

/-- The verdict on a code, from the verdict on what follows its first instruction of `width`
bytes. -/
def afterInstruction (width : Nat) : Verdict → Verdict
  | .valid instructions => .valid (instructions + 1)
  | .disallowed offset opcode => .disallowed (offset + width) opcode
  | .truncated offset opcode missing => .truncated (offset + width) opcode missing

/-- The line that reports a verdict. -/
def message : Verdict → String
  | .valid instructions => s!"valid ({instructions} instructions)"
  | .disallowed offset opcode =>
    "disallowed opcode 0x" ++ Hex.encode [opcode] ++ s!" at offset {offset}"
  | .truncated offset opcode missing =>
    "push 0x" ++ Hex.encode [opcode] ++ s!" at offset {offset} is missing {missing} operand bytes"

end Verdict

/-! ## The scan -/

/-- The first fault of a code under an allow-list, or the number of its instructions. A denied
opcode is reported before its operand is looked at. -/
def scan (allowed : OpcodeSet) : Bytes → Verdict
  | [] => .valid 0
  | opcode :: rest =>
    let operand := operandLength opcode
    let present := (rest.take operand).length
    if opcode ∉ allowed then .disallowed 0 opcode
    else if present < operand then .truncated 0 opcode (operand - present)
    else (scan allowed (rest.drop operand)).afterInstruction (operand + 1)
  termination_by code => code.length
  decreasing_by simp only [List.length_drop, List.length_cons]; omega

/-- A rule that decides which code may be submitted. -/
structure Validator where
  name : String
  verdict : OpcodeSet → Bytes → Verdict

/-- The standard rule: scan instruction by instruction and skip the operands of pushes. -/
def Validator.pushAware : Validator := ⟨"push-aware", scan⟩

end CodeGolf
