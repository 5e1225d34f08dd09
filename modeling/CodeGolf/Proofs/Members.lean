import CodeGolf.Proofs.Loading
import CodeGolf.Proofs.OpcodeSpelling

/-!
# Every view of an allow-list shows the same members

An allow-list is made in one of five ways (`OpcodeSet.Origin`) and then changed opcode by opcode
(`OpcodeSet.Edit`). What it has as its members is said without regard to how it is held: the last
edit about an opcode decides, and without one the opcode stays as the origin has it
(`OpcodeSet.mem_edited`).

The set is held as a word, and it is seen as a number, as a list, as a count, as bytes. Each view
shows the bits of the word: the number of its bytes is the number of the word, its list goes through
the bits from the lowest to the highest, and its size counts the bits that are set
(`OpcodeSet.size_eq_length_toList`). `OpcodeSet.viewsShow` is that all of them show the members.
-/

namespace CodeGolf

/-- Set bits are counted one by one, from the lowest. -/
theorem cpopNatRec_eq_countP {width : Nat} (w : BitVec width) (n : Nat) :
    w.cpopNatRec n 0 = (List.range n).countP w.getLsbD := by
  induction n with
  | zero => rfl
  | succ n ih =>
    rw [BitVec.cpopNatRec_succ, BitVec.cpopNatRec_add, ih, List.range_succ, List.countP_append,
      List.countP_singleton]
    cases w.getLsbD n <;> rfl

namespace OpcodeSet

/-! ## How a set comes about -/

/-- How a set is made. -/
inductive Origin where
  | empty
  | full
  | ofList (opcodes : List UInt8)
  | allExcept (opcodes : List UInt8)
  | ofBytes (bytes : Bytes) (length_eq : bytes.length = 32)

/-- The set that is made. -/
def Origin.set : Origin → OpcodeSet
  | .empty => OpcodeSet.empty
  | .full => OpcodeSet.full
  | .ofList opcodes => OpcodeSet.ofList opcodes
  | .allExcept opcodes => OpcodeSet.allExcept opcodes
  | .ofBytes bytes _ => OpcodeSet.ofBytes bytes

/-- The members of the set that is made. Bytes have the opcodes whose bits are set in their number,
the most significant byte first. -/
def Origin.Has : Origin → UInt8 → Prop
  | .empty, _ => False
  | .full, _ => True
  | .ofList opcodes, x => x ∈ opcodes
  | .allExcept opcodes, x => x ∉ opcodes
  | .ofBytes bytes _, x => (Bytes.ofBigEndian bytes).testBit x.toNat = true

/-- A change of one opcode. -/
inductive Edit where
  | allow (opcode : UInt8)
  | deny (opcode : UInt8)

/-- The opcode that is changed. -/
def Edit.opcode : Edit → UInt8
  | .allow x => x
  | .deny x => x

/-- The set after a change. -/
def edit (s : OpcodeSet) : Edit → OpcodeSet
  | .allow x => s.insert x
  | .deny x => s.erase x

/-- The set after changes one after the other. -/
def edited (s : OpcodeSet) (edits : List Edit) : OpcodeSet := edits.foldl edit s

/-- What changes leave of an opcode that was a member before or not: the last change of it decides,
and without one it stays as it was. -/
def Edit.Leave (edits : List Edit) (before : Prop) (x : UInt8) : Prop :=
  LastOf Edit.opcode edits (.allow x) ∨ before ∧ ∀ e ∈ edits, e.opcode ≠ x

/-! ## Members -/

section
variable {s t : OpcodeSet} {x y : UInt8}

/-- The empty set has no members. -/
theorem notMem_empty (x : UInt8) : x ∉ empty := fun h =>
  Bool.noConfusion ((contains_empty x).symm.trans h)

/-- The members after an insertion. -/
theorem mem_insert : y ∈ s.insert x ↔ x = y ∨ y ∈ s := by
  show (s.insert x).contains y = true ↔ _ ∨ s.contains y = true
  rw [contains_insert, Bool.or_eq_true, beq_iff_eq, or_comm]

/-- The members after an erasure. -/
theorem mem_erase : y ∈ s.erase x ↔ x ≠ y ∧ y ∈ s := by
  show (s.erase x).contains y = true ↔ _ ∧ s.contains y = true
  rw [contains_erase, Bool.and_eq_true, Bool.not_eq_true', beq_eq_false_iff_ne, and_comm]

/-- The set of listed opcodes has them as its members. -/
theorem mem_ofList {opcodes : List UInt8} : x ∈ ofList opcodes ↔ x ∈ opcodes := by
  have hfold : ∀ s : OpcodeSet, x ∈ opcodes.foldl insert s ↔ x ∈ s ∨ x ∈ opcodes := by
    induction opcodes with
    | nil => exact fun s => ⟨.inl, fun h => h.resolve_right List.not_mem_nil⟩
    | cons y opcodes ih =>
      intro s
      rw [List.foldl_cons, ih, mem_insert, List.mem_cons, or_assoc, or_left_comm, eq_comm]
  rw [ofList, hfold]
  exact or_iff_right (notMem_empty x)

/-- A member is a set bit of the number of the bytes. -/
theorem testBit_toBytes (s : OpcodeSet) (x : UInt8) :
    (Bytes.ofBigEndian s.toBytes).testBit x.toNat = s.contains x := by
  have hfits : s.mask.toNat < Nat.pow 256 32 := Nat.lt_of_lt_of_eq s.mask.isLt (by decide)
  rw [toBytes, Word.toBytes, Bytes.ofBigEndian_bigEndian, Nat.mod_eq_of_lt hfits]
  rfl

/-- A set is read back from its bytes. -/
theorem ofBytes_toBytes (s : OpcodeSet) : ofBytes s.toBytes = s :=
  congrArg OpcodeSet.mk (Word.ofBytes_toBytes s.mask)

/-- Bytes are written back from their set. -/
theorem toBytes_ofBytes {bytes : Bytes} (h : bytes.length = 32) :
    (ofBytes bytes).toBytes = bytes := Word.toBytes_ofBytes h

/-- **An origin has the members that it says.** -/
theorem Origin.mem_set (origin : Origin) (x : UInt8) : x ∈ origin.set ↔ origin.Has x := by
  cases origin with
  | empty => exact iff_of_false (notMem_empty x) id
  | full => exact iff_of_true (contains_full x) trivial
  | ofList opcodes => exact mem_ofList
  | allExcept opcodes => exact mem_allExcept
  | ofBytes bytes length_eq =>
    show (OpcodeSet.ofBytes bytes).contains x = true ↔ _
    rw [← testBit_toBytes, toBytes_ofBytes length_eq]
    rfl

/-- One more change decides about its own opcode and leaves the others to those before it. -/
theorem Edit.leave_concat {edits : List Edit} {e : Edit} {before : Prop} :
    Edit.Leave (edits ++ [e]) before x ↔
      e = .allow x ∨ e.opcode ≠ x ∧ Edit.Leave edits before x := by
  have hlast : LastOf Edit.opcode (edits ++ [e]) (.allow x) ↔
      e = .allow x ∨ e.opcode ≠ x ∧ LastOf Edit.opcode edits (.allow x) := lastOf_concat
  rw [Leave, Leave, hlast, List.forall_mem_append, List.forall_mem_singleton, or_assoc, and_or_left,
    ← and_assoc, and_comm (a := before ∧ _)]

/-- **The last change of an opcode decides** whether it is a member. -/
theorem mem_edited (s : OpcodeSet) (edits : List Edit) (x : UInt8) :
    x ∈ s.edited edits ↔ Edit.Leave edits (x ∈ s) x := by
  induction edits using List.reverseRecOn with
  | nil =>
    exact ⟨fun h => .inr ⟨h, fun _ he => absurd he List.not_mem_nil⟩,
      fun h => (h.resolve_left not_lastOf_nil).1⟩
  | append_singleton edits e ih =>
    have hedited : s.edited (edits ++ [e]) = (s.edited edits).edit e := List.foldl_append
    rw [hedited, Edit.leave_concat, ← ih]
    cases e with
    | allow y =>
      rw [edit, mem_insert, Edit.allow.injEq, Edit.opcode]
      by_cases hyx : y = x
      · exact iff_of_true (.inl hyx) (.inl hyx)
      · exact or_congr_right (and_iff_right hyx).symm
    | deny y =>
      rw [edit, mem_erase]
      exact (or_iff_right fun h => by cases h).symm

/-! ## Views -/

/-- Each opcode is listed. -/
theorem mem_opcodes (x : UInt8) : x ∈ opcodes :=
  List.mem_map.mpr ⟨x.toNat, List.mem_range.mpr x.toNat_lt, UInt8.ofNat_toNat⟩

/-- The opcodes are listed in ascending order. -/
theorem pairwise_opcodes : opcodes.Pairwise (· < ·) := by
  refine List.pairwise_map.mpr (List.pairwise_lt_range.imp_of_mem fun hi hj hlt => ?_)
  rw [UInt8.lt_iff_toNat_lt, Utf8.toNat_ofNat (List.mem_range.mp hi),
    Utf8.toNat_ofNat (List.mem_range.mp hj)]
  exact hlt

/-- The list of a set has its members and nothing else. -/
theorem mem_toList : x ∈ s.toList ↔ x ∈ s :=
  List.mem_filter.trans (and_iff_right (mem_opcodes x))

/-- **The size is the number of members.** -/
theorem size_eq_length_toList (s : OpcodeSet) : s.size = s.toList.length := by
  rw [size, BitVec.toNat_cpop, cpopNatRec_eq_countP, toList, opcodes,
    ← List.countP_eq_length_filter, List.countP_map]
  refine List.countP_congr fun i hi => ?_
  rw [Function.comp_apply, contains, Utf8.toNat_ofNat (List.mem_range.mp hi)]

/-- Only the empty set says that it is empty. -/
theorem isEmpty_eq_true_iff : s.isEmpty = true ↔ s = empty := by
  rw [isEmpty, beq_iff_eq]
  exact ⟨congrArg OpcodeSet.mk, congrArg mask⟩

/-- Only the full set says that it is full. -/
theorem isFull_eq_true_iff : s.isFull = true ↔ s = full := by
  rw [isFull, beq_iff_eq]
  exact ⟨congrArg OpcodeSet.mk, congrArg mask⟩

/-- The empty set is the one without members. -/
theorem eq_empty_iff : s = empty ↔ ∀ x, x ∉ s := by
  constructor
  · rintro rfl x
    exact notMem_empty x
  · intro h
    exact ext_mem fun x => iff_of_false (h x) (notMem_empty x)

/-- The full set is the one that has all opcodes. -/
theorem eq_full_iff : s = full ↔ ∀ x, x ∈ s := by
  constructor
  · rintro rfl x
    exact contains_full x
  · intro h
    exact ext_mem fun x => iff_of_true (h x) (contains_full x)

/-- Every view of a set shows these members. -/
structure ViewsShow (s : OpcodeSet) (Has : UInt8 → Prop) : Prop where
  contains_iff : ∀ x, s.contains x = true ↔ Has x
  testBit_iff : ∀ x, (Bytes.ofBigEndian s.toBytes).testBit x.toNat = true ↔ Has x
  mem_toList_iff : ∀ x, x ∈ s.toList ↔ Has x
  ascending : s.toList.Pairwise (· < ·)
  size_eq : s.size = s.toList.length
  isEmpty_iff : s.isEmpty = true ↔ ∀ x, ¬Has x
  isFull_iff : s.isFull = true ↔ ∀ x, Has x
  ofList_toList : ofList s.toList = s
  ofBytes_toBytes : ofBytes s.toBytes = s

/-- **Every view of a set shows its members.** -/
theorem viewsShow {Has : UInt8 → Prop} (h : ∀ x, x ∈ s ↔ Has x) : s.ViewsShow Has where
  contains_iff := h
  testBit_iff x := by rw [testBit_toBytes]; exact h x
  mem_toList_iff x := mem_toList.trans (h x)
  ascending := pairwise_opcodes.filter _
  size_eq := size_eq_length_toList s
  isEmpty_iff := by simp [isEmpty_eq_true_iff, eq_empty_iff, h]
  isFull_iff := by simp [isFull_eq_true_iff, eq_full_iff, h]
  ofList_toList := ext_mem fun _ => mem_ofList.trans mem_toList
  ofBytes_toBytes := ofBytes_toBytes s

end

end OpcodeSet

end CodeGolf
