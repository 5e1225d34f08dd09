import Mathlib.Logic.Function.Basic
import CodeGolf.Proofs.Members

/-!
# Allow-lists in four machine words

On a machine an allow-list is four words of 64 bits, and an opcode is found by its upper two bits,
which choose the word, and its lower six, which choose the bit (`Limbs`). This is a second way to
hold a set, and `Limbs.toSet` says which set is held. Each operation on the words is the operation
on the set: insertion and erasure touch one bit of one word (`Limbs.toSet_insert`,
`Limbs.toSet_erase`), the size is the sum of four counts (`Limbs.size_toSet`), and the bytes are
those of the words, where the last word comes first and each word starts with its most significant
byte (`Limbs.toBytes_toSet`).

`OpcodeSet.edited_is_faithful` joins the two: whatever a set was made from and however it was
changed, all its views show the members that the changes leave, and so do the four words that went
through the same changes.
-/

namespace CodeGolf

/-! ## Bytes of a long number -/

/-- The bytes of a number are those of its low part and then those of its high part. -/
theorem Bytes.littleEndian_add {width low : Nat} (more high : Nat)
    (hlow : low < Nat.pow 256 width) :
    littleEndian (width + more) (low + Nat.pow 256 width * high) =
      littleEndian width low ++ littleEndian more high := by
  induction width generalizing low with
  | zero =>
    have hzero : low = 0 := Nat.lt_one_iff.mp hlow
    subst hzero
    rw [Nat.zero_add, Nat.zero_add, show Nat.pow 256 0 * high = high from Nat.one_mul high]
    rfl
  | succ width ih =>
    have hpow : Nat.pow 256 (width + 1) = 256 * Nat.pow 256 width := Nat.mul_comm ..
    rw [hpow] at hlow ⊢
    have hdigit : UInt8.ofNat (low + 256 * Nat.pow 256 width * high) = UInt8.ofNat low := by
      apply UInt8.toNat_inj.mp
      rw [Nat.mul_assoc, UInt8.toNat_ofNat', UInt8.toNat_ofNat', Nat.add_mul_mod_self_left]
    have hrest : (low + 256 * Nat.pow 256 width * high) / 256 =
        low / 256 + Nat.pow 256 width * high := by
      rw [Nat.mul_assoc, Nat.add_mul_div_left _ _ (by decide)]
    rw [Nat.succ_add, littleEndian, littleEndian, hdigit, hrest, ih (by omega), List.cons_append]

/-- A word behind other bits adds its eight bytes to theirs. -/
theorem Bytes.bigEndian_append {width : Nat} (high : BitVec width) (low : UInt64) (more : Nat) :
    bigEndian (8 + more) (high ++ low.toBitVec).toNat =
      bigEndian more high.toNat ++ bigEndian 8 low.toNat := by
  have hlow : low.toNat < Nat.pow 256 8 := low.toNat_lt
  have hsum : (high ++ low.toBitVec).toNat = low.toNat + Nat.pow 256 8 * high.toNat := by
    rw [BitVec.toNat_append, ← Nat.shiftLeft_add_eq_or_of_lt low.toBitVec.isLt, Nat.shiftLeft_eq,
      Nat.add_comm, Nat.mul_comm]
    rfl
  rw [hsum, bigEndian, littleEndian_add more _ hlow, List.reverse_append]
  rfl

/-! ## Words and bits -/

/-- Four words of 64 bits. The first one has the opcodes below 64, and so on. -/
@[ext]
structure Limbs where
  word : Fin 4 → UInt64

namespace Limbs

/-- The word that has an opcode: its upper two bits. -/
def place (x : UInt8) : Fin 4 := ⟨(x >>> 6).toNat, by
  have := x.toNat_lt
  rw [UInt8.toNat_shiftRight, Nat.shiftRight_eq_div_pow]
  show x.toNat / 64 < 4
  omega⟩

/-- The bit of an opcode in its word: its lower six bits. -/
def offset (x : UInt8) : UInt64 := (x &&& 63).toUInt64

/-- Whether an opcode is held: its word is moved down to its bit. -/
def contains (w : Limbs) (x : UInt8) : Bool := (w.word (place x) >>> offset x) &&& 1 == 1

/-- The words with one of them replaced. -/
def withWord (w : Limbs) (i : Fin 4) (v : UInt64) : Limbs := ⟨Function.update w.word i v⟩

/-- The words with an opcode held: its bit is set. -/
def insert (w : Limbs) (x : UInt8) : Limbs :=
  w.withWord (place x) (w.word (place x) ||| (1 <<< offset x))

/-- The words without an opcode: its bit is cleared. -/
def erase (w : Limbs) (x : UInt8) : Limbs :=
  w.withWord (place x) (w.word (place x) &&& ~~~(1 <<< offset x))

/-- The words of no opcodes. -/
def empty : Limbs := ⟨fun _ => 0⟩

/-- The words of all opcodes. -/
def full : Limbs := ⟨fun _ => ~~~0⟩

/-- The words, from the lowest opcodes to the highest. -/
def words (w : Limbs) : List UInt64 := [w.word 0, w.word 1, w.word 2, w.word 3]

/-- How many opcodes are held: the bits that are set, word by word. -/
def size (w : Limbs) : Nat := w.words.foldl (fun n v => n + v.toBitVec.cpop.toNat) 0

/-- Whether no opcode is held. -/
def isEmpty (w : Limbs) : Bool := w.words.all (· == 0)

/-- Whether all opcodes are held. -/
def isFull (w : Limbs) : Bool := w.words.all (· == ~~~0)

/-- The bytes, those of the highest opcodes first. -/
def toBytes (w : Limbs) : Bytes := w.words.reverse.flatMap fun v => Bytes.bigEndian 8 v.toNat

/-- The words that bytes spell, eight bytes for each; the last eight are the first word. -/
def ofBytes (bytes : Bytes) : Limbs :=
  ⟨fun i => UInt64.ofNat (Bytes.ofBigEndian ((bytes.drop ((3 - i) * 8)).take 8))⟩

/-- The words of a set that is made. -/
def ofOrigin : OpcodeSet.Origin → Limbs
  | .empty => empty
  | .full => full
  | .ofList opcodes => opcodes.foldl insert empty
  | .allExcept opcodes => opcodes.foldl erase full
  | .ofBytes bytes _ => ofBytes bytes

/-- The words after a change. -/
def edit (w : Limbs) : OpcodeSet.Edit → Limbs
  | .allow x => w.insert x
  | .deny x => w.erase x

/-- The words after changes one after the other. -/
def edited (w : Limbs) (edits : List OpcodeSet.Edit) : Limbs := edits.foldl edit w

/-- The set that is held: the words one after the other, the last one in front. -/
def toSet (w : Limbs) : OpcodeSet :=
  ⟨(w.word 3).toBitVec ++ (w.word 2).toBitVec ++ (w.word 1).toBitVec ++ (w.word 0).toBitVec⟩

section
variable {w v : Limbs} {x y : UInt8}

/-- The word of an opcode is its quotient by 64. -/
theorem val_place (x : UInt8) : (place x).val = x.toNat / 64 := by
  show (x >>> 6).toNat = _
  rw [UInt8.toNat_shiftRight, Nat.shiftRight_eq_div_pow]
  rfl

/-- The bit of an opcode is its remainder by 64. -/
theorem toNat_offset (x : UInt8) : (offset x).toNat = x.toNat % 64 := by
  rw [offset, UInt8.toNat_toUInt64, UInt8.toNat_and]
  exact Nat.and_two_pow_sub_one_eq_mod x.toNat 6

/-- The word and the bit determine the opcode. -/
theorem eq_iff_place : x = y ↔ place x = place y ∧ x.toNat % 64 = y.toNat % 64 := by
  rw [← UInt8.toNat_inj, Fin.ext_iff, val_place, val_place]
  omega

/-- An opcode is held if its bit of its word is set. -/
theorem contains_eq (w : Limbs) (x : UInt8) :
    w.contains x = (w.word (place x)).toBitVec.getLsbD (x.toNat % 64) := by
  have hbit : ∀ v : UInt64, (v &&& 1 == 1) = v.toBitVec.getLsbD 0 := by
    intro v
    rw [Bool.eq_iff_iff, beq_iff_eq, ← UInt64.toNat_inj, UInt64.toNat_and]
    simp [BitVec.getLsbD, Nat.testBit_zero, Nat.and_one_is_mod]
  rw [contains, hbit, UInt64.toBitVec_shiftRight]
  simp [toNat_offset]

/-- The bit of an opcode and no other one. -/
theorem getLsbD_bit (x : UInt8) (j : Nat) :
    (1 <<< offset x : UInt64).toBitVec.getLsbD j = decide (x.toNat % 64 = j) := by
  have hmod : x.toNat % 64 < 64 := Nat.mod_lt _ (by decide)
  have hshift : (offset x).toBitVec.toNat % 64 = x.toNat % 64 := by
    rw [UInt64.toNat_toBitVec, toNat_offset, Nat.mod_mod]
  have hpow : (1 <<< offset x : UInt64).toBitVec = BitVec.twoPow 64 (x.toNat % 64) := by
    rw [UInt64.toBitVec_shiftLeft, BitVec.shiftLeft_eq', BitVec.twoPow_eq, BitVec.toNat_umod]
    exact congrArg (1#64 <<< ·) hshift
  rw [hpow, BitVec.getLsbD_twoPow, decide_eq_true hmod, Bool.true_and]

/-- The opcodes of a replaced word are held as the new word says, and the others as before. -/
theorem contains_withWord (w : Limbs) (i : Fin 4) (u : UInt64) (y : UInt8) :
    (w.withWord i u).contains y =
      if place y = i then u.toBitVec.getLsbD (y.toNat % 64) else w.contains y := by
  have hword : (w.withWord i u).word (place y) = if place y = i then u else w.word (place y) :=
    Function.update_apply ..
  rw [contains_eq, contains_eq, hword]
  split <;> rfl

/-- After an insertion the opcode is held, and so is what was held before. -/
theorem contains_insert (w : Limbs) (x y : UInt8) :
    (w.insert x).contains y = (w.contains y || x == y) := by
  rw [insert, contains_withWord, contains_eq]
  by_cases hplace : place y = place x
  · rw [if_pos hplace, UInt64.toBitVec_or, BitVec.getLsbD_or, getLsbD_bit, hplace]
    congr 1
    rw [Bool.eq_iff_iff, decide_eq_true_eq, beq_iff_eq, eq_iff_place]
    exact (and_iff_right hplace.symm).symm
  · have hne : x ≠ y := fun h => hplace (congrArg place h.symm)
    rw [if_neg hplace, beq_eq_false_iff_ne.mpr hne, Bool.or_false]

/-- After an erasure the opcode is not held, and what else was held before still is. -/
theorem contains_erase (w : Limbs) (x y : UInt8) :
    (w.erase x).contains y = (w.contains y && !(x == y)) := by
  have hy : y.toNat % 64 < 64 := Nat.mod_lt _ (by decide)
  rw [erase, contains_withWord, contains_eq]
  by_cases hplace : place y = place x
  · rw [if_pos hplace, UInt64.toBitVec_and, UInt64.toBitVec_not, BitVec.getLsbD_and,
      BitVec.getLsbD_not, getLsbD_bit, hplace]
    rw [decide_eq_true hy, Bool.true_and]
    congr 2
    rw [Bool.eq_iff_iff, decide_eq_true_eq, beq_iff_eq, eq_iff_place]
    exact (and_iff_right hplace.symm).symm
  · have hne : x ≠ y := fun h => hplace (congrArg place h.symm)
    rw [if_neg hplace, beq_eq_false_iff_ne.mpr hne, Bool.not_false, Bool.and_true]

/-- The words hold the members of their set. -/
theorem contains_toSet (w : Limbs) (x : UInt8) : w.toSet.contains x = w.contains x := by
  have hx := x.toNat_lt
  have hplace : ∀ i : Fin 4, x.toNat / 64 = i.val → place x = i := fun i h =>
    Fin.ext ((val_place x).trans h)
  rw [contains_eq, toSet, OpcodeSet.contains_mk]
  simp only [BitVec.getLsbD_append]
  split
  · rw [hplace 0 (by show _ = 0; omega), Nat.mod_eq_of_lt (by omega)]
  · split
    · rw [hplace 1 (by show _ = 1; omega), show x.toNat % 64 = x.toNat - 64 by omega]
    · split
      · rw [hplace 2 (by show _ = 2; omega), show x.toNat % 64 = x.toNat - 64 - 64 by omega]
      · rw [hplace 3 (by show _ = 3; omega), show x.toNat % 64 = x.toNat - 64 - 64 - 64 by omega]

/-- **An insertion into the words is the insertion into the set.** -/
theorem toSet_insert (w : Limbs) (x : UInt8) : (w.insert x).toSet = w.toSet.insert x := by
  apply OpcodeSet.ext_contains
  simp [contains_toSet, contains_insert]

/-- **An erasure from the words is the erasure from the set.** -/
theorem toSet_erase (w : Limbs) (x : UInt8) : (w.erase x).toSet = w.toSet.erase x := by
  apply OpcodeSet.ext_contains
  simp [contains_toSet, contains_erase]

/-- Words of zeros are the set without members. -/
theorem toSet_empty : empty.toSet = OpcodeSet.empty := by decide

/-- Words of ones are the set of all opcodes. -/
theorem toSet_full : full.toSet = OpcodeSet.full := by decide

/-- The bytes of the words, word by word. -/
theorem toBytes_eq (w : Limbs) : w.toBytes =
    Bytes.bigEndian 8 (w.word 3).toNat ++ (Bytes.bigEndian 8 (w.word 2).toNat ++
      (Bytes.bigEndian 8 (w.word 1).toNat ++ Bytes.bigEndian 8 (w.word 0).toNat)) := by
  simp [toBytes, words]

/-- The bytes of the words are those of the set. -/
theorem toBytes_toSet (w : Limbs) : w.toSet.toBytes = w.toBytes := by
  have hlow :
      Bytes.bigEndian 8 (w.word 3).toBitVec.toNat = Bytes.bigEndian 8 (w.word 3).toNat := rfl
  rw [OpcodeSet.toBytes, Word.toBytes, toSet]
  show Bytes.bigEndian (8 + 24) _ = _
  rw [Bytes.bigEndian_append]
  show Bytes.bigEndian (8 + 16) _ ++ _ = _
  rw [Bytes.bigEndian_append]
  show Bytes.bigEndian (8 + 8) _ ++ _ ++ _ = _
  rw [Bytes.bigEndian_append, hlow, toBytes_eq, List.append_assoc, List.append_assoc]

/-- The size of the words is that of the set. -/
theorem size_toSet (w : Limbs) : w.toSet.size = w.size := by
  rw [OpcodeSet.size, toSet]
  simp only [BitVec.toNat_cpop_append, size, words, List.foldl_cons, List.foldl_nil]
  omega

/-- A set is held in one way only. -/
theorem toSet_injective (h : w.toSet = v.toSet) : w = v := by
  refine Limbs.ext (funext fun i => UInt64.toBitVec_inj.mp (BitVec.eq_of_getLsbD_eq fun j hj => ?_))
  have hi : i.val < 4 := i.isLt
  have hx : (UInt8.ofNat (64 * i.val + j)).toNat = 64 * i.val + j := Utf8.toNat_ofNat (by omega)
  have hplace : place (UInt8.ofNat (64 * i.val + j)) = i :=
    Fin.ext (by rw [val_place, hx]; omega)
  have hbit := congrArg (·.contains (UInt8.ofNat (64 * i.val + j))) h
  simp only [contains_toSet, contains_eq, hplace, hx] at hbit
  rwa [Nat.mul_add_mod, Nat.mod_eq_of_lt hj] at hbit

/-- Each word has its own eight bytes. -/
theorem toBytes_ofBytes {bytes : Bytes} (h : bytes.length = 32) :
    (ofBytes bytes).toBytes = bytes := by
  have hchunk : ∀ chunk : Bytes, chunk.length = 8 →
      Bytes.bigEndian 8 (UInt64.ofNat (Bytes.ofBigEndian chunk)).toNat = chunk := by
    intro chunk hlength
    have hlt := Bytes.ofLittleEndian_lt chunk.reverse
    rw [List.length_reverse, hlength] at hlt
    have hback := Bytes.bigEndian_ofBigEndian chunk
    rw [hlength] at hback
    rw [Bytes.ofBigEndian] at hback ⊢
    rw [UInt64.toNat_ofNat_of_lt' hlt, hback]
  have hword : ∀ i : Fin 4, Bytes.bigEndian 8 ((ofBytes bytes).word i).toNat =
      (bytes.drop ((3 - i.val) * 8)).take 8 := by
    intro i
    exact hchunk _ (by rw [List.length_take, List.length_drop]; omega)
  have hrest : ∀ n, (bytes.drop n).take 8 ++ bytes.drop (n + 8) = bytes.drop n := by
    intro n
    rw [← List.drop_drop, List.take_append_drop]
  have hlast : (bytes.drop 24).take 8 = bytes.drop 24 :=
    List.take_of_length_le (by rw [List.length_drop]; omega)
  calc (ofBytes bytes).toBytes
      = (bytes.drop 0).take 8 ++ ((bytes.drop 8).take 8 ++ ((bytes.drop 16).take 8 ++
          (bytes.drop 24).take 8)) := by
        rw [toBytes_eq, hword, hword, hword, hword]
        rfl
    _ = bytes := by rw [hlast, hrest 16, hrest 8, hrest 0, List.drop_zero]

/-- Words and set are read from the same bytes. -/
theorem toSet_ofBytes {bytes : Bytes} (h : bytes.length = 32) :
    (ofBytes bytes).toSet = OpcodeSet.ofBytes bytes := by
  rw [← OpcodeSet.ofBytes_toBytes (ofBytes bytes).toSet, toBytes_toSet, toBytes_ofBytes h]

/-- Two sets are equal exactly if their words are. -/
theorem toSet_inj : w.toSet = v.toSet ↔ w = v := ⟨toSet_injective, congrArg toSet⟩

/-- All words are the same one. -/
theorem all_words_iff {u : UInt64} : w.words.all (· == u) = true ↔ w = ⟨fun _ => u⟩ := by
  simp [words, Limbs.ext_iff, funext_iff, Fin.forall_fin_succ]

/-- A set is empty exactly if its words are. -/
theorem isEmpty_toSet (w : Limbs) : w.toSet.isEmpty = w.isEmpty := by
  have hwords : w.isEmpty = true ↔ w = empty := all_words_iff
  rw [Bool.eq_iff_iff, OpcodeSet.isEmpty_eq_true_iff, hwords, ← toSet_empty, toSet_inj]

/-- A set is full exactly if its words are. -/
theorem isFull_toSet (w : Limbs) : w.toSet.isFull = w.isFull := by
  have hwords : w.isFull = true ↔ w = full := all_words_iff
  rw [Bool.eq_iff_iff, OpcodeSet.isFull_eq_true_iff, hwords, ← toSet_full, toSet_inj]

/-! ## Changes -/

/-- Words and set that are made from the same are the same. -/
theorem toSet_ofOrigin (origin : OpcodeSet.Origin) : (ofOrigin origin).toSet = origin.set := by
  cases origin with
  | empty => exact toSet_empty
  | full => exact toSet_full
  | ofList opcodes =>
    rw [ofOrigin, OpcodeSet.Origin.set, OpcodeSet.ofList, ← toSet_empty]
    exact (List.foldl_hom toSet fun w x => (toSet_insert w x).symm).symm
  | allExcept opcodes =>
    rw [ofOrigin, OpcodeSet.Origin.set, OpcodeSet.allExcept, ← toSet_full]
    exact (List.foldl_hom toSet fun w x => (toSet_erase w x).symm).symm
  | ofBytes bytes length_eq => exact toSet_ofBytes length_eq

/-- Words and set that go through the same changes stay the same. -/
theorem toSet_edited (w : Limbs) (edits : List OpcodeSet.Edit) :
    (w.edited edits).toSet = w.toSet.edited edits := by
  have hedit : ∀ (w : Limbs) (e : OpcodeSet.Edit), w.toSet.edit e = (w.edit e).toSet := by
    intro w e
    cases e with
    | allow x => exact (toSet_insert w x).symm
    | deny x => exact (toSet_erase w x).symm
  exact (List.foldl_hom toSet hedit).symm

/-- Words hold a set: they show all that the set shows. -/
structure Holds (w : Limbs) (s : OpcodeSet) : Prop where
  toSet_eq : w.toSet = s
  contains_eq : ∀ x, w.contains x = s.contains x
  toBytes_eq : w.toBytes = s.toBytes
  size_eq : w.size = s.size
  isEmpty_eq : w.isEmpty = s.isEmpty
  isFull_eq : w.isFull = s.isFull

/-- Words hold their set, whatever is asked. -/
theorem holds_toSet (w : Limbs) : w.Holds w.toSet where
  toSet_eq := rfl
  contains_eq x := (contains_toSet w x).symm
  toBytes_eq := (toBytes_toSet w).symm
  size_eq := (size_toSet w).symm
  isEmpty_eq := (isEmpty_toSet w).symm
  isFull_eq := (isFull_toSet w).symm

end

end Limbs

namespace OpcodeSet

/-- **A set of opcodes is faithful to its members.**

* Whatever a set was made from and however it was changed, all its views show the same members: an
  opcode is one if the last change of it allows it, or if there is none and it was one at first.
* Four machine words that go through the same changes hold the same set.
* The bytes of a set are any 32 bytes, each for one set.
* Two sets are equal exactly if they have the same members. -/
theorem edited_is_faithful :
    (∀ (origin : Origin) (edits : List Edit),
      (origin.set.edited edits).ViewsShow fun x => Edit.Leave edits (origin.Has x) x) ∧
    (∀ (origin : Origin) (edits : List Edit),
      ((Limbs.ofOrigin origin).edited edits).Holds (origin.set.edited edits)) ∧
    (∀ bytes : Bytes, bytes.length = 32 → (ofBytes bytes).toBytes = bytes) ∧
    ∀ s t : OpcodeSet, s = t ↔ ∀ x, s.contains x = t.contains x := by
  refine ⟨fun origin edits => ?_, fun origin edits => ?_, fun bytes h => toBytes_ofBytes h,
    fun s t => ⟨fun h x => by rw [h], ext_contains⟩⟩
  · apply viewsShow
    intro x
    rw [mem_edited, Edit.Leave, Edit.Leave, origin.mem_set]
  · have hholds := ((Limbs.ofOrigin origin).edited edits).holds_toSet
    rwa [Limbs.toSet_edited, Limbs.toSet_ofOrigin] at hholds

/-- All opcodes but two, of which one is allowed, denied, allowed again and denied again while
another one is denied; and the 32 bytes of a set with one member. -/
theorem edited_is_faithful_of_changed_mind :
    let origin : Origin := .allExcept [0x55, 0xf0]
    let edits : List Edit := [.allow 0x55, .deny 0x00, .deny 0x55, .allow 0x55, .deny 0x55]
    let bytes : Bytes := List.replicate 31 0 ++ [1]
    (origin.set.edited edits).ViewsShow (fun x => Edit.Leave edits (origin.Has x) x) ∧
    ((Limbs.ofOrigin origin).edited edits).Holds (origin.set.edited edits) ∧
    (origin.set.edited edits).contains 0x55 = false ∧
    (origin.set.edited edits).contains 0x01 = true ∧
    bytes.length = 32 ∧ (ofBytes bytes).toBytes = bytes ∧ (ofBytes bytes).contains 0x00 = true := by
  intro origin edits bytes
  have hlength : bytes.length = 32 := by decide
  obtain ⟨hviews, hholds, hbytes, -⟩ := edited_is_faithful
  exact ⟨hviews origin edits, hholds origin edits, by decide, by decide, hlength,
    hbytes bytes hlength, by decide⟩

end OpcodeSet

end CodeGolf
