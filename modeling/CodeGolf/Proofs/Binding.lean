import CodeGolf.Commitment.Key

/-!
# A key binds the player, the solution and the salt

A key is the digest of bytes that determine the player, the solution and the salt
(`commitmentPreimage_inj`), so two commitments with one key are the same commitment or a collision
of the digest (`commitmentKey_binds`).

All fields but the solution have widths of their own. Two equal strings of bytes are equally long,
so their solutions are too, and the fields are peeled off from the right. The length in front of
the solution is what is needed when nothing is known of the ends: read from the left, the bytes of
a commitment say themselves where they stop, so they are never the beginning of the bytes of
another one (`commitmentPreimage_append_inj`). Here the length has to fit its eight bytes.

The tags of commitments and of seeds differ within the shorter of them, so the bytes of the one are
never taken for those of the other.
-/

namespace CodeGolf

/-- Two messages that are a collision: different ones with one digest. -/
structure Sha256.Collide (m m' : Bytes) : Prop where
  ne : m ≠ m'
  digest_eq : sha256 m = sha256 m'

section
variable {p p' : Player} {x x' : Bytes} {s s' : Salt}

/-- The bytes of a key determine the player. -/
theorem Player.eq_of_toBytes_eq (h : p.key.toBytes = p'.key.toBytes) : p = p' := by
  obtain ⟨key⟩ := p
  obtain ⟨key'⟩ := p'
  exact congrArg Player.mk (Word.toBytes_injective h)

/-- The number of bytes that a commitment digests. -/
theorem length_commitmentPreimage (p : Player) (x : Bytes) (s : Salt) :
    (commitmentPreimage p x s).length = commitmentTag.length + 72 + x.length := by
  simp only [commitmentPreimage, List.length_append, Word.length_toBytes, Bytes.length_bigEndian]
  omega

/-- **The digested bytes determine the player, the solution and the salt.** -/
theorem commitmentPreimage_inj :
    commitmentPreimage p x s = commitmentPreimage p' x' s' ↔ p = p' ∧ x = x' ∧ s = s' := by
  constructor
  · intro h
    have hlength : x.length = x'.length := by
      have := congrArg List.length h
      rw [length_commitmentPreimage, length_commitmentPreimage] at this
      omega
    obtain ⟨h, hsalt⟩ := List.append_inj' h (by simp)
    obtain ⟨h, hsolution⟩ := List.append_inj' h hlength
    obtain ⟨h, -⟩ := List.append_inj' h (by simp)
    obtain ⟨-, hplayer⟩ := List.append_inj' h (by simp)
    exact ⟨Player.eq_of_toBytes_eq hplayer, hsolution, Word.toBytes_injective hsalt⟩
  · rintro ⟨rfl, rfl, rfl⟩
    rfl

/-- The digested bytes say where they stop: whatever follows them, they are told apart from it. -/
theorem commitmentPreimage_append_inj {rest rest' : Bytes} (hx : x.length < UInt64.size)
    (hx' : x'.length < UInt64.size)
    (h : commitmentPreimage p x s ++ rest = commitmentPreimage p' x' s' ++ rest') :
    p = p' ∧ x = x' ∧ s = s' ∧ rest = rest' := by
  have hfits : ∀ {n}, n < UInt64.size → n < Nat.pow 256 8 := id
  simp only [commitmentPreimage, List.append_assoc] at h
  obtain ⟨-, h⟩ := List.append_inj h rfl
  obtain ⟨hplayer, h⟩ := List.append_inj h (by simp)
  obtain ⟨hwritten, h⟩ := List.append_inj h (by simp)
  obtain ⟨hsolution, h⟩ := List.append_inj h
    (Bytes.bigEndian_injective (hfits hx) (hfits hx') hwritten)
  obtain ⟨hsalt, hrest⟩ := List.append_inj h (by simp)
  exact ⟨Player.eq_of_toBytes_eq hplayer, hsolution, Word.toBytes_injective hsalt, hrest⟩

/-- What a seed digests has another tag. -/
theorem commitmentPreimage_append_ne {submitter : Player} {course : CourseId} {count : UInt64}
    {now : Time} {rest rest' : Bytes} :
    commitmentPreimage p x s ++ rest ≠ seedPreimage submitter course count now ++ rest' := by
  have htags : commitmentTag.take seedTag.length ≠ seedTag := by decide
  intro h
  have hfront := congrArg (List.take seedTag.length) h
  simp only [commitmentPreimage, seedPreimage, List.append_assoc] at hfront
  rw [List.take_append_of_le_length (by decide), List.take_left] at hfront
  exact htags hfront

end

/-- **A key binds the player, the solution and the salt.**

* The bytes that two commitments digest are equal only if the player, the solution and the salt are,
  whatever the lengths of the solutions.
* While lengths fit their eight bytes, those of the one do not even begin those of the other.
* They are never those that a seed digests, nor the beginning of them, nor begun by them.
* So two commitments with one key are one commitment, or their bytes are a collision. -/
theorem commitmentKey_binds :
    (∀ (p p' : Player) (x x' : Bytes) (s s' : Salt),
      commitmentPreimage p x s = commitmentPreimage p' x' s' ↔ p = p' ∧ x = x' ∧ s = s') ∧
    (∀ (p p' : Player) (x x' : Bytes) (s s' : Salt),
      x.length < UInt64.size → x'.length < UInt64.size →
      commitmentPreimage p x s <+: commitmentPreimage p' x' s' → p = p' ∧ x = x' ∧ s = s') ∧
    (∀ (p submitter : Player) (x : Bytes) (s : Salt) (course : CourseId) (count : UInt64)
      (now : Time),
      commitmentPreimage p x s ≠ seedPreimage submitter course count now ∧
      ¬commitmentPreimage p x s <+: seedPreimage submitter course count now ∧
      ¬seedPreimage submitter course count now <+: commitmentPreimage p x s) ∧
    ∀ (p p' : Player) (x x' : Bytes) (s s' : Salt),
      commitmentKey p x s = commitmentKey p' x' s' ↔ (p = p' ∧ x = x' ∧ s = s') ∨
        Sha256.Collide (commitmentPreimage p x s) (commitmentPreimage p' x' s') := by
  refine ⟨fun p p' x x' s s' => commitmentPreimage_inj, ?_, ?_, ?_⟩
  · rintro p p' x x' s s' hx hx' ⟨rest, h⟩
    rw [← List.append_nil (commitmentPreimage p' x' s')] at h
    obtain ⟨hplayer, hsolution, hsalt, -⟩ := commitmentPreimage_append_inj hx hx' h
    exact ⟨hplayer, hsolution, hsalt⟩
  · intro p submitter x s course count now
    refine ⟨fun h => ?_, ?_, ?_⟩
    · exact commitmentPreimage_append_ne (congrArg (· ++ []) h)
    · rintro ⟨rest, h⟩
      exact commitmentPreimage_append_ne (h.trans (List.append_nil _).symm)
    · rintro ⟨rest, h⟩
      exact commitmentPreimage_append_ne ((List.append_nil _).trans h.symm)
  · intro p p' x x' s s'
    constructor
    · intro h
      by_cases hsame : p = p' ∧ x = x' ∧ s = s'
      · exact .inl hsame
      · exact .inr ⟨fun hbytes => hsame (commitmentPreimage_inj.mp hbytes), h⟩
    · rintro (⟨rfl, rfl, rfl⟩ | h)
      · rfl
      · exact h.digest_eq

/-- A solution that goes on like the salt of another commitment of the same player: the bytes of the
other one are not the beginning, and one key for both would be a collision. -/
theorem commitmentKey_binds_of_imitated_salt :
    let salt := Word.repeated 9
    let solution : Bytes := [0x60, 0x01]
    let longer := solution ++ salt.toBytes
    solution.length < UInt64.size ∧ longer.length < UInt64.size ∧
    commitmentPreimage ⟨1⟩ solution salt ≠ commitmentPreimage ⟨1⟩ longer salt ∧
    ¬commitmentPreimage ⟨1⟩ solution salt <+: commitmentPreimage ⟨1⟩ longer salt ∧
    commitmentPreimage ⟨1⟩ solution salt ≠ seedPreimage ⟨1⟩ ⟨1⟩ 2 9 ∧
    (commitmentKey ⟨1⟩ solution salt = commitmentKey ⟨1⟩ longer salt →
      Sha256.Collide (commitmentPreimage ⟨1⟩ solution salt)
        (commitmentPreimage ⟨1⟩ longer salt)) := by
  intro salt solution longer
  have hsolution : solution.length < UInt64.size := by decide
  have hlonger : longer.length < UInt64.size := by
    rw [List.length_append, Word.length_toBytes]
    decide
  have hne : solution ≠ longer := by
    intro h
    have := congrArg List.length h
    rw [List.length_append, Word.length_toBytes] at this
    omega
  obtain ⟨hbytes, hfront, hseed, hkey⟩ := commitmentKey_binds
  refine ⟨hsolution, hlonger, fun h => hne ((hbytes _ _ _ _ _ _).mp h).2.1, fun h =>
    hne (hfront _ _ _ _ _ _ hsolution hlonger h).2.1, (hseed _ _ _ _ _ _ _).1, fun h => ?_⟩
  exact ((hkey _ _ _ _ _ _).mp h).resolve_left fun hsame => hne hsame.2.1

end CodeGolf
