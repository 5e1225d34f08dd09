import CodeGolf.Proofs.Spelling
import CodeGolf.Snapshot.Codec

/-!
# Snapshots are read back from their bytes

A decoder reads an encoding (`Decoder.Reads`) if it takes exactly the encoding off the front of any
bytes that begin with it, and refuses bytes that end inside it. Both halves carry over to decoders
run one after the other (`Decoder.Reads.bind`), so a record is read because its fields are, in the
order in which they are written, and a list is read by induction on its elements. What remains are
the fields themselves: numbers and keys have a fixed width, and texts are read back by
`Utf8.decode_encode`. An allow-list is read from any text that spells it (`reads_bodyAs`), and the
text that is written does (`OpcodeSet.parse_hex`).

`decode_encode_append` puts this together for the two layers of a snapshot. A length is written in
eight bytes, so the only condition is that the bytes of the snapshot can be counted with 64 bits;
every list and every text in it is shorter than that.
-/

namespace CodeGolf.Snapshot

/-! ## What it is to read an encoding -/

/-- A decoder reads an encoding of a value: it takes the encoding off the front of what begins with
it, and it refuses what ends inside it. -/
structure Decoder.Reads {α : Type} (read : Decoder α) (bytes : Bytes) (a : α) : Prop where
  whole : ∀ rest, read (bytes ++ rest) = .ok (a, rest)
  cut : ∀ front tail, bytes = front ++ tail → tail ≠ [] → ∃ fault, read front = .error fault

namespace Decoder.Reads

variable {α β : Type} {read : Decoder α} {bytes bytes' : Bytes} {a : α} {b : β}

/-- A decoder that takes nothing reads the encoding without bytes. -/
theorem pure (a : α) : Decoder.Reads (Pure.pure a) [] a where
  whole _ := rfl
  cut front tail h htail := by
    rw [eq_comm, List.append_eq_nil_iff] at h
    exact absurd h.2 htail

/-- **Two decoders in a row read two encodings in a row.** -/
theorem bind {f : α → Decoder β} (h : read.Reads bytes a) (h' : (f a).Reads bytes' b) :
    Decoder.Reads (read >>= f) (bytes ++ bytes') b where
  whole rest := by
    have hread := h.whole (bytes' ++ rest)
    have hnext := h'.whole rest
    show Except.bind (read (bytes ++ bytes' ++ rest)) (fun p => f p.1 p.2) = _
    rw [List.append_assoc, hread]
    exact hnext
  cut front tail heq htail := by
    show ∃ fault, Except.bind (read front) (fun p => f p.1 p.2) = .error fault
    -- The cut is in the second encoding, or else in the first one or right behind it.
    rcases List.append_eq_append_iff.mp heq with ⟨front', rfl, hbytes'⟩ | ⟨tail', rfl, rfl⟩
    · obtain ⟨fault, hfault⟩ := h'.cut front' tail hbytes' htail
      refine ⟨fault, ?_⟩
      rw [h.whole]
      exact hfault
    · by_cases hnil : tail' = []
      · subst hnil
        obtain ⟨fault, hfault⟩ := h'.cut [] bytes' rfl htail
        have hread := h.whole []
        rw [List.append_nil, List.append_nil] at hread
        refine ⟨fault, ?_⟩
        rw [hread]
        exact hfault
      · obtain ⟨fault, hfault⟩ := h.cut front tail' rfl hnil
        refine ⟨fault, ?_⟩
        rw [hfault]
        rfl

/-- What is read may be put in another form. -/
theorem bind_pure (h : read.Reads bytes a) {f : α → Decoder β} (hf : f a = Pure.pure b) :
    Decoder.Reads (read >>= f) bytes b := by
  have hpure : (f a).Reads [] b := by
    rw [hf]
    exact .pure b
  have hbind := h.bind hpure
  rwa [List.append_nil] at hbind

end Decoder.Reads

open Decoder

/-! ## Fields -/

section
variable {α : Type}

/-- A number of bytes is taken from the front. -/
theorem reads_take (short : DecodeError) (bytes : Bytes) :
    (Decode.take short bytes.length).Reads bytes bytes where
  whole rest := by
    show (if ((bytes ++ rest).take bytes.length).length = bytes.length then
      Except.ok ((bytes ++ rest).take bytes.length, (bytes ++ rest).drop bytes.length)
      else .error short) = _
    rw [List.take_left, List.drop_left, if_pos rfl]
  cut front tail heq htail := by
    have hlength : (front.take bytes.length).length ≠ bytes.length := by
      have htail' : 0 < tail.length := List.length_pos_iff.mpr htail
      rw [heq, List.length_take, List.length_append]
      omega
    exact ⟨short, if_neg hlength⟩

/-- A number that fits its width is read. -/
theorem reads_number {width n : Nat} (hn : n < Nat.pow 256 width) :
    (Decode.number width).Reads (Bytes.littleEndian width n) n := by
  have htake := reads_take .endOfData (Bytes.littleEndian width n)
  rw [Bytes.length_littleEndian] at htake
  refine htake.bind_pure ?_
  rw [Bytes.ofLittleEndian_littleEndian, Nat.mod_eq_of_lt hn]

/-- A word of 64 bits is read back. -/
theorem reads_word64 (n : UInt64) : Decode.word64.Reads (Encode.word64 n) n :=
  (reads_number n.toNat_lt).bind_pure (by rw [UInt64.ofNat_toNat])

/-- A length is read back if 64 bits can hold it. -/
theorem reads_length {n : Nat} (hn : n < UInt64.size) :
    (Decode.number 8).Reads (Encode.length n) n := reads_number hn

/-- An id is read back. -/
theorem reads_courseId (id : CourseId) : Decode.courseId.Reads (Encode.courseId id) id :=
  (reads_number id.number.toNat_lt).bind_pure (by rw [UInt32.ofNat_toNat])

/-- A word of 32 bytes is read back. -/
theorem reads_word (w : Word) : Decode.word.Reads w.toBytes w := by
  have htake := reads_take .endOfData w.toBytes
  rw [Word.length_toBytes] at htake
  exact htake.bind_pure (by rw [Word.ofBytes_toBytes])

/-- A player is read back. -/
theorem reads_player (p : Player) : Decode.player.Reads (Encode.player p) p :=
  (reads_word p.key).bind_pure rfl

/-- A text is read if its bytes can be counted. -/
theorem reads_text {s : String} (hs : (Utf8.encode s.toList).length < UInt64.size) :
    Decode.text.Reads (Encode.text s) s := by
  refine (reads_length hs).bind ((reads_take .endOfText _).bind_pure ?_)
  rw [Utf8.decode_encode]
  show Pure.pure (String.ofList s.toList) = _
  rw [String.ofList_toList]

/-- An allow-list is read from any text that spells it. -/
theorem reads_allowed {s : OpcodeSet} {digits : String} (hdigits : OpcodeSet.parse digits = .ok s)
    (hsize : (Utf8.encode digits.toList).length < UInt64.size) :
    Decode.allowed.Reads (Encode.text digits) s := by
  refine (reads_text hsize).bind_pure ?_
  rw [hdigits]

/-- A tag is read back. -/
theorem reads_tag {n : Nat} (hn : n < 256) : (Decode.number 1).Reads [UInt8.ofNat n] n := by
  show (Decode.number 1).Reads (Bytes.littleEndian 1 n) n
  exact reads_number hn

/-- A field that may be absent is read if the field is. -/
theorem reads_option {read : Decoder α} {write : α → Bytes}
    (hread : ∀ a, read.Reads (write a) a) (field : Option α) :
    (Decode.option read).Reads (Encode.option write field) field := by
  cases field with
  | none => exact (reads_tag (n := 0) (by decide)).bind_pure rfl
  | some a => exact (reads_tag (n := 1) (by decide)).bind ((hread a).bind_pure rfl)

variable {β : Type} {read : Decoder α} {write : β → Bytes}

/-- Elements one after the other are read if each of them is. What is written may say more than what
is read of it. -/
theorem reads_times (value : β → α) (items : List β)
    (hread : ∀ x ∈ items, read.Reads (write x) (value x)) :
    (Decode.times read items.length).Reads (items.flatMap write) (items.map value) := by
  induction items with
  | nil => exact .pure []
  | cons x rest ih =>
    obtain ⟨hx, hrest⟩ := List.forall_mem_cons.mp hread
    exact hx.bind ((ih hrest).bind_pure rfl)

/-- A list is read if its elements are, and if they can be counted. -/
theorem reads_list (value : β → α) (items : List β) (hlength : items.length < UInt64.size)
    (hread : ∀ x ∈ items, read.Reads (write x) (value x)) :
    (Decode.list read).Reads (Encode.list write items) (items.map value) :=
  (reads_length hlength).bind (reads_times value items hread)

end

/-! ## Records -/

/-- The bytes of a course record whose allow-list is written as a text. -/
def Encode.recordAs (spelled : CourseRecord × String) : Bytes :=
  courseId spelled.1.id ++ text spelled.1.name ++ text spelled.2 ++ word64 spelled.1.leadingCost ++
    option player spelled.1.titleHolder ++ word64 spelled.1.solutionCount ++
    word64 spelled.1.titleChanges ++ word64 spelled.1.registeredAt

/-- A course record is read, whatever text spells its allow-list, if its bytes can be counted. -/
theorem reads_record {x : CourseRecord × String} (hdigits : OpcodeSet.parse x.2 = .ok x.1.allowed)
    (hx : (Encode.recordAs x).length < UInt64.size) :
    Decode.record.Reads (Encode.recordAs x) x.1 := by
  simp only [Encode.recordAs, Encode.text, List.length_append] at hx
  simp only [Encode.recordAs, List.append_assoc]
  exact (reads_courseId _).bind <| (reads_text (by omega)).bind <|
    (reads_allowed hdigits (by omega)).bind <| (reads_word64 _).bind <|
    (reads_option reads_player _).bind <| (reads_word64 _).bind <| (reads_word64 _).bind <|
    (reads_word64 _).bind_pure rfl

/-- A commitment with its key is read back. -/
theorem reads_commitment (entry : Digest × Commitment) :
    Decode.commitment.Reads (Encode.commitment entry) entry := by
  simp only [Encode.commitment, List.append_assoc]
  exact (reads_word _).bind <| (reads_player _).bind <| (reads_word64 _).bind <|
    (reads_option reads_word64 _).bind_pure rfl

/-- A par is read back. -/
theorem reads_par (p : Par) : Decode.par.Reads (Encode.par p) p := by
  simp only [Encode.par, List.append_assoc]
  exact (reads_courseId _).bind <| (reads_player _).bind <| (reads_word64 _).bind <|
    (reads_word64 _).bind <| (reads_word64 _).bind <| (reads_word64 _).bind_pure rfl

/-- No element of a list has more bytes than the list. -/
theorem length_le_length_flatMap {α : Type} (write : α → Bytes) {items : List α} {a : α}
    (ha : a ∈ items) : (write a).length ≤ (items.flatMap write).length :=
  (List.sublist_flatten_of_mem (List.mem_map_of_mem ha)).length_le

/-- A list whose elements have bytes has no more elements than bytes. -/
theorem length_items_le {α : Type} {write : α → Bytes} (hwrite : ∀ a, 0 < (write a).length)
    (items : List α) : items.length ≤ (items.flatMap write).length := by
  induction items with
  | nil => exact Nat.zero_le _
  | cons a rest ih =>
    have ha := hwrite a
    rw [List.flatMap_cons, List.length_append, List.length_cons]
    omega

/-! ## Snapshots -/

/-- Courses, each with a text for its allow-list, spell a snapshot if they are its courses and each
text is read as the allow-list. -/
structure SpelledBy (s : Snapshot) (courses : List (CourseRecord × String)) : Prop where
  records : courses.map Prod.fst = s.courses
  spells : ∀ x ∈ courses, OpcodeSet.parse x.2 = .ok x.1.allowed

/-- The bytes of the fields of a snapshot whose allow-lists are written as texts. -/
def Encode.bodyAs (s : Snapshot) (courses : List (CourseRecord × String)) : Bytes :=
  word64 s.takenAt ++ list recordAs courses ++ list commitment s.commitments ++ list par s.pars

/-- The courses of a snapshot, each with the digits of its allow-list. -/
def withDigits (s : Snapshot) : List (CourseRecord × String) :=
  s.courses.map fun r => (r, r.allowed.hex)

/-- A snapshot is spelled with the digits of its own allow-lists. -/
theorem spelledBy_withDigits (s : Snapshot) : s.SpelledBy s.withDigits where
  records := by
    rw [withDigits, List.map_map]
    exact List.map_id _
  spells x hx := by
    obtain ⟨r, -, rfl⟩ := List.mem_map.mp hx
    exact OpcodeSet.parse_hex r.allowed

/-- The fields of a snapshot are written with the digits of the allow-lists. -/
theorem body_eq_bodyAs (s : Snapshot) : Encode.body s = Encode.bodyAs s s.withDigits := by
  have hcourses :
      Encode.list Encode.record s.courses = Encode.list Encode.recordAs s.withDigits := by
    rw [Encode.list, Encode.list, withDigits, List.length_map, List.flatMap_map]
    rfl
  rw [Encode.body, hcourses, Encode.bodyAs]

/-- The fields of a snapshot are read, however the allow-lists are spelled, if their bytes can be
counted. -/
theorem reads_bodyAs {s : Snapshot} {courses : List (CourseRecord × String)}
    (hcourses : s.SpelledBy courses) (hs : (Encode.bodyAs s courses).length < UInt64.size) :
    Decode.body.Reads (Encode.bodyAs s courses) s := by
  have hrecord : ∀ x, 0 < (Encode.recordAs x).length := fun x => by
    simp only [Encode.recordAs, Encode.courseId, List.length_append, Bytes.length_littleEndian]
    omega
  have hcommitment : ∀ entry, 0 < (Encode.commitment entry).length := fun entry => by
    simp only [Encode.commitment, List.length_append, Word.length_toBytes]
    omega
  have hpar : ∀ p, 0 < (Encode.par p).length := fun p => by
    simp only [Encode.par, Encode.courseId, List.length_append, Bytes.length_littleEndian]
    omega
  have hrecords := length_items_le hrecord courses
  have hcommitments := length_items_le hcommitment s.commitments
  have hpars := length_items_le hpar s.pars
  simp only [Encode.bodyAs, Encode.list, List.length_append] at hs
  have hread : ∀ x ∈ courses, Decode.record.Reads (Encode.recordAs x) x.1 := fun x hx => by
    have hle := length_le_length_flatMap Encode.recordAs hx
    exact reads_record (hcourses.spells x hx) (by omega)
  have hreadRecords := reads_list Prod.fst courses (by omega) hread
  have hreadCommitments := reads_list id s.commitments (by omega)
    fun entry _ => reads_commitment entry
  have hreadPars := reads_list id s.pars (by omega) fun p _ => reads_par p
  rw [hcourses.records] at hreadRecords
  rw [List.map_id] at hreadCommitments hreadPars
  simp only [Encode.bodyAs, List.append_assoc]
  exact (reads_word64 _).bind <| hreadRecords.bind <| hreadCommitments.bind <|
    hreadPars.bind_pure rfl

/-- The fields of a snapshot are read if their bytes can be counted. -/
theorem reads_body {s : Snapshot} (hs : (Encode.body s).length < UInt64.size) :
    Decode.body.Reads (Encode.body s) s := by
  rw [body_eq_bodyAs] at hs ⊢
  exact reads_bodyAs s.spelledBy_withDigits hs

/-! ## The envelope -/

/-- The bytes of an envelope around data. -/
def Encode.envelope (data : Bytes) : Bytes :=
  Bytes.littleEndian 4 formatVersion ++ Encode.length data.length ++ data

/-- The bytes of a snapshot are the envelope around its body. -/
theorem encode_eq_envelope (s : Snapshot) : s.encode = Encode.envelope (Encode.body s) := rfl

/-- An envelope of any version is read if the bytes in it can be counted. -/
theorem reads_versioned {version : Nat} (hversion : version < Nat.pow 256 4) {data : Bytes}
    (hdata : data.length < UInt64.size) :
    Decode.envelope.Reads
      (Bytes.littleEndian 4 version ++ Encode.length data.length ++ data) (version, data) := by
  rw [List.append_assoc]
  exact (reads_number hversion).bind <| (reads_length hdata).bind <|
    (reads_take .endOfData data).bind_pure rfl

/-- An envelope of the known version is read if the bytes in it can be counted. -/
theorem reads_envelope {data : Bytes} (hdata : data.length < UInt64.size) :
    Decode.envelope.Reads (Encode.envelope data) (formatVersion, data) :=
  reads_versioned (by decide) hdata

/-- What an envelope of the known version holds is what its data is read as. -/
theorem decode_envelope_append {data : Bytes} (hdata : data.length < UInt64.size) (rest : Bytes) :
    decode (Encode.envelope data ++ rest) = (Decode.body data).map Prod.fst := by
  rw [decode, (reads_envelope hdata).whole rest]
  show (if formatVersion ≠ formatVersion then _ else _) = _
  rw [if_neg (not_not_intro rfl)]
  cases Decode.body data <;> rfl

/-- What begins with the encoding of a snapshot is read as the snapshot. -/
theorem decode_encode {s : Snapshot} (hs : (Encode.body s).length < UInt64.size) (rest : Bytes) :
    decode (s.encode ++ rest) = .ok s := by
  have hwhole := (reads_body hs).whole []
  rw [List.append_nil] at hwhole
  rw [encode_eq_envelope, decode_envelope_append hs, hwhole]
  rfl

/-- **Reading a snapshot undoes writing it, and a cut is never read.** For every snapshot whose
bytes can be counted with 64 bits, with any records in any order and any number of times:

* what begins with the encoding of the snapshot is read as the snapshot, whatever follows;
* what ends inside the encoding is refused;
* an envelope around what ends inside the fields is refused too, whatever follows. -/
theorem decode_encode_append (s : Snapshot) (hs : (Encode.body s).length < UInt64.size) :
    (∀ rest, decode (s.encode ++ rest) = .ok s) ∧
    (∀ front, front <+: s.encode → front ≠ s.encode → ∃ fault, decode front = .error fault) ∧
    ∀ front, front <+: Encode.body s → front ≠ Encode.body s →
      ∀ rest, ∃ fault, decode (Encode.envelope front ++ rest) = .error fault := by
  have hbody := reads_body hs
  have htail : ∀ {front tail bytes : Bytes}, front ++ tail = bytes → front ≠ bytes → tail ≠ [] := by
    rintro front tail bytes rfl hne rfl
    exact hne (List.append_nil front).symm
  refine ⟨decode_encode hs, ?_, ?_⟩
  · rintro front ⟨tail, heq⟩ hne
    obtain ⟨fault, hfault⟩ := (reads_envelope hs).cut front tail heq.symm (htail heq hne)
    exact ⟨fault, by rw [decode, hfault]⟩
  · rintro front ⟨tail, heq⟩ hne rest
    obtain ⟨fault, hfault⟩ := hbody.cut front tail heq.symm (htail heq hne)
    have hfront : front.length < UInt64.size := by
      rw [← heq, List.length_append] at hs
      omega
    refine ⟨fault, ?_⟩
    rw [decode_envelope_append hfront, hfault]
    rfl

/-- A snapshot with a name that is not ASCII and with a key that is listed twice. -/
theorem decode_encode_append_of_repeated_key :
    let s : Snapshot :=
      { takenAt := 5
        courses := [⟨⟨3⟩, "kürzer", .full, 7, some ⟨1⟩, 2, 1, 0⟩]
        commitments := [(9, ⟨⟨2⟩, 4, none⟩), (9, ⟨⟨1⟩, 6, some 8⟩)]
        pars := [⟨⟨3⟩, ⟨1⟩, 7, 2, 1, 1⟩] }
    (Encode.body s).length < UInt64.size ∧
    decode (s.encode ++ [0xff]) = .ok s ∧
    (∃ fault, decode (s.encode.take 100) = .error fault) ∧
    ∃ fault, decode (Encode.envelope ((Encode.body s).take 100) ++ [0xff]) = .error fault := by
  intro s
  have hlength : (Encode.body s).length = 410 := by decide +kernel
  have hs : (Encode.body s).length < UInt64.size := by
    rw [hlength]
    decide
  have hencode : s.encode.length = 422 := by
    rw [encode_eq_envelope, Encode.envelope, List.length_append, List.length_append, hlength,
      Encode.length, Bytes.length_littleEndian, Bytes.length_littleEndian]
  obtain ⟨hwhole, hcut, hinner⟩ := decode_encode_append s hs
  refine ⟨hs, hwhole _, hcut _ (List.take_prefix ..) fun heq => ?_,
    hinner _ (List.take_prefix ..) (fun heq => ?_) _⟩
  · have := congrArg List.length heq
    rw [List.length_take, hencode] at this
    omega
  · have := congrArg List.length heq
    rw [List.length_take, hlength] at this
    omega

end CodeGolf.Snapshot
