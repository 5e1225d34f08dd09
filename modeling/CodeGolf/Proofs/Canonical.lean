import CodeGolf.Proofs.Reading
import CodeGolf.Proofs.RoundTrip

/-!
# Only written snapshots are read

The converse of reading back. What a decoder takes off the front of bytes is the writing of the
value that it reads: fixed widths leave no choice for numbers and keys, a text is read from its
UTF-8 bytes alone (`Utf8.eq_encode_of_decode`), and an optional field has two tags only. Decoders
run one after the other are inverted one after the other (`Decoder.exists_of_bind`), so a record is
inverted field by field, and a list by induction on the number of its elements.

One field has more than one writing. An allow-list is a text, and every text that is read as the
set will do: the digits may be of either case and behind the marker. `decode_eq_ok_iff_spelled` says
that this is the only freedom inside the two lengths, and that in lower case and without the marker
the text is the one that is written.
-/

namespace CodeGolf.Snapshot

/-! ## Decoders in a row -/

section
variable {α β : Type} {read : Decoder α} {bytes rest : Bytes}

/-- What two decoders in a row read, the first reads and the second goes on with. -/
theorem Decoder.exists_of_bind {f : α → Decoder β} {b : β}
    (h : (read >>= f) bytes = .ok (b, rest)) :
    ∃ a mid, read bytes = .ok (a, mid) ∧ f a mid = .ok (b, rest) := by
  have hbind : Except.bind (read bytes) (fun p => f p.1 p.2) = .ok (b, rest) := h
  cases hread : read bytes with
  | error fault =>
    rw [hread] at hbind
    cases hbind
  | ok p =>
    rw [hread] at hbind
    exact ⟨p.1, p.2, rfl, hbind⟩

/-- What a decoder reads and puts in another form, it reads. -/
theorem Decoder.exists_of_bind_pure {f : α → β} {b : β}
    (h : (read >>= fun a => pure (f a)) bytes = .ok (b, rest)) :
    ∃ a, read bytes = .ok (a, rest) ∧ f a = b := by
  obtain ⟨a, mid, ha, hb⟩ := Decoder.exists_of_bind h
  cases hb
  exact ⟨a, ha, rfl⟩

/-- A decoder takes only what is written: what it takes off the front of bytes is the writing of the
value that it reads. -/
def Decoder.TakesOnly (read : Decoder α) (write : α → Bytes) : Prop :=
  ∀ ⦃bytes a rest⦄, read bytes = .ok (a, rest) → bytes = write a ++ rest

/-! ## Fields -/

/-- What is taken is as long as it should be, and it was in front. -/
theorem eq_append_of_take {short : DecodeError} {n : Nat} {front : Bytes}
    (h : Decode.take short n bytes = .ok (front, rest)) :
    front.length = n ∧ bytes = front ++ rest := by
  have htake : (if (bytes.take n).length = n then Except.ok (bytes.take n, bytes.drop n)
    else .error short) = .ok (front, rest) := h
  split at htake
  · next hlength =>
    cases htake
    exact ⟨hlength, (List.take_append_drop n bytes).symm⟩
  · cases htake

/-- A number that is read fits its width, and it was written. -/
theorem eq_littleEndian_of_number {width n : Nat}
    (h : Decode.number width bytes = .ok (n, rest)) :
    n < Nat.pow 256 width ∧ bytes = Bytes.littleEndian width n ++ rest := by
  obtain ⟨front, hfront, rfl⟩ := Decoder.exists_of_bind_pure h
  obtain ⟨rfl, rfl⟩ := eq_append_of_take hfront
  exact ⟨Bytes.ofLittleEndian_lt front, by rw [Bytes.littleEndian_ofLittleEndian]⟩

/-- A word of 64 bits has one spelling. -/
theorem takesOnly_word64 : Decode.word64.TakesOnly Encode.word64 := by
  intro bytes n rest h
  obtain ⟨m, hm, rfl⟩ := Decoder.exists_of_bind_pure h
  obtain ⟨hlt, rfl⟩ := eq_littleEndian_of_number hm
  rw [Encode.word64, UInt64.toNat_ofNat_of_lt' hlt]

/-- An id has one spelling. -/
theorem takesOnly_courseId : Decode.courseId.TakesOnly Encode.courseId := by
  intro bytes id rest h
  obtain ⟨m, hm, rfl⟩ := Decoder.exists_of_bind_pure h
  obtain ⟨hlt, rfl⟩ := eq_littleEndian_of_number hm
  rw [Encode.courseId, UInt32.toNat_ofNat_of_lt' hlt]

/-- A word of 32 bytes has one spelling. -/
theorem takesOnly_word : Decode.word.TakesOnly Word.toBytes := by
  intro bytes w rest h
  obtain ⟨front, hfront, rfl⟩ := Decoder.exists_of_bind_pure h
  obtain ⟨hlength, rfl⟩ := eq_append_of_take hfront
  rw [Word.toBytes_ofBytes hlength]

/-- A player has one spelling. -/
theorem takesOnly_player : Decode.player.TakesOnly Encode.player := by
  intro bytes p rest h
  obtain ⟨w, hw, rfl⟩ := Decoder.exists_of_bind_pure h
  exact takesOnly_word hw

/-- A text has one spelling. -/
theorem takesOnly_text : Decode.text.TakesOnly Encode.text := by
  intro bytes s rest h
  obtain ⟨n, mid, hn, hrest⟩ := Decoder.exists_of_bind h
  obtain ⟨front, mid', hfront, htext⟩ := Decoder.exists_of_bind hrest
  cases hchars : Utf8.decode front with
  | error fault =>
    rw [hchars] at htext
    cases htext
  | ok chars =>
    rw [hchars] at htext
    cases htext
    obtain ⟨rfl, rfl⟩ := eq_append_of_take hfront
    rw [(eq_littleEndian_of_number hn).2, Encode.text, String.toList_ofList,
      ← Utf8.eq_encode_of_decode hchars, List.append_assoc, Encode.length]

/-- An allow-list is read from a text that spells it, and the text was written. -/
theorem exists_text_of_allowed {s : OpcodeSet} (h : Decode.allowed bytes = .ok (s, rest)) :
    ∃ digits, OpcodeSet.parse digits = .ok s ∧ bytes = Encode.text digits ++ rest := by
  obtain ⟨digits, mid, hdigits, hset⟩ := Decoder.exists_of_bind h
  cases hparse : OpcodeSet.parse digits with
  | error fault =>
    rw [hparse] at hset
    cases hset
  | ok set =>
    rw [hparse] at hset
    cases hset
    exact ⟨digits, hparse, takesOnly_text hdigits⟩

/-- An optional field takes only what is written if the field does: no other tag is read. -/
theorem takesOnly_option {write : α → Bytes} (hread : read.TakesOnly write) :
    (Decode.option read).TakesOnly (Encode.option write) := by
  intro bytes field rest h
  obtain ⟨tag, mid, htag, hfield⟩ := Decoder.exists_of_bind h
  obtain ⟨-, rfl⟩ := eq_littleEndian_of_number htag
  clear h htag
  match tag with
  | 0 =>
    cases hfield
    rfl
  | 1 =>
    obtain ⟨a, ha, rfl⟩ := Decoder.exists_of_bind_pure hfield
    rw [hread ha]
    rfl
  | tag + 2 => cases hfield

/-- Elements one after the other take only what is written if each of them does. What is written may
say more than what is read of it. -/
theorem exists_of_times {write : β → Bytes} {value : β → α} {Spells : β → Prop}
    (hread : ∀ {bytes a rest}, read bytes = .ok (a, rest) →
      ∃ x, Spells x ∧ value x = a ∧ bytes = write x ++ rest)
    {n : Nat} {items : List α} (h : Decode.times read n bytes = .ok (items, rest)) :
    ∃ xs : List β, xs.length = n ∧ (∀ x ∈ xs, Spells x) ∧ xs.map value = items ∧
      bytes = xs.flatMap write ++ rest := by
  induction n generalizing bytes items with
  | zero =>
    cases h
    exact ⟨[], rfl, nofun, rfl, rfl⟩
  | succ n ih =>
    obtain ⟨a, mid, ha, h⟩ := Decoder.exists_of_bind h
    obtain ⟨items', hitems, rfl⟩ := Decoder.exists_of_bind_pure h
    obtain ⟨x, hx, rfl, rfl⟩ := hread ha
    obtain ⟨xs, rfl, hxs, rfl, rfl⟩ := ih hitems
    exact ⟨x :: xs, rfl, List.forall_mem_cons.mpr ⟨hx, hxs⟩, rfl,
      by rw [List.flatMap_cons, List.append_assoc]⟩

/-- A list takes only what is written if its elements do. -/
theorem exists_of_list {write : β → Bytes} {value : β → α} {Spells : β → Prop}
    (hread : ∀ {bytes a rest}, read bytes = .ok (a, rest) →
      ∃ x, Spells x ∧ value x = a ∧ bytes = write x ++ rest)
    {items : List α} (h : Decode.list read bytes = .ok (items, rest)) :
    ∃ xs : List β, (∀ x ∈ xs, Spells x) ∧ xs.map value = items ∧
      bytes = Encode.list write xs ++ rest := by
  obtain ⟨n, mid, hn, htimes⟩ := Decoder.exists_of_bind h
  obtain ⟨xs, rfl, hxs, hitems, rfl⟩ := exists_of_times hread htimes
  refine ⟨xs, hxs, hitems, ?_⟩
  rw [(eq_littleEndian_of_number hn).2, Encode.list, List.append_assoc, Encode.length]

/-- A list takes only what is written if its elements do, and each has one writing. -/
theorem takesOnly_list {write : α → Bytes} (hread : read.TakesOnly write) :
    (Decode.list read).TakesOnly (Encode.list write) := by
  intro bytes items rest h
  obtain ⟨xs, -, rfl, hbytes⟩ : ∃ xs : List α, (∀ x ∈ xs, True) ∧ xs.map id = items ∧
      bytes = Encode.list write xs ++ rest :=
    exists_of_list (fun ha => ⟨_, trivial, rfl, hread ha⟩) h
  rw [hbytes, List.map_id]

/-! ## Records -/

/-- A course record is read from a writing with some text that spells its allow-list. -/
theorem exists_of_record {r : CourseRecord} (h : Decode.record bytes = .ok (r, rest)) :
    ∃ x : CourseRecord × String, OpcodeSet.parse x.2 = .ok x.1.allowed ∧ x.1 = r ∧
      bytes = Encode.recordAs x ++ rest := by
  obtain ⟨id, _, hid, h⟩ := Decoder.exists_of_bind h
  obtain ⟨name, _, hname, h⟩ := Decoder.exists_of_bind h
  obtain ⟨allowed, _, hallowed, h⟩ := Decoder.exists_of_bind h
  obtain ⟨leadingCost, _, hcost, h⟩ := Decoder.exists_of_bind h
  obtain ⟨titleHolder, _, hholder, h⟩ := Decoder.exists_of_bind h
  obtain ⟨solutionCount, _, hcount, h⟩ := Decoder.exists_of_bind h
  obtain ⟨titleChanges, _, hchanges, h⟩ := Decoder.exists_of_bind h
  obtain ⟨registeredAt, hregistered, rfl⟩ := Decoder.exists_of_bind_pure h
  obtain ⟨digits, hdigits, hspelled⟩ := exists_text_of_allowed hallowed
  refine ⟨(_, digits), hdigits, rfl, ?_⟩
  rw [takesOnly_courseId hid, takesOnly_text hname, hspelled, takesOnly_word64 hcost,
    takesOnly_option takesOnly_player hholder, takesOnly_word64 hcount, takesOnly_word64 hchanges,
    takesOnly_word64 hregistered]
  simp only [Encode.recordAs, List.append_assoc]

/-- A commitment with its key has one spelling. -/
theorem takesOnly_commitment : Decode.commitment.TakesOnly Encode.commitment := by
  intro bytes entry rest h
  obtain ⟨key, _, hkey, h⟩ := Decoder.exists_of_bind h
  obtain ⟨player, _, hplayer, h⟩ := Decoder.exists_of_bind h
  obtain ⟨committedAt, _, hcommitted, h⟩ := Decoder.exists_of_bind h
  obtain ⟨revealedAt, hrevealed, rfl⟩ := Decoder.exists_of_bind_pure h
  rw [takesOnly_word hkey, takesOnly_player hplayer, takesOnly_word64 hcommitted,
    takesOnly_option takesOnly_word64 hrevealed]
  simp only [Encode.commitment, List.append_assoc]

/-- A par has one spelling. -/
theorem takesOnly_par : Decode.par.TakesOnly Encode.par := by
  intro bytes p rest h
  obtain ⟨course, _, hcourse, h⟩ := Decoder.exists_of_bind h
  obtain ⟨holder, _, hholder, h⟩ := Decoder.exists_of_bind h
  obtain ⟨bestCost, _, hcost, h⟩ := Decoder.exists_of_bind h
  obtain ⟨submissions, _, hsubmissions, h⟩ := Decoder.exists_of_bind h
  obtain ⟨createdAt, _, hcreated, h⟩ := Decoder.exists_of_bind h
  obtain ⟨bestAt, hbest, rfl⟩ := Decoder.exists_of_bind_pure h
  rw [takesOnly_courseId hcourse, takesOnly_player hholder, takesOnly_word64 hcost,
    takesOnly_word64 hsubmissions, takesOnly_word64 hcreated, takesOnly_word64 hbest]
  simp only [Encode.par, List.append_assoc]

/-- The fields of a snapshot are read from a writing with some spelling of its allow-lists. -/
theorem exists_of_body {s : Snapshot} (h : Decode.body bytes = .ok (s, rest)) :
    ∃ courses, s.SpelledBy courses ∧ bytes = Encode.bodyAs s courses ++ rest := by
  obtain ⟨takenAt, _, htaken, h⟩ := Decoder.exists_of_bind h
  obtain ⟨records, _, hrecords, h⟩ := Decoder.exists_of_bind h
  obtain ⟨commitments, _, hcommitments, h⟩ := Decoder.exists_of_bind h
  obtain ⟨pars, hpars, rfl⟩ := Decoder.exists_of_bind_pure h
  obtain ⟨courses, hspells, hvalues, hwritten⟩ := exists_of_list exists_of_record hrecords
  refine ⟨courses, ⟨hvalues, hspells⟩, ?_⟩
  rw [takesOnly_word64 htaken, hwritten, takesOnly_list takesOnly_commitment hcommitments,
    takesOnly_list takesOnly_par hpars]
  simp only [Encode.bodyAs, List.append_assoc]

/-- The version and the data of an envelope are read from an envelope around them. -/
theorem eq_of_envelope {version : Nat} {data : Bytes}
    (h : Decode.envelope bytes = .ok ((version, data), rest)) :
    data.length < UInt64.size ∧
      bytes = Bytes.littleEndian 4 version ++ Encode.length data.length ++ data ++ rest := by
  obtain ⟨version', _, hversion, h⟩ := Decoder.exists_of_bind h
  obtain ⟨n, _, hn, h⟩ := Decoder.exists_of_bind h
  obtain ⟨data', hdata, heq⟩ := Decoder.exists_of_bind_pure h
  cases heq
  obtain ⟨rfl, htaken⟩ := eq_append_of_take hdata
  obtain ⟨hlt, hlength⟩ := eq_littleEndian_of_number hn
  refine ⟨hlt, ?_⟩
  rw [(eq_littleEndian_of_number hversion).2, hlength, htaken, Encode.length]
  simp only [List.append_assoc]

end

/-! ## Snapshots -/

/-- In lower case and without markers, the texts of the allow-lists are the digits that are
written. -/
theorem SpelledBy.map_plain {s : Snapshot} {courses : List (CourseRecord × String)}
    (h : s.SpelledBy courses) :
    courses.map (fun x => (x.1, Hex.plain x.2)) = s.withDigits := by
  rw [withDigits, ← h.records, List.map_map]
  refine List.map_congr_left fun x hx => ?_
  rw [OpcodeSet.plain_of_parse (h.spells x hx)]
  rfl

/-- A snapshot is read exactly if an envelope of the known version is, and the fields in its
data. -/
theorem decode_eq_ok_iff {bytes : Bytes} {s : Snapshot} :
    decode bytes = .ok s ↔
      ∃ data rest rest', Decode.envelope bytes = .ok ((formatVersion, data), rest') ∧
        Decode.body data = .ok (s, rest) := by
  rw [decode]
  cases henvelope : Decode.envelope bytes with
  | error fault => simp
  | ok p =>
    obtain ⟨⟨version, data⟩, rest'⟩ := p
    by_cases hversion : version = formatVersion
    · cases hbody : Decode.body data <;> simp [hversion, hbody, Prod.ext_iff]
    · simp [hversion]

/-- **Only written snapshots are read.**

* Bytes are read as a snapshot exactly if they begin with an envelope of the known version, and the
  data in it begin with the fields of the snapshot, where each allow-list may be written as any text
  that is read as it. What follows the fields, and what follows the envelope, is not looked at.
* With these texts in lower case and without the marker, and with the lengths that belong to them,
  the envelope around the fields is the encoding of the snapshot.
* An envelope of another version is refused for its version, whatever the data are. -/
theorem decode_eq_ok_iff_spelled :
    (∀ bytes s, decode bytes = .ok s ↔
      ∃ data courses rest rest', s.SpelledBy courses ∧
        data = Encode.bodyAs s courses ++ rest ∧ data.length < UInt64.size ∧
        bytes = Bytes.littleEndian 4 formatVersion ++ Bytes.littleEndian 8 data.length ++ data ++
          rest') ∧
    (∀ s courses, SpelledBy s courses →
      Encode.envelope (Encode.bodyAs s (courses.map fun x => (x.1, Hex.plain x.2))) = s.encode) ∧
    ∀ version data rest, version < UInt32.size → version ≠ formatVersion →
      data.length < UInt64.size →
      decode (Bytes.littleEndian 4 version ++ Bytes.littleEndian 8 data.length ++ data ++ rest) =
        .error (.unknownVersion version) := by
  refine ⟨fun bytes s => ⟨fun h => ?_, ?_⟩, fun s courses h => ?_, ?_⟩
  · obtain ⟨data, rest, rest', henvelope, hbody⟩ := decode_eq_ok_iff.mp h
    obtain ⟨courses, hspelled, hdata⟩ := exists_of_body hbody
    obtain ⟨hlength, hbytes⟩ := eq_of_envelope henvelope
    exact ⟨data, courses, rest, rest', hspelled, hdata, hlength, hbytes⟩
  · rintro ⟨data, courses, rest, rest', hspelled, hdata, hlength, rfl⟩
    have hfields : (Encode.bodyAs s courses).length < UInt64.size := by
      rw [hdata, List.length_append] at hlength
      omega
    have hread := decode_envelope_append hlength rest'
    rw [hdata, (reads_bodyAs hspelled hfields).whole rest, ← hdata] at hread
    exact hread
  · rw [h.map_plain, ← body_eq_bodyAs, ← encode_eq_envelope]
  · intro version data rest hversion hne hlength
    have hread := (reads_versioned hversion hlength).whole rest
    rw [Encode.length] at hread
    rw [decode, hread]
    exact if_pos hne

/-- A snapshot whose allow-list is written in upper case and behind a marker, with a byte after the
fields and one after the envelope; and the same data in an envelope of another version. -/
theorem decode_eq_ok_iff_spelled_of_upper_case :
    let r : CourseRecord := ⟨⟨3⟩, "kürzer", .full, 7, some ⟨1⟩, 2, 1, 0⟩
    let s : Snapshot := { takenAt := 5, courses := [r], commitments := [], pars := [] }
    let digits := "0xFFFFFFFFFFFFFFFFFFFFFFFFFFFFFFFFFFFFFFFFFFFFFFFFFFFFFFFFFFFFFFFF"
    let data := Encode.bodyAs s [(r, digits)] ++ [9]
    s.SpelledBy [(r, digits)] ∧ digits ≠ r.allowed.hex ∧ data.length < UInt64.size ∧
    decode (Bytes.littleEndian 4 1 ++ Bytes.littleEndian 8 data.length ++ data ++ [0xff]) = .ok s ∧
    Encode.envelope (Encode.bodyAs s [(r, Hex.plain digits)]) = s.encode ∧
    decode (Bytes.littleEndian 4 2 ++ Bytes.littleEndian 8 data.length ++ data ++ [0xff]) =
      .error (.unknownVersion 2) := by
  intro r s digits data
  have hdigits : OpcodeSet.parse digits = .ok .full := by
    have hset : (OpcodeSet.parse digits).toOption = some .full := by decide +kernel
    generalize OpcodeSet.parse digits = parsed at hset ⊢
    cases parsed with
    | error fault => cases hset
    | ok set => exact congrArg _ (Option.some.inj hset)
  have hspelled : s.SpelledBy [(r, digits)] := ⟨rfl, fun x hx => by
    rw [List.mem_singleton.mp hx]
    exact hdigits⟩
  have hlength : data.length < UInt64.size := by decide +kernel
  obtain ⟨hread, hplain, hversion⟩ := decode_eq_ok_iff_spelled
  refine ⟨hspelled, by decide +kernel, hlength, ?_, hplain s [(r, digits)] hspelled,
    hversion 2 data [0xff] (by decide) (by decide) hlength⟩
  exact (hread _ s).mpr ⟨data, [(r, digits)], [9], [0xff], hspelled, rfl, hlength, rfl⟩

end CodeGolf.Snapshot
