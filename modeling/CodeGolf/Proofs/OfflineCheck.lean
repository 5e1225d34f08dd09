import CodeGolf.Proofs.Arguments
import CodeGolf.Proofs.OpcodeSpelling
import CodeGolf.Proofs.Restart

/-!
# A check away from the board

Whoever runs a board can check code without it: under the opcodes to deny, or under the text of the
set that is left when they are denied. `offline_check_agrees` is that both print one verdict, which
is also the verdict that the board gives when it rejects the code, and that they fail with the same
report where a text to deny spells no opcode.

Three ways lead to the set: from the texts, from the line that the program prints, and from the
record of a course. What is shared by the first two is `setDenying`; between them stands a text,
which is read back as the set (`OpcodeSet.parse_render`). The digits of the code are read back too
(`Hex.decode_digits`), so all three scan the same bytes.
-/

namespace CodeGolf

/-! ## The standard board -/

namespace Board

/-- The standard board rejects code for its code exactly if the scan finds a fault in it, under the
allow-list of the course. -/
theorem submit_eq_invalidSolution_iff_of_standard {b : Board} {id : CourseId} {c : RegisteredCourse}
    (hvalidator : b.validator = .pushAware) (hlimit : b.config.maxSolutionBytes = none)
    (hcourse : b.registry.find? id = some c) {now : Time} {caller : Player}
    {recipient : Option Player} {code : Bytes} {verdict : Verdict} :
    (b.step now (.submit caller id code recipient)).answer =
        .error (.invalidSolution id verdict) ↔
      scan c.record.allowed code = verdict ∧ verdict.isValid = false := by
  have hsize : b.checkSize code = .ok () := by
    rw [checkSize, hlimit]
  rw [submit_eq_invalidSolution_iff, hvalidator]
  constructor
  · rintro ⟨c', hc', -, hverdict, hfault⟩
    cases hcourse.symm.trans hc'
    exact ⟨hverdict, hfault⟩
  · rintro ⟨hverdict, hfault⟩
    exact ⟨c, hcourse, hsize, hverdict, hfault⟩

end Board

namespace CommandLine

/-! ## Arguments -/

/-- Arguments that are options to deny opcodes and nothing else. The tokens are what stands between
the commas of their values, in order. -/
def Denies (arguments tokens : List String) : Prop :=
  ∃ given, Written given arguments ∧ (∀ g ∈ given, g.name = Command.denyForm.name) ∧
    Command.denied given = tokens

theorem denies_nil : Denies [] [] :=
  ⟨[], .nil, fun _ hg => absurd hg List.not_mem_nil, rfl⟩

/-- An option in one argument adds the tokens of its value. -/
theorem Denies.joined {arguments tokens : List String} (h : Denies arguments tokens)
    (value : String) :
    Denies (("--deny=" ++ value) :: arguments)
      ((value.toList.splitOn ',').map String.ofList ++ tokens) := by
  obtain ⟨given, hwritten, hname, rfl⟩ := h
  exact ⟨⟨"deny", value⟩ :: given, .joined "deny" value hwritten,
    List.forall_mem_cons.mpr ⟨rfl, hname⟩, rfl⟩

/-- An option in two arguments adds the tokens of its value. -/
theorem Denies.apart {arguments tokens : List String} (h : Denies arguments tokens)
    {value : String} (hvalue : isValue value = true) :
    Denies ("--deny" :: value :: arguments)
      ((value.toList.splitOn ',').map String.ofList ++ tokens) := by
  obtain ⟨given, hwritten, hname, rfl⟩ := h
  exact ⟨⟨"deny", value⟩ :: given, .apart "deny" value hvalue hwritten,
    List.forall_mem_cons.mpr ⟨rfl, hname⟩, rfl⟩

/-- Any texts without commas are denied, by an option for each of them. -/
theorem denies_of_plain {tokens : List String} (hplain : ∀ token ∈ tokens, ',' ∉ token.toList) :
    Denies (tokens.map ("--deny=" ++ ·)) tokens := by
  induction tokens with
  | nil => exact denies_nil
  | cons token tokens ih =>
    obtain ⟨htoken, hrest⟩ := List.forall_mem_cons.mp hplain
    have hone : token.toList.splitOn ',' = [token.toList] :=
      List.splitOnP_eq_singleton fun c hc => beq_eq_false_iff_ne.mpr fun heq => htoken (heq ▸ hc)
    have hdenies := (ih hrest).joined token
    rw [hone, List.map_singleton, String.ofList_toList, List.singleton_append] at hdenies
    exact hdenies

/-- Both commands that build an allow-list take the option to deny opcodes. -/
theorem takesValue_deny : TakesValue Command.checkForm.options Command.denyForm.name ∧
    TakesValue Command.allowListForm.options Command.denyForm.name :=
  ⟨⟨by decide, by decide, Command.denyForm, rfl, rfl⟩,
    ⟨by decide, by decide, Command.denyForm, rfl, rfl⟩⟩

/-- The command that checks code takes digits for the code and for the allow-list. -/
theorem takesValue_code : TakesValue Command.checkForm.options "code" ∧
    TakesValue Command.checkForm.options "allowed" :=
  ⟨⟨by decide, by decide, _, rfl, rfl⟩, ⟨by decide, by decide, _, rfl, rfl⟩⟩

/-- Digits can be a value. -/
theorem isValue_encode (code : Bytes) : isValue (Hex.encode code) = true := by
  refine isValue_of_ne_dash fun rest heq => ?_
  rw [Hex.encode, String.toList_ofList] at heq
  cases code with
  | nil => cases heq
  | cons b code =>
    have hb : b.toNat < 256 := b.toNat_lt
    have hdigit := (Hex.value?_digit (show b.toNat / 16 < 16 by omega)).2.1
    rw [Hex.digits, List.flatMap_cons, Hex.pair, List.cons_append] at heq
    rw [(List.cons.inj heq).1] at hdigit
    cases hdigit

/-- A set as text can be a value. -/
theorem isValue_render (set : OpcodeSet) : isValue set.render = true := by
  refine isValue_of_ne_dash fun rest heq => ?_
  rw [OpcodeSet.render, String.toList_append] at heq
  exact absurd (List.cons.inj heq).1 (by decide)

/-- The code is accepted before what else is given. -/
theorem acceptAll_code (text : String) (more : List Given) :
    acceptAll Command.checkForm.options [] (⟨"code", text⟩ :: more) =
      acceptAll Command.checkForm.options [⟨"code", text⟩] more := by
  have hcode : accept Command.checkForm.options [] ⟨"code", text⟩ = .ok [⟨"code", text⟩] :=
    accept_eq_ok rfl rfl (.inr rfl) rfl
  rw [acceptAll, List.foldlM_cons, hcode]
  rfl

/-- Code is checked against all opcodes but those to deny. -/
theorem check?_denying (text : String) {given : List Given}
    (hname : ∀ g ∈ given, g.name = Command.denyForm.name) :
    Command.check? (⟨"code", text⟩ :: given) =
      some (.check (some (.digits text)) (.denying (Command.denied given))) := by
  have hfile : value? (⟨"code", text⟩ :: given) "file" = none :=
    congrArg List.head? (valuesOf_eq_nil hname rfl)
  have hallowed : value? (⟨"code", text⟩ :: given) "allowed" = none :=
    congrArg List.head? (valuesOf_eq_nil hname rfl)
  rw [Command.check?, hfile, hallowed]
  rfl

/-! ## Runs -/

/-- What is printed of a code that is checked against an allow-list. -/
def verdictOn (code : Bytes) (set : OpcodeSet) : Printed :=
  { lines := [(scan set code).message], passed := (scan set code).isValid }

section
variable (read : String → Except FileFault Bytes) {environment : Option String}
  (henvironment : environment ≠ some "") {arguments tokens : List String} (code : Bytes)

include henvironment

/-- The program prints an allow-list. -/
theorem run_allowList (hdenies : Denies arguments tokens) :
    run read environment ("allow-list" :: arguments) =
      .of ((setDenying tokens).map fun set => { lines := [set.render] }) := by
  obtain ⟨given, hwritten, hname, rfl⟩ := hdenies
  have hgiven : onlyOptions Command.allowListForm.options arguments = .ok given := by
    rw [hwritten.onlyOptions_eq fun g hg => (hname g hg).symm ▸ takesValue_deny.2]
    exact acceptAll_eq_ok_of_repeats rfl rfl rfl rfl [] hname
  have hform : (Command.allowListForm, Command.allowList?) ∈ Command.all := by
    simp [Command.all]
  have hparse : Request.parse? environment ("allow-list" :: arguments) =
      some (.run ⟨environment, .allowList (Command.denied given)⟩) :=
    parse?_eq_some_run hform henvironment hgiven rfl
  rw [run, hparse]
  show Outcome.of (printAllowList (Command.denied given)) = _
  rw [printAllowList]
  cases setDenying (Command.denied given) <;> rfl

/-- The program checks code against an allow-list. -/
theorem run_check {given : List Given} {allowed : AllowList}
    (hgiven : onlyOptions Command.checkForm.options arguments = .ok given)
    (hread : Command.check? given =
      some (.check (some (.digits (Hex.encode code))) allowed)) :
    run read environment ("check" :: arguments) = .of (allowed.set.map (verdictOn code)) := by
  have hform : (Command.checkForm, Command.check?) ∈ Command.all := by
    simp [Command.all]
  have hparse : Request.parse? environment ("check" :: arguments) =
      some (.run ⟨environment, .check (some (.digits (Hex.encode code))) allowed⟩) :=
    parse?_eq_some_run hform henvironment hgiven hread
  have hcode : CodeSource.code read (.digits (Hex.encode code)) = .ok code := by
    rw [CodeSource.code, bytesOf, Hex.encode, String.toList_ofList, Hex.withoutMarker_digits,
      Hex.decode_digits]
    rfl
  rw [run, hparse]
  show Outcome.of (printVerdict read (some (.digits (Hex.encode code))) allowed) = _
  simp only [printVerdict, hcode]
  cases allowed.set <;> rfl

/-- The program checks code against all opcodes but those to deny. -/
theorem run_check_denying (hdenies : Denies arguments tokens) :
    run read environment ("check" :: "--code" :: Hex.encode code :: arguments) =
      .of ((setDenying tokens).map (verdictOn code)) := by
  obtain ⟨given, hwritten, hname, rfl⟩ := hdenies
  have hall : Written (⟨"code", Hex.encode code⟩ :: given)
      ("--code" :: Hex.encode code :: arguments) := .apart "code" _ (isValue_encode code) hwritten
  have htakes : ∀ g ∈ (⟨"code", Hex.encode code⟩ :: given : List Given),
      TakesValue Command.checkForm.options g.name :=
    List.forall_mem_cons.mpr
      ⟨takesValue_code.1, fun g hg => (hname g hg).symm ▸ takesValue_deny.1⟩
  have hgiven : onlyOptions Command.checkForm.options ("--code" :: Hex.encode code :: arguments) =
      .ok (⟨"code", Hex.encode code⟩ :: given) := by
    rw [hall.onlyOptions_eq htakes, acceptAll_code]
    exact acceptAll_eq_ok_of_repeats rfl rfl rfl rfl _ hname
  exact run_check read henvironment code hgiven (check?_denying _ hname)

/-- The program checks code against a set as text. -/
theorem run_check_render (set : OpcodeSet) :
    run read environment ["check", "--code", Hex.encode code, "--allowed", set.render] =
      .of (.ok (verdictOn code set)) := by
  have hwritten : Written [⟨"code", Hex.encode code⟩, ⟨"allowed", set.render⟩]
      ["--code", Hex.encode code, "--allowed", set.render] :=
    .apart "code" _ (isValue_encode code) (.apart "allowed" _ (isValue_render set) .nil)
  have htakes : ∀ g ∈ ([⟨"code", Hex.encode code⟩, ⟨"allowed", set.render⟩] : List Given),
      TakesValue Command.checkForm.options g.name :=
    List.forall_mem_cons.mpr ⟨takesValue_code.1, List.forall_mem_singleton.mpr takesValue_code.2⟩
  have hallowed : accept Command.checkForm.options [⟨"code", Hex.encode code⟩]
      ⟨"allowed", set.render⟩ =
        .ok [⟨"code", Hex.encode code⟩, ⟨"allowed", set.render⟩] :=
    accept_eq_ok rfl rfl (.inr rfl) rfl
  have hgiven : onlyOptions Command.checkForm.options
      ["--code", Hex.encode code, "--allowed", set.render] =
        .ok [⟨"code", Hex.encode code⟩, ⟨"allowed", set.render⟩] := by
    rw [hwritten.onlyOptions_eq htakes, acceptAll_code, acceptAll, List.foldlM_cons, hallowed]
    rfl
  have hset : (AllowList.digits set.render).set = .ok set := by
    rw [AllowList.set, OpcodeSet.parse_render]
    rfl
  rw [run_check read henvironment code hgiven rfl, hset]
  rfl

end

/-! ## Agreement -/

/-- A line is what it says with its end. -/
theorem outcome_of_line (line : String) (passed : Bool) :
    Outcome.of (.ok { lines := [line], passed }) = ⟨if passed then 0 else 1, line ++ "\n", ""⟩ := by
  rw [Outcome.of, List.map_singleton, String.join, List.foldl_cons, List.foldl_nil,
    String.empty_append]

/-- **A check away from the board agrees with the board.** Let code be checked under opcodes to
deny, in whatever way the options are written, and let an allow-list be printed for the same
options; the variable for the file with the settings may be unset or name any file, but an empty
one has the program refuse all arguments. Then

* if one of the tokens spells no opcode, the check fails as the allow-list does: both report the
  same and print nothing;
* if each token spells an opcode, the allow-list is printed of the set of the opcodes that none of
  them spells. The check prints the verdict of the scan under this set and succeeds exactly if the
  code is valid, and a check under the line that was printed comes to the same. A board with the
  standard validator and no limit rejects the code for its code, on a course with this set as its
  allow-list, exactly if the check ends with status one, and the verdict that it gives is the one
  that the check prints. -/
theorem offline_check_agrees (read : String → Except FileFault Bytes) {environment : Option String}
    (henvironment : environment ≠ some "") (code : Bytes) {arguments tokens : List String}
    (hdenies : Denies arguments tokens) :
    let check := run read environment ("check" :: "--code" :: Hex.encode code :: arguments)
    let list := run read environment ("allow-list" :: arguments)
    ((∃ token ∈ tokens, ∀ opcode, ¬SpellsOpcode token opcode) →
      check = list ∧ check.status = 1 ∧ check.output = "") ∧
    ((∀ token ∈ tokens, ∃ opcode, SpellsOpcode token opcode) →
      ∃ set : OpcodeSet,
        (∀ opcode, opcode ∈ set ↔ ∀ token ∈ tokens, ¬SpellsOpcode token opcode) ∧
        list = ⟨0, set.render ++ "\n", ""⟩ ∧
        check = ⟨if (scan set code).isValid then 0 else 1, (scan set code).message ++ "\n", ""⟩ ∧
        run read environment ["check", "--code", Hex.encode code, "--allowed", set.render] =
          check ∧
        ∀ (b : Board) id c, b.validator = .pushAware → b.config.maxSolutionBytes = none →
          b.registry.find? id = some c → c.record.allowed = set →
          ∀ now caller recipient verdict,
            (b.step now (.submit caller id code recipient)).answer =
                .error (.invalidSolution id verdict) ↔
              check.status = 1 ∧ verdict = scan set code) := by
  intro check list
  have hcheck : check = .of ((setDenying tokens).map (verdictOn code)) :=
    run_check_denying read henvironment code hdenies
  have hlist : list = .of ((setDenying tokens).map fun set => { lines := [set.render] }) :=
    run_allowList read henvironment hdenies
  refine ⟨fun hbad => ?_, fun hgood => ?_⟩
  · obtain ⟨token, htoken, hnone⟩ := hbad
    cases hset : setDenying tokens with
    | error failure =>
      rw [hset] at hcheck hlist
      exact ⟨hcheck.trans hlist.symm, congrArg Outcome.status hcheck,
        congrArg Outcome.output hcheck⟩
    | ok set =>
      obtain ⟨opcode, hspells⟩ := (setDenying_eq_ok_iff.mp hset).1 token htoken
      exact absurd hspells (hnone opcode)
  · obtain ⟨opcodes, hopcodes⟩ := exists_opcodesOf_eq_ok_iff.mpr hgood
    have hset : setDenying tokens = .ok (.allExcept opcodes) := by
      rw [setDenying, hopcodes]
    generalize OpcodeSet.allExcept opcodes = set at hset
    have hverdict : check = .of (.ok (verdictOn code set)) := by
      rw [hcheck, hset]
      rfl
    have hprinted : check = ⟨if (scan set code).isValid then 0 else 1,
        (scan set code).message ++ "\n", ""⟩ := hverdict.trans (outcome_of_line ..)
    refine ⟨set, (setDenying_eq_ok_iff.mp hset).2, ?_, hprinted,
      (run_check_render read henvironment code set).trans hverdict.symm, ?_⟩
    · rw [hlist, hset]
      exact outcome_of_line ..
    · intro b id c hvalidator hlimit hcourse hallowed now caller recipient verdict
      have hstatus : check.status = 1 ↔ (scan set code).isValid = false := by
        rw [hprinted]
        show (if (scan set code).isValid then 0 else 1) = 1 ↔ _
        cases (scan set code).isValid <;> decide
      rw [Board.submit_eq_invalidSolution_iff_of_standard hvalidator hlimit hcourse, hallowed,
        hstatus]
      constructor
      · rintro ⟨rfl, hfault⟩
        exact ⟨hfault, rfl⟩
      · rintro ⟨hfault, rfl⟩
        exact ⟨rfl, hfault⟩

/-- Three opcodes are denied by two options, with a comma, a marker, a sign and blanks. The byte
that a push takes may be one of them, and the same byte behind it is the fault, for both checks and
for a board with a course under the set. A number that is too large spells no opcode. -/
theorem offline_check_agrees_of_three_tokens :
    let program := run (fun _ => .error .notFound) none
    let denials := ["--deny=55,0xF0", "--deny", " +5f "]
    let set := OpcodeSet.allExcept [0x55, 0xf0, 0x5f]
    let b := (Board.new {} (.owner Sample.root)).after
      [(0, .addCourse Sample.root Sample.shortest set)]
    Denies denials ["55", "0xF0", " +5f "] ∧
    program ("check" :: "--code" :: Hex.encode [0x60, 0x55, 0x55] :: denials) =
      ⟨1, "disallowed opcode 0x55 at offset 2\n", ""⟩ ∧
    program ("allow-list" :: denials) = ⟨0, set.render ++ "\n", ""⟩ ∧
    program ["check", "--code", Hex.encode [0x60, 0x55, 0x55], "--allowed", set.render] =
      ⟨1, "disallowed opcode 0x55 at offset 2\n", ""⟩ ∧
    (b.step 1 (.submit Sample.alice ⟨1⟩ [0x60, 0x55, 0x55] none)).answer =
      .error (.invalidSolution ⟨1⟩ (.disallowed 2 0x55)) ∧
    Denies ["--deny=100"] ["100"] ∧
    program ["check", "--code", Hex.encode [0x60, 0x55, 0x55], "--deny=100"] =
      program ["allow-list", "--deny=100"] := by
  intro program denials set b
  have hdenies : Denies denials ["55", "0xF0", " +5f "] :=
    (denies_nil.apart (show isValue " +5f " = true by decide)).joined "55,0xF0"
  have hlarge : Denies (["100"].map ("--deny=" ++ ·)) ["100"] :=
    denies_of_plain (List.forall_mem_singleton.mpr (by decide))
  have hset : setDenying ["55", "0xF0", " +5f "] = .ok set := rfl
  obtain ⟨hspelled, hmembers⟩ := setDenying_eq_ok_iff.mp hset
  have hscan : scan set [0x60, 0x55, 0x55] = .disallowed 2 0x55 := by decide +kernel
  have hagrees := offline_check_agrees (fun _ => .error .notFound)
    (Option.some_ne_none "").symm [0x60, 0x55, 0x55] hdenies
  obtain ⟨set', hset', hlist, hcheck, hprinted, hboard⟩ := hagrees.2 hspelled
  obtain rfl : set' = set :=
    OpcodeSet.ext_mem fun opcode => (hset' opcode).trans (hmembers opcode).symm
  rw [hscan] at hcheck
  refine ⟨hdenies, hcheck, hlist, hprinted.trans hcheck, ?_, hlarge, ?_⟩
  · refine (hboard b ⟨1⟩ _ rfl rfl rfl rfl 1 Sample.alice none (.disallowed 2 0x55)).mpr ?_
    exact ⟨congrArg Outcome.status hcheck, hscan.symm⟩
  · have hnone : ∀ opcode, ¬SpellsOpcode "100" opcode := fun opcode hspells => by
      have hread : opcodeOf "100" = .ok opcode := opcodeOf_eq_ok_iff.mpr hspells
      cases hread
    exact ((offline_check_agrees (fun _ => .error .notFound) (Option.some_ne_none "").symm
      [0x60, 0x55, 0x55] hlarge).1 ⟨"100", List.mem_singleton_self "100", hnone⟩).1

end CommandLine

end CodeGolf
