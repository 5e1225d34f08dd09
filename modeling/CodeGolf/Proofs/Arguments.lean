import Mathlib.Data.List.TakeWhile
import CodeGolf.CommandLine.Run

/-!
# Arguments that are options with values

An option with a value can be written as one argument or as two. `Written` says how, and
`onlyOptions_eq_of_written` that it makes no difference to a command: what the command gets to see
are the options in their order, each accepted or not in its turn.

The proof follows the way the options are written. Behind an option in two arguments, the reader has
not looked at the option yet when it goes on, so the options are those already looked at, the one
that waits, and those that are written in the rest.

For a command without options in front of it, the options of the command are all that has to be read
(`parse?_eq_of_command`).
-/

namespace CodeGolf.CommandLine

/-- Options with values, and arguments that they can be written as: each option as one argument,
with an equals sign, or as two, if the second is not taken for an option. -/
inductive Written : List Given → List String → Prop where
  | nil : Written [] []
  | joined {given : List Given} {arguments : List String} (name value : String) :
    Written given arguments →
    Written (⟨name, value⟩ :: given) (("--" ++ name ++ "=" ++ value) :: arguments)
  | apart {given : List Given} {arguments : List String} (name value : String) :
    isValue value = true → Written given arguments →
    Written (⟨name, value⟩ :: given) (("--" ++ name) :: value :: arguments)

/-- A command takes an option with a value under a name. -/
structure TakesValue (forms : List OptionForm) (name : String) : Prop where
  nonempty : name.toList ≠ []
  plain : '=' ∉ name.toList
  taken : ∃ form, (forms.find? fun form => form.name == name) = some form ∧ form.hasValue = true

variable {forms : List OptionForm} {name : String} {given : List Given} {arguments : List String}

/-- A name is read up to its end. -/
theorem TakesValue.ne_equals (h : TakesValue forms name) :
    ∀ c ∈ name.toList, (c != '=') = true :=
  fun _ hc => bne_iff_ne.mpr fun heq => h.plain (heq ▸ hc)

/-! ## One argument -/

/-- A text that no dash stands in front of can be a value. -/
theorem isValue_of_ne_dash {argument : String} (h : ∀ rest, argument.toList ≠ '-' :: rest) :
    isValue argument = true := by
  unfold isValue
  split
  · next heq => exact absurd heq (h _)
  · rfl

/-- An argument with two dashes in front is an option with a long name. -/
theorem classify_long {argument : String} {text : List Char}
    (h : argument.toList = '-' :: '-' :: text) (htext : text ≠ []) :
    classify forms argument =
      .options (ofLongName forms text).1 (ofLongName forms text).2 := by
  cases text with
  | nil => exact absurd rfl htext
  | cons c text =>
    rw [classify, h]
    rfl

/-- An option with its value behind an equals sign is complete. -/
theorem TakesValue.classify_joined (h : TakesValue forms name) (value : String) :
    classify forms ("--" ++ name ++ "=" ++ value) = .options [⟨name, value⟩] .complete := by
  obtain ⟨form, hform, hvalue⟩ := h.taken
  have htext : ("--" ++ name ++ "=" ++ value).toList =
      '-' :: '-' :: (name.toList ++ '=' :: value.toList) := by
    simp
  have htake : (name.toList ++ '=' :: value.toList).takeWhile (· != '=') = name.toList := by
    rw [List.takeWhile_append_of_pos h.ne_equals]
    simp
  have hdrop : (name.toList ++ '=' :: value.toList).dropWhile (· != '=') = '=' :: value.toList := by
    rw [List.dropWhile_append_of_pos h.ne_equals]
    simp
  rw [classify_long htext (by simp)]
  simp only [ofLongName, htake, hdrop, String.ofList_toList, hform, hvalue, if_true]

/-- An option without an equals sign has its value in the next argument. -/
theorem TakesValue.classify_apart (h : TakesValue forms name) :
    classify forms ("--" ++ name) = .options [] (.pending name) := by
  obtain ⟨form, hform, hvalue⟩ := h.taken
  have htext : ("--" ++ name).toList = '-' :: '-' :: name.toList := by
    simp
  have htake : name.toList.takeWhile (· != '=') = name.toList :=
    List.takeWhile_eq_self_iff.mpr h.ne_equals
  have hdrop : name.toList.dropWhile (· != '=') = [] := List.dropWhile_eq_nil_iff.mpr h.ne_equals
  rw [classify_long htext h.nonempty]
  simp only [ofLongName, htake, hdrop, String.ofList_toList, hform, hvalue, if_true]

/-! ## All arguments -/

/-- Options are accepted in two parts. -/
theorem acceptAll_append (forms : List OptionForm) (given more rest : List Given) :
    acceptAll forms given (more ++ rest) =
      acceptAll forms given more >>= fun given => acceptAll forms given rest := by
  rw [acceptAll, List.foldlM_append]
  rfl

/-- Whether the form for help is listed makes no difference to what is accepted. -/
theorem accept_append_helpForm (forms : List OptionForm) :
    accept (forms ++ [helpForm]) = accept forms := by
  funext given more
  unfold accept
  split
  · rfl
  · next hhelp =>
    have hfind : (forms ++ [helpForm]).find? (fun form => form.name == more.name) =
        forms.find? fun form => form.name == more.name := by
      have hne : (helpForm.name == more.name) = false :=
        beq_eq_false_iff_ne.mpr fun heq => hhelp (beq_iff_eq.mpr heq.symm)
      rw [List.find?_append, List.find?_singleton, hne]
      exact Option.or_none
    rw [hfind]

/-- An option with an equals sign is looked at at once, after the one that waits. -/
theorem openingFrom_joined (h : TakesValue forms name) (done : List Given) (waiting : Option Given)
    (value : String) (rest : List String) :
    openingFrom forms done waiting (("--" ++ name ++ "=" ++ value) :: rest) =
      acceptAll forms done (waiting.toList ++ [⟨name, value⟩]) >>= fun done =>
        openingFrom forms done none rest := by
  rw [openingFrom, h.classify_joined]
  dsimp only
  cases acceptAll forms done (waiting.toList ++ [⟨name, value⟩]) <;> rfl

/-- An option with its value in the next argument waits. -/
theorem openingFrom_apart (h : TakesValue forms name) (done : List Given) (waiting : Option Given)
    {value : String} (hvalue : isValue value = true) (rest : List String) :
    openingFrom forms done waiting (("--" ++ name) :: value :: rest) =
      acceptAll forms done waiting.toList >>= fun done =>
        openingFrom forms done (some ⟨name, value⟩) rest := by
  rw [openingFrom, h.classify_apart]
  simp only [List.append_nil, if_pos hvalue]
  cases acceptAll forms done waiting.toList <;> rfl

/-- All options of an opening, if nothing follows them. -/
def Opening.close (forms : List OptionForm) (o : Opening) : Except Stop (List Given) :=
  if o.words.isEmpty then o.settle forms else .error .refused

/-- Options that are written are read, behind those that were looked at and one that waits. -/
theorem Written.openingFrom_bind_close (h : Written given arguments)
    (htakes : ∀ g ∈ given, TakesValue forms g.name) (done : List Given) (waiting : Option Given) :
    openingFrom forms done waiting arguments >>= Opening.close forms =
      acceptAll forms done (waiting.toList ++ given) := by
  induction h generalizing done waiting with
  | nil =>
    rw [openingFrom, List.append_nil]
    rfl
  | @joined given arguments name value _ ih =>
    obtain ⟨htaken, hrest⟩ := List.forall_mem_cons.mp htakes
    calc openingFrom forms done waiting (("--" ++ name ++ "=" ++ value) :: arguments) >>=
          Opening.close forms
        = acceptAll forms done (waiting.toList ++ [⟨name, value⟩]) >>= fun done =>
            openingFrom forms done none arguments >>= Opening.close forms := by
          rw [openingFrom_joined htaken, bind_assoc]
      _ = acceptAll forms done (waiting.toList ++ [⟨name, value⟩]) >>= fun done =>
            acceptAll forms done given := bind_congr fun done => ih hrest done none
      _ = acceptAll forms done (waiting.toList ++ ⟨name, value⟩ :: given) := by
          rw [← acceptAll_append, List.append_assoc, List.singleton_append]
  | @apart given arguments name value hvalue _ ih =>
    obtain ⟨htaken, hrest⟩ := List.forall_mem_cons.mp htakes
    calc openingFrom forms done waiting (("--" ++ name) :: value :: arguments) >>=
          Opening.close forms
        = acceptAll forms done waiting.toList >>= fun done =>
            openingFrom forms done (some ⟨name, value⟩) arguments >>= Opening.close forms := by
          rw [openingFrom_apart htaken done waiting hvalue, bind_assoc]
      _ = acceptAll forms done waiting.toList >>= fun done =>
            acceptAll forms done (⟨name, value⟩ :: given) :=
          bind_congr fun done => ih hrest done (some ⟨name, value⟩)
      _ = acceptAll forms done (waiting.toList ++ ⟨name, value⟩ :: given) :=
          (acceptAll_append ..).symm

/-- **Arguments that options are written as** are read as the options, in their order. -/
theorem Written.onlyOptions_eq (h : Written given arguments)
    (htakes : ∀ g ∈ given, TakesValue forms g.name) :
    onlyOptions forms arguments = acceptAll forms [] given := by
  have hclose : onlyOptions forms arguments =
      opening forms arguments >>= Opening.close (forms ++ [helpForm]) := by
    have hsame : Opening.close (forms ++ [helpForm]) = Opening.close forms := by
      funext o
      rw [Opening.close, Opening.settle, acceptAll, accept_append_helpForm]
      rfl
    rw [hsame]
    rfl
  have hlisted : ∀ g ∈ given, TakesValue (forms ++ [helpForm]) g.name := by
    intro g hg
    obtain ⟨form, hform, hvalue⟩ := (htakes g hg).taken
    refine ⟨(htakes g hg).nonempty, (htakes g hg).plain, form, ?_, hvalue⟩
    rw [List.find?_append, hform, Option.some_or]
  rw [hclose, opening, h.openingFrom_bind_close hlisted, acceptAll, accept_append_helpForm]
  rfl

/-! ## What is accepted -/

/-- An option is accepted if it is not the request for help, the command takes it, it was not given
before or may be repeated, and its value may be empty. -/
theorem accept_eq_ok {form : OptionForm} {more : Given}
    (hhelp : (more.name == helpForm.name) = false)
    (hform : (forms.find? fun form => form.name == more.name) = some form)
    (hfresh : form.repeats = true ∨ (given.any fun g => g.name == more.name) = false)
    (hempty : form.allowsEmpty = true) : accept forms given more = .ok (given ++ [more]) := by
  have honce : (!form.repeats && given.any fun g => g.name == more.name) = false := by
    rcases hfresh with h | h
    · rw [h, Bool.not_true, Bool.false_and]
    · rw [h, Bool.and_false]
  simp only [accept, hhelp, hform, honce, hempty, Bool.not_true, Bool.and_false, Bool.false_and,
    Bool.false_eq_true, if_false]

/-- An option that may be repeated is accepted again and again. -/
theorem acceptAll_eq_ok_of_repeats {form : OptionForm}
    (hhelp : (form.name == helpForm.name) = false)
    (hform : (forms.find? fun f => f.name == form.name) = some form)
    (hrepeats : form.repeats = true) (hempty : form.allowsEmpty = true) (given : List Given)
    {more : List Given} (hmore : ∀ g ∈ more, g.name = form.name) :
    acceptAll forms given more = .ok (given ++ more) := by
  induction more generalizing given with
  | nil =>
    rw [List.append_nil]
    rfl
  | cons g more ih =>
    obtain ⟨hg, hmore⟩ := List.forall_mem_cons.mp hmore
    have hfirst : accept forms given g = .ok (given ++ [g]) :=
      accept_eq_ok (hg ▸ hhelp) (hg ▸ hform) (.inl hrepeats) hempty
    rw [acceptAll, List.foldlM_cons, hfirst]
    show acceptAll forms (given ++ [g]) more = _
    rw [ih _ hmore, List.append_assoc, List.singleton_append]

/-- An option that was not given has no values. -/
theorem valuesOf_eq_nil {other : String}
    (hgiven : ∀ g ∈ given, g.name = name) (hne : (name == other) = false) :
    valuesOf given other = [] := by
  have hnone : given.filter (fun g => g.name == other) = [] :=
    List.filter_eq_nil_iff.mpr fun g hg => by
      rw [hgiven g hg, hne]
      exact Bool.noConfusion
  rw [valuesOf, hnone, List.map_nil]

/-! ## Requests -/

/-- The name of a command is a word, is not the name of the command for help, and is the name of no
other command. -/
theorem Command.named_of_mem_all {form : CommandForm} {read? : List Given → Option Command}
    (h : (form, read?) ∈ Command.all) :
    (∀ forms, classify forms form.name = .word) ∧ (form.name == Request.helpName) = false ∧
      Command.all.find? (fun entry => entry.1.name == form.name) = some (form, read?) := by
  simp only [Command.all, List.mem_cons, List.not_mem_nil, or_false, Prod.mk.injEq] at h
  rcases h with ⟨rfl, rfl⟩ | ⟨rfl, rfl⟩ | ⟨rfl, rfl⟩ | ⟨rfl, rfl⟩ | ⟨rfl, rfl⟩ <;>
    exact ⟨fun _ => rfl, rfl, rfl⟩

/-- **A command with its options** is what the program is asked for, if no options stand in front of
the command and the variable for the file with the settings is not empty. -/
theorem parse?_eq_some_run {form : CommandForm} {read? : List Given → Option Command}
    (hform : (form, read?) ∈ Command.all) {environment : Option String}
    (henvironment : environment ≠ some "")
    (hgiven : onlyOptions form.options arguments = .ok given) {command : Command}
    (hread : read? given = some command) :
    Request.parse? environment (form.name :: arguments) = some (.run ⟨environment, command⟩) := by
  obtain ⟨hword, hhelp, hfind⟩ := Command.named_of_mem_all hform
  have hopening : opening (Request.globalForms environment) (form.name :: arguments) =
      .ok ⟨[], none, form.name :: arguments⟩ := by
    rw [opening, openingFrom, hword]
  have hcommand : Request.ofCommand form.name arguments = .ok (.inl command) := by
    unfold Request.ofCommand
    rw [hfind]
    simp only [hgiven, hread]
  have hsettle : Opening.settle (Request.globalForms environment)
      ⟨[], none, form.name :: arguments⟩ = .ok [] := rfl
  have hconfig : value? [] "config" = none := rfl
  simp only [Request.parse?, hopening, hhelp, hcommand, hsettle, hconfig, Bool.false_eq_true,
    if_false]
  split
  · exact absurd rfl henvironment
  · rfl

end CodeGolf.CommandLine
