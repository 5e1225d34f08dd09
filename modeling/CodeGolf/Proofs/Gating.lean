import CodeGolf.Proofs.CommitReveal

/-!
# When a key may be revealed

The ledger answers whether a key may be revealed, and the answer is a matter of what was done with
this key: of its first commit, and of whether the key was marked as revealed after it. Commits of a
key that is taken are refused, marks of a key that was not committed find nothing, and calls about
other keys pass by. `Ledger.Call.onKey` says so of one call, and a run of calls is the fold of it
(`Ledger.find?_after`).

Ages are differences of words that stop at zero. They are compared as numbers here, so nothing is
said about a sum of a time and an age, which need not be a word (`Ledger.eligible_eq_tooNew_iff`).
-/

namespace CodeGolf

namespace Ledger

/-! ## Calls as data -/

/-- A call that may change a ledger. -/
inductive Call where
  | commit (key : Digest) (player : Player) (now : Time)
  | markRevealed (key : Digest) (now : Time)

namespace Call

/-- The key that a call is about. -/
def key : Call → Digest
  | .commit key _ _ => key
  | .markRevealed key _ => key

/-- Whether a call commits a key. -/
def commits (key : Digest) : Call → Bool
  | .commit key' _ _ => key' == key
  | .markRevealed _ _ => false

/-- Whether a call marks a key as revealed. -/
def marks (key : Digest) : Call → Bool
  | .commit _ _ _ => false
  | .markRevealed key' _ => key' == key

/-- What a call makes of the commitment of a key: a first commit makes one, and a mark stays on one
that is there. -/
def onKey (key : Digest) (c? : Option Commitment) : Call → Option Commitment
  | .commit key' player now => if key' = key then c?.or (some ⟨player, now, none⟩) else c?
  | .markRevealed key' now => if key' = key then c?.map (·.revealed now) else c?

end Call

/-- The ledger that a call leaves, refused or not. -/
def perform (l : Ledger) : Call → Ledger
  | .commit key player now => stateAfter (commit key player now) l
  | .markRevealed key now => stateAfter (markRevealed key now) l

/-- The ledger after calls made one after the other. -/
def after (l : Ledger) (calls : List Call) : Ledger := calls.foldl perform l

/-- The later calls are made on the ledger that the first ones leave. -/
theorem after_append (l : Ledger) (first rest : List Call) :
    l.after (first ++ rest) = (l.after first).after rest := List.foldl_append

variable {l : Ledger} {key : Digest} {now : Time} {c : Commitment}

/-! ## The commitment of one key -/

/-- A commit of a key that is taken writes nothing. -/
theorem perform_commit (l : Ledger) (key : Digest) (player : Player) (now : Time) :
    l.perform (.commit key player now) =
      if (l.find? key).isSome then l else l.insert key ⟨player, now, none⟩ := by
  rw [perform, stateAfter, run_commit]
  cases (l.find? key).isSome <;> rfl

/-- A mark of a key that was not committed writes nothing. -/
theorem perform_markRevealed (l : Ledger) (key : Digest) (now : Time) :
    l.perform (.markRevealed key now) =
      match l.find? key with
      | none => l
      | some c => l.insert key (c.revealed now) := by
  rw [perform, stateAfter, run_markRevealed]
  cases l.find? key <;> rfl

/-- **One call acts on the commitment of its own key.** -/
theorem find?_perform (l : Ledger) (call : Call) (key : Digest) :
    (l.perform call).find? key = call.onKey key (l.find? key) := by
  cases call with
  | commit key' player now =>
    rw [perform_commit, Call.onKey]
    by_cases h : key' = key
    · subst h
      rw [if_pos rfl]
      cases hc : l.find? key' with
      | none => exact (find?_insert ..).trans (if_pos rfl)
      | some c => exact hc
    · rw [if_neg h]
      split
      · rfl
      · rw [find?_insert, if_neg h]
  | markRevealed key' now =>
    rw [perform_markRevealed, Call.onKey]
    by_cases h : key' = key
    · subst h
      rw [if_pos rfl]
      cases hc : l.find? key' with
      | none => exact hc
      | some c => exact (find?_insert ..).trans (if_pos rfl)
    · rw [if_neg h]
      split
      · rfl
      · rw [find?_insert, if_neg h]

/-- A call leaves the rules of the ledger as they are. -/
theorem rules_perform (l : Ledger) (call : Call) :
    (l.perform call).minAge = l.minAge ∧ (l.perform call).singleUse = l.singleUse := by
  cases call with
  | commit key player now =>
    rw [perform_commit]
    cases (l.find? key).isSome <;> exact ⟨rfl, rfl⟩
  | markRevealed key now =>
    rw [perform_markRevealed]
    cases l.find? key <;> exact ⟨rfl, rfl⟩

/-- Calls act on the commitment of a key one after the other. -/
theorem find?_after (l : Ledger) (calls : List Call) (key : Digest) :
    (l.after calls).find? key = calls.foldl (Call.onKey key) (l.find? key) := by
  induction calls generalizing l with
  | nil => rfl
  | cons call rest ih =>
    rw [List.foldl_cons, ← find?_perform]
    exact ih (l.perform call)

/-- Calls leave the rules of the ledger as they are. -/
theorem rules_after (l : Ledger) (calls : List Call) :
    (l.after calls).minAge = l.minAge ∧ (l.after calls).singleUse = l.singleUse := by
  induction calls generalizing l with
  | nil => exact ⟨rfl, rfl⟩
  | cons call rest ih =>
    obtain ⟨hage, hsingle⟩ := ih (l.perform call)
    obtain ⟨hage', hsingle'⟩ := l.rules_perform call
    exact ⟨hage.trans hage', hsingle.trans hsingle'⟩

/-! ## The history of one key -/

/-- A call about another key leaves the commitment of a key as it is. -/
theorem Call.onKey_of_ne {call : Call} (h : call.key ≠ key) (c? : Option Commitment) :
    call.onKey key c? = c? := by
  cases call with
  | commit => exact if_neg h
  | markRevealed => exact if_neg h

/-- A call that does not commit a key makes no commitment of it. -/
theorem Call.onKey_none {call : Call} (h : call.commits key = false) :
    call.onKey key none = none := by
  cases call with
  | commit => exact if_neg (by simpa [commits] using h)
  | markRevealed key' now => exact ite_self none

/-- A commitment that is there stays with its player and its time, and a mark of its key reveals
it. -/
theorem Call.onKey_some (call : Call) (key : Digest) (c : Commitment) :
    ∃ c', call.onKey key (some c) = some c' ∧ c'.player = c.player ∧
      c'.committedAt = c.committedAt ∧ c'.isRevealed = (c.isRevealed || call.marks key) := by
  cases call with
  | commit =>
    refine ⟨c, ?_, rfl, rfl, by rw [marks, Bool.or_false]⟩
    rw [onKey, Option.some_or, ite_self]
  | markRevealed key' now =>
    by_cases h : key' = key
    · refine ⟨c.revealed now, if_pos h, rfl, rfl, ?_⟩
      simp [Commitment.isRevealed, Commitment.revealed, marks, h]
    · exact ⟨c, if_neg h, rfl, rfl, by simp [marks, h]⟩

/-- Calls that do not commit a key make no commitment of it. -/
theorem foldl_onKey_none {calls : List Call} (h : ∀ call ∈ calls, call.commits key = false) :
    calls.foldl (Call.onKey key) none = none := by
  induction calls with
  | nil => rfl
  | cons call rest ih =>
    obtain ⟨hcall, hrest⟩ := List.forall_mem_cons.mp h
    rw [List.foldl_cons, Call.onKey_none hcall, ih hrest]

/-- A commitment that is there stays with its player and its time, and is revealed once its key was
marked. -/
theorem foldl_onKey_some (calls : List Call) (key : Digest) (c : Commitment) :
    ∃ c', calls.foldl (Call.onKey key) (some c) = some c' ∧ c'.player = c.player ∧
      c'.committedAt = c.committedAt ∧
      c'.isRevealed = (c.isRevealed || calls.any (Call.marks key)) := by
  induction calls generalizing c with
  | nil => exact ⟨c, rfl, rfl, rfl, (Bool.or_false _).symm⟩
  | cons call rest ih =>
    obtain ⟨c₁, hc₁, hplayer₁, hmade₁, hrevealed₁⟩ := call.onKey_some key c
    obtain ⟨c', hc', hplayer, hmade, hrevealed⟩ := ih c₁
    refine ⟨c', ?_, hplayer.trans hplayer₁, hmade.trans hmade₁, ?_⟩
    · rw [List.foldl_cons, hc₁, hc']
    · rw [hrevealed, hrevealed₁, List.any_cons, Bool.or_assoc]

/-- Calls about other keys leave the commitment of a key as it is. -/
theorem foldl_onKey_filter (calls : List Call) (key : Digest) (c? : Option Commitment) :
    (calls.filter (·.key == key)).foldl (Call.onKey key) c? =
      calls.foldl (Call.onKey key) c? := by
  induction calls generalizing c? with
  | nil => rfl
  | cons call rest ih =>
    by_cases h : call.key = key
    · rw [List.filter_cons_of_pos (by simpa using h), List.foldl_cons, List.foldl_cons, ih]
    · rw [List.filter_cons_of_neg (by simpa using h), List.foldl_cons, Call.onKey_of_ne h, ih]

/-- A key is free after calls exactly if none of them commits it. -/
theorem find?_after_eq_none_iff (hl : l.find? key = none) {calls : List Call} :
    (l.after calls).find? key = none ↔ ∀ call ∈ calls, call.commits key = false := by
  rw [find?_after, hl]
  refine ⟨fun h => ?_, foldl_onKey_none⟩
  induction calls with
  | nil => exact nofun
  | cons call rest ih =>
    rw [List.foldl_cons] at h
    cases hcommits : call.commits key with
    | false =>
      rw [Call.onKey_none hcommits] at h
      exact List.forall_mem_cons.mpr ⟨hcommits, ih h⟩
    | true =>
      -- From the first commit on there is a commitment.
      cases call with
      | markRevealed => cases hcommits
      | commit key' player now =>
        have heq : key' = key := by simpa [Call.commits] using hcommits
        obtain ⟨c', hc', -⟩ := foldl_onKey_some rest key ⟨player, now, none⟩
        rw [Call.onKey, if_pos heq, Option.none_or, hc'] at h
        cases h

/-- **The commitment of a key** is the one that its first commit made, and it is revealed if the key
was marked after that. -/
theorem exists_find?_after (hl : l.find? key = none) {before : List Call}
    (hbefore : ∀ call ∈ before, call.commits key = false) (player : Player) (made : Time)
    (later : List Call) :
    ∃ c, (l.after (before ++ .commit key player made :: later)).find? key = some c ∧
      c.player = player ∧ c.committedAt = made ∧ c.isRevealed = later.any (Call.marks key) := by
  obtain ⟨c, hc, hplayer, hmade, hrevealed⟩ := foldl_onKey_some later key ⟨player, made, none⟩
  refine ⟨c, ?_, hplayer, hmade, hrevealed⟩
  rw [find?_after, hl, List.foldl_append, foldl_onKey_none hbefore, List.foldl_cons, Call.onKey,
    if_pos rfl, Option.none_or, hc]

/-! ## The answer of the ledger -/

/-- The answer about a key depends on its commitment and on the rules. -/
theorem eligible_congr {l' : Ledger} (hage : l.minAge = l'.minAge)
    (hsingle : l.singleUse = l'.singleUse) (hfind : l.find? key = l'.find? key) (now : Time) :
    l.eligible key now = l'.eligible key now := by
  rw [eligible, eligible, hage, hsingle, hfind]

/-- A key is refused as not committed exactly if it has no commitment. -/
theorem eligible_eq_notCommitted_iff :
    l.eligible key now = .error (.notCommitted key) ↔ l.find? key = none := by
  cases hc : l.find? key with
  | none => simp [eligible, hc]
  | some c =>
    simp only [eligible, hc]
    refine iff_of_false (fun h => ?_) (Option.some_ne_none c)
    split at h
    · cases h
    · split at h <;> cases h

/-- A commitment is too new exactly if its age is below the least one, and the rest of the time is
the difference. -/
theorem eligible_eq_tooNew_iff (hc : l.find? key = some c) {remaining : UInt64} :
    l.eligible key now = .error (.tooNew key remaining) ↔
      now.toNat - c.committedAt.toNat < l.minAge.toNat ∧
        remaining.toNat = l.minAge.toNat - (now.toNat - c.committedAt.toNat) := by
  simp only [eligible, hc]
  rw [← c.toNat_age now]
  by_cases hnew : c.age now < l.minAge
  · have hsub := UInt64.toNat_sub_of_le _ _ (UInt64.le_of_lt hnew)
    rw [if_pos hnew, ← hsub, UInt64.toNat_inj]
    simp [UInt64.lt_iff_toNat_lt.mp hnew, eq_comm]
  · refine iff_of_false (fun h => ?_) fun h => hnew (UInt64.lt_iff_toNat_lt.mpr h.1)
    rw [if_neg hnew] at h
    split at h <;> cases h

/-- A commitment is refused as revealed exactly if it is old enough, for a single use and
revealed. -/
theorem eligible_eq_alreadyRevealed_iff (hc : l.find? key = some c) :
    l.eligible key now = .error (.alreadyRevealed key) ↔
      l.minAge.toNat ≤ now.toNat - c.committedAt.toNat ∧ l.singleUse = true ∧
        c.isRevealed = true := by
  simp only [eligible, hc]
  rw [← c.toNat_age now, ← UInt64.le_iff_toNat_le, ← UInt64.not_lt]
  by_cases hnew : c.age now < l.minAge
  · simp [hnew]
  · rw [if_neg hnew, ← Bool.and_eq_true_iff]
    split
    · next hused => exact iff_of_true rfl ⟨hnew, hused⟩
    · next hfree => exact iff_of_false (fun h => by cases h) fun h => hfree h.2

/-- A commitment may be revealed exactly if it is old enough, and not for a single use and
revealed. -/
theorem eligible_eq_ok_iff_of_find? (hc : l.find? key = some c) {player : Player} :
    l.eligible key now = .ok player ↔
      l.minAge.toNat ≤ now.toNat - c.committedAt.toNat ∧
        ¬(l.singleUse = true ∧ c.isRevealed = true) ∧ player = c.player := by
  rw [← c.toNat_age now, ← UInt64.le_iff_toNat_le, eligible_eq_ok_iff]
  constructor
  · rintro ⟨c', hc', hage, hunused, rfl⟩
    cases hc.symm.trans hc'
    refine ⟨hage, fun ⟨hsingle, hrevealed⟩ => ?_, rfl⟩
    rw [Commitment.isRevealed, hunused hsingle] at hrevealed
    cases hrevealed
  · rintro ⟨hage, hunused, rfl⟩
    refine ⟨c, hc, hage, fun hsingle => ?_, rfl⟩
    simpa [Commitment.isRevealed, hsingle] using hunused

/-- A commitment that is too new stays so for the time that remains, and no longer. -/
theorem exists_eligible_add_eq_tooNew_iff (hc : l.find? key = some c) {remaining wait : UInt64}
    (hmade : c.committedAt ≤ now) (h : l.eligible key now = .error (.tooNew key remaining))
    (hword : now.toNat + wait.toNat < UInt64.size) :
    (∃ remaining', l.eligible key (now + wait) = .error (.tooNew key remaining')) ↔
      wait < remaining := by
  have hsum : (now + wait).toNat = now.toNat + wait.toNat := by
    rw [UInt64.toNat_add]
    exact Nat.mod_eq_of_lt hword
  -- The age grows by the wait, and what remains is what the age lacks.
  have hremaining := ((eligible_eq_tooNew_iff hc).mp h).2
  rw [UInt64.le_iff_toNat_le] at hmade
  rw [UInt64.lt_iff_toNat_lt]
  constructor
  · rintro ⟨remaining', hrefused⟩
    have hyoung := ((eligible_eq_tooNew_iff hc).mp hrefused).1
    omega
  · intro hwait
    have hsub := UInt64.toNat_sub_of_le _ _ (UInt64.le_of_lt (UInt64.lt_iff_toNat_lt.mpr hwait))
    refine ⟨remaining - wait, (eligible_eq_tooNew_iff hc).mpr ?_⟩
    omega

/-- A commitment that may be revealed may be revealed at every later time, whatever is called,
unless it is for a single use and its key is marked. -/
theorem eligible_after_of_eq_ok {player : Player} (h : l.eligible key now = .ok player)
    {now' : Time} (hle : now ≤ now') {later : List Call}
    (hunmarked : l.singleUse = true → ∀ call ∈ later, call.marks key = false) :
    (l.after later).eligible key now' = .ok player := by
  obtain ⟨c, hc, -⟩ := eligible_eq_ok_iff.mp h
  obtain ⟨c', hc', hplayer, hmade, hrevealed⟩ := foldl_onKey_some later key c
  rw [← hc, ← find?_after] at hc'
  obtain ⟨hage, hunused, hsame⟩ := (eligible_eq_ok_iff_of_find? hc).mp h
  rw [eligible_eq_ok_iff_of_find? hc', (l.rules_after later).1, (l.rules_after later).2, hplayer,
    hmade, hrevealed]
  have hlater := UInt64.le_iff_toNat_le.mp hle
  refine ⟨by omega, fun ⟨hsingle, hused⟩ => hunused ⟨hsingle, ?_⟩, hsame⟩
  have hnone : later.any (Call.marks key) = false := by
    rw [List.any_eq_false]
    exact fun call hcall => Bool.eq_false_iff.mp (hunmarked hsingle call hcall)
  rwa [hnone, Bool.or_false] at hused

/-- **When a key may be revealed.** Let a ledger have any rules and have answered any calls.

* A key is not committed exactly if no call committed it.
* Otherwise let `player` be the first to commit it, at the time `made`. The key is too new exactly
  if its age is below the least one, by the time that remains. If it is not too new, it is refused
  as revealed exactly if commitments are for a single use and it was marked after that commit; and
  if it is not refused, the answer is `player`. While it is too new, waiting is refused for the time
  that remains and no longer.
* Once the answer is a player it stays so at every later time, whatever is called, except that
  commitments for a single use must not be marked.
* Calls about other keys make no difference. -/
theorem eligible_of_history (minAge : UInt64) (singleUse : Bool) (key : Digest) :
    let ledger (calls : List Call) := (empty minAge singleUse).after calls
    (∀ calls now, (ledger calls).eligible key now = .error (.notCommitted key) ↔
      ∀ call ∈ calls, call.commits key = false) ∧
    (∀ before player made later, (∀ call ∈ before, call.commits key = false) →
      let l := ledger (before ++ .commit key player made :: later)
      let age (now : Time) := now.toNat - made.toNat
      (∀ now remaining, l.eligible key now = .error (.tooNew key remaining) ↔
        age now < minAge.toNat ∧ remaining.toNat = minAge.toNat - age now) ∧
      (∀ now, l.eligible key now = .error (.alreadyRevealed key) ↔
        minAge.toNat ≤ age now ∧ singleUse = true ∧ ∃ call ∈ later, call.marks key = true) ∧
      (∀ now player', l.eligible key now = .ok player' ↔
        minAge.toNat ≤ age now ∧ ¬(singleUse = true ∧ ∃ call ∈ later, call.marks key = true) ∧
          player' = player) ∧
      ∀ now remaining wait, made ≤ now →
        l.eligible key now = .error (.tooNew key remaining) →
        now.toNat + wait.toNat < UInt64.size →
        ((∃ remaining', l.eligible key (now + wait) = .error (.tooNew key remaining')) ↔
          wait < remaining)) ∧
    (∀ calls now player later now', (ledger calls).eligible key now = .ok player → now ≤ now' →
      (singleUse = true → ∀ call ∈ later, call.marks key = false) →
      (ledger (calls ++ later)).eligible key now' = .ok player) ∧
    ∀ calls now, (ledger calls).eligible key now =
      (ledger (calls.filter (·.key == key))).eligible key now := by
  intro ledger
  have hfree : (empty minAge singleUse).find? key = none := rfl
  have hrules : ∀ calls, (ledger calls).minAge = minAge ∧ (ledger calls).singleUse = singleUse :=
    fun calls => rules_after (empty minAge singleUse) calls
  refine ⟨fun calls now => ?_, fun before player made later hbefore => ?_,
    fun calls now player later now' hok hle hunmarked => ?_, fun calls now => ?_⟩
  · rw [eligible_eq_notCommitted_iff]
    exact find?_after_eq_none_iff hfree
  · intro l age
    obtain ⟨c, hc, rfl, rfl, hrevealed⟩ := exists_find?_after hfree hbefore player made later
    obtain ⟨hage, hsingle⟩ := hrules (before ++ .commit key c.player c.committedAt :: later)
    refine ⟨fun now remaining => ?_, fun now => ?_, fun now player' => ?_,
      fun now remaining wait hmade h hword => exists_eligible_add_eq_tooNew_iff hc hmade h hword⟩
    · rw [eligible_eq_tooNew_iff hc, hage]
    · rw [eligible_eq_alreadyRevealed_iff hc, hage, hsingle, hrevealed, List.any_eq_true]
    · rw [eligible_eq_ok_iff_of_find? hc, hage, hsingle, hrevealed, List.any_eq_true]
  · rw [← (hrules calls).2] at hunmarked
    have happend : ledger (calls ++ later) = (ledger calls).after later := after_append ..
    rw [happend]
    exact eligible_after_of_eq_ok hok hle hunmarked
  · refine eligible_congr ?_ ?_ ?_ now
    · rw [(hrules _).1, (hrules _).1]
    · rw [(hrules _).2, (hrules _).2]
    · rw [find?_after, find?_after, foldl_onKey_filter]

/-- A key that is marked before anybody commits it, and committed by two players: the first of them
may reveal it from the least age on, whatever is done with another key, and until it is marked. A
least age that no time can reach is no trouble. -/
theorem eligible_of_history_of_second_commit :
    let before : List Call := [.markRevealed 7 1, .commit 9 Sample.bob 2]
    let later : List Call := [.commit 7 Sample.bob 4, .markRevealed 9 5]
    let calls := before ++ .commit 7 Sample.alice 3 :: later
    let l := (empty 10 true).after calls
    (∀ call ∈ before, call.commits 7 = false) ∧
    l.eligible 7 8 = .error (.tooNew 7 5) ∧
    (∃ remaining, l.eligible 7 (8 + 4) = .error (.tooNew 7 remaining)) ∧
    ¬(∃ remaining, l.eligible 7 (8 + 5) = .error (.tooNew 7 remaining)) ∧
    l.eligible 7 13 = .ok Sample.alice ∧
    ((empty 10 true).after (calls ++ [.markRevealed 9 20])).eligible 7 99 = .ok Sample.alice ∧
    ((empty 10 true).after (before ++ .commit 7 Sample.alice 3 ::
      (later ++ [.markRevealed 7 14]))).eligible 7 20 = .error (.alreadyRevealed 7) ∧
    ((empty 0xFFFFFFFFFFFFFFFF true).after ([] ++ [.commit 7 Sample.alice 5])).eligible 7 7 =
      .error (.tooNew 7 0xFFFFFFFFFFFFFFFD) := by
  intro before later calls l
  have hbefore : ∀ call ∈ before, call.commits 7 = false := by decide
  obtain ⟨-, hhistory, hstays, -⟩ := eligible_of_history 10 true 7
  obtain ⟨hnew, -, hok, hwait⟩ := hhistory before Sample.alice 3 later hbefore
  obtain ⟨-, hrevealed, -⟩ :=
    hhistory before Sample.alice 3 (later ++ [.markRevealed 7 14]) hbefore
  obtain ⟨-, hhistory', -⟩ := eligible_of_history 0xFFFFFFFFFFFFFFFF true 7
  obtain ⟨hnew', -⟩ := hhistory' [] Sample.alice 5 [] nofun
  have hfive : l.eligible 7 8 = .error (.tooNew 7 5) := (hnew 8 5).mpr (by decide)
  have halice : l.eligible 7 13 = .ok Sample.alice := (hok 13 Sample.alice).mpr (by decide)
  refine ⟨hbefore, hfive, (hwait 8 5 4 (by decide) hfive (by decide)).mpr (by decide),
    mt (hwait 8 5 5 (by decide) hfive (by decide)).mp (by decide), halice, ?_, ?_, ?_⟩
  · exact hstays calls 13 Sample.alice _ 99 halice (by decide) (by decide)
  · exact (hrevealed 20).mpr (by decide)
  · exact (hnew' 7 _).mpr (by decide)

end Ledger

end CodeGolf
