import Mathlib.Data.List.Find
import Mathlib.Data.List.Rotate
import Binkleyforce.Daemon.Systems

/-!
# The choice of a line

A line with a host that works is one for TCP/IP, and a line with a phone alone is one for the
modem. The function that says so returns 2 or 1 in a `bool`, so that its caller sees 1 for
both: no line of a system with overrides is one for TCP/IP, and any is one for the modem. A
system without overrides is taken whatever the transport.
-/

namespace Binkleyforce

/-- What `daemon_node_cancall_line` says before it becomes a `bool`: 2 for TCP/IP, 1 for the
modem. -/
def lineCode (now : Tm) (node : Option Node) (ovrd : Option Override) : Nat :=
  if goodTime now node ovrd then if goodHost ovrd then 2 else if goodPhone node ovrd then 1 else 0 else 0

/-- The number of lines of a system: its overrides, or the line of the nodelist. -/
def lineCount (syst : SysEntry) : Nat := if syst.overrides.isEmpty then 1 else syst.overrides.length

/-- What a line is for now. The nodelist counts for the first line. -/
def codeOf (look : Look) (syst : SysEntry) (line : Nat) : Nat :=
  lineCode (look.now line) (if line = 0 then some syst.node else none) syst.overrides[line]?

/-- The line may be called now by the transport. -/
def Serves (look : Look) (syst : SysEntry) (tcpip : Bool) (line : Nat) : Prop :=
  line < lineCount syst ∧ codeOf look syst line = if tcpip then 2 else 1

/-- A system that may be called at all, and the status files, after the holds that are over
were lifted. -/
def admitted (look : Look) (called : Bool) (files : StsFiles) (syst : SysEntry) : Option (SysEntry × StsFiles) :=
  if syst.busy || syst.stat.undialable || called || (look.mailonly && !hasType syst.types typeNetmail) then none
  else
    (passHold look files syst).bind fun (syst, files) =>
      if (passFreqHold look files syst).1 then some (passFreqHold look files syst).2 else none

/-- The answer is that a line may be called by the transport, and such a line is selected,
with the transport recorded. -/
def ChoosesLine (look : Look) (called : Bool) (files : StsFiles) (syst : SysEntry) (ignWtime tcpip : Bool) : Prop :=
  ((daemonNodeCancall look called files syst ignWtime tcpip).1 = true ↔
    ∃ entry changed, admitted look called files syst = some (entry, changed) ∧ ∃ line, Serves look entry tcpip line) ∧
  ((daemonNodeCancall look called files syst ignWtime tcpip).1 = true →
    ∀ selected, selected = (daemonNodeCancall look called files syst ignWtime tcpip).2.1 →
      Serves look selected tcpip selected.line ∧ selected.tcpip = tcpip ∧
        (selected.overrides ≠ [] → selected.lineptr = some selected.line))

/-- The lines of a system go with the transport: a system without overrides is called by the
modem if at all, and has the modem recorded; no line of another one is for TCP/IP where that
is asked for; and where the modem is, the first line that works is one for it. -/
def LinesFit (look : Look) (syst : SysEntry) (tcpip : Bool) : Prop :=
  if syst.overrides = [] then codeOf look syst 0 = 0 ∨ (tcpip = false ∧ syst.tcpip = false)
  else if tcpip then ∀ line < syst.overrides.length, codeOf look syst line ≠ 2
  else ∀ line, (linesAfter syst ++ linesBefore syst).find? (codeOf look syst · ≠ 0) = some line →
    codeOf look syst line = 1

/-! ## The search -/

/-- The search begins behind the current line and goes on at the first one: each line is
looked at once. -/
theorem lines_rotate (syst : SysEntry) :
    (∃ start, linesAfter syst ++ linesBefore syst = (List.range syst.overrides.length).rotate start) ∧
      (linesAfter syst ++ linesBefore syst).Perm (List.range syst.overrides.length) := by
  have rotated : ∃ start, linesAfter syst ++ linesBefore syst = (List.range syst.overrides.length).rotate start := by
    unfold linesAfter linesBefore
    cases syst.lineptr with
    | none => exact ⟨0, (List.rotate_zero _).symm⟩
    | some line =>
      by_cases inside : line + 1 ≤ (List.range syst.overrides.length).length
      · exact ⟨line + 1, (List.rotate_eq_drop_append_take inside).symm⟩
      · refine ⟨0, ?_⟩
        dsimp only
        rw [List.rotate_zero, List.drop_eq_nil_of_le (by omega), List.take_of_length_le (by omega), List.nil_append]
  refine ⟨rotated, ?_⟩
  obtain ⟨start, same⟩ := rotated
  rw [same]
  exact List.rotate_perm _ start

/-- All lines are looked at, and no others. -/
theorem mem_lines {syst : SysEntry} {line : Nat} :
    line ∈ linesAfter syst ++ linesBefore syst ↔ line < syst.overrides.length := by
  rw [(lines_rotate syst).2.mem_iff, List.mem_range]

/-- A line answers if it is for any transport, and then it is taken for the modem. -/
theorem daemonNodeCancallLine_code (now : Tm) (node : Option Node) (ovrd : Option Override) :
    daemonNodeCancallLine now node ovrd = decide (lineCode now node ovrd ≠ 0) := by
  unfold daemonNodeCancallLine lineCode
  cases goodTime now node ovrd <;> cases goodHost ovrd <;> cases goodPhone node ovrd <;> rfl

/-- A line answers the modem if it is for any transport, and TCP/IP never. -/
theorem lineAnswers_code (now : Tm) (node : Option Node) (ovrd : Option Override) (tcpip : Bool) :
    lineAnswers now node ovrd tcpip = (!tcpip && decide (lineCode now node ovrd ≠ 0)) := by
  unfold lineAnswers
  rw [daemonNodeCancallLine_code]
  cases decide (lineCode now node ovrd ≠ 0) <;> cases tcpip <;> rfl

/-- The line that is found is the first one for any transport, where the modem is asked for. -/
theorem findLine_code (look : Look) (syst : SysEntry) (tcpip : Bool) :
    findLine look syst tcpip =
      (linesAfter syst ++ linesBefore syst).find? fun line => !tcpip && decide (codeOf look syst line ≠ 0) := by
  have after : (linesAfter syst).find? (fun line => lineAnswers (look.now line) none syst.overrides[line]? tcpip) =
      (linesAfter syst).find? fun line => !tcpip && decide (codeOf look syst line ≠ 0) := by
    refine List.find?_congr fun line member => ?_
    have later : line ≠ 0 := by
      unfold linesAfter at member
      cases current : syst.lineptr with
      | none =>
        rw [current] at member
        cases member
      | some place =>
        rw [current] at member
        dsimp only at member
        rw [List.range_eq_range', List.drop_range', List.mem_range'] at member
        obtain ⟨step, -, rfl⟩ := member
        omega
    unfold codeOf
    rw [lineAnswers_code, if_neg later]
  unfold findLine
  rw [List.find?_append, after]
  refine congrArg _ ?_
  refine List.find?_congr fun line _ => ?_
  rw [lineAnswers_code]
  rfl

/-! ## The line that is chosen -/

/-- The choice among the lines of a system that may be called. -/
def ChosenAmong (look : Look) (entry : SysEntry) (tcpip : Bool) : Prop :=
  ((chooseLine look entry tcpip).1 = true ↔ ∃ line, Serves look entry tcpip line) ∧
    ((chooseLine look entry tcpip).1 = true → ∀ selected, selected = (chooseLine look entry tcpip).2 →
      Serves look selected tcpip selected.line ∧ selected.tcpip = tcpip ∧
        (selected.overrides ≠ [] → selected.lineptr = some selected.line))

/-- What a line may be called by is settled by the lines of the system. -/
theorem serves_congr {look : Look} {first second : SysEntry} (node : first.node = second.node)
    (overrides : first.overrides = second.overrides) (tcpip : Bool) (line : Nat) :
    Serves look first tcpip line ↔ Serves look second tcpip line := by
  unfold Serves lineCount codeOf
  rw [node, overrides]

/-- The only line of a system without overrides is taken for any transport. -/
theorem chosen_nodelist {look : Look} {entry : SysEntry} (tcpip : Bool) (empty : entry.overrides = []) :
    ChosenAmong look entry tcpip ↔ codeOf look entry 0 = 0 ∨ (tcpip = false ∧ entry.tcpip = false) := by
  have code : codeOf look entry 0 = lineCode (look.now 0) (some entry.node) none := by
    unfold codeOf
    rw [if_pos rfl, empty]
    rfl
  have choice : chooseLine look entry tcpip = (decide (codeOf look entry 0 ≠ 0), { entry with line := 0 }) := by
    unfold chooseLine
    rw [empty, code, ← daemonNodeCancallLine_code]
    rfl
  have serves : (∃ line, Serves look entry tcpip line) ↔ codeOf look entry 0 = if tcpip then 2 else 1 := by
    unfold Serves lineCount
    rw [empty]
    constructor
    · rintro ⟨line, inside, asked⟩
      rwa [Nat.lt_one_iff.mp inside] at asked
    · exact fun asked => ⟨0, Nat.one_pos, asked⟩
  have modem : codeOf look entry 0 = 0 ∨ codeOf look entry 0 = 1 := by
    rw [code]
    unfold lineCode
    rw [show goodHost none = false from rfl]
    cases goodTime (look.now 0) (some entry.node) none <;> cases goodPhone (some entry.node) none <;> simp
  unfold ChosenAmong
  rw [choice, serves]
  dsimp only
  rw [decide_eq_true_iff]
  rcases modem with none | phone
  · rw [none]
    cases tcpip <;> simp
  · have same : Serves look { entry with line := 0 } tcpip 0 ↔ Serves look entry tcpip 0 :=
      serves_congr rfl rfl tcpip 0
    have only : Serves look entry tcpip 0 ↔ codeOf look entry 0 = if tcpip then 2 else 1 := by
      unfold Serves lineCount
      rw [empty]
      exact and_iff_right Nat.one_pos
    rw [phone] at only ⊢
    constructor
    · rintro ⟨-, selects⟩
      obtain ⟨fits, recorded, -⟩ := selects Nat.one_ne_zero _ rfl
      have asked := only.mp (same.mp fits)
      cases tcpip with
      | true => cases asked
      | false => exact .inr ⟨rfl, recorded⟩
    · rintro (none | ⟨rfl, recorded⟩)
      · cases none
      · refine ⟨iff_of_true Nat.one_ne_zero rfl, ?_⟩
        rintro - selected rfl
        exact ⟨same.mpr (only.mpr rfl), recorded, fun filled => absurd empty filled⟩

/-- Among overrides no line is taken for TCP/IP. -/
theorem chosen_tcpip {look : Look} {entry : SysEntry} (filled : entry.overrides ≠ []) :
    ChosenAmong look entry true ↔ ∀ line < entry.overrides.length, codeOf look entry line ≠ 2 := by
  have nothing : findLine look entry true = none := by
    rw [findLine_code, List.find?_eq_none]
    exact fun _ _ => Bool.false_ne_true
  have choice : (chooseLine look entry true).1 = false := by
    unfold chooseLine
    rw [nothing, if_neg (mt List.isEmpty_iff.mp filled)]
  unfold ChosenAmong Serves lineCount
  rw [choice, if_neg (mt List.isEmpty_iff.mp filled)]
  constructor
  · rintro ⟨answers, -⟩ line inside host
    exact Bool.false_ne_true (answers.mpr ⟨line, inside, host⟩)
  · intro none
    refine ⟨iff_of_false Bool.false_ne_true ?_, nofun⟩
    rintro ⟨line, inside, host⟩
    exact none line inside host

/-- Among overrides the first line that works is taken for the modem. -/
theorem chosen_modem {look : Look} {entry : SysEntry} (filled : entry.overrides ≠ []) :
    ChosenAmong look entry false ↔
      ∀ line, (linesAfter entry ++ linesBefore entry).find? (codeOf look entry · ≠ 0) = some line →
        codeOf look entry line = 1 := by
  have count : lineCount entry = entry.overrides.length := if_neg (mt List.isEmpty_iff.mp filled)
  have search : findLine look entry false =
      (linesAfter entry ++ linesBefore entry).find? (codeOf look entry · ≠ 0) := findLine_code look entry false
  cases found : (linesAfter entry ++ linesBefore entry).find? (codeOf look entry · ≠ 0) with
  | none =>
    have choice : (chooseLine look entry false).1 = false := by
      unfold chooseLine
      rw [search, found, if_neg (mt List.isEmpty_iff.mp filled)]
    refine iff_of_true ⟨?_, ?_⟩ nofun
    · rw [choice]
      refine iff_of_false Bool.false_ne_true ?_
      rintro ⟨line, inside, phone⟩
      rw [count, ← mem_lines] at inside
      have idle := List.find?_eq_none.mp found line inside
      simp [phone] at idle
    · rw [choice]
      exact nofun
  | some line =>
    have inside := mem_lines.mp (List.mem_of_find?_eq_some found)
    have choice : chooseLine look entry false =
        (true, { entry with line := line, lineptr := some line, tcpip := false }) := by
      unfold chooseLine
      rw [search, found, if_neg (mt List.isEmpty_iff.mp filled)]
      dsimp only
      cases daemonNodeCancallLine (look.now line) (if line = 0 then some entry.node else none)
        entry.overrides[line]? <;> rfl
    have serves : Serves look entry false line ↔ codeOf look entry line = 1 := by
      unfold Serves
      rw [count]
      exact and_iff_right inside
    unfold ChosenAmong
    rw [choice]
    constructor
    · rintro ⟨-, selects⟩ other ⟨⟩
      obtain ⟨fits, -⟩ := selects rfl _ rfl
      exact serves.mp ((serves_congr rfl rfl false line).mp fits)
    · intro phone
      have fits := serves.mpr (phone line rfl)
      refine ⟨iff_of_true rfl ⟨line, fits⟩, ?_⟩
      rintro - selected rfl
      exact ⟨(serves_congr rfl rfl false line).mpr fits, rfl, fun _ => rfl⟩

/-- The choice is right exactly where the lines go with the transport. -/
theorem chosen_iff (look : Look) (entry : SysEntry) (tcpip : Bool) :
    ChosenAmong look entry tcpip ↔ LinesFit look entry tcpip := by
  unfold LinesFit
  split
  case isTrue empty => exact chosen_nodelist tcpip empty
  case isFalse filled =>
    cases tcpip with
    | true => exact chosen_tcpip filled
    | false => exact chosen_modem filled

/-! ## The decision -/

/-- A system that may not be called is not, and of one that may be a line is chosen. -/
theorem daemonNodeCancall_eq (look : Look) (called : Bool) (files : StsFiles) (syst : SysEntry)
    (ignWtime tcpip : Bool) :
    (admitted look called files syst = none → (daemonNodeCancall look called files syst ignWtime tcpip).1 = false) ∧
      ∀ entry changed, admitted look called files syst = some (entry, changed) →
        daemonNodeCancall look called files syst ignWtime tcpip =
          ((chooseLine look entry tcpip).1, (chooseLine look entry tcpip).2, changed) := by
  unfold admitted daemonNodeCancall
  by_cases busy : syst.busy = true
  · simp [busy]
  by_cases undialable : syst.stat.undialable = true
  · simp [undialable]
  by_cases running : called = true
  · simp [running]
  by_cases mailonly : (look.mailonly && !hasType syst.types typeNetmail) = true
  · simp [mailonly]
  rw [Bool.not_eq_true] at busy undialable running mailonly
  rw [busy, undialable, running, mailonly]
  simp only [Bool.or_self, Bool.false_eq_true, if_false]
  cases held : passHold look files syst with
  | none => simp
  | some both =>
    obtain ⟨entry, changed⟩ := both
    rw [Option.bind_some]
    dsimp only
    rcases freqs : passFreqHold look changed entry with ⟨goes, entry', changed'⟩
    cases goes with
    | false =>
      refine ⟨fun _ => rfl, ?_⟩
      intro other files' same
      cases same
    | true =>
      refine ⟨nofun, ?_⟩
      intro other files' same
      rw [if_pos rfl, Option.some.injEq, Prod.mk.injEq] at same
      rw [← same.1, ← same.2]
      rfl

/-- Of a system that may not be called nothing is chosen. -/
theorem choosesLine_refused {look : Look} {called : Bool} {files : StsFiles} {syst : SysEntry}
    (refused : admitted look called files syst = none) (ignWtime tcpip : Bool) :
    ChoosesLine look called files syst ignWtime tcpip := by
  have answer := (daemonNodeCancall_eq look called files syst ignWtime tcpip).1 refused
  unfold ChoosesLine
  rw [answer, refused]
  refine ⟨iff_of_false Bool.false_ne_true ?_, fun never => absurd never Bool.false_ne_true⟩
  rintro ⟨entry, changed, same, -⟩
  cases same

/-- Of one that may be the choice is that among its lines. -/
theorem choosesLine_admitted {look : Look} {called : Bool} {files changed : StsFiles} {syst entry : SysEntry}
    (goes : admitted look called files syst = some (entry, changed)) (ignWtime tcpip : Bool) :
    ChoosesLine look called files syst ignWtime tcpip ↔ ChosenAmong look entry tcpip := by
  have choice := (daemonNodeCancall_eq look called files syst ignWtime tcpip).2 entry changed goes
  have only : (∃ other files', admitted look called files syst = some (other, files') ∧
      ∃ line, Serves look other tcpip line) ↔ ∃ line, Serves look entry tcpip line := by
    constructor
    · rintro ⟨other, files', same, serves⟩
      rw [goes, Option.some.injEq, Prod.mk.injEq] at same
      rwa [← same.1] at serves
    · exact fun serves => ⟨entry, changed, goes, serves⟩
  unfold ChoosesLine ChosenAmong
  rw [choice, only]

/-- A system is called by a transport exactly if one of its lines may be, and such a line is
chosen, where its lines go with the transport. -/
theorem line_choice (look : Look) (called : Bool) (files : StsFiles) (syst : SysEntry) (ignWtime tcpip : Bool) :
    (ChoosesLine look called files syst ignWtime tcpip ∧
      (∃ start, linesAfter syst ++ linesBefore syst = (List.range syst.overrides.length).rotate start) ∧
      (linesAfter syst ++ linesBefore syst).Perm (List.range syst.overrides.length)) ↔
      ∀ entry changed, admitted look called files syst = some (entry, changed) → LinesFit look entry tcpip := by
  rw [and_iff_left (lines_rotate syst)]
  rcases allowed : admitted look called files syst with - | ⟨entry, changed⟩
  · refine iff_of_true (choosesLine_refused allowed ignWtime tcpip) ?_
    intro entry changed same
    cases same
  · rw [choosesLine_admitted allowed, chosen_iff]
    constructor
    · intro fits other files' same
      rw [Option.some.injEq, Prod.mk.injEq] at same
      rwa [← same.1]
    · exact fun fits => fits entry changed rfl

/-- A system with one line for TCP/IP that answers all day, and no current line. -/
def hostOnly : SysEntry :=
  { node := { addr := { zone := 2, net := 5020 } }
    overrides := [{ sIpaddr := some (ascii "bbs.example"), sFlags := some (ascii "CM,IBN") }] }

/-- It is never called by TCP/IP. -/
theorem host_refused : ¬ ChoosesLine {} false (fun _ => none) hostOnly false true := by
  rintro ⟨answers, -⟩
  have refused : ¬ (daemonNodeCancall {} false (fun _ => none) hostOnly false true).1 = true := by decide
  refine refused (answers.mpr ⟨hostOnly, fun _ => none, rfl, 0, ?_, ?_⟩) <;> decide

end Binkleyforce
