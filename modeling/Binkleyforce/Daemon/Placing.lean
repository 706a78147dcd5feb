import Binkleyforce.Daemon.Queues
import Binkleyforce.Session.Calling

/-!
# The daemon's choice and the child's call

The daemon chooses a line of a system and a transport, and passes neither to the child, which
finds both out again with other rules and always from the first line. The child places the
call that was chosen if the first line has the same phone and works now, and nothing of
TCP/IP can be used.
-/

namespace Binkleyforce

/-- The phone of the current line; the nodelist counts for the first one. -/
def SysEntry.linePhone (syst : SysEntry) : Option Bytes :=
  match (syst.overrides[syst.line]?).bind (·.sPhone) with
  | some (char :: rest) => some (char :: rest)
  | _ => if syst.line = 0 then some syst.node.phone else none

/-- The host of the current line. -/
def SysEntry.lineHost (syst : SysEntry) : Option Bytes :=
  match (syst.overrides[syst.line]?).bind (·.sIpaddr) with
  | some (char :: rest) => some (char :: rest)
  | _ => if syst.line = 0 then some syst.node.host else none

/-- The first line, or none. -/
def SysEntry.firstLine (syst : SysEntry) : Override := syst.overrides.head?.getD {}

/-- The calls are those of the line and the transport that were chosen, and these are not
left out for the working time or for a phone or host. -/
def CallReport.Fits (report : CallReport) (syst : SysEntry) : Prop :=
  if syst.tcpip then
    (∀ attempt ∈ report.attempts, attempt.1.isTcpip = true ∧ syst.lineHost = some attempt.2) ∧
      .host ∉ report.refusals
  else
    (∀ attempt ∈ report.attempts, attempt.1 = .modem ∧ syst.linePhone = some attempt.2) ∧
      .phone ∉ report.refusals ∧ .worktime ∉ report.refusals

instance (report : CallReport) (syst : SysEntry) : Decidable (report.Fits syst) :=
  inferInstanceAs (Decidable (if syst.tcpip then
    (∀ attempt ∈ report.attempts, attempt.1.isTcpip = true ∧ syst.lineHost = some attempt.2) ∧
      .host ∉ report.refusals
  else
    (∀ attempt ∈ report.attempts, attempt.1 = .modem ∧ syst.linePhone = some attempt.2) ∧
      .phone ∉ report.refusals ∧ .worktime ∉ report.refusals))

/-- What the child would use of the first line is what was chosen: its phone, up to the room
for one, also where it is an empty text; its working time, or the flag `CM` in its flags, or
without flags what the nodelist says. Nothing of TCP/IP is named, or there is no host. -/
structure ServedByFirst (now : Tm) (iphost zone : Option Bytes) (syst : SysEntry) : Prop where
  queued : syst.overrides = [] → syst.tcpip = false
  phone : syst.linePhone =
    some ((syst.firstLine.sPhone.map (strnxcpy · (bniMaxphone + 1))).getD syst.node.phone)
  good : ∀ phone ∈ syst.linePhone, modemIsgoodPhone phone = true
  worktime : timevecIsnow syst.firstLine.worktime now = true ∨
    timevecIsdefined syst.firstLine.worktime = false ∧
      ((∃ flags, syst.firstLine.sFlags = some flags ∧ nodelistCheckflag (ascii "CM") flags true = true) ∨
        syst.firstLine.sFlags = none ∧ (nodelistCheckflag (ascii "CM") syst.node.flags true = true ∨
          timevecIsnow syst.node.worktime now = true))
  tcpip : (∀ way : CallWay, way.isTcpip = true →
      way.named (withFlags syst.firstLine syst.node).flags = false) ∨
    zone = none ∧ tcpipIsgoodHost
      (hostToCall { runmode := .callDefault, iphost := iphost } syst.firstLine syst.node).host = false

/-! ## What the child tries -/

/-- Only the ways that are left are tried. -/
theorem tryWays_subset (world : ChildWorld) (node : Node) (ways : List CallWay) :
    ∀ attempt ∈ tryWays world node ways, attempt.1 ∈ ways ∧ attempt.2 = attempt.1.address node := by
  induction ways with
  | nil => exact fun attempt member => absurd member List.not_mem_nil
  | cons way rest later =>
    intro attempt member
    have more : attempt ∈ tryWays world node rest →
        attempt.1 ∈ way :: rest ∧ attempt.2 = attempt.1.address node := fun tried =>
      (later attempt tried).imp_left (List.mem_cons_of_mem _)
    unfold tryWays at member
    split at member
    · exact more member
    · rcases List.mem_cons.mp member with rfl | tried
      · exact ⟨List.mem_cons_self, rfl⟩
      · split at tried
        · exact absurd tried List.not_mem_nil
        · exact more tried

/-- All of them are, where none goes. -/
theorem tryWays_all (world : ChildWorld) (node : Node) (ways : List CallWay)
    (port : world.port = true) (fails : ∀ way, world.rc way ≠ 0) :
    tryWays world node ways = ways.map fun way => (way, way.address node) := by
  induction ways with
  | nil => rfl
  | cons way rest later =>
    unfold tryWays
    rw [port, Bool.not_true, Bool.and_false, if_neg Bool.false_ne_true, if_neg (fails way), later,
      List.map_cons]

/-- A name in the zone is a good host. -/
theorem zoneHost_good (addr : Faddr) (zone : Bytes) : tcpipIsgoodHost (zoneHost addr zone) = true := by
  have letter : ∃ char rest, zoneHost addr zone = char :: rest ∧ char ≠ 45 := by
    unfold zoneHost
    by_cases point : addr.point ≠ 0
    · rw [if_pos point]
      exact ⟨112, _, rfl, by decide⟩
    · rw [if_neg point]
      exact ⟨102, _, rfl, by decide⟩
  obtain ⟨char, rest, starts, other⟩ := letter
  unfold tcpipIsgoodHost
  rw [starts, List.isEmpty_cons, Bool.not_false, Bool.true_and, bne_iff_ne]
  intro same
  exact other (List.cons.inj same).1

/-- A host that the zone stands in for is good, and so is one that was good. -/
theorem zoneToCall_good (zone : Option Bytes) (addr : Faddr) (mayuse : List CallWay) (node : Node)
    (some_ : mayuse.any CallWay.isTcpip = true) :
    tcpipIsgoodHost (zoneToCall zone addr mayuse node).host =
      (zone.isSome || tcpipIsgoodHost node.host) := by
  cases zone with
  | none => rfl
  | some zone =>
    unfold zoneToCall
    dsimp only
    rw [some_, Bool.true_and, Option.isSome_some, Bool.true_or]
    split
    · exact zoneHost_good addr zone
    · rename_i good
      rwa [Bool.not_eq_true', Bool.not_eq_false] at good

/-- The steps after the first leave the phone alone. -/
theorem calling_phone (opts : BforceOpts) (override : Override) (zone : Option Bytes) (addr : Faddr)
    (mayuse : List CallWay) (node : Node) :
    (zoneToCall zone addr mayuse (hostToCall opts override (withFlags override node))).phone =
      node.phone := by
  unfold zoneToCall hostToCall withFlags
  repeat' split
  all_goals rfl

/-- The flags are those of the nodelist and the override, whatever the phone. -/
theorem flags_called (opts : BforceOpts) (override : Override) (node : Node) :
    (withFlags override (phoneToCall opts override node)).flags = (withFlags override node).flags := by
  unfold withFlags phoneToCall
  repeat' split
  all_goals rfl

/-- So is the host. -/
theorem host_called (opts : BforceOpts) (override : Override) (node : Node) :
    (hostToCall opts override (withFlags override (phoneToCall opts override node))).host =
      (hostToCall opts override node).host := by
  unfold hostToCall withFlags phoneToCall
  repeat' split
  all_goals rfl

/-- What the options of the daemon come to: the modem is left where there is no reason
against it, and a way of TCP/IP where the flags name it and a host is known. -/
theorem callSystem_default (now : Tm) (iphost zone : Option Bytes) (addr : Faddr) (node : Node)
    (overrides : List Override) :
    let opts : BforceOpts := { runmode := .callDefault, iphost := iphost }
    let first := overrides.head?.getD {}
    let why := modemRefusal now opts first (phoneToCall opts first node)
    ∃ (ways : List CallWay) (node' : Node) (more : List CallRefusal),
      (∀ world : ChildWorld, world.now = now → world.fidodnszone = zone →
        callSystem world opts addr node overrides =
          { attempts := if world.bsyLock then tryWays world node' ways else []
            refusals := why.toList ++ more }) ∧
      node'.phone = (phoneToCall opts first node).phone ∧ more ⊆ [.host] ∧
      (.modem ∈ ways ↔ why = none) ∧ .stdio ∉ ways ∧
      ∀ way : CallWay, way.isTcpip = true → (way ∈ ways ↔
        way.named (withFlags first node).flags = true ∧
          (zone.isSome = true ∨ tcpipIsgoodHost (hostToCall opts first node).host = true)) := by
  intro opts first why
  have got : overrideGet overrides opts.hiddline = some first := by
    cases overrides <;> rfl
  let flags := (withFlags first (phoneToCall opts first node)).flags
  let kept : List CallWay := if why.isSome then [.binkp, .ifcico, .telnet] else
    [.binkp, .ifcico, .telnet, .modem]
  let named := kept.filter fun way => way.named flags
  let node' := zoneToCall zone addr named
    (hostToCall opts first (withFlags first (phoneToCall opts first node)))
  let noHost := named.any CallWay.isTcpip && !tcpipIsgoodHost node'.host
  have same : flags = (withFlags first node).flags := flags_called opts first node
  have modem : CallWay.modem ∈ kept ↔ why = none := by
    change CallWay.modem ∈ (if why.isSome then _ else _) ↔ _
    cases why with
    | none => exact iff_of_true (by decide : CallWay.modem ∈ [.binkp, .ifcico, .telnet, .modem]) rfl
    | some reason => exact iff_of_false (by decide : CallWay.modem ∉ [.binkp, .ifcico, .telnet]) nofun
  have ips : ∀ way : CallWay, way.isTcpip = true → way ∈ kept := by
    intro way ip
    have always : way ∈ [CallWay.binkp, .ifcico, .telnet] := by
      cases way <;> first | decide | cases ip
    change way ∈ (if why.isSome then _ else _)
    cases why with
    | none => exact List.mem_append_left [CallWay.modem] always
    | some reason => exact always
  have other : CallWay.stdio ∉ kept := by
    change CallWay.stdio ∉ (if why.isSome then _ else _)
    cases why with
    | none => exact (by decide : CallWay.stdio ∉ [.binkp, .ifcico, .telnet, .modem])
    | some reason => exact (by decide : CallWay.stdio ∉ [.binkp, .ifcico, .telnet])
  have within : ∀ way, way ∈ (if noHost then named.filter (!·.isTcpip) else named) ↔
      way ∈ kept ∧ way.named flags = true ∧ (noHost = true → way.isTcpip = false) := by
    intro way
    cases noHost with
    | true =>
      rw [if_pos rfl, List.mem_filter, List.mem_filter, and_assoc, Bool.not_eq_true']
      exact and_congr_right fun _ => and_congr_right fun _ => ⟨fun ip _ => ip, fun ip => ip rfl⟩
    | false =>
      rw [if_neg Bool.false_ne_true, List.mem_filter]
      exact and_congr_right fun _ => (and_iff_left nofun).symm
  refine ⟨if noHost then named.filter (!·.isTcpip) else named, node',
    if noHost then [.host] else [], fun world here there => ?_, calling_phone _ _ _ _ _ _, ?_, ?_, ?_,
    fun way ip => ?_⟩
  · unfold callSystem
    rw [got, here, there]
    have modem : CallWay.modem ∈ [CallWay.binkp, .ifcico, .telnet, .modem] := by decide
    have less : [CallWay.binkp, .ifcico, .telnet, .modem].filter (· ≠ .modem) =
        [.binkp, .ifcico, .telnet] := by decide
    dsimp only [opts, BforceOpts.ways]
    simp only [if_pos modem, less, List.not_mem_nil, decide_false, Bool.and_false, Bool.false_or,
      Bool.false_eq_true, if_false, List.any_nil]
    rfl
  · cases noHost with
    | true => exact List.Subset.refl _
    | false => exact List.nil_subset _
  · rw [within, modem]
    exact and_iff_left ⟨rfl, fun _ => rfl⟩
  · rw [within]
    exact fun left => other left.1
  · rw [within, and_iff_right (ips way ip), same]
    refine and_congr_right fun flagged => ?_
    have some_ : named.any CallWay.isTcpip = true := List.any_eq_true.mpr
      ⟨way, List.mem_filter.mpr ⟨ips way ip, same.symm ▸ flagged⟩, ip⟩
    change ((named.any CallWay.isTcpip && !tcpipIsgoodHost node'.host) = true → _) ↔ _
    rw [some_, zoneToCall_good zone addr named _ some_, host_called, ip]
    cases zone.isSome <;> cases tcpipIsgoodHost (hostToCall opts first node).host <;> decide

/-- The options of the daemon come with no phone. -/
theorem phoneToCall_default (iphost : Option Bytes) (override : Override) (node : Node) :
    (phoneToCall { runmode := .callDefault, iphost := iphost } override node).phone =
      (override.sPhone.map (strnxcpy · (bniMaxphone + 1))).getD node.phone := by
  unfold phoneToCall
  cases override.sPhone <;> rfl

/-- When the first line works. -/
theorem worksNow_first (now : Tm) (iphost : Option Bytes) (override : Override) (node : Node) :
    worksNow now { runmode := .callDefault, iphost := iphost } override node = true ↔
      timevecIsnow override.worktime now = true ∨
        timevecIsdefined override.worktime = false ∧
          ((∃ flags, override.sFlags = some flags ∧ nodelistCheckflag (ascii "CM") flags true = true) ∨
            override.sFlags = none ∧ (nodelistCheckflag (ascii "CM") node.flags true = true ∨
              timevecIsnow node.worktime now = true)) := by
  unfold worksNow
  cases worktime : timevecIsdefined override.worktime with
  | true =>
    rw [if_pos rfl]
    exact (or_iff_left fun other => nomatch other.1).symm
  | false =>
    have never : timevecIsnow override.worktime now = false := by
      unfold timevecIsdefined at worktime
      rw [Bool.not_eq_false', List.isEmpty_iff] at worktime
      rw [worktime]
      rfl
    rw [if_neg Bool.false_ne_true, never, or_iff_right Bool.false_ne_true, and_iff_right rfl]
    cases override.sFlags with
    | none => simp
    | some flags => simp

/-- When there is no reason against the modem. -/
theorem modemRefusal_none (now : Tm) (iphost : Option Bytes) (override : Override) (node : Node) :
    (.phone ∉ (modemRefusal now { runmode := .callDefault, iphost := iphost } override node).toList ∧
      .worktime ∉ (modemRefusal now { runmode := .callDefault, iphost := iphost } override node).toList ↔
        modemRefusal now { runmode := .callDefault, iphost := iphost } override node = none) ∧
      (modemRefusal now { runmode := .callDefault, iphost := iphost } override node = none ↔
        modemIsgoodPhone node.phone = true ∧
          worksNow now { runmode := .callDefault, iphost := iphost } override node = true) := by
  unfold modemRefusal
  cases modemIsgoodPhone node.phone <;> cases worksNow now _ override node <;> simp

/-- The phone has no part in the working time. -/
theorem worksNow_called (now : Tm) (opts : BforceOpts) (override : Override) (node : Node) :
    worksNow now opts override (phoneToCall opts override node) = worksNow now opts override node := by
  unfold worksNow phoneToCall
  repeat' split
  all_goals rfl

/-! ## What the daemon chose -/

/-- An entry without lines can be called if its phone is good and it works now. -/
theorem nodeAnswers {now : Tm} {node : Node}
    (answers : daemonNodeCancallLine now (some node) none = true) :
    modemIsgoodPhone node.phone = true ∧ timevecIsnow node.worktime now = true := by
  unfold daemonNodeCancallLine goodTime goodHost goodPhone at answers
  simp at answers
  exact ⟨answers.2.2, answers.1.2⟩

/-- What was chosen: the entry of the nodelist, or a line for the modem. -/
theorem chooseLine_chosen (look : Look) (syst selected : SysEntry) (tcpip : Bool)
    (chosen : chooseLine look syst tcpip = (true, selected)) :
    selected.node = syst.node ∧ selected.overrides = syst.overrides ∧
      (syst.overrides = [] ∧ selected.line = 0 ∧
          daemonNodeCancallLine (look.now 0) (some syst.node) none = true ∨
        syst.overrides ≠ [] ∧ selected.tcpip = false) := by
  unfold chooseLine at chosen
  split at chosen
  · rename_i empty
    obtain ⟨answers, rfl⟩ := Prod.mk.inj chosen
    exact ⟨rfl, rfl, .inl ⟨List.isEmpty_iff.mp empty, rfl, answers⟩⟩
  · rename_i filled
    split at chosen
    · rename_i line found
      obtain ⟨-, rfl⟩ := Prod.mk.inj chosen
      refine ⟨rfl, rfl, .inr ⟨fun empty => filled (List.isEmpty_iff.mpr empty), ?_⟩⟩
      dsimp only
      cases daemonNodeCancallLine (look.now line) _ syst.overrides[line]? <;> rfl
    · cases (Prod.mk.inj chosen).1

/-- So it is with all that is looked at before. -/
theorem daemonNodeCancall_chosen (look : Look) (called : Bool) (files after : StsFiles)
    (syst selected : SysEntry) (ignWtime tcpip : Bool)
    (chosen : daemonNodeCancall look called files syst ignWtime tcpip = (true, selected, after)) :
    selected.node = syst.node ∧ selected.overrides = syst.overrides ∧
      (syst.overrides = [] ∧ selected.line = 0 ∧
          daemonNodeCancallLine (look.now 0) (some syst.node) none = true ∨
        syst.overrides ≠ [] ∧ selected.tcpip = false) := by
  have held : ∀ (changed : StsFiles) (entry : SysEntry),
      passHold look files syst = some (entry, changed) →
      entry.node = syst.node ∧ entry.overrides = syst.overrides := by
    intro changed entry passed
    unfold passHold at passed
    split at passed
    · split at passed
      · cases passed
        exact ⟨rfl, rfl⟩
      · cases passed
    · cases passed
      exact ⟨rfl, rfl⟩
  have freqs : ∀ (files : StsFiles) (entry : SysEntry),
      (passFreqHold look files entry).2.1.node = entry.node ∧
        (passFreqHold look files entry).2.1.overrides = entry.overrides := by
    intro files entry
    unfold passFreqHold
    split
    · split <;> exact ⟨rfl, rfl⟩
    · exact ⟨rfl, rfl⟩
  unfold daemonNodeCancall at chosen
  split at chosen
  · cases chosen
  · split at chosen
    · cases chosen
    · split at chosen
      · cases chosen
      · split at chosen
        · cases chosen
        · split at chosen
          · cases chosen
          · rename_i entry changed passed
            obtain ⟨node, overrides⟩ := held _ _ passed
            obtain ⟨node', overrides'⟩ := freqs changed entry
            dsimp only at chosen
            split at chosen
            · have goes : chooseLine look (passFreqHold look changed entry).2.1 tcpip =
                  (true, selected) := by
                injection chosen with answers rest
                injection rest with same
                exact Prod.ext answers same
              obtain ⟨node'', overrides'', line⟩ := chooseLine_chosen look _ selected tcpip goes
              rw [node', node] at node'' line
              rw [overrides', overrides] at overrides'' line
              exact ⟨node'', overrides'', line⟩
            · cases chosen

/-! ## The same call -/

/-- A system of the nodelist with a phone, at all times. -/
def phoneSystem : SysEntry :=
  { node := { addr := { zone := 2, net := 5020, node := 1 }, phone := ascii "7-495-1",
              worktime := [⟨0, 6, 0, 1440⟩] } }

/-- Nothing of TCP/IP is named for it. -/
theorem phoneSystem_served : ServedByFirst ⟨0, 12, 0⟩ none none phoneSystem := by
  refine ⟨fun _ => rfl, rfl, by decide, by decide, .inl fun way ip => ?_⟩
  cases way <;> first | rfl | cases ip

end Binkleyforce
