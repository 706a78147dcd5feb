import Binkleyforce.Freq.Processor
import Binkleyforce.Library.Budgets

/-!
# Answers to file requests

What the processor tries to send is a list of names that the areas and the requests alone determine; the
limits and the disk decide how far it gets. From this it follows what the list of files holds after a
request file.
-/

namespace Binkleyforce

/-! ## What is tried -/

section Tries

variable (sys : FreqSystem)

/-- The request an alias answers, which is the first one for it, where its password is right. -/
def aliasAnswers (frl : Frlist) (magic : Bytes) (reqlist : List Reqlist) : Option Nat :=
  match reqlist.findIdx? fun rlist => strcasecmp magic rlist.fmask with
  | none => none
  | some index => if checkpasswd frl.passwd ((reqlist[index]?).bind (·.passwd)) then none else some index

/-- The requests behind an area: the one that an alias answers asks for nothing more. -/
def markAnswered (reqlist : List Reqlist) (frl : Frlist) : List Reqlist :=
  match (filled frl.magic).bind fun magic => aliasAnswers frl magic reqlist with
  | none => reqlist
  | some index => reqlist.modify index fun rlist => { rlist with skip := true }

/-- A file of a directory that the request which decides on it may have. -/
def dirTry (frl : Frlist) (reqlist : List Reqlist) (name : Bytes) : Option Bytes :=
  if name.head? = some 46 then none
  else
    match reqFor reqlist name with
    | none => none
    | some rlist => if checkpasswd frl.passwd rlist.passwd then none else some (frl.path ++ name)

/-- The names that are tried for an area. -/
def areaTries (frl : Frlist) (reqlist : List Reqlist) : List Bytes :=
  match filled frl.magic with
  | some magic => if (aliasAnswers frl magic reqlist).isSome then [frl.path] else []
  | none =>
    match if frl.path.isEmpty then none else sys.readdir frl.path with
    | none => []
    | some names => names.filterMap (dirTry frl reqlist)

/-- The names that are tried, as long as no limit ends the loop. An alias ends it where every request
has been answered. -/
def freqTries : List Frlist → List Reqlist → List Bytes
  | [], _ => []
  | frl :: frlist, reqlist =>
    areaTries sys frl reqlist ++
      if (filled frl.magic).isSome && (markAnswered reqlist frl).all (·.skip) then []
      else freqTries frlist (markAnswered reqlist frl)

variable (conf : FreqConf)

/-- Names are tried until no more files can be sent. -/
def reqAddAll : List Bytes → Freq → Freq × Bool
  | [], freq => (freq, false)
  | fname :: fnames, freq =>
    let (freq, stop) := reqAddfile conf sys fname freq
    if stop then (freq, true) else reqAddAll fnames freq

variable {conf sys}

/-- A name is tried before the others. -/
theorem reqAddAll_cons (fname : Bytes) (fnames : List Bytes) (freq : Freq) :
    reqAddAll sys conf (fname :: fnames) freq =
      if (reqAddfile conf sys fname freq).2 then ((reqAddfile conf sys fname freq).1, true)
      else reqAddAll sys conf fnames (reqAddfile conf sys fname freq).1 := by
  rw [reqAddAll]

/-- Where a list of names is tried, its first part is, and the rest if that did not end it. -/
theorem reqAddAll_append (first second : List Bytes) (freq : Freq) :
    reqAddAll sys conf (first ++ second) freq =
      if (reqAddAll sys conf first freq).2 then reqAddAll sys conf first freq
      else reqAddAll sys conf second (reqAddAll sys conf first freq).1 := by
  induction first generalizing freq with
  | nil => rfl
  | cons fname fnames inductionHypothesis =>
    rw [List.cons_append, reqAddAll_cons, reqAddAll_cons]
    by_cases stopped : (reqAddfile conf sys fname freq).2
    · rw [if_pos stopped, if_pos stopped, if_pos rfl]
    · rw [if_neg stopped, if_neg stopped, inductionHypothesis]

/-- A directory is tried name by name. -/
theorem reqDir_tries (frl : Frlist) (reqlist : List Reqlist) (names : List Bytes) (freq : Freq) :
    reqDir conf sys frl reqlist names freq = reqAddAll sys conf (names.filterMap (dirTry frl reqlist)) freq := by
  induction names generalizing freq with
  | nil => rfl
  | cons name names inductionHypothesis =>
    rw [reqDir, List.filterMap_cons, dirTry]
    by_cases hidden : name.head? = some 46
    · simp only [hidden, if_true, inductionHypothesis]
    · simp only [hidden, if_false]
      cases reqFor reqlist name with
      | none => exact inductionHypothesis _
      | some rlist =>
        cases wrong : checkpasswd frl.passwd rlist.passwd with
        | true => simp only [wrong, if_true, inductionHypothesis]
        | false => simp only [wrong, Bool.false_eq_true, if_false, reqAddAll_cons, inductionHypothesis]

/-- An alias is tried where it answers a request. -/
theorem reqMagic_tries (frl : Frlist) {magic : Bytes} (name : filled frl.magic = some magic)
    (reqlist : List Reqlist) (freq : Freq) :
    reqMagic conf sys frl magic reqlist freq =
      (markAnswered reqlist frl, (reqAddAll sys conf (areaTries sys frl reqlist) freq).1,
        (reqAddAll sys conf (areaTries sys frl reqlist) freq).2 || (markAnswered reqlist frl).all (·.skip)) := by
  obtain found | ⟨index, found⟩ :=
    Option.eq_none_or_eq_some (reqlist.findIdx? fun rlist => strcasecmp magic rlist.fmask)
  · simp [reqMagic, markAnswered, areaTries, aliasAnswers, name, found, reqAddAll]
  · cases wrong : checkpasswd frl.passwd ((reqlist[index]?).bind (·.passwd)) with
    | true => simp [reqMagic, markAnswered, areaTries, aliasAnswers, name, found, wrong, reqAddAll]
    | false =>
      simp only [reqMagic, markAnswered, areaTries, aliasAnswers, name, found, wrong, Option.bind_some,
        Bool.false_eq_true, if_false, Option.isSome_some, if_true, reqAddAll_cons]
      by_cases stopped : (reqAddfile conf sys frl.path freq).2
      · simp [stopped]
      · simp [stopped, reqAddAll]

/-- The internal processor tries these names. -/
theorem reqProcInt_tries (frlist : List Frlist) (reqlist : List Reqlist) (freq : Freq) :
    reqProcInt conf sys frlist reqlist freq = (reqAddAll sys conf (freqTries sys frlist reqlist) freq).1 := by
  induction frlist generalizing reqlist freq with
  | nil => rfl
  | cons frl frlist inductionHypothesis =>
    rw [reqProcInt, freqTries, reqAddAll_append]
    cases name : filled frl.magic with
    | some magic =>
      simp only [reqMagic_tries frl name, Option.isSome_some, Bool.true_and]
      cases stopped : (reqAddAll sys conf (areaTries sys frl reqlist) freq).2 with
      | true => simp
      | false =>
        cases answered : (markAnswered reqlist frl).all (·.skip) with
        | true => simp [reqAddAll]
        | false => simp [inductionHypothesis]
    | none =>
      have unmarked : markAnswered reqlist frl = reqlist := by simp [markAnswered, name]
      simp only [areaTries, name, unmarked, Option.isSome_none, Bool.false_and, Bool.false_eq_true, if_false]
      cases (if frl.path.isEmpty then none else sys.readdir frl.path) with
      | none => simp [reqAddAll, inductionHypothesis]
      | some names =>
        simp only [reqDir_tries]
        cases stopped : (reqAddAll sys conf (names.filterMap (dirTry frl reqlist)) freq).2 with
        | true => simp
        | false => simp [inductionHypothesis]

end Tries

/-! ## What is linked -/

/-- Entries linked one after the other follow what stands before the link. -/
theorem foldl_link (freq : Freq) (inside : freq.flast ≤ freq.filelist.length) (entry : FileEntry)
    (entries : List FileEntry) :
    ((entry :: entries).foldl Freq.link freq).filelist =
      freq.filelist.take freq.flast ++ entry :: entries := by
  induction entries generalizing freq entry with
  | nil => simp [Freq.link]
  | cons next entries inductionHypothesis =>
    have linked : (freq.link entry).flast ≤ (freq.link entry).filelist.length := by
      simp [Freq.link, inside]
    have whole : (freq.link entry).filelist.take (freq.link entry).flast = (freq.link entry).filelist := by
      apply List.take_of_length_le
      simp [Freq.link, inside]
    rw [List.foldl_cons, inductionHypothesis _ linked next, whole]
    simp [Freq.link]

/-- The pointer of a new request is the caller's own: the entries replace what is there. -/
theorem foldl_link_new (filelist entries : List FileEntry) :
    (entries.foldl Freq.link { filelist }).filelist = if entries = [] then filelist else entries := by
  cases entries with
  | nil => rfl
  | cons entry entries => simpa using foldl_link { filelist } (Nat.zero_le _) entry entries

section Limits

variable (conf : FreqConf) (sys : FreqSystem)

/-- The total size keeps to its limit. -/
def FreqConf.fits (total : Nat) : Bool := decide (conf.limitSize = 0 ∨ total ≤ conf.limitSize)

/-- As many entries as the limit on their number allows, where some are there. -/
def FreqConf.counted (number : Nat) (entries : List FileEntry) : List FileEntry :=
  if 0 < conf.fileslimit then entries.take (conf.fileslimit.toNat - number) else entries

/-- The entry of a name that is tried: a regular file. -/
def requestedEntry (fname : Bytes) : Option FileEntry :=
  (sys.stat fname).bind fun st => if st.regular then some (answerEntry fname st.size) else none

variable {conf sys}

/-- Where the limit on the number is not reached, the next entry may be taken. -/
theorem counted_cons {number : Nat} (room : 0 < conf.fileslimit → (number : Int) < conf.fileslimit)
    (entry : FileEntry) (entries : List FileEntry) :
    conf.counted number (entry :: entries) = entry :: conf.counted (number + 1) entries := by
  unfold FreqConf.counted
  split
  · rename_i limited
    have left : conf.fileslimit.toNat - number = (conf.fileslimit.toNat - (number + 1)) + 1 := by
      have := room limited
      omega
    rw [left, List.take_succ_cons]
  · rfl

/-- Where it is reached, no entry is taken. -/
theorem counted_full {number : Nat} (full : 0 < conf.fileslimit ∧ conf.fileslimit ≤ number)
    (entries : List FileEntry) : conf.counted number entries = [] := by
  have none : conf.fileslimit.toNat - number = 0 := by omega
  rw [FreqConf.counted, if_pos full.1, none, List.take_zero]

/-- Where it leaves room for all entries, all are taken. -/
theorem counted_whole {entries : List FileEntry}
    (room : 0 < conf.fileslimit → (entries.length : Int) < conf.fileslimit) : conf.counted 0 entries = entries := by
  unfold FreqConf.counted
  split
  · rename_i limited
    have := room limited
    exact List.take_of_length_le (by omega)
  · rfl

/-- A total that keeps to its limit does so when it is smaller. -/
theorem fits_of_le {a b : Nat} (le : a ≤ b) (fits : conf.fits b) : conf.fits a := by
  simp only [FreqConf.fits, decide_eq_true_eq] at fits ⊢
  omega

/-- The loop asks for the total with another file as the limit on it does. -/
theorem limitSize_fits {used size : Nat} (small : size < 2 ^ 63) (kept : conf.fits used) :
    (0 < conf.limitSize ∧ conf.limitSize < (used % 2 ^ 64 + size) % 2 ^ 64) ↔ ¬ conf.fits (used + size) := by
  have long := conf.long.2
  simp only [FreqConf.fits, decide_eq_true_eq] at kept ⊢
  rcases kept with unlimited | kept
  · simp [unlimited]
  · rw [Nat.mod_eq_of_lt (by omega : used < 2 ^ 64), Nat.mod_eq_of_lt (by omega : used + size < 2 ^ 64)]
    omega

/-- A name that is tried links its entry where the total allows it. -/
theorem reqAddfile_entry (fname : Bytes) (freq : Freq) {used : Nat} (counts : freq.fsize = used % 2 ^ 64)
    (kept : conf.fits used) :
    (reqAddfile conf sys fname freq).1 =
      match requestedEntry sys fname with
      | none => freq
      | some entry => if conf.fits (used + entry.size) then freq.link entry else freq := by
  unfold reqAddfile requestedEntry
  cases sys.stat fname with
  | none => rfl
  | some st =>
    cases regular : st.regular with
    | false => simp [regular]
    | true =>
      simp only [regular, Bool.not_true, Bool.false_eq_true, if_false, counts, limitSize_fits st.fits kept,
        Option.bind_some, if_true, answerEntry]
      by_cases inside : conf.fits (used + st.size)
      · simp [inside]
      · simp [inside]

/-- The loop ends where the number of files reaches its limit. -/
theorem reqAddfile_stop (fname : Bytes) (freq : Freq) :
    (reqAddfile conf sys fname freq).2 = true ↔
      0 < conf.fileslimit ∧ conf.fileslimit ≤ (reqAddfile conf sys fname freq).1.fnumber := by
  simp [reqAddfile]

/-- Below the limit on the number the loop goes on behind a name that links nothing. -/
theorem reqAddAll_unlinked {fname : Bytes} {freq : Freq} (same : (reqAddfile conf sys fname freq).1 = freq)
    (room : 0 < conf.fileslimit → (freq.fnumber : Int) < conf.fileslimit) (fnames : List Bytes) :
    reqAddAll sys conf (fname :: fnames) freq = reqAddAll sys conf fnames freq := by
  have going : ¬ (reqAddfile conf sys fname freq).2 := by
    intro stop
    obtain ⟨limited, reached⟩ := (reqAddfile_stop fname freq).mp stop
    rw [same] at reached
    exact absurd (room limited) (Int.not_lt.mpr reached)
  rw [reqAddAll_cons, if_neg going, same]

/-- What trying the names links: the regular files, as the limits allow. -/
theorem reqAddAll_entries (fnames : List Bytes) (freq : Freq) {used : Nat} (counts : freq.fsize = used % 2 ^ 64)
    (kept : conf.fits used) (room : 0 < conf.fileslimit → (freq.fnumber : Int) < conf.fileslimit) :
    (reqAddAll sys conf fnames freq).1 =
      (conf.counted freq.fnumber
        (Library.chosen FileEntry.size conf.fits used (fnames.filterMap (requestedEntry sys)))).foldl
          Freq.link freq := by
  induction fnames generalizing freq used with
  | nil => simp [reqAddAll, Library.chosen, FreqConf.counted]
  | cons fname fnames inductionHypothesis =>
    have added := @reqAddfile_entry conf sys fname freq _ counts kept
    rw [List.filterMap_cons]
    cases found : requestedEntry sys fname with
    | none =>
      rw [reqAddAll_unlinked (by simpa only [found] using added) room]
      exact inductionHypothesis freq counts kept room
    | some entry =>
      rw [found] at added
      by_cases inside : conf.fits (used + entry.size)
      · simp only [inside, if_true] at added
        have stops := @reqAddfile_stop conf sys fname freq
        rw [added] at stops
        rw [reqAddAll_cons, added]
        simp only [Library.chosen, inside, if_true]
        rw [counted_cons room, List.foldl_cons]
        have counts' : (freq.link entry).fsize = (used + entry.size) % 2 ^ 64 := by
          simp only [Freq.link, counts]
          omega
        split
        · rename_i stop
          have full : 0 < conf.fileslimit ∧ conf.fileslimit ≤ ((freq.fnumber + 1 : Nat) : Int) := stops.mp stop
          rw [counted_full full]
          rfl
        · rename_i going
          apply inductionHypothesis (freq.link entry) counts' inside
          intro limited
          by_contra reached
          exact going (stops.mpr ⟨limited, by omega⟩)
      · rw [reqAddAll_unlinked (by simpa [inside] using added) room]
        simp only [Library.chosen, inside]
        exact inductionHypothesis freq counts kept room

variable (conf sys)

/-- What a request file is answered with. -/
def requestAnswers (reqname : Bytes) : List FileEntry :=
  match filled conf.srifCommand with
  | some _ => (sys.answerList.toList.flatMap chompedLines).filterMap (answerLine sys)
  | none =>
    match reqReadwazooreq (sys.read reqname) conf.ignoreMasks with
    | none => []
    | some reqlist =>
      conf.counted 0 (Library.chosen FileEntry.size conf.fits 0
        ((freqTries sys (freqAreas conf sys) reqlist).filterMap (requestedEntry sys)))

variable {conf sys}

/-- The answers take the place of the list, unless there are none. -/
theorem reqProc_answers (reqname : Bytes) (filelist : List FileEntry) :
    reqProc conf sys reqname filelist =
      if requestAnswers conf sys reqname = [] then filelist else requestAnswers conf sys reqname := by
  unfold reqProc requestAnswers
  cases filled conf.srifCommand with
  | some command =>
    cases sys.answerList with
    | none => rfl
    | some content =>
      have one : (some content).toList.flatMap chompedLines = chompedLines content := by simp
      simp only [reqAddfilelist, foldl_link_new, one]
  | none =>
    cases reqReadwazooreq (sys.read reqname) conf.ignoreMasks with
    | none => rfl
    | some reqlist =>
      have kept : conf.fits 0 := by simp [FreqConf.fits]
      simp only [reqProcInt_tries]
      rw [reqAddAll_entries _ { filelist } (show _ = 0 % 2 ^ 64 from rfl) kept (fun limited => limited)]
      exact foldl_link_new filelist _

/-- With an empty list the answers are all there is. -/
theorem reqProc_empty (reqname : Bytes) : reqProc conf sys reqname [] = requestAnswers conf sys reqname := by
  rw [reqProc_answers]
  split
  · rename_i nothing
    exact nothing.symm
  · rfl

end Limits

end Binkleyforce
