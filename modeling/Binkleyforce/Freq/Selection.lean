import Binkleyforce.Freq.Answers

/-!
# What request files get

The areas and the requests select the names that are tried: of each file one request decides, and the loop
goes on until every request has been answered behind an alias. What the processor gives is compared with
what the requests are entitled to, and the list it leaves with the one it found.
-/

namespace Binkleyforce

/-! ## What is selected -/

section Selection

variable (sys : FreqSystem)

/-- A request names a file of an area: the file of an alias by the alias, one of a directory by a mask. -/
def Asks (frl : Frlist) (rlist : Reqlist) (fname : Bytes) : Prop :=
  (∃ magic, filled frl.magic = some magic ∧ strcasecmp magic rlist.fmask ∧ fname = frl.path) ∨
    (filled frl.magic = none ∧ ∃ names name, sys.readdir frl.path = some names ∧ name ∈ names ∧
      name.head? ≠ some 46 ∧ strcasemask name rlist.fmask ∧ fname = frl.path ++ name)

/-- The request has the password of the area, if that has one. -/
def Grants (frl : Frlist) (rlist : Reqlist) : Prop :=
  ∀ pwd, filled frl.passwd = some pwd → ∃ gotpwd, rlist.passwd = some gotpwd ∧ strcasecmp pwd gotpwd

/-- The request decides on a file of the area: the first one for an alias, or among those that no alias
has answered the first that names a file of a directory. -/
def Decides (reqlist : List Reqlist) (frl : Frlist) (rlist : Reqlist) (fname : Bytes) : Prop :=
  (∃ magic, filled frl.magic = some magic ∧ reqlist.find? (fun rlist => strcasecmp magic rlist.fmask) = some rlist ∧
      fname = frl.path) ∨
    (filled frl.magic = none ∧ ∃ names name, frl.path ≠ [] ∧ sys.readdir frl.path = some names ∧ name ∈ names ∧
      name.head? ≠ some 46 ∧ reqFor reqlist name = some rlist ∧ fname = frl.path ++ name)

/-- The loop goes on behind these areas: there is no alias among them, or not every request has been
answered. -/
def Reached (reqlist : List Reqlist) (before : List Frlist) : Prop :=
  (∀ frl ∈ before, filled frl.magic = none) ∨ (before.foldl markAnswered reqlist).all (·.skip) = false

/-- The areas and the requests select a file: in an area that is reached, the request that decides on it
has the password. -/
def Selects (areas : List Frlist) (reqlist : List Reqlist) (fname : Bytes) : Prop :=
  ∃ before frl after rlist, areas = before ++ frl :: after ∧ Reached reqlist before ∧
    Decides sys (before.foldl markAnswered reqlist) frl rlist fname ∧ Grants frl rlist

/-- A request as it was read. -/
def Reqlist.unanswered (rlist : Reqlist) : Reqlist := { rlist with skip := false }

/-- The password is not wrong where the request has the one of the area. -/
theorem checkpasswd_iff (frl : Frlist) (rlist : Reqlist) :
    checkpasswd frl.passwd rlist.passwd = false ↔ Grants frl rlist := by
  unfold checkpasswd Grants
  cases filled frl.passwd with
  | none => simp
  | some pwd => cases rlist.passwd with
    | none => simp
    | some gotpwd => simp

/-- An alias answers the first request for it, where that has the password. -/
theorem aliasAnswers_iff {frl : Frlist} {magic : Bytes} {reqlist : List Reqlist} :
    (aliasAnswers frl magic reqlist).isSome ↔
      ∃ rlist, reqlist.find? (fun rlist => strcasecmp magic rlist.fmask) = some rlist ∧ Grants frl rlist := by
  rw [List.find?_eq_bind_findIdx?_getElem?]
  unfold aliasAnswers
  cases found : reqlist.findIdx? fun rlist => strcasecmp magic rlist.fmask with
  | none => simp
  | some index =>
    obtain ⟨inside, -⟩ := List.findIdx?_eq_some_iff_getElem.mp found
    simp only [Option.bind_some, List.getElem?_eq_getElem inside, Option.some.injEq, exists_eq_left',
      ← checkpasswd_iff]
    cases checkpasswd frl.passwd reqlist[index].passwd <;> simp

/-- A file of a directory is tried where the request that decides on it has the password. -/
theorem dirTry_iff {frl : Frlist} {reqlist : List Reqlist} {name fname : Bytes} :
    dirTry frl reqlist name = some fname ↔
      name.head? ≠ some 46 ∧ ∃ rlist, reqFor reqlist name = some rlist ∧ Grants frl rlist ∧
        fname = frl.path ++ name := by
  unfold dirTry
  by_cases hidden : name.head? = some 46
  · simp [hidden]
  · cases reqFor reqlist name with
    | none => simp [hidden]
    | some rlist =>
      simp only [hidden, if_false, ne_eq, not_false_eq_true, true_and, Option.some.injEq, exists_eq_left',
        ← checkpasswd_iff]
      cases checkpasswd frl.passwd rlist.passwd <;> simp [eq_comm]

variable {sys}

/-- What is tried for an area is what a request with its password decides on. -/
theorem mem_areaTries_iff {frl : Frlist} {reqlist : List Reqlist} {fname : Bytes} :
    fname ∈ areaTries sys frl reqlist ↔ ∃ rlist, Decides sys reqlist frl rlist fname ∧ Grants frl rlist := by
  unfold areaTries Decides
  cases filled frl.magic with
  | some magic =>
    have answers := @aliasAnswers_iff frl magic reqlist
    constructor
    · intro tried
      dsimp only at tried
      split at tried
      · rename_i answered
        obtain ⟨rlist, asked, grants⟩ := answers.mp answered
        exact ⟨rlist, .inl ⟨magic, rfl, asked, List.mem_singleton.mp tried⟩, grants⟩
      · simp at tried
    · rintro ⟨rlist, ⟨_, ⟨⟩, asked, file⟩ | ⟨⟨⟩, -⟩, grants⟩
      simp [answers.mpr ⟨rlist, asked, grants⟩, file]
  | none =>
    by_cases empty : frl.path = []
    · simp [empty]
    · have path : frl.path.isEmpty = false := by simpa using empty
      simp only [path, Bool.false_eq_true, if_false]
      cases sys.readdir frl.path with
      | none => simp
      | some names =>
        simp only [List.mem_filterMap, dirTry_iff]
        constructor
        · rintro ⟨name, there, shown, rlist, asked, grants, file⟩
          exact ⟨rlist, .inr ⟨trivial, names, name, empty, rfl, there, shown, asked, file⟩, grants⟩
        · rintro ⟨rlist, ⟨_, ⟨⟩, -⟩ | ⟨-, _, name, -, ⟨⟩, there, shown, asked, file⟩, grants⟩
          exact ⟨name, there, shown, rlist, asked, grants, file⟩

/-- A request that decides names the file. -/
theorem Decides.asks {reqlist : List Reqlist} {frl : Frlist} {rlist : Reqlist} {fname : Bytes}
    (decides : Decides sys reqlist frl rlist fname) : rlist ∈ reqlist ∧ Asks sys frl rlist fname := by
  rcases decides with ⟨magic, name, asked, file⟩ | ⟨name, names, entry, -, read, there, shown, asked, file⟩
  · exact ⟨List.mem_of_find?_eq_some asked, .inl ⟨magic, name, by simpa using List.find?_some asked, file⟩⟩
  · have request := List.find?_some asked
    rw [Bool.and_eq_true] at request
    exact ⟨List.mem_of_find?_eq_some asked, .inr ⟨name, names, entry, read, there, shown, request.2, file⟩⟩

/-- An answered request asks for what it asked before. -/
theorem markAnswered_unanswered (reqlist : List Reqlist) (frl : Frlist) :
    (markAnswered reqlist frl).map Reqlist.unanswered = reqlist.map Reqlist.unanswered := by
  unfold markAnswered
  split
  · rfl
  · rename_i index _
    apply List.ext_getElem?
    intro position
    simp only [List.getElem?_map, List.getElem?_modify]
    cases reqlist[position]? with
    | none => rfl
    | some rlist =>
      by_cases here : index = position
      · simp [here, Reqlist.unanswered]
      · simp [here]

/-- So it does after any number of areas. -/
theorem foldl_markAnswered_unanswered (areas : List Frlist) (reqlist : List Reqlist) :
    (areas.foldl markAnswered reqlist).map Reqlist.unanswered = reqlist.map Reqlist.unanswered := by
  induction areas generalizing reqlist with
  | nil => rfl
  | cons frl areas inductionHypothesis => rw [List.foldl_cons, inductionHypothesis, markAnswered_unanswered]

/-- An answered request stays answered. -/
theorem markAnswered_skip {reqlist : List Reqlist} {frl : Frlist} (answered : reqlist.all (·.skip)) :
    (markAnswered reqlist frl).all (·.skip) := by
  unfold markAnswered
  split
  · exact answered
  · rename_i index _
    rw [List.all_eq_true] at answered ⊢
    intro rlist there
    obtain ⟨position, here⟩ := List.mem_iff_getElem?.mp there
    rw [List.getElem?_modify] at here
    cases request : reqlist[position]? with
    | none => simp [request] at here
    | some before =>
      have old := answered before (List.mem_of_getElem? request)
      by_cases at' : index = position
      · simp only [request, at', if_true, Option.map_eq_map, Option.map_some, Option.some.injEq] at here
        rw [← here]
      · simp only [request, at', if_false, Option.map_eq_map, Option.map_some, Option.some.injEq] at here
        rw [← here]
        exact old

/-- Where all requests have been answered, they stay so over all areas. -/
theorem foldl_markAnswered_skip (areas : List Frlist) {reqlist : List Reqlist} (answered : reqlist.all (·.skip)) :
    (areas.foldl markAnswered reqlist).all (·.skip) := by
  induction areas generalizing reqlist with
  | nil => exact answered
  | cons frl areas inductionHypothesis => exact inductionHypothesis (markAnswered_skip answered)

/-- Directories answer no request. -/
theorem foldl_markAnswered_dirs {areas : List Frlist} (dirs : ∀ frl ∈ areas, filled frl.magic = none)
    (reqlist : List Reqlist) : areas.foldl markAnswered reqlist = reqlist := by
  induction areas with
  | nil => rfl
  | cons frl areas inductionHypothesis =>
    have unmarked : markAnswered reqlist frl = reqlist := by simp [markAnswered, dirs frl List.mem_cons_self]
    rw [List.foldl_cons, unmarked]
    exact inductionHypothesis fun area there => dirs area (List.mem_cons_of_mem _ there)

/-- The loop goes on behind an area and others where it does behind the area, and then behind the others. -/
theorem reached_cons (reqlist : List Reqlist) (frl : Frlist) (before : List Frlist) :
    Reached reqlist (frl :: before) ↔
      ¬ ((filled frl.magic).isSome && (markAnswered reqlist frl).all (·.skip)) ∧
        Reached (markAnswered reqlist frl) before := by
  unfold Reached
  rw [List.foldl_cons, List.forall_mem_cons]
  cases ended : (markAnswered reqlist frl).all (·.skip) with
  | true =>
    have answered := @foldl_markAnswered_skip before _ ended
    cases filled frl.magic <;> simp [answered]
  | false =>
    cases filled frl.magic with
    | none => simp
    | some magic =>
      have rest : (∀ area ∈ before, filled area.magic = none) →
          (before.foldl markAnswered (markAnswered reqlist frl)).all (·.skip) = false := fun dirs => by
        rw [foldl_markAnswered_dirs dirs, ended]
      simpa using rest

/-- A file is selected by the first area or by those behind it, if the loop goes on. -/
theorem selects_cons (frl : Frlist) (areas : List Frlist) (reqlist : List Reqlist) (fname : Bytes) :
    Selects sys (frl :: areas) reqlist fname ↔
      (∃ rlist, Decides sys reqlist frl rlist fname ∧ Grants frl rlist) ∨
        ¬ ((filled frl.magic).isSome && (markAnswered reqlist frl).all (·.skip)) ∧
          Selects sys areas (markAnswered reqlist frl) fname := by
  constructor
  · rintro ⟨before, area, after, rlist, parts, reached, decides, grants⟩
    cases before with
    | nil =>
      obtain ⟨rfl, rfl⟩ := List.cons.inj parts
      exact .inl ⟨rlist, decides, grants⟩
    | cons first before =>
      obtain ⟨rfl, rest⟩ := List.cons.inj parts
      obtain ⟨going, later⟩ := (reached_cons _ _ _).mp reached
      exact .inr ⟨going, before, area, after, rlist, rest, later, decides, grants⟩
  · rintro (⟨rlist, decides, grants⟩ | ⟨going, before, area, after, rlist, rest, later, decides, grants⟩)
    · exact ⟨[], frl, areas, rlist, rfl, .inl (by simp), decides, grants⟩
    · exact ⟨frl :: before, area, after, rlist, by rw [rest, List.cons_append],
        (reached_cons _ _ _).mpr ⟨going, later⟩, decides, grants⟩

/-- The names that are tried are those that are selected. -/
theorem mem_freqTries_iff {areas : List Frlist} {reqlist : List Reqlist} {fname : Bytes} :
    fname ∈ freqTries sys areas reqlist ↔ Selects sys areas reqlist fname := by
  induction areas generalizing reqlist with
  | nil => simp [freqTries, Selects]
  | cons frl areas inductionHypothesis =>
    rw [freqTries, List.mem_append, mem_areaTries_iff, selects_cons]
    refine or_congr_right ?_
    split
    · rename_i ended
      simp [ended]
    · rename_i going
      rw [inductionHypothesis, and_iff_right going]

/-- A selected file is named by a request with the password of its area. -/
theorem Selects.asks {areas : List Frlist} {reqlist : List Reqlist} {fname : Bytes}
    (selected : Selects sys areas reqlist fname) :
    ∃ frl ∈ areas, ∃ rlist ∈ reqlist.map Reqlist.unanswered, Grants frl rlist ∧ Asks sys frl rlist fname := by
  obtain ⟨before, frl, after, rlist, rfl, -, decides, grants⟩ := selected
  obtain ⟨there, asks⟩ := decides.asks
  refine ⟨frl, by simp, rlist.unanswered, ?_, grants, asks⟩
  rw [← foldl_markAnswered_unanswered before]
  exact List.mem_map_of_mem there

end Selection

/-! ## What the processor gives -/

section Answers

variable {conf : FreqConf} {sys : FreqSystem} {reqname : Bytes} {reqlist : List Reqlist}

/-- The selected files, as far as the limit on the total size leaves room for them. -/
def withinSize (conf : FreqConf) (sys : FreqSystem) (reqname : Bytes) : List FileEntry :=
  match reqReadwazooreq (sys.read reqname) conf.ignoreMasks with
  | none => []
  | some reqlist =>
    Library.chosen FileEntry.size conf.fits 0
      ((freqTries sys (freqAreas conf sys) reqlist).filterMap (requestedEntry sys))

/-- The internal processor answers with what the limit on the number leaves of them. -/
theorem reqProc_withinSize (internal : filled conf.srifCommand = none) (sys : FreqSystem) (reqname : Bytes) :
    reqProc conf sys reqname [] = conf.counted 0 (withinSize conf sys reqname) := by
  rw [reqProc_empty]
  unfold requestAnswers withinSize
  simp only [internal]
  cases reqReadwazooreq (sys.read reqname) conf.ignoreMasks with
  | none => simp [FreqConf.counted]
  | some reqlist => rfl

/-- They are chosen among the entries of the names that are tried. -/
theorem withinSize_read (read : reqReadwazooreq (sys.read reqname) conf.ignoreMasks = some reqlist) :
    withinSize conf sys reqname = Library.chosen FileEntry.size conf.fits 0
      ((freqTries sys (freqAreas conf sys) reqlist).filterMap (requestedEntry sys)) := by
  simp only [withinSize, read]

/-- As many entries as the limit allows are some of them. -/
theorem counted_sublist (number : Nat) (entries : List FileEntry) :
    List.Sublist (conf.counted number entries) entries := by
  unfold FreqConf.counted
  split
  · exact List.take_sublist _ _
  · exact List.Sublist.refl _

/-- The entry of a name that is tried has this name. -/
theorem requestedEntry_fname {fname : Bytes} {entry : FileEntry} (found : requestedEntry sys fname = some entry) :
    entry.fname = fname := by
  obtain ⟨st, -, regular⟩ := Option.bind_eq_some_iff.mp found
  split at regular
  · rw [← Option.some.inj regular]
    rfl
  · simp at regular

/-- What is given away is a regular file that is selected. -/
theorem answers_selected (internal : filled conf.srifCommand = none)
    (read : reqReadwazooreq (sys.read reqname) conf.ignoreMasks = some reqlist) {entry : FileEntry}
    (sent : entry ∈ reqProc conf sys reqname []) :
    requestedEntry sys entry.fname = some entry ∧ Selects sys (freqAreas conf sys) reqlist entry.fname := by
  rw [reqProc_withinSize internal, withinSize_read read] at sent
  have tried := (Library.chosen_sublist _ _).subset ((counted_sublist _ _).subset sent)
  obtain ⟨fname, name, found⟩ := List.mem_filterMap.mp tried
  rw [requestedEntry_fname found]
  exact ⟨found, mem_freqTries_iff.mp name⟩

/-- A selected file is withheld only where one of the limits leaves no room for it. -/
theorem selected_answered (internal : filled conf.srifCommand = none)
    (read : reqReadwazooreq (sys.read reqname) conf.ignoreMasks = some reqlist) {fname : Bytes} {entry : FileEntry}
    (selected : Selects sys (freqAreas conf sys) reqlist fname) (regular : requestedEntry sys fname = some entry) :
    entry ∈ reqProc conf sys reqname [] ∨
      (0 < conf.fileslimit ∧ ((reqProc conf sys reqname []).length : Int) = conf.fileslimit) ∨
      0 < conf.limitSize ∧
        conf.limitSize < Library.total FileEntry.size (reqProc conf sys reqname []) + entry.size := by
  rw [reqProc_withinSize internal, withinSize_read read]
  have tried := List.mem_filterMap.mpr ⟨fname, mem_freqTries_iff.mpr selected, regular⟩
  generalize (freqTries sys (freqAreas conf sys) reqlist).filterMap (requestedEntry sys) = entries at tried ⊢
  by_cases sent : entry ∈ conf.counted 0 (Library.chosen FileEntry.size conf.fits 0 entries)
  · exact .inl sent
  right
  by_cases full : 0 < conf.fileslimit ∧
      conf.fileslimit ≤ (Library.chosen FileEntry.size conf.fits 0 entries).length
  · left
    rw [FreqConf.counted, if_pos full.1, List.length_take]
    omega
  · right
    -- The number leaves room, so every entry that fits the total size is taken.
    have whole : conf.counted 0 (Library.chosen FileEntry.size conf.fits 0 entries) =
        Library.chosen FileEntry.size conf.fits 0 entries :=
      counted_whole fun limited => by omega
    rw [whole] at sent ⊢
    have outside := Library.chosen_left_out (fun _ _ => @fits_of_le conf _ _) 0 tried sent
    simp only [FreqConf.fits, decide_eq_true_eq] at outside
    omega

end Answers

/-- The internal processor gives away nothing but regular files of its areas, each asked for by a request
that has the password of the area. -/
theorem answers_asked (conf : FreqConf) (sys : FreqSystem) (reqname : Bytes) (reqlist : List Reqlist)
    (internal : filled conf.srifCommand = none)
    (read : reqReadwazooreq (sys.read reqname) conf.ignoreMasks = some reqlist) (entry : FileEntry)
    (sent : entry ∈ reqProc conf sys reqname []) :
    requestedEntry sys entry.fname = some entry ∧
      ∃ frl ∈ freqAreas conf sys, ∃ rlist ∈ reqlist.map Reqlist.unanswered,
        Grants frl rlist ∧ Asks sys frl rlist entry.fname := by
  obtain ⟨regular, selected⟩ := answers_selected internal read sent
  exact ⟨regular, selected.asks⟩

/-! ## What the requests are entitled to -/

section Entitled

/-- The file is newer and older than the request wants it, where that says so. -/
def Meets (rlist : Reqlist) (mtime : Int) : Prop :=
  (rlist.newer = 0 ∨ rlist.newer < mtime) ∧ (rlist.older = 0 ∨ mtime < rlist.older)

/-- Some request names the file with the password of an area, and the file meets its times. -/
def Entitled (conf : FreqConf) (sys : FreqSystem) (mtime : Bytes → Int) (reqlist : List Reqlist) (fname : Bytes) :
    Prop :=
  ∃ frl ∈ freqAreas conf sys, ∃ rlist ∈ reqlist, Grants frl rlist ∧ Asks sys frl rlist fname ∧
    Meets rlist (mtime fname)

/-- What is given away is what the requests are entitled to, as long as the limits allow. -/
def GivesRight (conf : FreqConf) (sys : FreqSystem) (mtime : Bytes → Int) (reqname : Bytes)
    (reqlist : List Reqlist) : Prop :=
  (∀ entry ∈ reqProc conf sys reqname [], Entitled conf sys mtime reqlist entry.fname) ∧
  ∀ fname entry, Entitled conf sys mtime reqlist fname → requestedEntry sys fname = some entry →
    entry ∈ reqProc conf sys reqname [] ∨
      (0 < conf.fileslimit ∧ ((reqProc conf sys reqname []).length : Int) = conf.fileslimit) ∨
      0 < conf.limitSize ∧
        conf.limitSize < Library.total FileEntry.size (reqProc conf sys reqname []) + entry.size

/-- Limits on the number and the total size of the files. -/
structure FreqLimits where
  number : Nat
  size : Nat
  long : number < 2 ^ 63 ∧ size < 2 ^ 63

/-- The processor with other limits. -/
def FreqConf.limited (conf : FreqConf) (limits : FreqLimits) : FreqConf :=
  { conf with limitNumber := limits.number, limitSize := limits.size, long := limits.long }

/-- Whatever the limits are, the requests get what they are entitled to: so it is where the regular files
that are selected are those that some request is entitled to, and not otherwise. -/
theorem gives_right_iff (conf : FreqConf) (sys : FreqSystem) (mtime : Bytes → Int) (reqname : Bytes)
    (reqlist : List Reqlist) (internal : filled conf.srifCommand = none)
    (read : reqReadwazooreq (sys.read reqname) conf.ignoreMasks = some reqlist) :
    (∀ limits, GivesRight (conf.limited limits) sys mtime reqname reqlist) ↔
      ∀ fname entry, requestedEntry sys fname = some entry →
        (Selects sys (freqAreas conf sys) reqlist fname ↔ Entitled conf sys mtime reqlist fname) := by
  constructor
  · intro right fname entry regular
    -- Without limits every selected file is given away.
    obtain ⟨sound, complete⟩ := right ⟨0, 0, by decide⟩
    have unlimited : (conf.limited ⟨0, 0, by decide⟩).fileslimit = 0 := show Int.bmod 0 (2 ^ 32) = 0 by decide
    have name := requestedEntry_fname regular
    constructor
    · intro selected
      rcases @selected_answered (conf.limited ⟨0, 0, by decide⟩) sys reqname reqlist internal read fname entry
        selected regular with sent | ⟨limit, -⟩ | ⟨limit, -⟩
      · exact name ▸ sound entry sent
      · omega
      · exact absurd limit (Nat.lt_irrefl 0)
    · intro entitled
      rcases complete fname entry entitled regular with sent | ⟨limit, -⟩ | ⟨limit, -⟩
      · exact name ▸ (@answers_selected (conf.limited ⟨0, 0, by decide⟩) sys reqname reqlist internal read entry
          sent).2
      · omega
      · exact absurd limit (Nat.lt_irrefl 0)
  · intro same limits
    constructor
    · intro entry sent
      obtain ⟨regular, selected⟩ :=
        @answers_selected (conf.limited limits) sys reqname reqlist internal read entry sent
      exact (same entry.fname entry regular).mp selected
    · intro fname entry entitled regular
      exact @selected_answered (conf.limited limits) sys reqname reqlist internal read fname entry
        ((same fname entry regular).mpr entitled) regular

/-- A processor that takes its directories from a list. -/
def oneDirConf : FreqConf := { limitNumber := 2, limitSize := 100, dirList := some [100] }

/-- A directory with a password, with one file in it, and a request file. -/
def oneDirSystem (request : Bytes) : FreqSystem where
  read name :=
    if name = [114] then some request
    else if name = [100] then some [47, 112, 32, 33, 112, 10] else none
  stat name := if name = [47, 112, 47, 97] then some ⟨true, 50, by decide⟩ else none
  readdir name := if name = [47, 112, 47] then some [[97]] else none

/-- The request for its file with its password. -/
def oneFile : Bytes := [97, 32, 33, 112, 10]

/-- A request for it with another password. -/
def wrongFirst : Bytes := [97, 32, 33, 120, 10]

/-- A request for it with the password, if it is newer. -/
def newerFile : Bytes := [97, 32, 33, 112, 32, 45, 57, 10]

/-- The directory as an area. -/
def oneArea : Frlist := { path := [47, 112, 47], passwd := some [112] }

/-- The request for its file with its password, as it is read. -/
def oneRequest : Reqlist := { fmask := [97], passwd := some [112] }

/-- The request is entitled to the file, among any others. -/
theorem oneRequest_entitled (request : Bytes) (mtime : Bytes → Int) {reqlist : List Reqlist}
    (asked : oneRequest ∈ reqlist) :
    Entitled oneDirConf (oneDirSystem request) mtime reqlist [47, 112, 47, 97] := by
  have area : freqAreas oneDirConf (oneDirSystem request) = [oneArea] :=
    show freqAreas oneDirConf (oneDirSystem []) = [oneArea] by decide +kernel
  refine ⟨oneArea, area ▸ List.mem_singleton_self _, oneRequest, asked, ?_, ?_, .inl rfl, .inl rfl⟩
  · exact (checkpasswd_iff oneArea oneRequest).mp (by decide)
  · exact .inr ⟨by decide, [[97]], [97], rfl, List.mem_singleton_self _, by decide, by decide +kernel, rfl⟩

/-- A request alone gets the file it has the password for, whatever the limits are. -/
theorem gives_right_one_request :
    reqReadwazooreq ((oneDirSystem oneFile).read [114]) none = some [oneRequest] ∧
      ∀ limits, GivesRight (oneDirConf.limited limits) (oneDirSystem oneFile) (fun _ => 5) [114] [oneRequest] := by
  have read : reqReadwazooreq ((oneDirSystem oneFile).read [114]) none = some [oneRequest] := by decide +kernel
  refine ⟨read, (gives_right_iff oneDirConf (oneDirSystem oneFile) (fun _ => 5) [114] [oneRequest] rfl read).mpr ?_⟩
  intro fname entry regular
  have name : fname = [47, 112, 47, 97] := by
    by_contra other
    simp [requestedEntry, oneDirSystem, other] at regular
  subst name
  refine iff_of_true ?_ (oneRequest_entitled _ _ (List.mem_singleton_self _))
  refine ⟨[], oneArea, [], oneRequest, by decide +kernel, .inl (by simp), .inr ?_, ?_⟩
  · exact ⟨by decide, [[97]], [97], by decide, rfl, List.mem_singleton_self _, by decide, by decide +kernel, rfl⟩
  · exact (checkpasswd_iff oneArea oneRequest).mp (by decide)

/-- A request with another password in front of the right one withholds the file, and a request for a newer
file gets the old one. -/
theorem withheld_and_outdated :
    (∃ reqlist, reqReadwazooreq ((oneDirSystem (wrongFirst ++ oneFile)).read [114]) none = some reqlist ∧
      ¬ ∀ limits, GivesRight (oneDirConf.limited limits) (oneDirSystem (wrongFirst ++ oneFile)) (fun _ => 5) [114]
        reqlist) ∧
    ∃ reqlist, reqReadwazooreq ((oneDirSystem newerFile).read [114]) none = some reqlist ∧
      ¬ ∀ limits, GivesRight (oneDirConf.limited limits) (oneDirSystem newerFile) (fun _ => 5) [114] reqlist := by
  constructor
  · refine ⟨[{ fmask := [97], passwd := some [120] }, oneRequest], by decide +kernel, fun right => ?_⟩
    have entitled : Entitled oneDirConf (oneDirSystem (wrongFirst ++ oneFile)) (fun _ => 5)
        [{ fmask := [97], passwd := some [120] }, oneRequest] [47, 112, 47, 97] :=
      oneRequest_entitled _ _ (List.mem_cons_of_mem _ (List.mem_singleton_self _))
    have given := (right ⟨0, 0, by decide⟩).2 _ (answerEntry [47, 112, 47, 97] 50) entitled rfl
    have nothing : reqProc (oneDirConf.limited ⟨0, 0, by decide⟩) (oneDirSystem (wrongFirst ++ oneFile)) [114] [] =
        [] := by decide +kernel
    rw [nothing] at given
    rcases given with sent | ⟨limit, -⟩ | ⟨limit, -⟩
    · exact absurd sent List.not_mem_nil
    · exact absurd limit (by decide)
    · exact absurd limit (by decide)
  · refine ⟨[{ oneRequest with newer := 9 }], by decide +kernel, fun right => ?_⟩
    have sent : answerEntry [47, 112, 47, 97] 50 ∈
        reqProc (oneDirConf.limited ⟨0, 0, by decide⟩) (oneDirSystem newerFile) [114] [] := by decide +kernel
    obtain ⟨-, -, rlist, asked, -, -, newer, -⟩ := (right ⟨0, 0, by decide⟩).1 _ sent
    obtain rfl := List.mem_singleton.mp asked
    revert newer
    decide

end Entitled

/-! ## Several request files -/

section Lists

variable (conf : FreqConf)

/-- The list after some request files, each met with its own system. -/
def afterRequests (requests : List (FreqSystem × Bytes)) (filelist : List FileEntry) : List FileEntry :=
  requests.foldl (fun list request => reqProc conf request.1 request.2 list) filelist

/-- A request file has an answer: the external processor lists a file that is there, or the requests
select a regular file that keeps to the limit on the total size. -/
def HasAnswer (request : FreqSystem × Bytes) : Prop :=
  match filled conf.srifCommand with
  | some _ => ∃ content, request.1.answerList = some content ∧ ∃ line ∈ chompedLines content,
      line ≠ [] ∧ ∃ st, request.1.stat (answerAction line).2 = some st
  | none => ∃ reqlist, reqReadwazooreq (request.1.read request.2) conf.ignoreMasks = some reqlist ∧
      ∃ fname st, Selects request.1 (freqAreas conf request.1) reqlist fname ∧
        request.1.stat fname = some st ∧ st.regular ∧ (conf.limitSize = 0 ∨ st.size ≤ conf.limitSize)

/-- Each request file leaves the entries in the list before and adds its own answers behind them. -/
def AnswersKept (requests : List (FreqSystem × Bytes)) (filelist : List FileEntry) : Prop :=
  ∀ before request after, requests = before ++ request :: after →
    reqProc conf request.1 request.2 (afterRequests conf before filelist) =
      afterRequests conf before filelist ++ reqProc conf request.1 request.2 []

/-- The answers of the internal processor keep within the limits of the configuration. -/
def LimitsKept (request : FreqSystem × Bytes) : Prop :=
  filled conf.srifCommand = none →
    (0 < conf.limitNumber → (reqProc conf request.1 request.2 []).length ≤ conf.limitNumber) ∧
    (0 < conf.limitSize → Library.total FileEntry.size (reqProc conf request.1 request.2 []) ≤ conf.limitSize)

variable {conf}

/-- After any number of request files the list holds the answers to the last one that was answered at
all; without one it is what it was. -/
theorem requests_keep_last (requests : List (FreqSystem × Bytes)) (filelist : List FileEntry) :
    afterRequests conf requests filelist =
      ((requests.map fun request => reqProc conf request.1 request.2 []).filter (· ≠ [])).getLast?.getD filelist := by
  unfold afterRequests
  induction requests generalizing filelist with
  | nil => rfl
  | cons request requests inductionHypothesis =>
    rw [List.foldl_cons, inductionHypothesis, reqProc_answers, List.map_cons, reqProc_empty]
    by_cases nothing : requestAnswers conf request.1 request.2 = []
    · simp [nothing]
    · rw [if_neg nothing, List.filter_cons, if_pos (by simpa using nothing), List.getLast?_cons]
      simp

/-- The limit on the number leaves at least one of the entries. -/
theorem counted_eq_nil (entries : List FileEntry) : conf.counted 0 entries = [] ↔ entries = [] := by
  unfold FreqConf.counted
  split
  · rename_i limited
    have positive : conf.fileslimit.toNat - 0 ≠ 0 := by omega
    rw [List.take_eq_nil_iff, or_iff_right positive]
  · rfl

/-- A regular file that is selected has an entry. -/
theorem mem_entries_iff {sys : FreqSystem} {areas : List Frlist} {reqlist : List Reqlist} {entry : FileEntry} :
    entry ∈ (freqTries sys areas reqlist).filterMap (requestedEntry sys) ↔
      ∃ fname st, Selects sys areas reqlist fname ∧ sys.stat fname = some st ∧ st.regular ∧
        answerEntry fname st.size = entry := by
  simp only [List.mem_filterMap, mem_freqTries_iff, requestedEntry, Option.bind_eq_some_iff]
  constructor
  · rintro ⟨fname, selected, st, there, made⟩
    split at made
    · rename_i regular
      exact ⟨fname, st, selected, there, regular, Option.some.inj made⟩
    · simp at made
  · rintro ⟨fname, st, selected, there, regular, made⟩
    exact ⟨fname, selected, st, there, by rw [if_pos regular, made]⟩

/-- There are answers to a request file that has one. -/
theorem hasAnswer_iff (request : FreqSystem × Bytes) :
    reqProc conf request.1 request.2 [] ≠ [] ↔ HasAnswer conf request := by
  cases command : filled conf.srifCommand with
  | some command' =>
    unfold HasAnswer
    rw [reqProc_empty]
    simp only [requestAnswers, command]
    cases request.1.answerList with
    | none => simp
    | some content =>
      simp only [Option.toList_some, List.flatMap_cons, List.flatMap_nil, List.append_nil, ne_eq,
        List.filterMap_eq_nil_iff, not_forall, Option.some.injEq, exists_eq_left']
      refine exists_congr fun line => ?_
      rw [exists_prop]
      refine and_congr_right fun _ => ?_
      cases line with
      | nil => simp [answerLine]
      | cons char line =>
        cases found : request.1.stat (answerAction (char :: line)).2 <;> simp [answerLine, found]
  | none =>
    rw [reqProc_withinSize command, ne_eq, counted_eq_nil]
    unfold HasAnswer withinSize
    simp only [command]
    cases reqReadwazooreq (request.1.read request.2) conf.ignoreMasks with
    | none => simp
    | some reqlist =>
      simp only [Library.chosen_eq_nil_iff, mem_entries_iff, not_forall, Option.some.injEq, exists_eq_left',
        Nat.zero_add, exists_prop, Decidable.not_not]
      constructor
      · rintro ⟨_, ⟨fname, st, selected, there, regular, rfl⟩, fits⟩
        exact ⟨fname, st, selected, there, regular, of_decide_eq_true fits⟩
      · rintro ⟨fname, st, selected, there, regular, fits⟩
        exact ⟨_, ⟨fname, st, selected, there, regular, rfl⟩, decide_eq_true fits⟩

/-- The list stays empty where no request file has an answer. -/
theorem afterRequests_eq_nil (requests : List (FreqSystem × Bytes)) (filelist : List FileEntry) :
    afterRequests conf requests filelist = [] ↔
      filelist = [] ∧ ∀ request ∈ requests, ¬ HasAnswer conf request := by
  have unanswered : (∀ request ∈ requests, ¬ HasAnswer conf request) ↔
      (requests.map fun request => reqProc conf request.1 request.2 []).filter (· ≠ []) = [] := by
    simp only [← hasAnswer_iff, List.filter_eq_nil_iff, List.forall_mem_map, decide_eq_true_eq]
  rw [requests_keep_last, unanswered]
  generalize found : (requests.map fun request => reqProc conf request.1 request.2 []).filter (· ≠ []) = lists
  cases last : lists.getLast? with
  | none => simp [List.getLast?_eq_none_iff.mp last]
  | some answers =>
    have there := List.mem_of_getLast? last
    have inhabited := List.ne_nil_of_mem there
    rw [← found] at there
    have answered : answers ≠ [] := by simpa using (List.mem_filter.mp there).2
    simp only [Option.getD_some, answered, inhabited, and_false]

/-- A request file keeps the list where that is empty or where it has no answer. -/
theorem reqProc_keeps (request : FreqSystem × Bytes) (filelist : List FileEntry) :
    reqProc conf request.1 request.2 filelist = filelist ++ reqProc conf request.1 request.2 [] ↔
      (HasAnswer conf request → filelist = []) := by
  rw [← hasAnswer_iff, reqProc_answers, reqProc_empty]
  by_cases nothing : requestAnswers conf request.1 request.2 = []
  · simp [nothing]
  · simp [nothing]

/-- The number a processor keeps to is no greater than the configured one. -/
theorem fileslimit_le : conf.fileslimit ≤ conf.limitNumber := by
  unfold FreqConf.fileslimit
  rw [Int.bmod_def]
  omega

/-- The answers keep within the limits where the limit on the number is one for the processor, or is not
reached. -/
theorem limitsKept_iff (request : FreqSystem × Bytes) :
    LimitsKept conf request ↔
      (filled conf.srifCommand = none →
        conf.limitNumber = 0 ∨ 0 < conf.fileslimit ∨
          (withinSize conf request.1 request.2).length ≤ conf.limitNumber) := by
  refine forall_congr' fun internal => ?_
  rw [reqProc_withinSize internal]
  have size : 0 < conf.limitSize →
      Library.total FileEntry.size (conf.counted 0 (withinSize conf request.1 request.2)) ≤ conf.limitSize := by
    intro limited
    refine (@Library.total_le _ FileEntry.size _ _ (counted_sublist 0 _)).trans ?_
    unfold withinSize
    cases reqReadwazooreq (request.1.read request.2) conf.ignoreMasks with
    | none => simp [Library.total]
    | some reqlist =>
      have whole := @Library.chosen_fits _ FileEntry.size conf.fits 0 (by simp [FreqConf.fits])
        ((freqTries request.1 (freqAreas conf request.1) reqlist).filterMap (requestedEntry request.1))
      simp only [FreqConf.fits, decide_eq_true_eq, Nat.zero_add] at whole
      exact whole.resolve_left (by omega)
  have le := @fileslimit_le conf
  rw [and_iff_left size, FreqConf.counted]
  split
  · rename_i limited
    rw [List.length_take]
    omega
  · omega

/-- The entries in the list and the limits of the configuration are kept: so it is where no more than one
request file has an answer, which finds the list empty, and the limit on the number is one for the
processor or is not reached. -/
theorem answer_list_kept_iff (conf : FreqConf) (requests : List (FreqSystem × Bytes)) (filelist : List FileEntry) :
    (AnswersKept conf requests filelist ∧ ∀ request ∈ requests, LimitsKept conf request) ↔
      (∀ before request after, requests = before ++ request :: after → HasAnswer conf request →
        filelist = [] ∧ ∀ earlier ∈ before, ¬ HasAnswer conf earlier) ∧
      ∀ request ∈ requests, filled conf.srifCommand = none →
        conf.limitNumber = 0 ∨ 0 < conf.fileslimit ∨
          (withinSize conf request.1 request.2).length ≤ conf.limitNumber := by
  unfold AnswersKept
  simp only [reqProc_keeps, afterRequests_eq_nil, limitsKept_iff]

/-- The second of two request files takes the place of the first one's answer. -/
theorem second_request_overwrites :
    ¬ (AnswersKept oneDirConf [(oneDirSystem oneFile, [114]), (oneDirSystem oneFile, [114])] [] ∧
      ∀ request ∈ [(oneDirSystem oneFile, [114]), (oneDirSystem oneFile, [114])], LimitsKept oneDirConf request) := by
  rintro ⟨kept, -⟩
  have second := kept [(oneDirSystem oneFile, [114])] (oneDirSystem oneFile, [114]) [] rfl
  revert second
  decide +kernel

end Lists

end Binkleyforce
