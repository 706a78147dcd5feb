import Mathlib.Data.List.GetD
import Binkleyforce.Library.Buffers
import Binkleyforce.Library.Replacements
import Binkleyforce.Util.Text

/-!
# Translation of strings

`string_translate` replaces the occurrences of a text in place: what stands behind an occurrence
is moved, in a block that grows as it has to. The moves read more bytes than the string has, so
that bytes which stand behind the block come into it, but only behind the terminator.
-/

namespace Binkleyforce

open Library

/-- What a read finds: the bytes of the block, and behind it whatever stands there. -/
def readAt (beyond : Nat → UInt8) (block : Bytes) (place count : Nat) : Bytes :=
  (List.range count).map fun i => block.getD (place + i) (beyond (place + i))

/-- The variables of `string_translate`. -/
structure Translating where
  dest : Bytes
  szDest : Nat
  offset : Nat

/-- The body of the loop. A store outside of the block fails. -/
def translateStep (beyond : Nat → UInt8) (find repl : Bytes) (s : Translating) : Option Translating :=
  if readAt beyond s.dest s.offset find.length = find then
    let newsize := s.szDest + repl.length - find.length
    let dest := if s.szDest < newsize then readAt beyond s.dest 0 (newsize + 1) else s.dest
    let moved :=
      if find.length < repl.length then
        putAll dest (s.offset + (repl.length - find.length))
          (readAt beyond dest s.offset (s.szDest - s.offset + 1))
      else if repl.length < find.length then
        putAll dest s.offset
          (readAt beyond dest (s.offset + (find.length - repl.length)) (s.szDest - s.offset + 1))
      else some dest
    moved.bind fun dest => (putAll dest s.offset repl).map fun dest =>
      ⟨dest, newsize, s.offset + repl.length⟩
  else some { s with offset := s.offset + 1 }

/-- The loop of `string_translate`. -/
def translateLoop (beyond : Nat → UInt8) (find repl : Bytes) : Nat → Translating → Option Bytes
  | 0, _ => none
  | fuel + 1, s =>
    if s.dest.getD s.offset (beyond s.offset) = 0 then some s.dest
    else (translateStep beyond find repl s).bind (translateLoop beyond find repl fuel)

/-- `string_translate`, which takes the length of its replacement before anything else. -/
def stringTranslate (beyond : Nat → UInt8) (str find : Bytes) (repl : Option Bytes) : Option Bytes :=
  repl.bind fun repl =>
    if find.isEmpty then some str
    else (translateLoop beyond find repl (str.length + 1) ⟨str ++ [0], str.length, 0⟩).map cstring

/-! ## Memory -/

/-- A read starts with what the block has at its place. -/
theorem readAt_append (beyond : Nat → UInt8) (front back : Bytes) (count : Nat) :
    ∃ more, count ≤ (back ++ more).length ∧
      readAt beyond (front ++ back) front.length count = (back ++ more).take count := by
  refine ⟨(List.range count).map fun i => beyond (front.length + back.length + i), ?_, ?_⟩
  · simp only [List.length_append, List.length_map, List.length_range]
    omega
  · apply List.ext_getElem
    · simp [readAt]
    · intro i here there
      simp only [readAt, List.getElem_map, List.getElem_range, List.getElem_take]
      rw [List.getD_append_right _ _ _ _ (Nat.le_add_right _ _), Nat.add_sub_cancel_left]
      by_cases inside : i < back.length
      · rw [List.getElem_append_left inside, List.getD_eq_getElem _ _ inside]
      · rw [List.getElem_append_right (by omega), List.getD_eq_default _ _ (by omega),
          List.getElem_map, List.getElem_range]
        congr 1
        omega

/-- A read inside of the block. -/
theorem readAt_inside (beyond : Nat → UInt8) (front part back : Bytes) :
    readAt beyond (front ++ (part ++ back)) front.length part.length = part := by
  obtain ⟨more, -, is⟩ := readAt_append beyond front (part ++ back) part.length
  rw [is, List.append_assoc, List.take_left]

/-- Bytes are stored in place of as many. -/
theorem putAll_part (front part back elements : Bytes) (same : elements.length = part.length) :
    putAll (front ++ (part ++ back)) front.length elements = some (front ++ (elements ++ back)) := by
  rw [putAll_overwrite]
  · unfold overwrite
    rw [List.take_left, same, ← List.append_assoc front part back, ← List.length_append,
      List.drop_left, List.append_assoc]
  · simp only [List.length_append]
    omega

/-- A part is moved up, into fresh bytes behind it. -/
theorem moved_up (front part fresh : Bytes) :
    ∃ gap : Bytes, gap.length = fresh.length ∧
      putAll (front ++ (part ++ fresh)) (front.length + fresh.length) part =
        some (front ++ (gap ++ part)) := by
  refine ⟨(part ++ fresh).take fresh.length, ?_, ?_⟩
  · rw [List.length_take, List.length_append]
    omega
  · rw [putAll_overwrite]
    · unfold overwrite
      rw [List.take_length_add_append, List.drop_of_length_le, List.append_nil, List.append_assoc]
      simp only [List.length_append]
      omega
    · simp only [List.length_append]
      omega

/-- A part is moved down over a gap before it. As many bytes come after it as the gap had. -/
theorem moved_down (beyond : Nat → UInt8) (front gap part tail : Bytes) :
    ∃ junk : Bytes,
      putAll (front ++ (gap ++ (part ++ tail))) front.length
          (readAt beyond (front ++ (gap ++ (part ++ tail))) (front.length + gap.length)
            (gap ++ part).length) =
        some (front ++ (part ++ (junk ++ tail))) := by
  obtain ⟨more, long, is⟩ := readAt_append beyond (front ++ gap) (part ++ tail) (gap ++ part).length
  rw [List.append_assoc, List.length_append] at is
  have read : (part ++ tail ++ more).take (gap ++ part).length =
      part ++ (tail ++ more).take gap.length := by
    rw [List.append_assoc, List.length_append, Nat.add_comm, List.take_length_add_append]
  refine ⟨(tail ++ more).take gap.length, ?_⟩
  rw [is, read, ← List.append_assoc gap, putAll_part, List.append_assoc]
  simp only [List.length_append, List.length_take] at long ⊢
  omega

/-- A text without NUL stands before a terminator if it stands in the string. -/
theorem prefix_ended {find text : Bytes} (slack : Bytes) (plain : 0 ∉ find) :
    find <+: text ++ 0 :: slack ↔ find <+: text := by
  induction find generalizing text with
  | nil => exact ⟨fun _ => List.nil_prefix, fun _ => List.nil_prefix⟩
  | cons first find inductionHypothesis =>
    rw [List.mem_cons, not_or] at plain
    cases text with
    | nil =>
      constructor
      · intro starts
        exact absurd (List.cons_prefix_cons.mp starts).1.symm plain.1
      · intro starts
        exact absurd (List.prefix_nil.mp starts) (List.cons_ne_nil _ _)
    | cons char text =>
      rw [List.cons_append, List.cons_prefix_cons, List.cons_prefix_cons, inductionHypothesis plain.2]

/-! ## The loop -/

/-- Where the text to find stands, it is replaced. -/
theorem translateStep_found (beyond : Nat → UInt8) (find repl done after slack : Bytes)
    (tight : find.length < repl.length → slack = []) :
    ∃ slack', (find.length < repl.length → slack' = []) ∧
      translateStep beyond find repl
          ⟨done ++ (find ++ (after ++ 0 :: slack)), (done ++ (find ++ after)).length, done.length⟩ =
        some ⟨done ++ (repl ++ (after ++ 0 :: slack')), (done ++ (repl ++ after)).length,
          (done ++ repl).length⟩ := by
  have size : (done ++ (find ++ after)).length + repl.length - find.length =
      (done ++ (repl ++ after)).length := by
    simp only [List.length_append]
    omega
  have count : (done ++ (find ++ after)).length - done.length + 1 = (find ++ (after ++ [0])).length := by
    simp only [List.length_append, List.length_singleton]
    omega
  unfold translateStep
  dsimp only
  rw [if_pos (readAt_inside beyond done find _), size, count, ← List.length_append]
  rcases lt_trichotomy find.length repl.length with longer | same | shorter
  · -- The block grows, and what stands from the occurrence on moves to its end.
    obtain rfl := tight longer
    have grows : (done ++ (find ++ after)).length < (done ++ (repl ++ after)).length := by
      simp only [List.length_append]
      omega
    have fresh : ∃ fresh : Bytes, fresh.length = repl.length - find.length ∧
        readAt beyond (done ++ (find ++ (after ++ [0]))) 0 ((done ++ (repl ++ after)).length + 1) =
          done ++ (find ++ (after ++ [0]) ++ fresh) := by
      obtain ⟨more, long, is⟩ := readAt_append beyond [] (done ++ (find ++ (after ++ [0])))
        ((done ++ (repl ++ after)).length + 1)
      have enough : (done ++ (repl ++ after)).length + 1 =
          (done ++ (find ++ (after ++ [0]))).length + (repl.length - find.length) := by
        simp only [List.length_append, List.length_singleton]
        omega
      rw [enough, List.nil_append, List.length_nil] at is
      have parts : (done ++ (find ++ (after ++ [0])) ++ more).length =
          (done ++ (find ++ (after ++ [0]))).length + more.length := List.length_append
      rw [enough] at long
      refine ⟨more.take (repl.length - find.length), ?_, ?_⟩
      · rw [List.length_take]
        omega
      · rw [enough, is, List.take_length_add_append, List.append_assoc]
    obtain ⟨fresh, room, block⟩ := fresh
    obtain ⟨gap, gapLength, up⟩ := moved_up done (find ++ (after ++ [0])) fresh
    rw [if_pos grows, if_pos longer, block, readAt_inside, ← room, up, Option.bind_some,
      ← List.append_assoc gap, putAll_part]
    · exact ⟨[], fun _ => rfl, rfl⟩
    · rw [List.length_append]
      omega
  · -- The occurrence is written over.
    have still : ¬ (done ++ (find ++ after)).length < (done ++ (repl ++ after)).length := by
      simp only [List.length_append]
      omega
    rw [if_neg still, if_neg (by omega), if_neg (by omega), Option.bind_some,
      putAll_part _ _ _ _ same.symm]
    exact ⟨slack, tight, rfl⟩
  · -- What stands behind the occurrence is moved down.
    have still : ¬ (done ++ (find ++ after)).length < (done ++ (repl ++ after)).length := by
      simp only [List.length_append]
      omega
    have cut : find.take (find.length - repl.length) ++ find.drop (find.length - repl.length) = find :=
      List.take_append_drop _ _
    have kept : (find.drop (find.length - repl.length)).length = repl.length := by
      rw [List.length_drop]
      omega
    have gap : (find.take (find.length - repl.length)).length = find.length - repl.length := by
      rw [List.length_take]
      omega
    generalize find.take (find.length - repl.length) = front at cut gap
    generalize find.drop (find.length - repl.length) = back at cut kept
    subst cut
    obtain ⟨junk, down⟩ := moved_down beyond done front (back ++ (after ++ [0])) slack
    refine ⟨junk ++ slack, fun longer => absurd longer (by omega), ?_⟩
    rw [if_neg still, if_neg (by omega), if_pos shorter, ← gap]
    have block : done ++ (front ++ back ++ (after ++ 0 :: slack)) =
        done ++ (front ++ (back ++ (after ++ [0]) ++ slack)) := by
      simp only [List.append_assoc, List.singleton_append]
    have written : done ++ (back ++ (after ++ [0]) ++ (junk ++ slack)) =
        done ++ (back ++ (after ++ 0 :: (junk ++ slack))) := by
      simp only [List.append_assoc, List.singleton_append]
    rw [block, List.append_assoc front, down, Option.bind_some, written, putAll_part _ _ _ _ kept.symm]
    rfl

/-- Elsewhere the loop goes on by one character. -/
theorem translateStep_other (beyond : Nat → UInt8) {find rest : Bytes} (repl done slack : Bytes) (size : Nat)
    (plain : 0 ∉ find) (other : ¬ find <+: rest) :
    translateStep beyond find repl ⟨done ++ (rest ++ 0 :: slack), size, done.length⟩ =
      some ⟨done ++ (rest ++ 0 :: slack), size, done.length + 1⟩ := by
  obtain ⟨more, -, is⟩ := readAt_append beyond done (rest ++ 0 :: slack) find.length
  unfold translateStep
  dsimp only
  rw [is, if_neg]
  intro same
  apply other
  rw [← prefix_ended (slack ++ more) plain, ← List.cons_append, ← List.append_assoc]
  exact same ▸ List.take_prefix _ _

/-- The loop replaces all occurrences in what it has not passed. -/
theorem translateLoop_replaces (beyond : Nat → UInt8) {find : Bytes} (repl : Bytes) (filled : find ≠ [])
    (plain : 0 ∉ find) (fuel : Nat) (done rest slack : Bytes) (enough : rest.length < fuel)
    (whole : 0 ∉ rest) (tight : find.length < repl.length → slack = []) :
    ∃ slack', translateLoop beyond find repl fuel
        ⟨done ++ (rest ++ 0 :: slack), (done ++ rest).length, done.length⟩ =
      some (done ++ (replaceAll find repl rest ++ 0 :: slack')) := by
  induction fuel generalizing done rest slack with
  | zero => exact absurd enough (Nat.not_lt_zero _)
  | succ fuel inductionHypothesis =>
    unfold translateLoop
    dsimp only
    rw [List.getD_append_right _ _ _ _ (Nat.le_refl _), Nat.sub_self]
    cases rest with
    | nil => exact ⟨slack, if_pos rfl⟩
    | cons char rest =>
      rw [List.mem_cons, not_or] at whole
      rw [List.length_cons] at enough
      rw [List.cons_append, List.getD_cons_zero, if_neg (Ne.symm whole.1), ← List.cons_append]
      by_cases here : find <+: char :: rest
      · obtain ⟨after, is⟩ := here
        have size := congrArg List.length is
        rw [List.length_append, List.length_cons] at size
        have some := List.length_pos_of_ne_nil filled
        have behind : 0 ∉ after := by
          intro member
          have inside : 0 ∈ char :: rest := is ▸ List.mem_append_right _ member
          rcases List.mem_cons.mp inside with first | later
          · exact whole.1 first
          · exact whole.2 later
        obtain ⟨moved, tight', step⟩ := translateStep_found beyond find repl done after slack tight
        obtain ⟨slack', done'⟩ := inductionHypothesis (done ++ repl) after moved (by omega) behind tight'
        refine ⟨slack', ?_⟩
        rw [← is, List.append_assoc find, step, Option.bind_some, replaceAll_found filled]
        simpa only [List.append_assoc] using done'
      · obtain ⟨slack', done'⟩ :=
          inductionHypothesis (done ++ [char]) rest slack (by omega) whole.2 tight
        refine ⟨slack', ?_⟩
        rw [translateStep_other beyond repl done slack _ plain here, Option.bind_some,
          replaceAll_other repl here]
        have next : done.length + 1 = (done ++ [char]).length := by
          rw [List.length_append, List.length_singleton]
        rw [List.cons_append, List.cons_append, next, List.append_cons done char (rest ++ 0 :: slack),
          List.append_cons done char rest, List.append_cons done char (replaceAll find repl rest ++ _)]
        exact done'

/-- With a replacement, all occurrences are replaced. -/
theorem stringTranslate_replaces (beyond : Nat → UInt8) {str find repl : Bytes} (filled : find ≠ [])
    (plainStr : 0 ∉ str) (plainFind : 0 ∉ find) (plainRepl : 0 ∉ repl) :
    stringTranslate beyond str find (some repl) = some (replaceAll find repl str) := by
  obtain ⟨slack, done⟩ := translateLoop_replaces beyond repl filled plainFind (str.length + 1) [] str []
    (Nat.lt_succ_self _) plainStr (fun _ => rfl)
  have plain : ∀ char ∈ replaceAll find repl str, char ≠ 0 := by
    rintro char member rfl
    rcases mem_replaceAll member with new | old
    · exact plainRepl new
    · exact plainStr old
  unfold stringTranslate
  rw [Option.bind_some, if_neg (by simpa using filled)]
  simp only [List.nil_append, List.length_nil] at done
  rw [done, Option.map_some, cstring_ended, cstring_whole _ plain]

end Binkleyforce
