import Mathlib.Data.List.Nodup

/-!
# Cursors into a table

Some holders go through one table of entries, each with a cursor that is at a place of the
table or at none. An entry is marked while a cursor is at it, so that no other comes there.
When an entry is removed the entries after it move, and the cursors are repaired.
-/

namespace Binkleyforce.Library

variable {α ι κ : Type}

/-- The cursors are within the table and apart, and the entries they are at are the ones
that are marked. -/
structure Marked (mark : α → Bool) (table : List α) (cursors : ι → Option Nat) : Prop where
  within : ∀ holder place, cursors holder = some place → place < table.length
  exactly : ∀ place entry, table[place]? = some entry →
    (mark entry = true ↔ ∃ holder, cursors holder = some place)
  apart : ∀ holder other place, cursors holder = some place → cursors other = some place →
    holder = other

/-- The key of the entry the cursor is at. -/
def denoted (key : α → κ) (table : List α) (cursor : Option Nat) : Option κ :=
  cursor.bind fun place => table[place]?.map key

/-- A cursor after the entry at a place was removed. -/
def repair (removed : Nat) (cursor : Option Nat) : Option Nat :=
  cursor.bind fun place =>
    if place = removed then none else if removed < place then some (place - 1) else some place

/-- A cursor is at the same entry still, or at none because the table has no such entry. -/
def Keeps (key : α → κ) (table after : List α) (cursor moved : Option Nat) : Prop :=
  denoted key after moved = denoted key table cursor ∨
    denoted key after moved = none ∧ ∀ entry ∈ after, denoted key table cursor ≠ some (key entry)

section Repair

/-- Where a repaired cursor was before. -/
theorem repair_eq_some_iff (removed : Nat) (cursor : Option Nat) (place : Nat) :
    repair removed cursor = some place ↔
      cursor = some (if place < removed then place else place + 1) := by
  cases cursor with
  | none => simp [repair]
  | some before =>
    simp only [repair, Option.bind_some, Option.some.injEq]
    split
    · rename_i same
      constructor
      · exact nofun
      · intro moved
        split at moved <;> omega
    · split <;> split <;> simp only [Option.some.injEq] <;> omega

/-- The entry a place of the table has once another was removed. -/
theorem getElem?_removed (table : List α) (removed place : Nat) :
    (table.eraseIdx removed)[place]? = table[if place < removed then place else place + 1]? := by
  rw [List.getElem?_eraseIdx]
  split <;> rfl

/-- A repaired cursor is at the same entry, unless that is the one removed. -/
theorem denoted_repair (key : α → κ) (table : List α) (removed : Nat) (cursor : Option Nat) :
    denoted key (table.eraseIdx removed) (repair removed cursor) =
      if cursor = some removed then none else denoted key table cursor := by
  cases moved : repair removed cursor with
  | some place =>
    have before := (repair_eq_some_iff removed cursor place).mp moved
    subst before
    have away : ¬ some (if place < removed then place else place + 1) = some removed := by
      rw [Option.some.injEq]
      split <;> omega
    rw [if_neg away]
    unfold denoted
    rw [Option.bind_some, Option.bind_some, getElem?_removed]
  | none =>
    cases cursor with
    | none => simp [denoted]
    | some place =>
      have same : place = removed := by
        by_contra other
        simp only [repair, Option.bind_some, if_neg other] at moved
        split at moved <;> cases moved
      rw [same, if_pos rfl]
      rfl

end Repair

section Marks

variable {mark : α → Bool} {table : List α} {cursors : ι → Option Nat}

/-- An empty table, with no cursor at a place. -/
theorem marked_nil (mark : α → Bool) : Marked mark [] (fun _ : ι => none) :=
  ⟨nofun, nofun, nofun⟩

/-- What changes no mark changes nothing. -/
theorem Marked.congr (marked : Marked mark table cursors) {after : List α}
    (same : after.map mark = table.map mark) : Marked mark after cursors := by
  have length : after.length = table.length := by
    rw [← List.length_map mark, same, List.length_map]
  refine ⟨fun holder place at_ => length ▸ marked.within holder place at_, fun place entry there =>
    ?_, marked.apart⟩
  have marks : (after.map mark)[place]? = some (mark entry) := by
    rw [List.getElem?_map, there, Option.map_some]
  rw [same, List.getElem?_map, Option.map_eq_some_iff] at marks
  obtain ⟨before, found, agrees⟩ := marks
  rw [← agrees]
  exact marked.exactly place before found

/-- A new entry that is not marked. -/
theorem Marked.append (marked : Marked mark table cursors) (entry : α) (new : mark entry = false) :
    Marked mark (table ++ [entry]) cursors := by
  refine ⟨fun holder place at_ => ?_, fun place other there => ?_, marked.apart⟩
  · rw [List.length_append]
    exact Nat.lt_add_right _ (marked.within holder place at_)
  · rcases Nat.lt_or_ge place table.length with before | last
    · rw [List.getElem?_append_left before] at there
      exact marked.exactly place other there
    · rw [List.getElem?_append_right last] at there
      have same : other = entry := by
        cases offset : place - table.length with
        | zero =>
          rw [offset] at there
          exact (Option.some.inj there).symm
        | succ offset =>
          rw [offset] at there
          cases there
      rw [same, new]
      refine ⟨nofun, fun ⟨holder, at_⟩ => ?_⟩
      exact absurd (marked.within holder place at_) (by omega)

/-- An entry is removed, and the cursors are repaired. -/
theorem Marked.remove (marked : Marked mark table cursors) (removed : Nat)
    (there : removed < table.length) :
    Marked mark (table.eraseIdx removed) fun holder => repair removed (cursors holder) := by
  refine ⟨fun holder place at_ => ?_, fun place entry found => ?_, fun holder other place at_ also =>
    ?_⟩
  · rw [repair_eq_some_iff] at at_
    have within := marked.within holder _ at_
    rw [List.length_eraseIdx_of_lt there]
    split at within <;> omega
  · rw [getElem?_removed] at found
    rw [marked.exactly _ entry found]
    exact exists_congr fun holder => (repair_eq_some_iff removed (cursors holder) place).symm
  · rw [repair_eq_some_iff] at at_ also
    exact marked.apart holder other _ at_ also

variable [DecidableEq ι]

/-- A holder gives up its place, whose mark is cleared. -/
theorem Marked.leave (marked : Marked mark table cursors) (holder : ι) (unmark : α → α)
    (clears : ∀ entry, mark (unmark entry) = false) (place : Nat)
    (at_ : cursors holder = some place) :
    Marked mark (table.modify place unmark) (Function.update cursors holder none) := by
  have elsewhere : ∀ other found, Function.update cursors holder none other = some found →
      other ≠ holder ∧ cursors other = some found := by
    intro other found there
    by_cases same : other = holder
    · rw [same, Function.update_self] at there
      cases there
    · rw [Function.update_of_ne same] at there
      exact ⟨same, there⟩
  refine ⟨fun other found there => ?_, fun found entry there => ?_,
    fun other another found there also => marked.apart other another found
      (elsewhere other found there).2 (elsewhere another found also).2⟩
  · rw [List.length_modify]
    exact marked.within other found (elsewhere other found there).2
  · rw [List.getElem?_modify, Option.map_eq_map, Option.map_eq_some_iff] at there
    obtain ⟨before, was, rfl⟩ := there
    by_cases same : place = found
    · subst same
      rw [if_pos rfl, clears]
      refine ⟨nofun, fun ⟨other, there⟩ => ?_⟩
      obtain ⟨differs, also⟩ := elsewhere other _ there
      exact absurd (marked.apart other holder _ also at_) differs
    · rw [if_neg same, marked.exactly found before was]
      constructor
      · rintro ⟨other, there⟩
        have differs : other ≠ holder := by
          rintro rfl
          exact same (Option.some.inj (at_.symm.trans there))
        exact ⟨other, (Function.update_of_ne differs _ _).trans there⟩
      · rintro ⟨other, there⟩
        exact ⟨other, (elsewhere other found there).2⟩

/-- A holder that is at no place comes to an entry that is not marked, and marks it. -/
theorem Marked.enter (marked : Marked mark table cursors) (holder : ι) (setMark : α → α)
    (sets : ∀ entry, mark (setMark entry) = true) (none_ : cursors holder = none) (place : Nat)
    (entry : α) (there : table[place]? = some entry) (free : mark entry = false) :
    Marked mark (table.modify place setMark) (Function.update cursors holder (some place)) := by
  have vacant : ∀ other, cursors other ≠ some place := by
    intro other at_
    have taken := (marked.exactly place entry there).mpr ⟨other, at_⟩
    rw [free] at taken
    cases taken
  have cases_ : ∀ other found, Function.update cursors holder (some place) other = some found ↔
      other = holder ∧ found = place ∨ cursors other = some found := by
    intro other found
    by_cases same : other = holder
    · rw [same, Function.update_self, none_]
      simp [eq_comm]
    · rw [Function.update_of_ne same]
      simp [same]
  refine ⟨fun other found at_ => ?_, fun found before was => ?_,
    fun other another found at_ also => ?_⟩
  · rw [List.length_modify]
    rcases (cases_ other found).mp at_ with ⟨-, rfl⟩ | at_
    · exact (List.getElem?_eq_some_iff.mp there).1
    · exact marked.within other found at_
  · rw [List.getElem?_modify, Option.map_eq_map, Option.map_eq_some_iff] at was
    obtain ⟨old, was, rfl⟩ := was
    by_cases same : place = found
    · subst same
      rw [if_pos rfl, sets]
      exact ⟨fun _ => ⟨holder, (cases_ holder _).mpr (.inl ⟨rfl, rfl⟩)⟩, fun _ => rfl⟩
    · rw [if_neg same, marked.exactly found old was]
      constructor
      · rintro ⟨other, at_⟩
        exact ⟨other, (cases_ other found).mpr (.inr at_)⟩
      · rintro ⟨other, at_⟩
        rcases (cases_ other found).mp at_ with ⟨-, here⟩ | at_
        · exact absurd here.symm same
        · exact ⟨other, at_⟩
  · rcases (cases_ other found).mp at_ with ⟨one, here⟩ | at_
    · rcases (cases_ another found).mp also with ⟨two, -⟩ | also
      · exact one.trans two.symm
      · exact absurd (here ▸ also) (vacant another)
    · rcases (cases_ another found).mp also with ⟨-, here⟩ | also
      · exact absurd (here ▸ at_) (vacant other)
      · exact marked.apart other another found at_ also

end Marks

section Keys

variable {key : α → κ} {table after : List α} {cursor moved : Option Nat}

/-- Nothing that changes no key moves a cursor to another entry. -/
theorem denoted_congr (same : after.map key = table.map key) (cursor : Option Nat) :
    denoted key after cursor = denoted key table cursor := by
  unfold denoted
  congr 1
  funext place
  rw [← List.getElem?_map, same, List.getElem?_map]

/-- A cursor within the table denotes the same entry in a longer one. -/
theorem denoted_append (more : List α) (within : ∀ place, cursor = some place → place < table.length) :
    denoted key (table ++ more) cursor = denoted key table cursor := by
  cases cursor with
  | none => rfl
  | some place =>
    unfold denoted
    rw [Option.bind_some, Option.bind_some, List.getElem?_append_left (within place rfl)]

/-- A cursor that keeps its entry, and then keeps it where no key is new, keeps it. -/
theorem Keeps.trans {last : List α} {final : Option Nat} (first : Keeps key table after cursor moved)
    (second : Keeps key after last moved final)
    (old : ∀ entry ∈ last, ∃ before ∈ after, key before = key entry) :
    Keeps key table last cursor final := by
  rcases first with same | ⟨none_, gone⟩
  · rcases second with still | ⟨none_, gone⟩
    · exact .inl (still.trans same)
    · exact .inr ⟨none_, fun entry there => same ▸ gone entry there⟩
  · refine .inr ⟨?_, fun entry there => ?_⟩
    · rcases second with still | ⟨none_, -⟩
      · exact still.trans none_
      · exact none_
    · obtain ⟨before, found, agrees⟩ := old entry there
      rw [← agrees]
      exact gone before found

/-- Removing an entry keeps every cursor, where no two entries have one key. -/
theorem keeps_repair (distinct : (table.map key).Nodup) (removed : Nat) (cursor : Option Nat) :
    Keeps key table (table.eraseIdx removed) cursor (repair removed cursor) := by
  by_cases here : cursor = some removed
  · refine .inr ⟨by rw [denoted_repair, if_pos here], fun entry there same => ?_⟩
    subst here
    rw [List.mem_eraseIdx_iff_getElem?] at there
    obtain ⟨place, other, found⟩ := there
    unfold denoted at same
    rw [Option.bind_some, Option.map_eq_some_iff] at same
    obtain ⟨gone, was, agrees⟩ := same
    obtain ⟨inside, rfl⟩ := List.getElem?_eq_some_iff.mp found
    obtain ⟨also, rfl⟩ := List.getElem?_eq_some_iff.mp was
    refine other ((@List.Nodup.getElem_inj_iff _ _ distinct _ ?_ _ ?_).mp ?_)
    · rw [List.length_map]
      exact inside
    · rw [List.length_map]
      exact also
    · rw [List.getElem_map, List.getElem_map]
      exact agrees.symm
  · exact .inl (by rw [denoted_repair, if_neg here])

end Keys

end Binkleyforce.Library
