import Mathlib.Data.Finset.Card
import Mathlib.Data.List.Nodup

/-!
# The different items of a list

An item joins a list that has none with its key. What is left of a list that way has each key
once, and an item keeps its place exactly where nothing before it was dropped.
-/

namespace Binkleyforce

section

variable {α κ : Type} [DecidableEq κ] (key : α → κ)

/-- An item joins the list that has none with its key. -/
def addNew (kept : List α) (item : α) : List α :=
  if kept.any fun one => decide (key one = key item) then kept else kept ++ [item]

/-- The first item of each key. -/
def distinct (items : List α) : List α := items.foldl (addNew key) []

/-- A key that is there already. -/
theorem addNew_old {kept : List α} {item : α} (old : key item ∈ kept.map key) : addNew key kept item = kept := by
  obtain ⟨one, member, same⟩ := List.mem_map.mp old
  exact if_pos (List.any_eq_true.mpr ⟨one, member, decide_eq_true same⟩)

/-- A key that is not. -/
theorem addNew_new {kept : List α} {item : α} (new : key item ∉ kept.map key) :
    addNew key kept item = kept ++ [item] := by
  refine if_neg fun found => new ?_
  obtain ⟨one, member, same⟩ := List.any_eq_true.mp found
  exact List.mem_map.mpr ⟨one, member, of_decide_eq_true same⟩

/-- One item after the others. -/
theorem distinct_concat (items : List α) (item : α) :
    distinct key (items ++ [item]) = addNew key (distinct key items) item := by
  unfold distinct
  rw [List.foldl_append]
  rfl

/-- The keys that are left. -/
theorem distinct_keys (items : List α) (one : κ) : one ∈ (distinct key items).map key ↔ one ∈ items.map key := by
  induction items using List.reverseRecOn with
  | nil => exact Iff.rfl
  | append_singleton items item later =>
    rw [distinct_concat, List.map_append, List.mem_append, ← later]
    by_cases old : key item ∈ (distinct key items).map key
    · rw [addNew_old key old]
      refine ⟨Or.inl, fun either => either.elim id fun last => ?_⟩
      rw [List.map_singleton, List.mem_singleton] at last
      exact last ▸ old
    · rw [addNew_new key old, List.map_append, List.mem_append]

/-- Each key is left once. -/
theorem distinct_nodup (items : List α) : ((distinct key items).map key).Nodup := by
  induction items using List.reverseRecOn with
  | nil => exact List.nodup_nil
  | append_singleton items item later =>
    rw [distinct_concat]
    by_cases old : key item ∈ (distinct key items).map key
    · rw [addNew_old key old]
      exact later
    · rw [addNew_new key old, List.map_append, List.map_singleton, List.nodup_append]
      refine ⟨later, List.nodup_singleton _, ?_⟩
      intro one member other isOther same
      rw [List.mem_singleton.mp isOther] at same
      exact old (same ▸ member)

/-- There are as many items as different keys. -/
theorem distinct_length (items : List α) : (distinct key items).length = (items.map key).toFinset.card := by
  rw [← List.length_map key, ← List.toFinset_card_of_nodup (distinct_nodup key items)]
  refine congrArg Finset.card (Finset.ext fun one => ?_)
  rw [List.mem_toFinset, List.mem_toFinset, distinct_keys]

/-- Where all keys are different nothing is dropped, and nowhere else. -/
theorem distinct_length_iff (items : List α) :
    (distinct key items).length = items.length ↔ (items.map key).Nodup := by
  rw [distinct_length, ← List.length_map key, List.card_toFinset]
  refine ⟨fun same => List.dedup_eq_self.mp ((List.dedup_sublist _).eq_of_length same), fun nodup => ?_⟩
  rw [List.dedup_eq_self.mpr nodup]

/-- Later items leave the list as it is at its front. -/
theorem distinct_prefix (items more : List α) : distinct key items <+: distinct key (items ++ more) := by
  induction more using List.reverseRecOn with
  | nil => rw [List.append_nil]
  | append_singleton more item later =>
    rw [← List.append_assoc, distinct_concat]
    refine later.trans ?_
    unfold addNew
    split
    · exact List.prefix_refl _
    · exact List.prefix_append _ _

/-- The place of an item among the different ones: not behind its place in the list, and there
exactly where it is different from all before it and they are from each other. -/
theorem distinct_place (before after : List α) (item : α) : ∃ place,
    ((distinct key (before ++ item :: after))[place]?).map key = some (key item) ∧
      place ≤ before.length ∧ (place = before.length ↔ ((before ++ [item]).map key).Nodup) := by
  obtain ⟨tail, front⟩ := distinct_prefix key (before ++ [item]) after
  rw [List.append_assoc, List.singleton_append] at front
  have stays : ∀ {place : Nat} {one : α}, (distinct key (before ++ [item]))[place]? = some one →
      (distinct key (before ++ item :: after))[place]? = some one := by
    intro place one found
    obtain ⟨inside, _⟩ := List.getElem?_eq_some_iff.mp found
    rw [← front, List.getElem?_append_left inside, found]
  have few : (distinct key before).length ≤ before.length := by
    rw [distinct_length, ← List.length_map key]
    exact List.toFinset_card_le _
  by_cases old : key item ∈ (distinct key before).map key
  · obtain ⟨one, isOne, same⟩ := List.mem_map.mp old
    obtain ⟨place, inside, rfl⟩ := List.getElem_of_mem isOne
    refine ⟨place, ?_, by omega, ?_⟩
    · have found : (distinct key (before ++ [item]))[place]? = some (distinct key before)[place] := by
        rw [distinct_concat, addNew_old key old]
        exact List.getElem?_eq_getElem inside
      rw [stays found, Option.map_some, same]
    · refine ⟨fun last => by omega, fun nodup => ?_⟩
      rw [List.map_append, List.nodup_append] at nodup
      exact absurd rfl (nodup.2.2 (key item) ((distinct_keys key before _).mp old) (key item)
        (List.mem_singleton.mpr rfl))
  · refine ⟨(distinct key before).length, ?_, few, ?_⟩
    · have found : (distinct key (before ++ [item]))[(distinct key before).length]? = some item := by
        rw [distinct_concat, addNew_new key old]
        exact List.getElem?_concat_length
      rw [stays found, Option.map_some]
    · rw [distinct_length_iff, List.map_append, List.map_singleton, List.nodup_append]
      constructor
      · intro nodup
        refine ⟨nodup, List.nodup_singleton _, ?_⟩
        intro one member other isOther same
        rw [List.mem_singleton.mp isOther] at same
        exact old ((distinct_keys key before _).mpr (same ▸ member))
      · exact fun nodup => nodup.1

end

/-! ## Items that cover others -/

section

variable {α : Type} (covers : α → α → Bool)

/-- An item joins the list where none covers it. -/
def addUncovered (kept : List α) (item : α) : List α :=
  if kept.any (covers · item) then kept else kept ++ [item]

/-- The items that no earlier one left covers. -/
def uncovered (items : List α) : List α := items.foldl (addUncovered covers) []

/-- The same where there is room for so many items. -/
def addBounded (room : Nat) (kept : List α) (item : α) : List α :=
  if kept.any (covers · item) then kept else if room ≤ kept.length then kept else kept ++ [item]

/-- One item after the others. -/
theorem uncovered_concat (items : List α) (item : α) :
    uncovered covers (items ++ [item]) = addUncovered covers (uncovered covers items) item := by
  unfold uncovered
  rw [List.foldl_append]
  rfl

/-- A store with room for so many items has the first ones.

Induct over the items from the last one. -/
theorem foldl_addBounded (room : Nat) (items : List α) :
    items.foldl (addBounded covers room) [] = (uncovered covers items).take room := by
  induction items using List.reverseRecOn with
  | nil => exact List.take_nil.symm
  | append_singleton items item inductionHypothesis =>
    rw [List.foldl_append, inductionHypothesis, uncovered_concat, List.foldl_cons, List.foldl_nil]
    generalize uncovered covers items = all
    unfold addBounded addUncovered
    rw [List.length_take]
    by_cases full : room ≤ all.length
    · have same : (all ++ [item]).take room = all.take room := List.take_append_of_le_length full
      split
      · split
        · rfl
        · exact same.symm
      · rw [if_pos (by omega)]
        split
        · rfl
        · exact same.symm
    · rw [List.take_of_length_le (by omega), if_neg (show ¬ room ≤ min room all.length by omega)]
      split
      · exact (List.take_of_length_le (by omega)).symm
      · rw [List.take_of_length_le]
        rw [List.length_append, List.length_singleton]
        omega

/-- What is left are items of the list, not more than it has, and each item is one of them or
covered by one. -/
theorem uncovered_spec (items : List α) :
    uncovered covers items ⊆ items ∧ (uncovered covers items).length ≤ items.length ∧
      ∀ item ∈ items, ∃ one ∈ uncovered covers items, one = item ∨ covers one item = true := by
  induction items using List.reverseRecOn with
  | nil => exact ⟨List.Subset.refl [], Nat.le_refl 0, nofun⟩
  | append_singleton items item inductionHypothesis =>
    obtain ⟨inside, short, covered⟩ := inductionHypothesis
    rw [uncovered_concat]
    unfold addUncovered
    rw [List.length_append, List.length_singleton]
    split
    case isTrue found =>
      refine ⟨fun one member => List.mem_append_left [item] (inside member), by omega, ?_⟩
      intro other member
      rcases List.mem_append.mp member with before | last
      · exact covered other before
      · rw [List.mem_singleton.mp last]
        obtain ⟨one, kept, covers⟩ := List.any_eq_true.mp found
        exact ⟨one, kept, .inr covers⟩
    case isFalse =>
      refine ⟨?_, ?_, ?_⟩
      · intro one member
        rcases List.mem_append.mp member with before | last
        · exact List.mem_append_left [item] (inside before)
        · exact List.mem_append_right items last
      · rw [List.length_append, List.length_singleton]
        omega
      · intro other member
        rcases List.mem_append.mp member with before | last
        · obtain ⟨one, kept, same⟩ := covered other before
          exact ⟨one, List.mem_append_left [item] kept, same⟩
        · rw [List.mem_singleton.mp last]
          exact ⟨item, List.mem_append_right _ List.mem_cons_self, .inl rfl⟩

/-- Items seen through a function are left as they are, where it keeps what covers what. -/
theorem uncovered_map {β : Type} {image : α → β} {coversImage : β → β → Bool} (items : List α)
    (agree : ∀ first ∈ items, ∀ second ∈ items, coversImage (image first) (image second) = covers first second) :
    uncovered coversImage (items.map image) = (uncovered covers items).map image := by
  induction items using List.reverseRecOn with
  | nil => rfl
  | append_singleton items item inductionHypothesis =>
    have before := inductionHypothesis fun first isFirst second isSecond =>
      agree first (List.mem_append_left _ isFirst) second (List.mem_append_left _ isSecond)
    rw [List.map_append, List.map_singleton, uncovered_concat, uncovered_concat, before]
    unfold addUncovered
    have same : ((uncovered covers items).map image).any (coversImage · (image item)) =
        (uncovered covers items).any (covers · item) := by
      rw [List.any_map, Bool.eq_iff_iff, List.any_eq_true, List.any_eq_true]
      refine exists_congr fun one => and_congr_right fun kept => ?_
      have inside := (uncovered_spec covers items).1 kept
      rw [Function.comp_apply, agree one (List.mem_append_left [item] inside) item
        (List.mem_append_right items List.mem_cons_self)]
    rw [same]
    split
    · rfl
    · rw [List.map_append, List.map_singleton]

end

end Binkleyforce
