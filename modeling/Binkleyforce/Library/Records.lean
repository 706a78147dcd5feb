import Binkleyforce.Library.Buffers

/-!
# Records of a fixed size

The fields of a record are stored one after another, each at its own place. A field reads what was
stored in it, unless a later store reaches into it.
-/

namespace Binkleyforce.Library

variable {α : Type}

/-- Elements that are stored at a place. -/
structure Store (α : Type) where
  place : Nat
  elements : List α
  deriving DecidableEq

/-- The first place behind a store. -/
def Store.ending (store : Store α) : Nat := store.place + store.elements.length

/-- The stores one after another. -/
def storeEach (stores : List (Store α)) (record : List α) : List α :=
  stores.foldl (fun record store => overwrite record store.place store.elements) record

/-- So many elements from a place on. -/
def readField (record : List α) (place width : Nat) : List α := (record.drop place).take width

/-- A store leaves these places alone. -/
def Store.Spares (store : Store α) (place width : Nat) : Prop := store.ending ≤ place ∨ place + width ≤ store.place

instance (store : Store α) (place width : Nat) : Decidable (store.Spares place width) := by
  unfold Store.Spares
  infer_instance

/-- All stores are inside of the record. -/
def AllInside (stores : List (Store α)) (size : Nat) : Prop := ∀ store ∈ stores, store.ending ≤ size

/-- The size stays as it is. -/
theorem storeEach_length {stores : List (Store α)} {record : List α} (inside : AllInside stores record.length) :
    (storeEach stores record).length = record.length := by
  induction stores generalizing record with
  | nil => rfl
  | cons store rest inductionHypothesis =>
    have first : (overwrite record store.place store.elements).length = record.length :=
      overwrite_length (inside store List.mem_cons_self)
    refine (inductionHypothesis ?_).trans first
    rw [first]
    exact fun later member => inside later (List.mem_cons_of_mem store member)

/-- An element of a record with elements in place of what was there. -/
theorem overwrite_getElem? {record elements : List α} {place : Nat} (inside : place + elements.length ≤ record.length)
    (index : Nat) : (overwrite record place elements)[index]? =
      if place ≤ index ∧ index < place + elements.length then elements[index - place]? else record[index]? := by
  have front : (record.take place).length = place := by
    rw [List.length_take]
    omega
  unfold overwrite
  split
  · rename_i there
    rw [List.getElem?_append_left (by rw [List.length_append, front]; omega),
      List.getElem?_append_right (by omega), front]
  · rename_i elsewhere
    by_cases before : index < place
    · rw [List.append_assoc, List.getElem?_append_left (by omega), List.getElem?_take_of_lt before]
    · rw [List.getElem?_append_right (by rw [List.length_append, front]; omega), List.length_append, front,
        List.getElem?_drop]
      congr 1
      omega

/-- A field that a store spares reads as before. -/
theorem readField_overwrite {record : List α} {store : Store α} {place width : Nat}
    (inside : store.ending ≤ record.length) (spared : store.Spares place width) :
    readField (overwrite record store.place store.elements) place width = readField record place width := by
  apply List.ext_getElem?
  intro index
  unfold readField
  rw [List.getElem?_take, List.getElem?_take]
  split
  · rename_i small
    rw [List.getElem?_drop, List.getElem?_drop, overwrite_getElem? inside, if_neg]
    unfold Store.Spares Store.ending at spared
    omega
  · rfl

/-- So it does after several stores. -/
theorem readField_storeEach {stores : List (Store α)} {record : List α} {place width : Nat}
    (inside : AllInside stores record.length) (spared : ∀ store ∈ stores, store.Spares place width) :
    readField (storeEach stores record) place width = readField record place width := by
  induction stores generalizing record with
  | nil => rfl
  | cons store rest inductionHypothesis =>
    have first : store.ending ≤ record.length := inside store List.mem_cons_self
    have size : (overwrite record store.place store.elements).length = record.length := overwrite_length first
    have later : AllInside rest (overwrite record store.place store.elements).length := by
      rw [size]
      exact fun later member => inside later (List.mem_cons_of_mem store member)
    refine (inductionHypothesis later fun later member => spared later (List.mem_cons_of_mem store member)).trans ?_
    exact readField_overwrite first (spared store List.mem_cons_self)

/-- A part of what was stored is read where it stands. -/
theorem readField_stored {record : List α} {store : Store α} {start width : Nat}
    (inside : store.ending ≤ record.length) (part : start + width ≤ store.elements.length) :
    readField (overwrite record store.place store.elements) (store.place + start) width =
      (store.elements.drop start).take width := by
  apply List.ext_getElem?
  intro index
  unfold readField
  rw [List.getElem?_take, List.getElem?_take]
  split
  · rename_i small
    rw [List.getElem?_drop, List.getElem?_drop, overwrite_getElem? inside, if_pos (by omega)]
    congr 1
    omega
  · rfl

/-- A part of a store is read where it stands, if the later stores spare it. -/
theorem readField_last {before later : List (Store α)} {store : Store α} {record : List α} {start width : Nat}
    (inside : AllInside (before ++ store :: later) record.length) (part : start + width ≤ store.elements.length)
    (spared : ∀ other ∈ later, other.Spares (store.place + start) width) :
    readField (storeEach (before ++ store :: later) record) (store.place + start) width =
      (store.elements.drop start).take width := by
  have first : AllInside before record.length := fun other member => inside other (List.mem_append_left _ member)
  have size := storeEach_length first
  have own : store.ending ≤ (storeEach before record).length := by
    rw [size]
    exact inside store (List.mem_append_right _ List.mem_cons_self)
  have rest : AllInside later (overwrite (storeEach before record) store.place store.elements).length := by
    rw [overwrite_length own, size]
    exact fun other member => inside other (List.mem_append_right _ (List.mem_cons_of_mem store member))
  have stored : storeEach (before ++ store :: later) record =
      storeEach later (overwrite (storeEach before record) store.place store.elements) := by
    unfold storeEach
    rw [List.foldl_append, List.foldl_cons]
  rw [stored, readField_storeEach rest spared, readField_stored own part]

/-- A field is its parts in sequence. -/
theorem readField_add (record : List α) (place first second : Nat) :
    readField record place (first + second) = readField record place first ++ readField record (place + first) second := by
  unfold readField
  rw [List.take_add, List.drop_drop]

/-- What stands in front of the rest. -/
theorem readField_front (record : List α) (width : Nat) : readField record 0 width = record.take width := by
  rw [readField, List.drop_zero]

/-! ## Blank fields -/

/-- A field still holds what the record was filled with. -/
def Blank (record : List α) (place width : Nat) (blank : α) : Prop :=
  readField record place width = List.replicate width blank

/-- All fields of a record that was filled with blanks are blank. -/
theorem blank_replicate {place width size : Nat} (blank : α) (inside : place + width ≤ size) :
    Blank (List.replicate size blank) place width blank := by
  unfold Blank readField
  rw [List.drop_replicate, List.take_replicate, Nat.min_eq_left (by omega)]

/-- An element of a blank field. -/
theorem Blank.element {record : List α} {place width : Nat} {blank : α} (field : Blank record place width blank)
    {index : Nat} (inside : index < width) : record[place + index]? = some blank := by
  have read : (readField record place width)[index]? = record[place + index]? := by
    rw [readField, List.getElem?_take_of_lt inside, List.getElem?_drop]
  rw [← read, field, List.getElem?_replicate_of_lt inside]

/-- Stores that leave a field alone, or store only blanks, keep it blank. -/
theorem blank_storeEach {stores : List (Store α)} {record : List α} {place width : Nat} {blank : α}
    (inside : AllInside stores record.length) (field : Blank record place width blank)
    (harmless : ∀ store ∈ stores, store.Spares place width ∨ ∀ element ∈ store.elements, element = blank) :
    Blank (storeEach stores record) place width blank := by
  induction stores generalizing record with
  | nil => exact field
  | cons store rest inductionHypothesis =>
    have first : store.ending ≤ record.length := inside store List.mem_cons_self
    have size : (overwrite record store.place store.elements).length = record.length := overwrite_length first
    apply inductionHypothesis
    · rw [size]
      exact fun later member => inside later (List.mem_cons_of_mem store member)
    · rcases harmless store List.mem_cons_self with spared | blanks
      · exact (readField_overwrite first spared).trans field
      · apply List.ext_getElem?
        intro index
        rw [readField, List.getElem?_take]
        split
        · rename_i small
          rw [List.getElem?_drop, overwrite_getElem? first, List.getElem?_replicate_of_lt small]
          split
          · rename_i there
            have within : place + index - store.place < store.elements.length := by omega
            rw [List.getElem?_eq_getElem within, blanks _ (List.getElem_mem within)]
          · exact field.element small
        · rename_i large
          rw [List.getElem?_eq_none (by rw [List.length_replicate]; omega)]
    · exact fun later member => harmless later (List.mem_cons_of_mem store member)

/-- A store into a blank field fills its beginning. -/
theorem readField_begun {record elements : List α} {place width : Nat} {blank : α}
    (field : Blank record place width blank) (inside : place + elements.length ≤ record.length)
    (fits : elements.length ≤ width) :
    readField (overwrite record place elements) place width =
      elements ++ List.replicate (width - elements.length) blank := by
  apply List.ext_getElem?
  intro index
  rw [readField, List.getElem?_take]
  split
  · rename_i small
    rw [List.getElem?_drop, overwrite_getElem? inside]
    split
    · rename_i there
      rw [List.getElem?_append_left (by omega), Nat.add_sub_cancel_left]
    · rename_i behind
      rw [List.getElem?_append_right (by omega), List.getElem?_replicate_of_lt (by omega)]
      exact field.element small
  · rename_i large
    rw [List.getElem?_eq_none]
    rw [List.length_append, List.length_replicate]
    omega

/-! ## Layouts -/

/-- Where the fields of a record stand, and how wide they are. -/
structure Layout (Field : Type) where
  offset : Field → Nat
  width : Field → Nat

namespace Layout

variable {Field : Type} (layout : Layout Field)

/-- What is stored into a field. -/
def store (written : Field × List α) : Store α := ⟨layout.offset written.1, written.2⟩

/-- The stores into the fields, one after another. -/
def fill (written : List (Field × List α)) (record : List α) : List α := storeEach (written.map layout.store) record

/-- A field as the record has it. -/
def read (record : List α) (field : Field) : List α := readField record (layout.offset field) (layout.width field)

/-- What is stored leaves a field alone. -/
def Leaves (field : Field) (written : Field × List α) : Prop :=
  (layout.store written).Spares (layout.offset field) (layout.width field)

/-- Once a field is stored, no later store reaches into it. -/
def Undisturbed (field : Field) (written : List (Field × List α)) : Prop :=
  written.Pairwise fun earlier later => earlier.1 = field → layout.Leaves field later

/-- The bytes of two fields do not meet, where so many are stored into the second. -/
def Apart (reach : Field → Nat) (field other : Field) : Prop :=
  layout.offset other + reach other ≤ layout.offset field ∨ layout.offset field + layout.width field ≤ layout.offset other

instance (reach : Field → Nat) (field other : Field) : Decidable (layout.Apart reach field other) := by
  unfold Apart
  infer_instance

variable {layout} {written : List (Field × List α)} {record elements : List α} {field : Field}

/-- A field apart from another is left alone. -/
theorem leaves_of_apart {reach : Field → Nat} {one : Field × List α} (short : one.2.length ≤ reach one.1)
    (apart : layout.Apart reach field one.1) : layout.Leaves field one := by
  unfold Apart at apart
  unfold Leaves store Store.Spares Store.ending
  dsimp only
  omega

/-- Fields apart from each other are undisturbed, whatever is stored. -/
theorem undisturbed_of_apart {reach : Field → Nat} (short : ∀ one ∈ written, one.2.length ≤ reach one.1)
    (apart : (written.map Prod.fst).Pairwise fun earlier later => earlier = field → layout.Apart reach field later) :
    layout.Undisturbed field written := by
  rw [List.pairwise_map] at apart
  exact apart.imp_of_mem fun {earlier later} _ member far same => leaves_of_apart (short later member) (far same)

/-- Fields inside of a record, whatever is stored. -/
theorem inside_of_short {reach : Field → Nat} {size : Nat} (short : ∀ one ∈ written, one.2.length ≤ reach one.1)
    (ends : ∀ field, layout.offset field + reach field ≤ size) : AllInside (written.map layout.store) size := by
  intro stored member
  obtain ⟨one, there, rfl⟩ := List.mem_map.mp member
  exact Nat.le_trans (Nat.add_le_add_left (short one there) _) (ends one.1)

/-- A field that is stored before, and the stores after it. -/
theorem Undisturbed.split (undisturbed : layout.Undisturbed field written) (member : (field, elements) ∈ written) :
    ∃ before later, written = before ++ (field, elements) :: later ∧ ∀ other ∈ later, layout.Leaves field other := by
  obtain ⟨before, later, whole⟩ := List.append_of_mem member
  refine ⟨before, later, whole, ?_⟩
  rw [whole] at undisturbed
  obtain ⟨-, behind, -⟩ := List.pairwise_append.mp undisturbed
  exact fun other there => (List.pairwise_cons.mp behind).1 other there rfl

/-- The beginning of a field is read back as far as the later stores spare it. -/
theorem read_beginning {before later : List (Field × List α)} {width : Nat}
    (whole : written = before ++ (field, elements) :: later)
    (inside : AllInside (written.map layout.store) record.length) (part : width ≤ elements.length)
    (spared : ∀ other ∈ later, (layout.store other).Spares (layout.offset field) width) :
    readField (layout.fill written record) (layout.offset field) width = elements.take width := by
  subst whole
  rw [List.map_append, List.map_cons] at inside
  have spares : ∀ other ∈ later.map layout.store, other.Spares (layout.offset field) width := by
    intro other there
    obtain ⟨one, oneThere, rfl⟩ := List.mem_map.mp there
    exact spared one oneThere
  rw [fill, List.map_append, List.map_cons]
  have within : 0 + width ≤ (layout.store (field, elements)).elements.length := by
    rw [Nat.zero_add]
    exact part
  exact readField_last inside within spares

/-- A field that is stored in full and not disturbed is read back. -/
theorem Undisturbed.read (undisturbed : layout.Undisturbed field written)
    (inside : AllInside (written.map layout.store) record.length) (member : (field, elements) ∈ written)
    (full : elements.length = layout.width field) : layout.read (layout.fill written record) field = elements := by
  obtain ⟨before, later, whole, spared⟩ := undisturbed.split member
  refine (read_beginning whole inside (Nat.le_of_eq full.symm) spared).trans ?_
  exact List.take_of_length_le (Nat.le_of_eq full)

/-- A field that is stored in part is read back with blanks behind. -/
theorem Undisturbed.read_begun {blank : α} (undisturbed : layout.Undisturbed field written)
    (inside : AllInside (written.map layout.store) record.length) (member : (field, elements) ∈ written)
    (once : (written.map Prod.fst).Nodup) (fits : elements.length ≤ layout.width field)
    (empty : Blank record (layout.offset field) (layout.width field) blank)
    (harmless : ∀ other ∈ written, other.1 ≠ field → layout.Leaves field other ∨ ∀ element ∈ other.2, element = blank) :
    layout.read (layout.fill written record) field =
      elements ++ List.replicate (layout.width field - elements.length) blank := by
  obtain ⟨before, later, rfl, spared⟩ := undisturbed.split member
  rw [List.map_append, List.map_cons] at inside once
  have first : AllInside (before.map layout.store) record.length :=
    fun other there => inside other (List.mem_append_left _ there)
  have size := storeEach_length first
  have still : Blank (storeEach (before.map layout.store) record) (layout.offset field) (layout.width field) blank := by
    apply blank_storeEach first empty
    intro other there
    obtain ⟨one, oneThere, rfl⟩ := List.mem_map.mp there
    refine harmless one (List.mem_append_left _ oneThere) fun same => ?_
    obtain ⟨-, -, different⟩ := List.nodup_append.mp once
    exact different one.1 (List.mem_map_of_mem oneThere) field List.mem_cons_self same
  have own : (layout.store (field, elements)).ending ≤ (storeEach (before.map layout.store) record).length := by
    rw [size]
    exact inside _ (List.mem_append_right _ List.mem_cons_self)
  have rest : AllInside (later.map layout.store)
      (overwrite (storeEach (before.map layout.store) record) (layout.offset field) elements).length := by
    rw [(overwrite_length own : (overwrite _ (layout.offset field) elements).length = _), size]
    exact fun other there => inside other (List.mem_append_right _ (List.mem_cons_of_mem _ there))
  have stored : layout.fill (before ++ (field, elements) :: later) record = storeEach (later.map layout.store)
      (overwrite (storeEach (before.map layout.store) record) (layout.offset field) elements) := by
    unfold fill storeEach
    rw [List.map_append, List.map_cons, List.foldl_append, List.foldl_cons]
    rfl
  rw [Layout.read, stored, readField_storeEach rest]
  · exact readField_begun still own fits
  · intro other there
    obtain ⟨one, oneThere, rfl⟩ := List.mem_map.mp there
    exact spared one oneThere

end Layout

end Binkleyforce.Library
