import Binkleyforce.Library.Buffers
import Binkleyforce.Util.Address

/-!
# The hello packet of YooHoo

`yoohoo_put_hello` stores words and texts in a packet of 128 bytes, and `yoohoo_get_hello`
reads them. The texts have fields of a fixed width, and the domain stands behind the name of
the system in the same field.
-/

namespace Binkleyforce

open Library

/-- `s_yoohoo_sysinfo`. -/
structure YoohooSysinfo where
  productCode : Int := 0
  versionMaj : Int := 0
  versionMin : Int := 0
  system : Bytes := []
  sysop : Bytes := []
  passwd : Bytes := []
  capabilities : Int := 0
  deriving DecidableEq

/-- `YOOHOO_MAXFIELD`. -/
def yoohooMaxfield : Nat := 40

/-- `YOOHOO_HELLOLEN`. -/
def yoohooHellolen : Nat := 128

/-- `yoohoo_putword`. -/
def yoohooPutword (val : Int) : Bytes := [UInt8.ofNat (val % 2 ^ 16).toNat, UInt8.ofNat ((val % 2 ^ 16).toNat / 2 ^ 8)]

/-- `yoohoo_getword`. -/
def yoohooGetword (buf : Bytes) : Int := (buf.getD 0 0).toNat + (buf.getD 1 0).toNat * 2 ^ 8

/-- The fields of the packet that hold texts. -/
inductive YoohooField where
  | name | sysop | passwd
  deriving DecidableEq

/-- Where a field begins. -/
def YoohooField.start : YoohooField → Nat
  | .name => 10
  | .sysop => 70
  | .passwd => 98

/-- How wide a field is. -/
def YoohooField.width : YoohooField → Nat
  | .name => 60
  | .sysop => 20
  | .passwd => 8

/-- What is stored in the packet, and for a text the field it belongs to. -/
structure YoohooStore where
  field : Option YoohooField := none
  place : Nat
  bytes : Bytes
  deriving DecidableEq

/-- A store is inside of the packet, and a text inside of its field. -/
def YoohooStore.Inside (store : YoohooStore) : Prop :=
  store.place + store.bytes.length ≤ yoohooHellolen ∧
    ∀ field ∈ store.field, field.start ≤ store.place ∧
      store.place + store.bytes.length ≤ field.start + field.width

/-- `strnxcpy` to a place in the packet. Without room for the zero it is not inside of its buffer. -/
def strnxcpyStores (field : YoohooField) (place : Nat) (src : Bytes) (len : Int) : Option (List YoohooStore) :=
  if len ≤ 0 then none
  else some [⟨field, place + (len.toNat - 1), [0]⟩, ⟨field, place, strncpy src (len.toNat - 1)⟩]

/-- The domain behind the name of the system; a name that is too long is cut for it. -/
def domainStores (system domain : Bytes) : Option (List YoohooStore) :=
  let p := YoohooField.name.start
  if system.length + domain.length > 57 then
    let q := if domain.length < 60 then p + (60 - domain.length) else p
    (strnxcpyStores .name (q + 1) domain (60 - ((q + 1 : Nat) - p))).map
      fun stores => ⟨YoohooField.name, q, [0]⟩ :: stores
  else
    let q := p + system.length + 1
    strnxcpyStores .name q domain (60 - ((q : Nat) - p))

/-- An empty domain is not added. -/
def addDomain (system domain : Bytes) : Option (List YoohooStore) :=
  if domain.isEmpty then some [] else domainStores system domain

/-- The words of the address. -/
def addressStores : Option Faddr → List YoohooStore
  | some addr =>
    [⟨none, 90, yoohooPutword addr.zone⟩, ⟨none, 92, yoohooPutword addr.net⟩,
      ⟨none, 94, yoohooPutword addr.node⟩, ⟨none, 96, yoohooPutword addr.point⟩]
  | none => []

/-- The domain of the local address, which may be empty. -/
def localDomain (localaddr : Option Faddr) : Bytes := localaddr.elim [] (·.domain)

/-- What `yoohoo_put_hello` stores, with the first of the local addresses. -/
def helloStores (hello : YoohooSysinfo) (localaddr : Option Faddr) : Option (List YoohooStore) := do
  let system ← strnxcpyStores .name 10 hello.system 60
  let domain ← addDomain hello.system (localDomain localaddr)
  let sysop ← strnxcpyStores .sysop 70 hello.sysop 20
  return [⟨none, 0, yoohooPutword 0x6f⟩, ⟨none, 2, yoohooPutword 0x01⟩,
      ⟨none, 4, yoohooPutword hello.productCode⟩, ⟨none, 6, yoohooPutword hello.versionMaj⟩,
      ⟨none, 8, yoohooPutword hello.versionMin⟩] ++ system ++ domain ++ sysop ++ addressStores localaddr ++
    [⟨some .passwd, 98, strncpy hello.passwd 8⟩, ⟨none, 114, yoohooPutword hello.capabilities⟩]

/-- The stores one after another. -/
def storeAll (stores : List YoohooStore) (buffer : Bytes) : Option Bytes :=
  stores.foldlM (fun buffer store => putAll buffer store.place store.bytes) buffer

/-- `yoohoo_put_hello`. -/
def yoohooPutHello (hello : YoohooSysinfo) (localaddr : Option Faddr) : Option Bytes :=
  (helloStores hello localaddr).bind fun stores => storeAll stores (List.replicate yoohooHellolen 0)

/-- `yoohoo_get_hello`: the information of the remote, and its address. -/
def yoohooGetHello (buffer : Bytes) : YoohooSysinfo × Faddr :=
  ({ productCode := yoohooGetword (buffer.drop 4)
     versionMaj := yoohooGetword (buffer.drop 6)
     versionMin := yoohooGetword (buffer.drop 8)
     system := strnxcpy (buffer.drop 10) (min (yoohooMaxfield + 1) (60 + 1))
     sysop := strnxcpy (buffer.drop 70) (min (yoohooMaxfield + 1) (20 + 1))
     passwd := strnxcpy (buffer.drop 98) (min (yoohooMaxfield + 1) (8 + 1))
     capabilities := yoohooGetword (buffer.drop 114) },
    { zone := yoohooGetword (buffer.drop 90)
      net := yoohooGetword (buffer.drop 92)
      node := yoohooGetword (buffer.drop 94)
      point := yoohooGetword (buffer.drop 96) })

/-! ## The stores -/

/-- The stores into a part of the buffer leave the other parts. -/
theorem storeAll_part (front back : Bytes) (stores : List YoohooStore) (part : Bytes)
    (inside : ∀ store ∈ stores, front.length ≤ store.place ∧
      store.place + store.bytes.length ≤ front.length + part.length) :
    storeAll stores (front ++ part ++ back) = some (front ++
      stores.foldl (fun part store => Library.overwrite part (store.place - front.length) store.bytes) part ++ back) := by
  induction stores generalizing part with
  | nil => rfl
  | cons store stores later =>
    obtain ⟨⟨after, before⟩, others⟩ := List.forall_mem_cons.mp inside
    have fits : store.place - front.length + store.bytes.length ≤ part.length := by omega
    have place : store.place = front.length + (store.place - front.length) := by omega
    have first : putAll (front ++ part ++ back) store.place store.bytes =
        some (front ++ Library.overwrite part (store.place - front.length) store.bytes ++ back) := by
      rw [putAll_overwrite _ _ _ (by simp only [List.length_append]; omega)]
      conv_lhs => rw [place]
      rw [overwrite_part _ _ _ _ _ fits]
    unfold storeAll at later ⊢
    rw [List.foldlM_cons, first, Option.bind_eq_bind, Option.bind_some, List.foldl_cons]
    apply later
    rw [overwrite_length fits]
    exact others

/-- Stores in sequence. -/
theorem storeAll_append (first second : List YoohooStore) (buffer : Bytes) :
    storeAll (first ++ second) buffer = (storeAll first buffer).bind (storeAll second) :=
  List.foldlM_append ..

/-- A text that is copied to the whole of a part, terminated. -/
theorem overwrite_copied {part : Bytes} {width : Nat} (text : Bytes) (size : part.length = width + 1) :
    Library.overwrite (Library.overwrite part width [0]) 0 (strncpy text width) = strncpy text width ++ [0] := by
  have ended : (Library.overwrite part width [0]).drop width = [0] := by
    unfold Library.overwrite
    rw [List.append_assoc, List.drop_left' (by rw [List.length_take]; omega), List.length_singleton,
      List.drop_eq_nil_of_le (Nat.le_of_eq size)]
    rfl
  have front : ∀ buffer : Bytes, Library.overwrite buffer 0 (strncpy text width) =
      strncpy text width ++ buffer.drop width := by
    intro buffer
    unfold Library.overwrite
    rw [List.take_zero, List.nil_append, Nat.zero_add, strncpy_length]
  rw [front, ended]

/-- The beginning of a part, up to what was stored in it. -/
theorem overwrite_through (buffer elements : Bytes) (place : Nat) (inside : place + elements.length ≤ buffer.length) :
    (Library.overwrite buffer place elements).take (place + elements.length) = buffer.take place ++ elements := by
  unfold Library.overwrite
  rw [List.take_left']
  rw [List.length_append, List.length_take]
  omega

/-- The stores of a copy with room for the zero. -/
theorem strnxcpyStores_room (field : YoohooField) (place : Nat) (src : Bytes) {len : Nat} (room : 0 < len) :
    strnxcpyStores field place src len =
      some [⟨field, place + (len - 1), [0]⟩, ⟨field, place, strncpy src (len - 1)⟩] := by
  unfold strnxcpyStores
  rw [if_neg (by omega), Int.toNat_natCast]

/-- A store in a field is inside of the packet. -/
theorem YoohooField.inside {field : YoohooField} {place : Nat} {bytes : Bytes} (after : field.start ≤ place)
    (before : place + bytes.length ≤ field.start + field.width) : YoohooStore.Inside ⟨field, place, bytes⟩ := by
  have ends : field.start + field.width ≤ yoohooHellolen := by cases field <;> decide
  refine ⟨Nat.le_trans before ends, ?_⟩
  rintro _ ⟨⟩
  exact ⟨after, before⟩

/-- The text of a field that begins with what was copied and a zero. -/
theorem cstring_field {field text : Bytes} {count : Nat} (whole : 0 ∉ text) (rest : Bytes)
    (begins : field.take (count + 1) = strncpy text count ++ [0]) :
    cstring (field ++ rest) = text.take count := by
  rw [← List.take_append_drop (count + 1) field, begins, List.append_assoc, List.append_assoc]
  exact cstring_strncpy whole count _

/-- A copy leaves what stands before it. -/
theorem copied_behind (part text : Bytes) {place size : Nat} (room : 0 < size) (inside : place + size ≤ part.length) :
    (Library.overwrite (Library.overwrite part (place + (size - 1)) [0]) place (strncpy text (size - 1))).length = part.length ∧
      ∀ count ≤ place, (Library.overwrite (Library.overwrite part (place + (size - 1)) [0]) place
        (strncpy text (size - 1))).take count = part.take count := by
  have first : (Library.overwrite part (place + (size - 1)) [0]).length = part.length :=
    overwrite_length (by rw [List.length_singleton]; omega)
  constructor
  · rw [overwrite_length (by rw [strncpy_length]; omega), first]
  · intro count before
    rw [overwrite_take _ before (by omega), overwrite_take _ (by omega) (by omega)]

/-! ## The parts of the packet -/

/-- The structures hold texts of a limited length without zeros, and words. -/
structure YoohooSysinfo.Holds (hello : YoohooSysinfo) : Prop where
  system : hello.system.length ≤ yoohooMaxfield ∧ 0 ∉ hello.system
  sysop : hello.sysop.length ≤ yoohooMaxfield ∧ 0 ∉ hello.sysop
  passwd : hello.passwd.length ≤ yoohooMaxfield ∧ 0 ∉ hello.passwd
  productCode : 0 ≤ hello.productCode ∧ hello.productCode < 2 ^ 16
  versionMaj : 0 ≤ hello.versionMaj ∧ hello.versionMaj < 2 ^ 16
  versionMin : 0 ≤ hello.versionMin ∧ hello.versionMin < 2 ^ 16
  capabilities : 0 ≤ hello.capabilities ∧ hello.capabilities < 2 ^ 16

/-- The name of the system that is left in the packet. -/
def systemShown (system domain : Bytes) : Bytes :=
  if ¬ domain = [] ∧ system.length + domain.length > 57 then system.take (60 - domain.length) else system

/-- The domain leaves a beginning of the name with a zero behind it. -/
theorem domain_stored {system domain : Bytes} (size : system.length ≤ yoohooMaxfield)
    (limit : domain.length < domainSize) (some_ : domain ≠ []) :
    ∃ more count, domainStores system domain = some more ∧
      (∀ store ∈ more, store.Inside ∧ store.field = some .name) ∧
      systemShown system domain = system.take count ∧
      (more.foldl (fun part store => Library.overwrite part (store.place - 10) store.bytes)
        (strncpy system 59 ++ [0])).length = 60 ∧
      (more.foldl (fun part store => Library.overwrite part (store.place - 10) store.bytes)
        (strncpy system 59 ++ [0])).take (count + 1) = strncpy system count ++ [0] := by
  have small : system.length ≤ 40 := size
  have short : domain.length < 41 := limit
  have copied : (strncpy system 59 ++ [0]).length = 60 := by
    rw [List.length_append, strncpy_length]
    rfl
  have begins : ∀ count, count ≤ 59 → (strncpy system 59 ++ [0]).take count = strncpy system count := by
    intro count inside
    rw [List.take_append_of_le_length (by rw [strncpy_length]; exact inside), strncpy_take system inside]
  unfold domainStores systemShown
  by_cases long : system.length + domain.length > 57
  · -- The name is cut, and the domain ends with the field.
    have room : (60 : Int) - ((YoohooField.name.start + (60 - domain.length) + 1 : Nat) - YoohooField.name.start) =
        (domain.length - 1 : Nat) := by
      simp only [YoohooField.start]
      omega
    have both : ¬ domain = [] ∧ system.length + domain.length > 57 := ⟨some_, long⟩
    rw [if_pos long, if_pos both]
    dsimp only
    rw [if_pos (show domain.length < 60 by omega), room, strnxcpyStores_room _ _ _ (by omega), Option.map_some]
    generalize cut : 60 - domain.length = o
    refine ⟨_, o, rfl, ?_, rfl, ?_, ?_⟩
    · intro store member
      simp only [List.mem_cons, List.not_mem_nil, or_false] at member
      rcases member with rfl | rfl | rfl
      · exact ⟨YoohooField.inside (Nat.le_add_right _ _)
          (by simp only [YoohooField.start, YoohooField.width, List.length_singleton]; omega), rfl⟩
      · exact ⟨YoohooField.inside (by simp only [YoohooField.start]; omega)
          (by simp only [YoohooField.start, YoohooField.width, List.length_singleton]; omega), rfl⟩
      · exact ⟨YoohooField.inside (by simp only [YoohooField.start]; omega)
          (by simp only [YoohooField.start, YoohooField.width, strncpy_length]; omega), rfl⟩
    all_goals
      have place : YoohooField.name.start + o + 1 - 10 = o + 1 := by simp only [YoohooField.start]; omega
      have last : YoohooField.name.start + o + 1 + (domain.length - 1 - 1) - 10 = o + 1 + (domain.length - 1 - 1) := by
        simp only [YoohooField.start]; omega
      have first : YoohooField.name.start + o - 10 = o := Nat.add_sub_cancel_left 10 o
      have one : (Library.overwrite (strncpy system 59 ++ [0]) o [0]).length = 60 :=
        (overwrite_length (by rw [copied, List.length_singleton]; omega)).trans copied
      obtain ⟨width, kept⟩ := copied_behind (Library.overwrite (strncpy system 59 ++ [0]) o [0]) domain
        (show 0 < domain.length - 1 by omega) (show o + 1 + (domain.length - 1) ≤ _ by rw [one]; omega)
      simp only [List.foldl_cons, List.foldl_nil, first, place, last]
    · exact width.trans one
    · rw [kept _ (Nat.le_refl _)]
      have through := overwrite_through (strncpy system 59 ++ [0]) [0] o (by rw [copied, List.length_singleton]; omega)
      rw [List.length_singleton, begins o (by omega)] at through
      exact through
  · -- Both fit, and the domain stands behind the zero of the name.
    have room : (60 : Int) - ((YoohooField.name.start + system.length + 1 : Nat) - YoohooField.name.start) =
        (59 - system.length : Nat) := by
      simp only [YoohooField.start]
      omega
    have other : ¬ (¬ domain = [] ∧ system.length + domain.length > 57) := fun both => long both.2
    rw [if_neg long, if_neg other]
    dsimp only
    rw [room, strnxcpyStores_room _ _ _ (by omega)]
    refine ⟨_, system.length, rfl, ?_, List.take_length.symm, ?_, ?_⟩
    · intro store member
      simp only [List.mem_cons, List.not_mem_nil, or_false] at member
      rcases member with rfl | rfl
      · exact ⟨YoohooField.inside (by simp only [YoohooField.start]; omega)
          (by simp only [YoohooField.start, YoohooField.width, List.length_singleton]; omega), rfl⟩
      · exact ⟨YoohooField.inside (by simp only [YoohooField.start]; omega)
          (by simp only [YoohooField.start, YoohooField.width, strncpy_length]; omega), rfl⟩
    all_goals
      have place : YoohooField.name.start + system.length + 1 - 10 = system.length + 1 := by
        simp only [YoohooField.start]; omega
      have last : YoohooField.name.start + system.length + 1 + (59 - system.length - 1) - 10 =
          system.length + 1 + (59 - system.length - 1) := by
        simp only [YoohooField.start]; omega
      obtain ⟨width, kept⟩ := copied_behind (strncpy system 59 ++ [0]) domain
        (show 0 < 59 - system.length by omega)
        (show system.length + 1 + (59 - system.length) ≤ _ by rw [copied]; omega)
      simp only [List.foldl_cons, List.foldl_nil, place, last]
    · exact width.trans copied
    · rw [kept _ (Nat.le_refl _), begins _ (by omega)]
      unfold strncpy
      rw [List.take_of_length_le (Nat.le_succ _), List.take_length, Nat.add_sub_cancel_left, Nat.sub_self,
        List.replicate_zero, List.append_nil]
      rfl

/-- The stores into the name field, and what they leave there. -/
theorem name_stored {system domain : Bytes} (size : system.length ≤ yoohooMaxfield) (whole : 0 ∉ system)
    (limit : domain.length < domainSize) :
    ∃ copy more, strnxcpyStores .name 10 system 60 = some copy ∧
      addDomain system domain = some more ∧
      (∀ store ∈ copy ++ more, store.Inside ∧ store.field = some .name) ∧
      ∃ name, (copy ++ more).foldl (fun part store => Library.overwrite part (store.place - 10) store.bytes)
          (List.replicate 60 0) = name ∧ name.length = 60 ∧
        ∀ rest, cstring (name ++ rest) = systemShown system domain := by
  have copy := strnxcpyStores_room .name 10 system (show 0 < 60 by decide)
  have copied : [(⟨some .name, 10 + (60 - 1), [0]⟩ : YoohooStore), ⟨some .name, 10, strncpy system (60 - 1)⟩].foldl
      (fun part store => Library.overwrite part (store.place - 10) store.bytes) (List.replicate 60 0) =
        strncpy system 59 ++ [0] :=
    overwrite_copied system List.length_replicate
  have copyInside : ∀ store ∈ [(⟨some .name, 10 + (60 - 1), [0]⟩ : YoohooStore),
      ⟨some .name, 10, strncpy system (60 - 1)⟩], store.Inside ∧ store.field = some .name := by
    intro store member
    simp only [List.mem_cons, List.not_mem_nil, or_false] at member
    rcases member with rfl | rfl
    · exact ⟨YoohooField.inside (by decide) (by decide), rfl⟩
    · refine ⟨YoohooField.inside (by decide) ?_, rfl⟩
      rw [strncpy_length]
      decide
  by_cases empty : domain = []
  · refine ⟨_, [], copy, by rw [empty]; rfl, by rwa [List.append_nil], _, rfl, ?_, ?_⟩
    · rw [List.append_nil, copied, List.length_append, strncpy_length]
      rfl
    · intro rest
      rw [List.append_nil, copied, systemShown, if_neg (by rw [empty]; simp), List.append_assoc]
      have small : system.length ≤ 40 := size
      exact (cstring_strncpy whole 59 rest).trans (List.take_of_length_le (by omega))
  · obtain ⟨more, count, stored, inside, shown, width, begins⟩ := domain_stored size limit empty
    refine ⟨_, more, copy, ?_, ?_, _, rfl, ?_, ?_⟩
    · rw [addDomain, if_neg (by simpa using empty)]
      exact stored
    · exact List.forall_mem_append.mpr ⟨copyInside, inside⟩
    · rw [List.foldl_append, copied, width]
    · intro rest
      rw [List.foldl_append, copied, shown]
      exact cstring_field whole rest begins
/-! ## The packet as a whole -/

/-- The words before the name. -/
def headBytes (hello : YoohooSysinfo) : Bytes :=
  yoohooPutword 0x6f ++ yoohooPutword 0x01 ++ yoohooPutword hello.productCode ++
    yoohooPutword hello.versionMaj ++ yoohooPutword hello.versionMin

/-- The words of the address, where there is one. -/
def addressBytes : Option Faddr → Bytes
  | some addr =>
    yoohooPutword addr.zone ++ yoohooPutword addr.net ++ yoohooPutword addr.node ++ yoohooPutword addr.point
  | none => List.replicate 8 0

/-- The packet with this name field. -/
def helloPacket (hello : YoohooSysinfo) (localaddr : Option Faddr) (name : Bytes) : Bytes :=
  headBytes hello ++ (name ++ ((strncpy hello.sysop 19 ++ [0]) ++ (addressBytes localaddr ++
    (strncpy hello.passwd 8 ++ (List.replicate 8 0 ++ (yoohooPutword hello.capabilities ++
      List.replicate 12 0))))))

/-- The address takes eight bytes. -/
theorem addressBytes_length (localaddr : Option Faddr) : (addressBytes localaddr).length = 8 := by
  cases localaddr <;> rfl

/-- A word needs two places. -/
theorem putword_inside {place : Nat} (val : Int) (inside : place + 2 ≤ yoohooHellolen) :
    YoohooStore.Inside ⟨none, place, yoohooPutword val⟩ :=
  ⟨inside, nofun⟩

/-- The words at the beginning. -/
theorem head_stored (hello : YoohooSysinfo) (back : Bytes) :
    storeAll [⟨none, 0, yoohooPutword 0x6f⟩, ⟨none, 2, yoohooPutword 0x01⟩,
      ⟨none, 4, yoohooPutword hello.productCode⟩, ⟨none, 6, yoohooPutword hello.versionMaj⟩,
      ⟨none, 8, yoohooPutword hello.versionMin⟩] (List.replicate 10 0 ++ back) = some (headBytes hello ++ back) := by
  refine (storeAll_part [] back _ (List.replicate 10 0) ?_).trans rfl
  intro store member
  simp only [List.mem_cons, List.not_mem_nil, or_false] at member
  rcases member with rfl | rfl | rfl | rfl | rfl <;>
    exact ⟨Nat.zero_le _, by simp [yoohooPutword]⟩

/-- The words of the address. -/
theorem address_stored (localaddr : Option Faddr) {front : Bytes} (back : Bytes) (place : front.length = 90) :
    storeAll (addressStores localaddr) (front ++ (List.replicate 8 0 ++ back)) =
      some (front ++ (addressBytes localaddr ++ back)) := by
  cases localaddr with
  | none => rfl
  | some addr =>
    rw [← List.append_assoc, storeAll_part front back _ (List.replicate 8 0), place, ← List.append_assoc]
    · rfl
    · intro store member
      simp only [addressStores, List.mem_cons, List.not_mem_nil, or_false] at member
      rcases member with rfl | rfl | rfl | rfl <;> simp [yoohooPutword, place]

/-- The stores fill the fields of the packet. -/
theorem hello_stored {hello : YoohooSysinfo} (localaddr : Option Faddr) (holds : hello.Holds)
    (limit : (localDomain localaddr).length < domainSize) :
    ∃ stores name, helloStores hello localaddr = some stores ∧ (∀ store ∈ stores, store.Inside) ∧
      name.length = 60 ∧
      (∀ rest, cstring (name ++ rest) = systemShown hello.system (localDomain localaddr)) ∧
      storeAll stores (List.replicate yoohooHellolen 0) = some (helloPacket hello localaddr name) := by
  obtain ⟨copy, more, system, domain, nameInside, name, filled, width, shown⟩ :=
    name_stored holds.system.1 holds.system.2 limit
  have sysop : strnxcpyStores .sysop 70 hello.sysop 20 =
      some [⟨some .sysop, 89, [0]⟩, ⟨some .sysop, 70, strncpy hello.sysop 19⟩] :=
    strnxcpyStores_room .sysop 70 hello.sysop (show 0 < 20 by decide)
  have stores : helloStores hello localaddr = some
      ([⟨none, 0, yoohooPutword 0x6f⟩, ⟨none, 2, yoohooPutword 0x01⟩,
        ⟨none, 4, yoohooPutword hello.productCode⟩, ⟨none, 6, yoohooPutword hello.versionMaj⟩,
        ⟨none, 8, yoohooPutword hello.versionMin⟩] ++ copy ++ more ++
        [⟨some .sysop, 89, [0]⟩, ⟨some .sysop, 70, strncpy hello.sysop 19⟩] ++ addressStores localaddr ++
        [⟨some .passwd, 98, strncpy hello.passwd 8⟩, ⟨none, 114, yoohooPutword hello.capabilities⟩]) := by
    unfold helloStores
    rw [system, domain, sysop]
    rfl
  refine ⟨_, name, stores, ?_, width, shown, ?_⟩
  · have others : ∀ store ∈ addressStores localaddr, store.Inside := by
      intro store member
      cases localaddr with
      | none => cases member
      | some addr =>
        simp only [addressStores, List.mem_cons, List.not_mem_nil, or_false] at member
        rcases member with rfl | rfl | rfl | rfl <;> exact putword_inside _ (by decide)
    have sysopInside : ∀ store ∈ [(⟨some .sysop, 89, [0]⟩ : YoohooStore), ⟨some .sysop, 70, strncpy hello.sysop 19⟩],
        store.Inside := by
      intro store member
      simp only [List.mem_cons, List.not_mem_nil, or_false] at member
      rcases member with rfl | rfl
      · exact YoohooField.inside (by decide) (by decide)
      · exact YoohooField.inside (by decide) (by rw [strncpy_length]; decide)
    simp only [List.append_assoc, List.forall_mem_append]
    refine ⟨?_, fun store member => (nameInside store (List.mem_append_left _ member)).1,
      fun store member => (nameInside store (List.mem_append_right _ member)).1, sysopInside, others, ?_⟩
    · intro store member
      simp only [List.mem_cons, List.not_mem_nil, or_false] at member
      rcases member with rfl | rfl | rfl | rfl | rfl <;> exact putword_inside _ (by decide)
    · intro store member
      simp only [List.mem_cons, List.not_mem_nil, or_false] at member
      rcases member with rfl | rfl
      · exact YoohooField.inside (by decide) (by rw [strncpy_length]; decide)
      · exact putword_inside _ (by decide)
  · have zeros : (List.replicate yoohooHellolen 0 : Bytes) = List.replicate 10 0 ++ (List.replicate 60 0 ++
        (List.replicate 20 0 ++ (List.replicate 8 0 ++ (List.replicate 8 0 ++ (List.replicate 8 0 ++
          (List.replicate 2 0 ++ List.replicate 12 0)))))) := rfl
    have head : (headBytes hello).length = 10 := rfl
    have place : (headBytes hello ++ name).length = 70 := by rw [List.length_append, head, width]
    have nameStored : ∀ back, storeAll (copy ++ more) (headBytes hello ++ (List.replicate 60 0 ++ back)) =
        some (headBytes hello ++ (name ++ back)) := by
      intro back
      rw [← List.append_assoc, storeAll_part, head, filled, List.append_assoc]
      intro store member
      obtain ⟨⟨-, inside⟩, field⟩ := nameInside store member
      exact inside .name field
    have sysopStored : ∀ back, storeAll [⟨some .sysop, 89, [0]⟩, ⟨some .sysop, 70, strncpy hello.sysop 19⟩]
        ((headBytes hello ++ name) ++ (List.replicate 20 0 ++ back)) =
          some ((headBytes hello ++ name) ++ ((strncpy hello.sysop 19 ++ [0]) ++ back)) := by
      intro back
      rw [← List.append_assoc _ _ back, storeAll_part, place, List.append_assoc]
      · exact congrArg (fun field => some ((headBytes hello ++ name) ++ (field ++ back)))
          (overwrite_copied hello.sysop List.length_replicate)
      · intro store member
        simp only [List.mem_cons, List.not_mem_nil, or_false] at member
        rcases member with rfl | rfl
        · rw [place]
          decide
        · rw [place]
          simp [strncpy_length]
    have place' : ((headBytes hello ++ name) ++ (strncpy hello.sysop 19 ++ [0])).length = 90 := by
      rw [List.length_append, place, List.length_append, strncpy_length]
      rfl
    have place'' : (((headBytes hello ++ name) ++ (strncpy hello.sysop 19 ++ [0])) ++
        addressBytes localaddr).length = 98 := by
      rw [List.length_append, place', addressBytes_length]
    have passwdStored : ∀ (front back : Bytes), front.length = 98 →
        storeAll [⟨some .passwd, 98, strncpy hello.passwd 8⟩] (front ++ (List.replicate 8 0 ++ back)) =
          some (front ++ (strncpy hello.passwd 8 ++ back)) := by
      intro front back size
      rw [← List.append_assoc, storeAll_part, size, List.append_assoc]
      · have whole : Library.overwrite (List.replicate 8 0) 0 (strncpy hello.passwd 8) = strncpy hello.passwd 8 := by
          unfold Library.overwrite
          rw [List.take_zero, List.nil_append, Nat.zero_add, strncpy_length]
          exact List.append_nil _
        exact congrArg (fun field => some (front ++ (field ++ back))) whole
      · intro store member
        rw [List.mem_singleton.mp member, size, strncpy_length]
        exact ⟨Nat.le_refl _, Nat.le_refl _⟩
    have capabilitiesStored : ∀ (front back : Bytes), front.length = 114 →
        storeAll [⟨none, 114, yoohooPutword hello.capabilities⟩] (front ++ (List.replicate 2 0 ++ back)) =
          some (front ++ (yoohooPutword hello.capabilities ++ back)) := by
      intro front back size
      rw [← List.append_assoc, storeAll_part, size, List.append_assoc]
      · have whole : Library.overwrite (List.replicate 2 0) 0 (yoohooPutword hello.capabilities) =
            yoohooPutword hello.capabilities := rfl
        exact congrArg (fun field => some (front ++ (field ++ back))) whole
      · intro store member
        rw [List.mem_singleton.mp member, size]
        simp [yoohooPutword]
    have split_ : [(⟨some .passwd, 98, strncpy hello.passwd 8⟩ : YoohooStore),
        ⟨none, 114, yoohooPutword hello.capabilities⟩] =
        [⟨some .passwd, 98, strncpy hello.passwd 8⟩] ++ [⟨none, 114, yoohooPutword hello.capabilities⟩] := rfl
    rw [List.append_assoc _ copy more, split_, ← List.append_assoc _ [_] [_]]
    rw [storeAll_append, storeAll_append, storeAll_append, storeAll_append, storeAll_append]
    rw [zeros, head_stored, Option.bind_some, nameStored, Option.bind_some, ← List.append_assoc (headBytes hello),
      sysopStored, Option.bind_some, ← List.append_assoc (headBytes hello ++ name), address_stored _ _ place',
      Option.bind_some, ← List.append_assoc _ (addressBytes localaddr), passwdStored _ _ place'', Option.bind_some,
      ← List.append_assoc _ (strncpy hello.passwd 8), ← List.append_assoc _ (List.replicate 8 0),
      capabilitiesStored]
    · unfold helloPacket
      simp only [List.append_assoc]
    · rw [List.length_append, List.length_append, place'', strncpy_length]
      rfl

/-! ## The round trip -/

/-- A word is read as it was written, with 16 bits. -/
theorem getword_putword (val : Int) (rest : Bytes) : yoohooGetword (yoohooPutword val ++ rest) = val % 2 ^ 16 := by
  unfold yoohooGetword yoohooPutword
  simp only [List.cons_append, List.getD_cons_zero, List.getD_cons_succ, UInt8.toNat_ofNat']
  omega

/-- What is shown of the name is a beginning of it, and all of it where both texts fit. -/
theorem systemShown_prefix (system domain : Bytes) :
    systemShown system domain <+: system ∧
      (system.length + 1 + domain.length + 1 ≤ 60 → systemShown system domain = system) := by
  unfold systemShown
  split
  · exact ⟨List.take_prefix _ _, fun fits => List.take_of_length_le (by omega)⟩
  · exact ⟨List.prefix_refl _, fun _ => rfl⟩

/-- What stands behind the name. -/
theorem helloPacket_drop {hello : YoohooSysinfo} {localaddr : Option Faddr} {name : Bytes} (width : name.length = 60) :
    (helloPacket hello localaddr name).drop 70 = (strncpy hello.sysop 19 ++ [0]) ++ (addressBytes localaddr ++
      (strncpy hello.passwd 8 ++ (List.replicate 8 0 ++ (yoohooPutword hello.capabilities ++
        List.replicate 12 0)))) := by
  unfold helloPacket
  rw [← List.append_assoc (headBytes hello), List.drop_left']
  rw [List.length_append, width]
  rfl

/-- What stands behind the address. -/
theorem helloPacket_passwd {hello : YoohooSysinfo} {localaddr : Option Faddr} {name : Bytes}
    (width : name.length = 60) : (helloPacket hello localaddr name).drop 98 =
      strncpy hello.passwd 8 ++ (List.replicate 8 0 ++ (yoohooPutword hello.capabilities ++ List.replicate 12 0)) := by
  rw [show 98 = 70 + 28 from rfl, ← List.drop_drop, helloPacket_drop width, ← List.append_assoc _ (addressBytes _),
    List.drop_left']
  rw [List.length_append, List.length_append, strncpy_length, addressBytes_length]
  rfl

/-- The hello packet is written inside of its bounds, each text in its field, and read back. -/
theorem yoohoo_hello (hello : YoohooSysinfo) (localaddr : Option Faddr) (holds : hello.Holds)
    (limit : (localDomain localaddr).length < domainSize) (words : ∀ addr ∈ localaddr, addr.Words) :
    ∃ stores packet, helloStores hello localaddr = some stores ∧ (∀ store ∈ stores, store.Inside) ∧
      yoohooPutHello hello localaddr = some packet ∧ packet.length = yoohooHellolen ∧
      (∀ addr ∈ localaddr, (yoohooGetHello packet).2 =
        { zone := addr.zone, net := addr.net, node := addr.node, point := addr.point }) ∧
      ∃ shown, (yoohooGetHello packet).1 =
          { hello with system := shown, sysop := hello.sysop.take 19, passwd := hello.passwd.take 8 } ∧
        shown <+: hello.system ∧
        (hello.system.length + 1 + (localDomain localaddr).length + 1 ≤ 60 → shown = hello.system) := by
  obtain ⟨stores, name, made, inside, width, shown, stored⟩ := hello_stored localaddr holds limit
  obtain ⟨begins, whole⟩ := systemShown_prefix hello.system (localDomain localaddr)
  refine ⟨stores, helloPacket hello localaddr name, made, inside, ?_, ?_, ?_, _, ?_, begins, whole⟩
  · rw [yoohooPutHello, made]
    exact stored
  · simp only [helloPacket, List.length_append, width, strncpy_length, addressBytes_length, List.length_replicate]
    rfl
  · intro addr is
    obtain ⟨zone, net, node, point, -⟩ : (0 ≤ addr.zone ∧ addr.zone < 2 ^ 16) ∧ (0 ≤ addr.net ∧ addr.net < 2 ^ 16) ∧
        (0 ≤ addr.node ∧ addr.node < 2 ^ 16) ∧ (0 ≤ addr.point ∧ addr.point < 2 ^ 16) ∧ True := by
      simpa [Faddr.Words] using words addr is
    have address : ∀ count, (helloPacket hello localaddr name).drop (90 + count) =
        (addressBytes localaddr ++ (strncpy hello.passwd 8 ++ (List.replicate 8 0 ++
          (yoohooPutword hello.capabilities ++ List.replicate 12 0)))).drop count := by
      intro count
      rw [show 90 + count = 70 + 20 + count from rfl, ← List.drop_drop, ← List.drop_drop, helloPacket_drop width,
        List.drop_left']
      rw [List.length_append, strncpy_length]
      rfl
    rw [is] at address
    unfold yoohooGetHello
    dsimp only
    rw [is, show 90 = 90 + 0 from rfl, show 92 = 90 + 2 from rfl, show 94 = 90 + 4 from rfl,
      show 96 = 90 + 6 from rfl]
    simp only [address]
    have read : ∀ part rest, 0 ≤ part ∧ part < 2 ^ 16 → yoohooGetword (yoohooPutword part ++ rest) = part := by
      intro part rest bounds
      rw [getword_putword]
      omega
    refine Faddr.mk.injEq .. |>.mpr ⟨rfl, ?_, ?_, ?_, ?_, rfl⟩
    · exact read addr.zone _ zone
    · exact read addr.net _ net
    · exact read addr.node _ node
    · exact read addr.point _ point
  · have read : ∀ part rest, 0 ≤ part ∧ part < 2 ^ 16 → yoohooGetword (yoohooPutword part ++ rest) = part := by
      intro part rest bounds
      rw [getword_putword]
      omega
    have capabilities : (helloPacket hello localaddr name).drop 114 =
        yoohooPutword hello.capabilities ++ List.replicate 12 0 := by
      rw [show 114 = 98 + 16 from rfl, ← List.drop_drop, helloPacket_passwd width, ← List.append_assoc _ (List.replicate 8 0),
        List.drop_left']
      rw [List.length_append, strncpy_length, List.length_replicate]
    have named : (helloPacket hello localaddr name).drop 10 = name ++ (helloPacket hello localaddr name).drop 70 := by
      rw [helloPacket_drop width]
      rfl
    have small : hello.system.length ≤ 40 := holds.system.1
    have shorter := begins.length_le
    have room : yoohooMaxfield = 40 := rfl
    unfold yoohooGetHello strnxcpy
    dsimp only
    rw [named, shown, helloPacket_drop width, helloPacket_passwd width, capabilities]
    refine YoohooSysinfo.mk.injEq .. |>.mpr ⟨?_, ?_, ?_, ?_, ?_, ?_, ?_⟩
    · exact read _ _ holds.productCode
    · exact read _ _ holds.versionMaj
    · exact read _ _ holds.versionMin
    · exact List.take_of_length_le (by omega)
    · rw [List.append_assoc]
      refine (congrArg _ (cstring_strncpy holds.sysop.2 19 _)).trans (List.take_of_length_le ?_)
      rw [List.length_take]
      exact Nat.le_trans (Nat.min_le_left _ _) (by decide)
    · refine (congrArg _ (cstring_strncpy holds.passwd.2 8 _)).trans (List.take_of_length_le ?_)
      rw [List.length_take]
      exact Nat.min_le_left _ _
    · exact read _ _ holds.capabilities

/-- A system with a name of forty characters. -/
def longHello : YoohooSysinfo where
  productCode := 0xff
  versionMin := 4
  system := ascii "A system with a name of forty characters"
  sysop := ascii "Sysop"
  passwd := ascii "secretword"
  capabilities := 0x0024

/-- Its address, with a domain that does not fit behind the name. -/
def longAddr : Faddr where
  zone := 2
  net := 5020
  node := 1398
  domain := ascii "fidonet.example.network"

/-- Of eight characters the password is left, and a beginning of the name. -/
theorem yoohoo_hello_long : ∃ packet, yoohooPutHello longHello longAddr = some packet ∧
    (yoohooGetHello packet).1.passwd = ascii "secretwo" ∧ (yoohooGetHello packet).1.system <+: longHello.system := by
  obtain ⟨_, packet, -, -, stored, -, -, shown, read, begins, -⟩ := yoohoo_hello longHello longAddr
    ⟨by decide, by decide, by decide, by decide, by decide, by decide, by decide⟩
    (by decide) (by rintro _ ⟨⟩; unfold Faddr.Words; decide)
  refine ⟨packet, stored, ?_, ?_⟩
  · rw [read]
    exact show longHello.passwd.take 8 = ascii "secretwo" by decide
  · rw [read]
    exact begins

end Binkleyforce
