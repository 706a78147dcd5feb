import Binkleyforce.Session.Passwords

/-!
# Which addresses may have mail

An address is entitled to mail when it is not one of our own and the received
password is right for it, or none is configured. The law of the check is that
its marks, and so the addresses locked and queued afterwards, are those of the
entitled addresses. The code marks every acceptable address, so the law holds
exactly where no acceptable address has a password that was missed.
-/

namespace Binkleyforce

/-- No password is configured for the address, or the received one matches. -/
def passwordRight (conf : PasswordConf) (passwd : Bytes) (challenge : Option Bytes)
    (addr : Faddr) : Bool :=
  match sessionGetPassword conf addr passwordBufferSize with
  | some pbuf => goodPasswd passwd challenge pbuf
  | none => true

/-- The address is acceptable and its password, if any, was given. -/
def entitled (conf : PasswordConf) (passwd : Bytes) (challenge : Option Bytes)
    (addr : Faddr) : Bool :=
  !sessionCheckAddr conf addr && passwordRight conf passwd challenge addr

/-- The list as `session_addrs_check` leaves it for a remote that presents these
addresses. -/
def checkedAddrs (conf : PasswordConf) (presented : List Faddr) (isProtected : Bool)
    (passwd : Bytes) (challenge : Option Bytes) : List Sysaddr :=
  (sessionAddrsCheck conf (sessionAddrsPresented presented) isProtected passwd challenge).addrs

/-- The law of the check: good marks, locks and mail go to entitled addresses.
The locks are those asked of a lock function with arbitrary answers. -/
def MarksEntitled (conf : PasswordConf) (presented : List Faddr) (isProtected : Bool)
    (passwd : Bytes) (challenge : Option Bytes) (answer : Faddr → Int) : Prop :=
  let checked := checkedAddrs conf presented isProtected passwd challenge
  let locked := sessionAddrsLock (recordLock answer) [] checked
  (∀ entry ∈ checked, entry.good = true ↔ entitled conf passwd challenge entry.addr = true) ∧
    (∀ addr ∈ locked.1, entitled conf passwd challenge addr = true) ∧
    ∀ addr ∈ sessionAddrsToFalist locked.2.1, entitled conf passwd challenge addr = true

/-- A checked entry stems from a presented one with the same address. -/
theorem checked_origin (conf : PasswordConf) (presented : List Faddr) (isProtected : Bool)
    (passwd : Bytes) (challenge : Option Bytes) (entry : Sysaddr)
    (member : entry ∈ checkedAddrs conf presented isProtected passwd challenge) :
    ∃ source ∈ sessionAddrsPresented presented, source.addr = entry.addr ∧
      (entry.good = true ↔ sessionCheckAddr conf entry.addr = false) := by
  rw [checkedAddrs, sessionAddrsCheck_addrs] at member
  obtain ⟨source, present, rfl⟩ := List.mem_map.mp member
  refine ⟨source, present, ?_⟩
  have unmarked : source.good = false := (presented_unmarked presented source present).1
  by_cases own : sessionCheckAddr conf source.addr = true <;> simp [own, unmarked]

/-- An acceptable presented address is marked good by the check. -/
theorem acceptable_marked (conf : PasswordConf) (presented : List Faddr) (isProtected : Bool)
    (passwd : Bytes) (challenge : Option Bytes) (source : Sysaddr)
    (present : source ∈ sessionAddrsPresented presented)
    (acceptable : sessionCheckAddr conf source.addr = false) :
    { source with good := true } ∈
      checkedAddrs conf presented isProtected passwd challenge := by
  rw [checkedAddrs, sessionAddrsCheck_addrs]
  exact List.mem_map.mpr ⟨source, present, by simp [acceptable]⟩

/-- An address the lock is asked for belongs to a good entry. -/
theorem asked_good (answer : Faddr → Int) (addrs : List Sysaddr) (addr : Faddr)
    (asked : addr ∈ (sessionAddrsLock (recordLock answer) [] addrs).1) :
    ∃ entry ∈ addrs, entry.good = true ∧ entry.addr = addr := by
  rw [sessionAddrsLock_asks, List.nil_append] at asked
  obtain ⟨entry, kept, same⟩ := List.mem_map.mp asked
  obtain ⟨member, good⟩ := List.mem_filter.mp kept
  exact ⟨entry, member, good, same⟩

/-- An address mail is queued for after locking belongs to a good entry. -/
theorem queued_good (answer : Faddr → Int) (addrs : List Sysaddr) (addr : Faddr)
    (queued : addr ∈ sessionAddrsToFalist
      (sessionAddrsLock (recordLock answer) [] addrs).2.1) :
    ∃ entry ∈ addrs, entry.good = true ∧ entry.addr = addr := by
  obtain ⟨after, kept, same⟩ := List.mem_map.mp queued
  obtain ⟨member, free⟩ := List.mem_filter.mp kept
  have good : after.good = true := by
    simp only [Bool.and_eq_true] at free
    exact free.2
  have listed : (after.addr, after.good) ∈ addrs.map (fun entry => (entry.addr, entry.good)) := by
    rw [← sessionAddrsLock_marks (recordLock answer) [] addrs]
    exact List.mem_map.mpr ⟨after, member, rfl⟩
  obtain ⟨entry, present, pair⟩ := List.mem_map.mp listed
  obtain ⟨sameAddr, sameGood⟩ := Prod.mk.inj pair
  exact ⟨entry, present, sameGood.trans good, sameAddr.trans same⟩

end Binkleyforce
