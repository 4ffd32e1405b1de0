import Mathlib.Data.List.FinRange
import QnxHypervisor.GuestManager.OneProcess
import QnxHypervisor.HmsStatus.Message

/-! # The info command

`main.c` keeps the guests in a static array. `find_guest` answers with the place
of a record, and `refresh` fills the array anew from the front: a place kept
across a refresh names whatever stands there then, and behind the new count the
old records are still there.
-/

namespace QnxHypervisor.HmsStatus

open Foundation GuestManager

/-! ## Source functions -/

/-- `guests` and `guest_count`. -/
structure GuestTable where
  slots : Fin maxGuests → Guest
  count : Nat
  fits : count ≤ maxGuests

/-- The places that `find_guest` goes through. -/
def GuestTable.places (t : GuestTable) : List (Fin maxGuests) := (List.finRange maxGuests).take t.count

/-- `find_guest`: the pointer. -/
def GuestTable.find (t : GuestTable) (id : Bytes) : Option (Fin maxGuests) :=
  t.places.find? fun i => (t.slots i).id.bytes = id

/-- The array behind `discover_guests`: the slots from the count on are not touched. -/
def GuestTable.refill (t : GuestTable) (found : List Guest) (h : found.length ≤ maxGuests) :
    GuestTable where
  slots i := (found[i.val]?).getD (t.slots i)
  count := found.length
  fits := h

theorem discoverGuests_fits (env : RefreshEnv) (h : Host) :
    (discoverGuests env h).length ≤ maxGuests := by
  rw [discoverGuests, List.length_map]
  exact List.length_take_le _ _

/-- `refresh`, on the array. -/
def refreshTable (env : RefreshEnv) (h : Host) (t : GuestTable) : GuestTable :=
  t.refill (discoverGuests env h) (discoverGuests_fits env h)

/-- `cmd_info`: what is published; `after` is what its refresh finds. -/
def cmdInfoMessage (id : Bytes) (after : RefreshEnv) (h : Host) (t : GuestTable) : StatusMessage :=
  match t.find id with
  | none => .unknownGuest id
  | some place => .guestInfo ((refreshTable after h t).slots place)

/-! ## The law -/

/-- A message about the requested guest as the refresh has found it, or about an
unknown guest when there is none of this id any more. -/
def InfoLaw (id : Bytes) (listing : List Guest) (m : StatusMessage) : Prop :=
  (∃ g ∈ listing, g.id.bytes = id ∧ m = .guestInfo g) ∨
    (∀ g ∈ listing, g.id.bytes ≠ id) ∧ m = .unknownGuest id

/-- The new listing has a guest of the id at the old place. One too short to reach
the place still has the guest, somewhere, with the record that was left there. -/
def InfoInPlace (id : Bytes) (listing : List Guest) (t : GuestTable) (place : Fin maxGuests) : Prop :=
  match listing[place.val]? with
  | some g => g.id.bytes = id
  | none => t.slots place ∈ listing

instance (id : Bytes) (listing : List Guest) (t : GuestTable) (place : Fin maxGuests) :
    Decidable (InfoInPlace id listing t place) :=
  match hslot : listing[place.val]? with
  | some g => decidable_of_iff (g.id.bytes = id) (by simp [InfoInPlace, hslot])
  | none => decidable_of_iff (t.slots place ∈ listing) (by simp [InfoInPlace, hslot])

theorem find_id {t : GuestTable} {id : Bytes} {place : Fin maxGuests} (h : t.find id = some place) :
    (t.slots place).id.bytes = id := by
  simpa using List.find?_some h

theorem infoLaw_guestInfo {id : Bytes} {listing : List Guest} {g : Guest} :
    InfoLaw id listing (.guestInfo g) ↔ g ∈ listing ∧ g.id.bytes = id := by
  constructor
  · rintro (⟨g', hmem, hid, hg⟩ | ⟨-, hm⟩)
    · obtain rfl := StatusMessage.guestInfo.inj hg
      exact ⟨hmem, hid⟩
    · cases hm
  · rintro ⟨hmem, hid⟩
    exact .inl ⟨g, hmem, hid, rfl⟩

/-- For every array and every listing the refresh can find. -/
theorem cmd_info_iff {id : Bytes} {t : GuestTable} {place : Fin maxGuests}
    (hknown : t.find id = some place) (after : RefreshEnv) (h : Host) :
    InfoLaw id (discoverGuests after h) (cmdInfoMessage id after h t) ↔
      InfoInPlace id (discoverGuests after h) t place := by
  have hmessage : cmdInfoMessage id after h t =
      .guestInfo (((discoverGuests after h)[place.val]?).getD (t.slots place)) := by
    simp only [cmdInfoMessage, hknown, refreshTable, GuestTable.refill]
  rw [hmessage, infoLaw_guestInfo, InfoInPlace]
  cases hslot : (discoverGuests after h)[place.val]? with
  | none =>
      rw [Option.getD_none]
      exact and_iff_left (find_id hknown)
  | some g =>
      rw [Option.getD_some]
      exact and_iff_right (List.mem_of_getElem? hslot)

/-! ## The defect -/

/-- The array as the program starts with it. -/
def zeroTable : GuestTable where
  slots _ := ⟨.fit 32 [], .fit 64 [], .qnx, .running, 0, .fit 256 [], .fit 256 [], .fit 256 [],
    .fit 64 [], .fit 64 [], .fit 128 [], .fit 512 [], 0⟩
  count := 0
  fits := Nat.zero_le _

def guestB : Bytes := utf8 "guest-b"

/-- Two guests found, in this order. -/
def twoGuests : GuestTable := refreshTable (guestsOn [guestA, guestB]) bareHost zeroTable

theorem cmd_info_same_order :
    InfoLaw guestB (discoverGuests (guestsOn [guestA, guestB]) bareHost)
      (cmdInfoMessage guestB (guestsOn [guestA, guestB]) bareHost twoGuests) :=
  (@cmd_info_iff guestB twoGuests ⟨1, by decide⟩ (by decide +kernel) (guestsOn [guestA, guestB]) bareHost).mpr
    (by decide +kernel)

/-- The second listing has the two guests the other way round: asked for the second,
the command reports the first. -/
theorem reordered_listing_reports_other :
    ¬ InfoLaw guestB (discoverGuests (guestsOn [guestB, guestA]) bareHost)
      (cmdInfoMessage guestB (guestsOn [guestB, guestA]) bareHost twoGuests) := by
  have hother : cmdInfoMessage guestB (guestsOn [guestB, guestA]) bareHost twoGuests =
      .guestInfo (guestOf (guestsOn []).cfg bareHost (guestEntry guestA)) := by decide +kernel
  rw [hother, infoLaw_guestInfo]
  exact fun h => absurd h.2 (by decide +kernel)

end QnxHypervisor.HmsStatus
