import QnxHypervisor.Foundation.Text

/-! # The guest record

`guest.h`: what HMS keeps in memory for one guest.
-/

namespace QnxHypervisor.GuestManager

open Foundation

def maxGuests : Nat := 16

inductive GuestType where
  | qnx
  | linux
  | android
  | unknown
  deriving DecidableEq

inductive GuestState where
  | running
  | stopped
  | crashed
  deriving DecidableEq

structure Guest where
  id : CStr 32
  name : CStr 64
  type : GuestType
  state : GuestState
  pid : Int32
  confPath : CStr 256
  bootPath : CStr 256
  rootfsPath : CStr 256
  ip : CStr 64
  sshUser : CStr 64
  sshPassword : CStr 128
  sshKey : CStr 512
  sshPort : Int32
  deriving DecidableEq

def guestTypeStr : GuestType → Bytes
  | .qnx => utf8 "qnx"
  | .linux => utf8 "linux"
  | .android => utf8 "android"
  | .unknown => utf8 "unknown"

def guestStateStr : GuestState → Bytes
  | .running => utf8 "running"
  | .stopped => utf8 "stopped"
  | .crashed => utf8 "crashed"

/-- `find_guest`: the first guest of that id. -/
def findGuest (guests : List Guest) (id : Bytes) : Option Guest :=
  guests.find? fun g => g.id.bytes = id

/-- An assignment through the pointer that `find_guest` returned. -/
def updateGuest (f : Guest → Guest) (id : Bytes) : List Guest → List Guest
  | [] => []
  | g :: rest => if g.id.bytes = id then f g :: rest else g :: updateGuest f id rest

end QnxHypervisor.GuestManager
