import Mathlib.Data.Nat.Notation

/-! # Constants of `dynpm_common.h` -/

namespace Dynpm

/-- `DYNPM_MAX_MESSAGE_SIZE`: every message travels in a frame of this size. -/
def maxMessageSize : ℕ := 4096

/-- `MAX_SERVER_CONNECTIONS`: the number of entries of the connection table of a client. -/
def maxServerConnections : ℕ := 64

end Dynpm
