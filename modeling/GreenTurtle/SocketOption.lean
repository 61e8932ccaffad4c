import GreenTurtle.FixedWidth
import Mathlib.Tactic

/-!
# Socket settings and wrappers around the socket calls

`socket_config.cc` and `socket_option.cc`.  A call returns a value and may set
`errno`.  The wrappers turn the error codes that only mean "try again" into
zero.  The results of `write` and `readv` pass through an `int`, and `errno` is
looked at whenever that `int` is `-1`.
-/

namespace GreenTurtle.SocketConfig

def kBufferedSocketBufferSize : ℕ := 1024

def kBufferedSocketRetrieveBufferSize : ℕ := 128

end GreenTurtle.SocketConfig

namespace GreenTurtle.SocketOption

open FixedWidth

inductive Errno where
  | eagain
  | enetdown
  | eproto
  | enoprotoopt
  | ehostdown
  | enonet
  | ehostunreach
  | eopnotsupp
  | enetunreach
  | other
  deriving DecidableEq

/-- The common body of `Write`, `Read` and `Readv`. -/
def transferred (returned : ℤ) (errno : Errno) : ℤ :=
  let count := toInt32 returned
  if count = -1 ∧ errno = .eagain then 0 else count

def write (returned : ℤ) (errno : Errno) : ℤ :=
  transferred returned errno

def readv (returned : ℤ) (errno : Errno) : ℤ :=
  transferred returned errno

/-- The errors of `accept` that concern the new connection only.  The test
for `ENONET` stands under `HAVE_EPOLL`, which `poller.h` defines and
`socket_option.cc` does not include, so the compiled code does not have it. -/
def Errno.ignoredByAccept : Errno → Bool
  | .eagain => true
  | .enetdown => true
  | .eproto => true
  | .enoprotoopt => true
  | .ehostdown => true
  | .enonet => false
  | .ehostunreach => true
  | .eopnotsupp => true
  | .enetunreach => true
  | .other => false

def accept (returned : ℤ) (errno : Errno) : ℤ :=
  if returned = -1 ∧ errno.ignoredByAccept then 0 else returned

/-- A count that fits an `int` is passed on unchanged. -/
theorem transferred_of_bounds
    {returned : ℤ} (errno : Errno) (hnonneg : 0 ≤ returned)
    (hlt : returned < 2147483648) :
    transferred returned errno = returned := by
  unfold transferred
  rw [toInt32_of_bounds (by omega) hlt]
  dsimp only
  rw [if_neg (by omega)]

/-- A call that moves no data is reported as zero or as an error. -/
theorem transferred_neg_one (errno : Errno) :
    transferred (-1) errno ≤ 0 := by
  have hint : toInt32 (-1) = -1 := toInt32_of_bounds (by omega) (by omega)
  unfold transferred
  rw [hint]
  dsimp only
  split <;> omega

end GreenTurtle.SocketOption
