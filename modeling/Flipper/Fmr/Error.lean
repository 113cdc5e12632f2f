import Flipper.Binary.Memory

/-! Status and error codes of `lib/error.h` and `lib/errors.def`. -/
namespace Flipper.Fmr
open Binary

def lfSuccess : Int := 0

def lfError : Int := 1

theorem lfError_ne : lfError ≠ lfSuccess := by decide

/-- `errors.def`, in order: the position is the code. -/
inductive LfErr where
  | eOk | eMalloc | eNull | eOverflow | eUnderflow | eNoDevice | eNotAttached | eAlreadyAttached
  | eFsExists | eFsNoFile | eFmrOverflow | eFmr | eEndpoint | eLibusb | eCommunication | eSocket
  | eModule | eResolution | eString | eChecksum | eName | eConfiguration | eAck | eType | eBoundary
  | eTimer | eTimeout | eNoPid | eInvalidTask | eSubclass | eUnimplemented | eTest | eUsb
  | eUart0WriteTimeout | eUart0ReadTimeout | lfMaxErr
  deriving DecidableEq, Repr

namespace LfErr

/-- The value held by `_lf_err` and by the error byte of a result. -/
def code (err : LfErr) : Byte := BitVec.ofNat 8 err.ctorIdx

end LfErr

def lfErrorSet (err : LfErr) : Byte :=
  if err.code < LfErr.lfMaxErr.code then err.code else LfErr.eBoundary.code

end Flipper.Fmr
