import Mathlib.Logic.Basic

/-!
# Error codes (CommonDefinitions.h)
-/

namespace Hplip.Hpcups

/-- `DRIVER_ERROR`: an enumeration some of whose names share a value. -/
structure DriverError where
  code : Int
  deriving DecidableEq, Repr

namespace DriverError

def noError : DriverError := ⟨0x00⟩

def systemError : DriverError := ⟨0x02⟩

def allocmemError : DriverError := ⟨0x03⟩

def unsupportedPrintmode : DriverError := ⟨0x19⟩

def ioError : DriverError := ⟨0x20⟩

def pluginLibraryMissing : DriverError := ⟨0x30⟩

end DriverError

end Hplip.Hpcups
