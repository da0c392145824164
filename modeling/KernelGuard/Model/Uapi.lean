/-
The ABI shared by the kernel module and the monitor (`linux/include/kernelguard_uapi.h`).

The constants keep the widths the code computes with: alert types, levels and
postures are `u32` values that any caller may pass, so they are numbers here and
not an enumeration that would exclude the out-of-range ones.
-/
import KernelGuard.Lib.Bytes

namespace KernelGuard

/-! ### Alert levels and postures -/

def kgLevelInfo : UInt32 := 0
def kgLevelWatch : UInt32 := 1
def kgLevelCritical : UInt32 := 2

def kgPostureNormal : UInt32 := 0
def kgPostureElevated : UInt32 := 1
def kgPostureHigh : UInt32 := 2
def kgPostureFailsafe : UInt32 := 3
def kgPostureCount : UInt32 := 4

/-- `KG_POSTURE_WHY_*`: the high half of `POSTURE_CHANGED`'s second parameter. -/
def kgPostureWhyDecay : UInt32 := 2
def kgPostureWhyOperator : UInt32 := 3

/-- `KG_STRAT_FULL`; the cheaper strategies are the values below it. -/
def kgStratFull : UInt8 := 4

/-! ### Alert codes -/

def kgAlertPmuL1dAnomaly : UInt32 := 0x0001
def kgAlertPmuL2Anomaly : UInt32 := 0x0002
def kgAlertPmuRdtscRate : UInt32 := 0x0003
def kgAlertUnauthorizedKbdFilter : UInt32 := 0x0010
def kgAlertUnauthorizedDma : UInt32 := 0x0011
def kgAlertPciDiscrepancy : UInt32 := 0x0012
def kgAlertKbdFilterNeutralized : UInt32 := 0x0013
def kgAlertDmaBlockedIommu : UInt32 := 0x0014
def kgAlertDeviceBmeDisabled : UInt32 := 0x0015
def kgAlertIdtHook : UInt32 := 0x0020
def kgAlertDispatchHook : UInt32 := 0x0021
def kgAlertTextPatch : UInt32 := 0x0022
def kgAlertCtrlRegTamper : UInt32 := 0x0023
def kgAlertModuleLoaded : UInt32 := 0x0024
def kgAlertVulnDriver : UInt32 := 0x0025
def kgAlertDriverBlocked : UInt32 := 0x0026
def kgAlertLoadPolicy : UInt32 := 0x0027
def kgAlertSharedStateCorrupt : UInt32 := 0x0030
def kgAlertFailSafeEntered : UInt32 := 0x0031
def kgAlertPostureChanged : UInt32 := 0x0032

/-! ### The notification ring -/

def kgNotifySlots : Nat := 16
def kgNotifyMagic : UInt32 := 0xDEADC0DE

instance : NeZero kgNotifySlots := ⟨by decide⟩

/-- The 32 bytes of an HMAC, as the four 8-byte words a `memcpy` moves. -/
structure KgMac where
  w0 : UInt64
  w1 : UInt64
  w2 : UInt64
  w3 : UInt64
  deriving DecidableEq, Repr

/-- `struct kg_notification`. -/
structure KgNotification where
  magic : UInt32
  sequence : UInt32
  alertType : UInt32
  alertLevel : UInt32
  timestamp : UInt64
  param1 : UInt64
  param2 : UInt64
  hmac : KgMac
  deriving DecidableEq, Repr

/-- A zero-filled notification (`= { }`, or a slot of a zeroed page). -/
def KgNotification.zero : KgNotification :=
  ⟨0, 0, 0, 0, 0, 0, 0, ⟨0, 0, 0, 0⟩⟩

/-- The first `KG_HMAC_AUTH_LEN` (40) bytes, which the HMAC covers. -/
def KgNotification.authBytes (n : KgNotification) : List UInt8 :=
  Bytes.le32 n.magic ++ Bytes.le32 n.sequence ++ Bytes.le32 n.alertType ++ Bytes.le32 n.alertLevel
    ++ Bytes.le64 n.timestamp ++ Bytes.le64 n.param1 ++ Bytes.le64 n.param2

/-- `struct kg_shared_region`, less the two words nothing reads. -/
structure KgSharedRegion where
  writeIndex : UInt32
  driverNonce : UInt32
  notifications : Fin kgNotifySlots → KgNotification

/-- Notification `seq` lives in slot `seq % KG_NOTIFY_SLOTS`. -/
def slotOf (seq : UInt32) : Fin kgNotifySlots := Fin.ofNat kgNotifySlots seq.toNat

/-- `struct kg_notification`'s alert parameters, as a caller of `kg_report` gives them. -/
structure Alert where
  type : UInt32
  level : UInt32
  p1 : UInt64
  p2 : UInt64
  deriving DecidableEq, Repr

end KernelGuard
