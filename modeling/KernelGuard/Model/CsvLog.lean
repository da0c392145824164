/-
The CSV log of the monitor (`linux/monitor/kgmon.c`): `csv_field`, the log line of `emit`, and the
header that `cmd_monitor` writes to an empty file.

What `localtime_r` says about a second is a parameter.
-/
import KernelGuard.Model.LogWindow

namespace KernelGuard.CsvLog

/-- `struct tm`, as `strftime` counts it. -/
structure Tm where
  year : Nat
  month : Nat
  day : Nat
  hour : Nat
  minute : Nat
  second : Nat

/-- `ts_string`. -/
def tsString (localtime : UInt64 → Tm) (ns : UInt64) : CStr :=
  let tm := localtime (ns / 1000000000)
  decText tm.year ++ str "-" ++ padZero 2 (decText tm.month) ++ str "-"
    ++ padZero 2 (decText tm.day) ++ str " " ++ padZero 2 (decText tm.hour) ++ str ":"
    ++ padZero 2 (decText tm.minute) ++ str ":" ++ padZero 2 (decText tm.second) ++ str "."
    ++ padZero 3 (decText (ns % 1000000000 / 1000000).toNat)

def levelText (l : UInt32) : CStr :=
  if l = kgLevelInfo then str "Info" else if l = kgLevelWatch then str "Warning" else str "CRITICAL"

/-- `alert_text`. -/
def alertText (t : UInt32) : CStr :=
  if t = kgAlertPmuL1dAnomaly then str "L1D Cache Attack Pattern"
  else if t = kgAlertPmuL2Anomaly then str "LLC Cache Attack Pattern"
  else if t = kgAlertPmuRdtscRate then str "Timing Reconnaissance (RDTSC)"
  else if t = kgAlertUnauthorizedKbdFilter then str "Unauthorized Keyboard Filter"
  else if t = kgAlertUnauthorizedDma then str "Unauthorized DMA Access"
  else if t = kgAlertPciDiscrepancy then str "PCIe Device Discrepancy"
  else if t = kgAlertKbdFilterNeutralized then str "Keyboard Filter Neutralized"
  else if t = kgAlertDmaBlockedIommu then str "DMA Blocked (IOMMU)"
  else if t = kgAlertDeviceBmeDisabled then str "PCIe Bus Master Disabled"
  else if t = kgAlertIdtHook then str "IDT Hook Detected"
  else if t = kgAlertDispatchHook then str "Input Callback Hook"
  else if t = kgAlertTextPatch then str "Kernel .text Patched"
  else if t = kgAlertCtrlRegTamper then str "CPU Control State Tampered"
  else if t = kgAlertModuleLoaded then str "Kernel Module Loaded"
  else if t = kgAlertVulnDriver then str "Vulnerable Driver Loaded"
  else if t = kgAlertDriverBlocked then str "Driver Load Blocked"
  else if t = kgAlertLoadPolicy then str "Driver Load Policy"
  else if t = kgAlertSharedStateCorrupt then str "Driver State Corrupted"
  else if t = kgAlertFailSafeEntered then str "CRITICAL: Fail-Safe Mode"
  else if t = kgAlertPostureChanged then str "Response Posture Changed"
  else if t = kgpAlertForged then str "Forged Notification"
  else if t = kgpAlertOverrun then str "Notifications Lost"
  else if t = kgpAlertTamper then str "Ring Tamper Suspected"
  else str "Unknown Alert"

/-- `csv_field`. -/
def csvField (s : CStr) : CStr :=
  str "\"" ++ s.flatMap (fun c => if c = 34 then [34, c] else [c]) ++ str "\""

/-- What `emit` writes to the log. -/
def emitLog (localtime : UInt64 → Tm) (n : KgNotification) (hmacOk : Bool) : CStr :=
  tsString localtime n.timestamp ++ str "," ++ levelText n.alertLevel ++ str ","
    ++ csvField (alertText n.alertType)
    ++ str "," ++ (if hmacOk then str "OK" else str "FAIL") ++ str ","
    ++ decText n.sequence.toNat ++ str ",0x" ++ hexText 16 n.param1.toNat
    ++ str ",0x" ++ hexText 16 n.param2.toNat ++ str ","
    ++ csvField (formatDetails n) ++ str "\n"

def logHeader : CStr := str "Time,Level,AlertType,HMAC,Seq,Param1,Param2,Details\n"

/-- `cmd_monitor` opens the log for appending: an empty file gets the header. -/
def openLog (file : CStr) : CStr := if file = [] then logHeader else file

/-- The log when the sinks have had these events of the reader; only `emit` writes to it. -/
def logEvents (localtime : UInt64 → Tm) (file : CStr) : List DrainEvent → CStr
  | [] => file
  | .emit n hmacOk :: evs => logEvents localtime (file ++ emitLog localtime n hmacOk) evs
  | _ :: evs => logEvents localtime file evs

end KernelGuard.CsvLog
