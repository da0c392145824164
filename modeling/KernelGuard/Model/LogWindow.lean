/-
The alert log of the Windows monitor (`windows/usermode/log_window.c`).

The window keeps a list to look at and a ring of records to save; the list and the dialogs are
left out.  `SaveLog` is modelled from the created file on, as the pieces it writes.  The texts
of a record are ASCII, as `DriverComm_FormatAlert` writes them, and `%S` copies them.
-/
import KernelGuard.Model.Monitor
import KernelGuard.Model.SecureComms
import KernelGuard.Lib.Ring

namespace KernelGuard

/-- The size of the ring. -/
def storedMax : Nat := 512

instance : NeZero storedMax := ⟨by decide⟩

/-- `ALERT_RECORD` with its time and its texts. -/
structure LogRecord extends AlertRecord where
  hour : UInt16
  minute : UInt16
  second : UInt16
  typeText : CStr
  details : CStr
  /-- The arrays have room for the NUL. -/
  typeText_fits : typeText.length < 64
  details_fits : details.length < 128

/-! ### `printf` -/

/-- Digits, with zeros in front up to a width. -/
def padZero (width : Nat) (digits : CStr) : CStr :=
  List.replicate (width - digits.length) 48 ++ digits

/-- `%llX`. -/
def upperHexText (n : Nat) : CStr := (Nat.toDigits 16 n).map fun c => UInt8.ofNat c.toUpper.toNat

/-- What `_snprintf_s` with `_TRUNCATE` returns for a buffer of `size` bytes. -/
def snprintfS (size : Nat) (text : CStr) : Int := if text.length < size then text.length else -1

/-! ### The window -/

/-- `s_Stored` and `s_StoredCount`. -/
structure LogStore where
  stored : Fin storedMax → LogRecord
  storedCount : UInt32

/-- The messages that change them: `WM_NEW_ALERT`, and `WM_COMMAND` from the clear button. -/
inductive LogMsg where
  | newAlert (a : LogRecord)
  | clear

/-- `LogDlgProc`. -/
def logDlgProc (s : LogStore) : LogMsg → LogStore
  | .newAlert a =>
      { stored := Function.update s.stored (Ring.cell storedMax s.storedCount.toNat) a
        storedCount := s.storedCount + 1 }
  | .clear => { s with storedCount := 0 }

def levelText (level : UInt32) : CStr :=
  match level.toNat with
  | 0 => str "Info"
  | 1 => str "Warning"
  | 2 => str "CRITICAL"
  | _ => str "???"

/-- One line of the file. -/
def saveLine (a : LogRecord) : CStr :=
  padZero 2 (decText a.hour.toNat) ++ str ":" ++ padZero 2 (decText a.minute.toNat) ++ str ":"
    ++ padZero 2 (decText a.second.toNat) ++ str "," ++ levelText a.alertLevel ++ str ","
    ++ a.typeText ++ str "," ++ (if a.hmacValid then str "OK" else str "FAIL") ++ str ","
    ++ decText a.sequenceNumber.toNat ++ str ",0x" ++ padZero 16 (upperHexText a.param1.toNat)
    ++ str ",0x" ++ padZero 16 (upperHexText a.param2.toNat) ++ str "," ++ a.details ++ str "\r\n"

/-- The loop of `SaveLog`: what is written for the alert in cell `i % STORED_MAX`. -/
def saveRound (s : LogStore) (i : Nat) : List CStr :=
  let line := saveLine (s.stored (Ring.cell storedMax i))
  let len := snprintfS 512 line
  if len > 0 then [line.take len.toNat] else []

/-- `SaveLog`: the byte order mark, the header, and the data lines. -/
def saveLog (s : LogStore) : List CStr :=
  [0xef, 0xbb, 0xbf] :: str "Time,Level,AlertType,HMAC,Seq,Param1,Param2,Details\r\n"
    :: (List.range s.storedCount.toNat).flatMap (saveRound s)

end KernelGuard
