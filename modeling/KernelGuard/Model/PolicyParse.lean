/-
The policy file parser of the monitor (`linux/monitor/kg_policy.c`).

A C string is the list of its bytes before the terminating NUL.  `tokenize` works in
place, so it is a program on a memory here, too; the functions behind it cut up single
tokens, which share no bytes, and are functions on strings.  Allocation is taken to
succeed.  What the parser asks of the file system is a parameter.

An error is the text `set_err` leaves, before `vsnprintf` cuts it to the buffer.
-/
import KernelGuard.Model.Policy

namespace KernelGuard

/-- The bytes of a C string, without the NUL. -/
abbrev CStr := List UInt8

/-- A string literal of the source. -/
def str (s : String) : CStr := s.toList.map fun c => UInt8.ofNat c.toNat

/-! ### Characters and numbers of the C library -/

def chTab : UInt8 := 9
def chNewline : UInt8 := 10
def chCr : UInt8 := 13
def chSpace : UInt8 := 32
def chQuote : UInt8 := 34
def chHash : UInt8 := 35
def chPlus : UInt8 := 43
def chComma : UInt8 := 44
def chMinus : UInt8 := 45
def chSlash : UInt8 := 47
def chEquals : UInt8 := 61
def chBackslash : UInt8 := 92

def isDigit (c : UInt8) : Bool := 48 ≤ c && c ≤ 57
def isAlnum (c : UInt8) : Bool := isDigit c || (65 ≤ c && c ≤ 90) || (97 ≤ c && c ≤ 122)
def isSpace (c : UInt8) : Bool := c = chSpace || (9 ≤ c && c ≤ 13)

def toLower (c : UInt8) : UInt8 := if 65 ≤ c && c ≤ 90 then c + 32 else c

/-- `!strcasecmp(a, b)`. -/
def eqNoCase (a b : CStr) : Bool := a.map toLower = b.map toLower

/-- The value of a digit in bases up to 16. -/
def digitVal (c : UInt8) : Option Nat :=
  if isDigit c then some (c.toNat - 48)
  else if 97 ≤ toLower c && toLower c ≤ 102 then some ((toLower c).toNat - 87)
  else none

/-- The longest prefix of digits below `base`, folded up, and what follows it. -/
def takeDigits (base : Nat) : CStr → Nat → Nat × CStr
  | [], acc => (acc, [])
  | c :: cs, acc =>
      match digitVal c with
      | some d => if d < base then takeDigits base cs (acc * base + d) else (acc, c :: cs)
      | none => (acc, c :: cs)

/-- What `strtoul` returns: the value, `*endptr`, and whether `errno` became `ERANGE`. -/
structure Strtoul where
  value : Nat
  rest : CStr
  erange : Bool
  deriving DecidableEq, Repr

/--
`strtoul`: white space, a sign, an optional `0x` in base 16, digits.  Without a digit
nothing is consumed; too large a value is `ULONG_MAX` with `ERANGE`; a minus sign
negates the result modulo `2 ^ 64`.
-/
def strtoul (s : CStr) (base : Nat) : Strtoul :=
  let t := s.dropWhile isSpace
  let neg := t.head? = some chMinus
  let t := if t.head? = some chMinus || t.head? = some chPlus then t.tail else t
  let t :=
    match t with
    | z :: x :: d :: ds =>
        if base = 16 && z = 48 && toLower x = 120 && (digitVal d).isSome then d :: ds else t
    | _ => t
  let r := takeDigits base t 0
  if r.2.length = t.length then ⟨0, s, false⟩
  else if r.1 ≥ 2 ^ 64 then ⟨2 ^ 64 - 1, r.2, true⟩
  else ⟨if neg then (2 ^ 64 - r.1) % 2 ^ 64 else r.1, r.2, false⟩

/-- The tokens `strtok_r(s, ",")` finds. -/
def commaTokens (s : CStr) : List CStr := (s.splitOn chComma).filter (· ≠ [])

/-! ### Names -/

def kgpNames : List (UInt32 × String) :=
  [(kgAlertPmuL1dAnomaly, "PMU_L1D_ANOMALY"),
   (kgAlertPmuL2Anomaly, "PMU_L2_ANOMALY"),
   (kgAlertPmuRdtscRate, "PMU_RDTSC_RATE"),
   (kgAlertUnauthorizedKbdFilter, "UNAUTHORIZED_KBD_FILTER"),
   (kgAlertUnauthorizedDma, "UNAUTHORIZED_DMA"),
   (kgAlertPciDiscrepancy, "PCI_DISCREPANCY"),
   (kgAlertKbdFilterNeutralized, "KBD_FILTER_NEUTRALIZED"),
   (kgAlertDmaBlockedIommu, "DMA_BLOCKED_IOMMU"),
   (kgAlertDeviceBmeDisabled, "DEVICE_BME_DISABLED"),
   (kgAlertIdtHook, "IDT_HOOK"),
   (kgAlertDispatchHook, "DISPATCH_HOOK"),
   (kgAlertTextPatch, "TEXT_PATCH"),
   (kgAlertCtrlRegTamper, "CTRL_REG_TAMPER"),
   (kgAlertModuleLoaded, "MODULE_LOADED"),
   (kgAlertVulnDriver, "VULN_DRIVER"),
   (kgAlertDriverBlocked, "DRIVER_BLOCKED"),
   (kgAlertLoadPolicy, "LOAD_POLICY"),
   (kgAlertSharedStateCorrupt, "SHARED_STATE_CORRUPT"),
   (kgAlertFailSafeEntered, "FAIL_SAFE_ENTERED"),
   (kgAlertPostureChanged, "POSTURE_CHANGED"),
   (kgpAlertForged, "FORGED"),
   (kgpAlertOverrun, "OVERRUN"),
   (kgpAlertTamper, "TAMPER")]

/-- `kgp_code_from_name`: a name of the table, or a hexadecimal code of 16 bits. -/
def kgpCodeFromName (name : CStr) : Option UInt32 :=
  match kgpNames.find? fun p => eqNoCase (str p.2) name with
  | some p => some p.1
  | none =>
      match name with
      | z :: x :: _ :: _ =>
          if z = 48 && (x = 120 || x = 88) then
            let v := strtoul name 16
            if v.rest = [] && v.value ≤ 0xffff then some (UInt32.ofNat v.value) else none
          else none
      | _ => none

/-- `kgp_level_name` on the levels there are, which is what `level_from_name` loops over. -/
def kgpLevelNames : List (Int × String) :=
  [(kgpInfo, "info"), (kgpWarning, "warning"), (kgpCritical, "critical"), (kgpForged, "forged")]

def levelFromName (s : CStr) : Option Int :=
  (kgpLevelNames.find? fun p => eqNoCase s (str p.2)).map (·.1)

/-! ### The tokenizer -/

/-- A line in memory, from address 0, NUL-terminated. -/
def lineMem (line : CStr) : Nat → UInt8 := fun i => line.getD i 0

/-- The string a pointer points to; `fuel` bounds its length. -/
def readStr (mem : Nat → UInt8) : Nat → Nat → CStr
  | 0, _ => []
  | fuel + 1, p => if mem p = 0 then [] else mem p :: readStr mem fuel (p + 1)

/-- The four characters that separate words. -/
def isBlank (c : UInt8) : Bool := c = chSpace || c = chTab || c = chCr || c = chNewline

def skipBlanks (mem : Nat → UInt8) : Nat → Nat → Nat
  | 0, p => p
  | fuel + 1, p => if isBlank (mem p) then skipBlanks mem fuel (p + 1) else p

/-- The memory and the two pointers into it: the next character, and where it goes. -/
structure TokState where
  mem : Nat → UInt8
  p : Nat
  out : Nat

/-- `*out++ = *p++`. -/
def TokState.copy (s : TokState) : TokState :=
  ⟨Function.update s.mem s.out (s.mem s.p), s.p + 1, s.out + 1⟩

/-- The inner loop, up to the closing quote or the end of the line. -/
def tokQuoted : Nat → TokState → TokState
  | 0, s => s
  | fuel + 1, s =>
      if s.mem s.p ≠ 0 && s.mem s.p ≠ chQuote then
        let s := if s.mem s.p = chBackslash && s.mem (s.p + 1) = chQuote then
          { s with p := s.p + 1 } else s
        tokQuoted fuel s.copy
      else s

/-- One word; `none` is an unterminated quote. -/
def tokWord : Nat → TokState → Option TokState
  | 0, s => some s
  | fuel + 1, s =>
      if s.mem s.p ≠ 0 && !isBlank (s.mem s.p) then
        if s.mem s.p = chQuote then
          let s := tokQuoted fuel { s with p := s.p + 1 }
          if s.mem s.p ≠ chQuote then none
          else tokWord fuel { s with p := s.p + 1 }
        else tokWord fuel s.copy
      else some s

/-- The outer loop: the pointers of the tokens and the memory they point into. -/
def tokLoop (max : Nat) : Nat → (Nat → UInt8) → Nat → List Nat →
    Option ((Nat → UInt8) × List Nat)
  | 0, mem, _, tok => some (mem, tok)
  | fuel + 1, mem, p, tok =>
      if mem p = 0 then some (mem, tok)
      else
        let p := skipBlanks mem (fuel + 1) p
        if mem p = 0 || mem p = chHash then some (mem, tok)
        else if tok.length ≥ max then none
        else
          match tokWord (fuel + 1) ⟨mem, p, p⟩ with
          | none => none
          | some s =>
              let p' := if s.mem s.p ≠ 0 then s.p + 1 else s.p
              tokLoop max fuel (Function.update s.mem s.out 0) p' (tok ++ [p])

/-- `tokenize`, and the tokens as its caller then reads them; `none` is -1. -/
def tokenize (line : CStr) (max : Nat) : Option (List CStr) :=
  (tokLoop max (line.length + 1) (lineMem line) 0 []).map fun r =>
    r.2.map (readStr r.1 (line.length + 1))

/-! ### Directives -/

def actionIndex (pol : KgpPolicy) (name : CStr) : Option Nat :=
  pol.actions.findIdx? fun a => a.name = name

def validName (s : CStr) : Bool :=
  if s = [] || s.length ≥ kgpNameLen then false
  else s.all fun c => isAlnum c || c = 95 || c = chMinus || c = 46

def parseUint (s : CStr) (lo hi : Nat) : Option UInt32 :=
  if s = [] || s.head? = some chMinus then none
  else
    let v := strtoul s 10
    if v.rest ≠ [] || v.erange || v.value < lo || v.value > hi then none
    else some (UInt32.ofNat v.value)

/-- The loop of `parse_action_list`. -/
def actionMask (pol : KgpPolicy) : List CStr → UInt32 → Except CStr UInt32
  | [], mask => .ok mask
  | t :: rest, mask =>
      match actionIndex pol t with
      | none =>
          .error (str "unknown action '" ++ t
            ++ str "' (define it with an \"action\" line first)")
      | some i => actionMask pol rest (mask ||| ((1 : UInt32) <<< UInt32.ofNat i))

def parseActionList (pol : KgpPolicy) (list : CStr) : Except CStr UInt32 :=
  match actionMask pol (commaTokens list) 0 with
  | .error e => .error e
  | .ok mask => if mask = 0 then .error (str "empty action list") else .ok mask

/-- What `stat` finds: `st_mode` and `st_uid`. -/
structure KgpStat where
  mode : UInt32
  uid : UInt32

/-- The file system as the parser asks about it; a failed `stat` gives `strerror(errno)`. -/
structure KgpFs where
  stat : CStr → Except CStr KgpStat
  euid : UInt32

def checkProgram (fs : KgpFs) (path : CStr) : Except CStr Unit :=
  if path.head? ≠ some chSlash then
    .error (str "program '" ++ path ++ str "' must be an absolute path")
  else
    match fs.stat path with
    | .error e => .error (str "program '" ++ path ++ str "': " ++ e)
    | .ok st =>
        if st.mode &&& 0o170000 ≠ 0o100000 || st.mode &&& 0o100 = 0 then
          .error (str "program '" ++ path ++ str "' is not an executable file")
        else if st.mode &&& 0o22 ≠ 0 then
          .error (str "program '" ++ path
            ++ str "' is writable by group or others; refusing to run it as root")
        else if st.uid ≠ 0 && st.uid ≠ fs.euid then
          .error (str "program '" ++ path ++ str "' is not owned by root or by this user")
        else .ok ()

/-- The options between an action's name and its program. -/
def actionOptions : List CStr → UInt32 → Except CStr (List CStr × UInt32)
  | [], timeoutS => .ok ([], timeoutS)
  | t :: rest, timeoutS =>
      if t.head? ≠ some chSlash && t.contains chEquals then
        if (str "timeout=").isPrefixOf t then
          match parseUint (t.drop 8) 1 3600 with
          | none => .error (str "bad timeout '" ++ t.drop 8 ++ str "' (1-3600 seconds)")
          | some v => actionOptions rest v
        else .error (str "unknown action option '" ++ t ++ str "'")
      else .ok (t :: rest, timeoutS)

/-- `parse_action`; `checkFs` is `none` when the caller does not want programs checked. -/
def parseAction (pol : KgpPolicy) (tok : List CStr) (checkFs : Option KgpFs) :
    Except CStr KgpPolicy :=
  match tok with
  | _ :: name :: args =>
      if args = [] then .error (str "usage: action NAME [timeout=SEC] /path [ARG...]")
      else if pol.actions.length ≥ kgpMaxActions then .error (str "too many actions")
      else if !validName name then .error (str "bad action name '" ++ name ++ str "'")
      else if (actionIndex pol name).isSome then
        .error (str "action '" ++ name ++ str "' is defined twice")
      else
        match actionOptions args 10 with
        | .error e => .error e
        | .ok ([], _) => .error (str "action '" ++ name ++ str "' has no program")
        | .ok (prog :: argv, timeoutS) =>
            if (prog :: argv).length > kgpMaxArgs then
              .error (str "too many arguments for action '" ++ name ++ str "'")
            else
              match checkFs.elim (.ok ()) fun fs => checkProgram fs prog with
              | .error e => .error e
              | .ok () =>
                  if prog.head? ≠ some chSlash then
                    .error (str "program '" ++ prog ++ str "' must be an absolute path")
                  else
                    .ok { pol with actions := pol.actions ++ [⟨name, prog :: argv, timeoutS⟩] }
  | _ => .error (str "usage: action NAME [timeout=SEC] /path [ARG...]")

/-- The elements of an `alert=` list; a `*` ends it and stands for all alerts. -/
def parseCodes : List CStr → List UInt32 → Except CStr (List UInt32)
  | [], codes => .ok codes
  | t :: rest, codes =>
      if t = str "*" then .ok []
      else if codes.length ≥ kgpMaxCodes then
        .error (str "too many alert types in one rule (max 16)")
      else
        match kgpCodeFromName t with
        | none => .error (str "unknown alert type '" ++ t ++ str "'")
        | some c => parseCodes rest (codes ++ [c])

/-- The locals of `parse_rule`: the rule so far, `have_do`, and the last `then=` list. -/
structure RuleState where
  rule : KgpRule
  haveDo : Bool
  thenList : Option CStr

/-- A numeric option: its bounds, its message, and the field it sets. -/
def uintOption (v : CStr) (lo hi : Nat) (bad range : String) (set : UInt32 → KgpRule)
    (s : RuleState) : Except CStr RuleState :=
  match parseUint v lo hi with
  | none => .error (str bad ++ v ++ str range)
  | some x => .ok { s with rule := set x }

def throttleOption (v : CStr) (s : RuleState) : Except CStr RuleState :=
  uintOption v 0 86400 "bad throttle '" "' (0-86400 seconds)"
    (fun x => { s.rule with throttleS := x }) s

def resetOption (v : CStr) (s : RuleState) : Except CStr RuleState :=
  uintOption v 1 (30 * 86400) "bad reset '" "' (1-2592000 seconds)"
    (fun x => { s.rule with resetS := x }) s

def unackedOption (v : CStr) (s : RuleState) : Except CStr RuleState :=
  uintOption v 1 (30 * 86400) "bad unacked '" "' (1-2592000 seconds)"
    (fun x => { s.rule with unackedS := x }) s

/-- `repeat=N/SEC`: both numbers, split at the first slash. -/
def repeatOption (v : CStr) (s : RuleState) : Except CStr RuleState :=
  if !v.contains chSlash then .error (str "repeat wants N/SEC, got '" ++ v ++ str "'")
  else
    match parseUint (v.takeWhile (· ≠ chSlash)) 2 kgpMaxRepeat,
        parseUint ((v.dropWhile (· ≠ chSlash)).drop 1) 1 86400 with
    | some n, some w => .ok { s with rule := { s.rule with repeatN := n, repeatWindowS := w } }
    | _, _ => .error (str "bad repeat (N is 2-16, SEC is 1-86400)")

/-- One `key=value` of a rule line. -/
def ruleOption (pol : KgpPolicy) (t : CStr) (s : RuleState) : Except CStr RuleState :=
  if !t.contains chEquals then .error (str "expected key=value, got '" ++ t ++ str "'")
  else
    let k := t.takeWhile (· ≠ chEquals)
    let v := (t.dropWhile (· ≠ chEquals)).drop 1
    if k = str "alert" then
      match parseCodes (commaTokens v) [] with
      | .error e => .error e
      | .ok codes => .ok { s with rule := { s.rule with codes := codes } }
    else if k = str "level" then
      match levelFromName v with
      | none => .error (str "unknown level '" ++ v ++ str "' (info, warning, critical, forged)")
      | some l => .ok { s with rule := { s.rule with minLevel := l } }
    else if k = str "throttle" then throttleOption v s
    else if k = str "reset" then resetOption v s
    else if k = str "unacked" then unackedOption v s
    else if k = str "repeat" then repeatOption v s
    else if k = str "do" then
      match parseActionList pol v with
      | .error e => .error e
      | .ok mask => .ok { s with rule := { s.rule with doMask := mask }, haveDo := true }
    else if k = str "then" then .ok { s with thenList := some v }
    else .error (str "unknown rule option '" ++ k ++ str "'")

def ruleOptions (pol : KgpPolicy) : List CStr → RuleState → Except CStr RuleState
  | [], s => .ok s
  | t :: rest, s =>
      match ruleOption pol t s with
      | .error e => .error e
      | .ok s => ruleOptions pol rest s

/-- The checks behind the loop of `parse_rule`, with the `then=` list parsed. -/
def finishRule (pol : KgpPolicy) (s : RuleState) : Except CStr KgpRule :=
  if !s.haveDo then .error (str "rule '" ++ s.rule.name ++ str "' has no do= actions")
  else
    match s.thenList with
    | some list =>
        match parseActionList pol list with
        | .error e => .error e
        | .ok mask =>
            if s.rule.repeatN = 0 && s.rule.unackedS = 0 then
              .error (str "rule '" ++ s.rule.name ++ str "': then= needs repeat= or unacked=")
            else .ok { s.rule with thenMask := mask }
    | none =>
        if s.rule.repeatN ≠ 0 || s.rule.unackedS ≠ 0 then
          .error (str "rule '" ++ s.rule.name ++ str "': repeat=/unacked= need then= actions")
        else .ok s.rule

def parseRule (pol : KgpPolicy) (tok : List CStr) : Except CStr KgpPolicy :=
  match tok with
  | _ :: name :: opts =>
      if opts = [] then
        .error (str ("usage: rule NAME [alert=..] [level=..] do=A,B [repeat=N/SEC] "
          ++ "[unacked=SEC] [then=A,B]"))
      else if pol.rules.length ≥ kgpMaxRules then .error (str "too many rules")
      else if !validName name then .error (str "bad rule name '" ++ name ++ str "'")
      else if pol.rules.any (·.name = name) then
        .error (str "rule '" ++ name ++ str "' is defined twice")
      else
        let r := { KgpRule.zero with name := name, throttleS := 60, resetS := 3600 }
        match ruleOptions pol opts ⟨r, false, none⟩ with
        | .error e => .error e
        | .ok s =>
            match finishRule pol s with
            | .error e => .error e
            | .ok r => .ok { pol with rules := pol.rules ++ [r] }
  | _ =>
      .error (str ("usage: rule NAME [alert=..] [level=..] do=A,B [repeat=N/SEC] "
        ++ "[unacked=SEC] [then=A,B]"))

/-! ### Files -/

/-- One line of the file. -/
def parseLine (checkFs : Option KgpFs) (pol : KgpPolicy) (line : CStr) : Except CStr KgpPolicy :=
  match tokenize line (kgpMaxArgs + 4) with
  | none => .error (str "unterminated quote or too many words")
  | some [] => .ok pol
  | some (t :: rest) =>
      if t = str "action" then parseAction pol (t :: rest) checkFs
      else if t = str "rule" then parseRule pol (t :: rest)
      else .error (str "unknown directive '" ++ t ++ str "' (expected action or rule)")

/-- The lines `kgp_parse` goes through: no empty one behind the last newline. -/
def textLines (text : CStr) : List CStr :=
  let ls := text.splitOn chNewline
  if ls.getLast? = some [] then ls.dropLast else ls

/-- The loop of `kgp_parse` over the lines from number `lineno + 1` on. -/
def parseLines (checkFs : Option KgpFs) : List CStr → Nat → KgpPolicy →
    Except (Nat × CStr) KgpPolicy
  | [], _, pol => .ok pol
  | line :: rest, lineno, pol =>
      match parseLine checkFs pol line with
      | .error e => .error (lineno + 1, e)
      | .ok pol => parseLines checkFs rest (lineno + 1) pol

def KgpPolicy.zero : KgpPolicy := ⟨[], []⟩

/-- `kgp_parse`: the policy, or the number of the first bad line and its error. -/
def kgpParse (text : CStr) (checkFs : Option KgpFs) : Except (Nat × CStr) KgpPolicy :=
  parseLines checkFs (textLines (text.takeWhile (· ≠ 0))) 0 KgpPolicy.zero

/-- A policy file as the calls on its path find it.  A failed call gives `strerror(errno)`;
`st_size` is the length of the contents.  `read` may return less than it is asked for, but
nothing only at the end of the file. -/
structure KgpFile where
  opened : Except CStr Unit
  fstat : Option KgpStat
  content : List UInt8
  read : Except CStr Nat
  readAllowed : ∀ got, read = .ok got → got ≤ content.length ∧ (got = 0 → content = [])

/-- `kgp_load_file`.  What was read is a C string to the parser, up to the NUL behind it or the first
one in it. -/
def kgpLoadFile (fs : KgpFs) (path : CStr) (f : KgpFile) : Except CStr KgpPolicy :=
  match f.opened with
  | .error e => .error (path ++ str ": " ++ e)
  | .ok () =>
      match f.fstat with
      | none => .error (path ++ str " is not a regular file")
      | some st =>
          if st.mode &&& 0o170000 ≠ 0o100000 then
            .error (path ++ str " is not a regular file")
          else if st.mode &&& 0o22 ≠ 0 then
            .error (path ++ str (" is writable by group or others; refusing to use it "
              ++ "(chmod go-w)"))
          else if st.uid ≠ 0 && st.uid ≠ fs.euid then
            .error (path ++ str " is not owned by root or by this user; refusing to use it")
          else if f.content.length > 256 * 1024 then
            .error (path ++ str " is unreasonably large")
          else
            match f.read with
            | .error e => .error (path ++ str ": " ++ e)
            | .ok got =>
                match kgpParse (f.content.take got ++ [0]) (some fs) with
                | .error (lineno, e) =>
                    .error ((path ++ str ":" ++ str (toString lineno) ++ str ": " ++ e).take 255)
                | .ok pol => .ok pol

/-! ### The caller's structure -/

/-- `struct kgp_policy` with all its slots. -/
structure KgpSlots where
  actions : List KgpAction
  nactions : Nat
  rules : List KgpRule
  nrules : Nat
  deriving DecidableEq, Repr

def KgpAction.zero : KgpAction := ⟨[], [], 0⟩

/-- The entries of a policy; the slots behind them are as `memset` left them. -/
def KgpPolicy.slots (pol : KgpPolicy) : KgpSlots where
  actions := pol.actions ++ List.replicate (kgpMaxActions - pol.actions.length) KgpAction.zero
  nactions := pol.actions.length
  rules := pol.rules ++ List.replicate (kgpMaxRules - pol.rules.length) KgpRule.zero
  nrules := pol.rules.length

/-- `kgp_free`: `memset` clears the whole structure. -/
def kgpFree (_ : KgpSlots) : KgpSlots where
  actions := List.replicate kgpMaxActions KgpAction.zero
  nactions := 0
  rules := List.replicate kgpMaxRules KgpRule.zero
  nrules := 0

/-- What `kgp_parse` returns and leaves in `*pol`.  A line that fails may have filled in part of a
slot; `partly` is the structure at that point. -/
def kgpParseSlots (partly : KgpSlots) (text : CStr) (checkFs : Option KgpFs) : Nat × KgpSlots :=
  match kgpParse text checkFs with
  | .ok pol => (0, pol.slots)
  | .error (lineno, _) => (lineno, kgpFree partly)

end KernelGuard
