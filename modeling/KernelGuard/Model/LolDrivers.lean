/-
The built-in deny list: `tools/import_loldrivers.py`.

`buildTable` folds the dataset into a dictionary from digests to classes, `render` writes it as
the C header `vuln_driver_hashes.h`, and `parseExisting` reads such a header back with two
regular expressions.  A dictionary is a `Finmap`, which compares as Python's do, without an
order.
-/
import KernelGuard.Model.PyData
import Mathlib.Data.Finmap
import Mathlib.Data.Finset.Sort
import Mathlib.Data.List.Lex
import Mathlib.Data.Char

namespace KernelGuard

/-- `{digest: '0' or '1'}`. -/
abbrev DigestTable := Finmap fun _ : Text => Char

/-- `stats`; `other` is a set. -/
structure TableStats where
  drivers : Nat
  vulnerable : Nat
  malicious : Nat
  samples : Nat
  noHash : Nat
  other : Finset Text

/-- `(e.get('Category') or '').strip().lower()`. -/
def entryCategory (e : PyVal) : Except PyRaise Text := do
  let category ← e.get "Category"
  lower <$> (category.orElse (.str [])).strip

/-- `e.get('KnownVulnerableSamples') or []`, as the loop sees it. -/
def entrySamples (e : PyVal) : Except PyRaise (List PyVal) := do
  let samples ← e.get "KnownVulnerableSamples"
  (samples.orElse (.list [])).iter

/-- The `digest` of a sample. -/
def sampleDigest (sample : PyVal) : Except PyRaise Text := do
  let auth ← sample.get "Authentihash"
  let digest ← (auth.orElse (.dict [])).get "SHA256"
  lower <$> (digest.orElse (.str [])).strip

def malicious : Text := "malicious".toList
def vulnerableDriver : Text := "vulnerable driver".toList

/-- One round of the inner loop, after the digest has been read. -/
def addDigest (klass : Char) (acc : DigestTable × TableStats) (digest : Text) :
    DigestTable × TableStats :=
  if !hex64Match digest then (acc.1, { acc.2 with noHash := acc.2.noHash + 1 })
  else
    (acc.1.insert digest (if klass = '1' ∨ acc.1.lookup digest = some '1' then '1' else '0'),
      { acc.2 with samples := acc.2.samples + 1 })

/-- The class of an entry, and the statistics with the entry counted. -/
def countEntry (category : Text) (stats : TableStats) : Char × TableStats :=
  if category = malicious then ('1', { stats with malicious := stats.malicious + 1 })
  else
    let stats := { stats with vulnerable := stats.vulnerable + 1 }
    if category ≠ vulnerableDriver then
      ('0', { stats with
        other := insert (if category.isEmpty then "(none)".toList else category) stats.other })
    else ('0', stats)

/-- One round of the outer loop. -/
def addEntry (acc : DigestTable × TableStats) (e : PyVal) :
    Except PyRaise (DigestTable × TableStats) := do
  let category ← entryCategory e
  let counted := countEntry category acc.2
  let samples ← entrySamples e
  samples.foldlM (fun acc sample => addDigest counted.1 acc <$> sampleDigest sample)
    (acc.1, counted.2)

def buildTable (entries : List PyVal) : Except PyRaise (DigestTable × TableStats) :=
  entries.foldlM addEntry
    (∅, { drivers := entries.length, vulnerable := 0, malicious := 0, samples := 0, noHash := 0,
          other := ∅ })

/-! ### The header -/

/--
The comment at the head of the header, as `HEADER.format` leaves it.  What it says of the
dataset is for the reader; that its metadata has no line breaks is what makes every line of it
a comment.
-/
structure HeaderComment where
  lines : List Text
  slashes : ∀ l ∈ lines, "//".toList <+: l
  oneLine : ∀ l ∈ lines, '\n' ∉ l

/-- `"".join` of lines that each end in a line break. -/
def unlines (ls : List Text) : Text := ls.flatMap (· ++ ['\n'])

def hashDecl : Text := "static const char *const g_KgVulnHashHex[KG_VULN_HASH_COUNT] = \x7b".toList
def classDecl : Text := "static const char g_KgVulnClass[KG_VULN_HASH_COUNT + 1] =".toList
def countDefine : Text := "#define KG_VULN_HASH_COUNT ".toList

def digestLine (digest : Text) : Text := "    \"".toList ++ digest ++ "\",".toList

/-- The class string in pieces of 64, the last one with the semicolon. -/
def classLines (klass : Text) : List Text :=
  if klass.isEmpty then ["    \"\";".toList]
  else
    (List.range' 0 ((klass.length + 63) / 64) 64).map fun i =>
      "    \"".toList ++ (klass.drop i).take 64 ++ ['"'] ++
        if i + 64 ≥ klass.length then [';'] else []

/-- `sorted(table)`. -/
def sortedDigests (table : DigestTable) : List Text := table.keys.sort (· ≤ ·)

/-- The classes, in the order of the digests. -/
def classString (table : DigestTable) : Text :=
  (sortedDigests table).map fun d => (table.lookup d).getD '0'

def headerLines (comment : HeaderComment) (table : DigestTable) : List Text :=
  comment.lines ++
    ["#pragma once".toList, [], countDefine ++ (Nat.repr table.keys.card).toList, [], hashDecl] ++
    (sortedDigests table).map digestLine ++
    ["\x7d;".toList, [], classDecl] ++ classLines (classString table)

def render (comment : HeaderComment) (table : DigestTable) : Text :=
  unlines (headerLines comment table)

/-! ### Reading it back -/

/-- The pieces between line breaks, at whose ends `^` and `$` match under `re.M`. -/
def reLines (text : Text) : List Text := text.splitOnP (· == '\n')

/-- `^    "([0-9a-f]{64})",$` on one line. -/
def matchDigestLine (line : Text) : Option Text :=
  if "    \"".toList.isPrefixOf line then
    let rest := line.drop 5
    if isHex 64 (rest.take 64) && decide (rest.drop 64 = "\",".toList) then some (rest.take 64)
    else none
  else none

/-- `^    "([01]*)"` on one line. -/
def matchClassLine (line : Text) : Option Text :=
  if "    \"".toList.isPrefixOf line then
    let rest := line.drop 5
    let klass := rest.takeWhile fun c => c == '0' || c == '1'
    if (rest.drop klass.length).head? = some '"' then some klass else none
  else none

/-- What follows the last occurrence of `sep`. -/
def afterLast (sep : Text) : Text → Option Text
  | [] => if sep.isEmpty then some [] else none
  | c :: rest =>
      match afterLast sep rest with
      | some body => some body
      | none => if sep.isPrefixOf (c :: rest) then some ((c :: rest).drop sep.length) else none

/-- `text.rsplit(sep, 1)[-1]`. -/
def rsplitLast (sep text : Text) : Text := (afterLast sep text).getD text

/-- The digests a header lists, in its order. -/
def headerDigests (text : Text) : List Text := (reLines text).filterMap matchDigestLine

/-- The classes a header lists. -/
def headerClasses (text : Text) : Text :=
  ((reLines (rsplitLast "g_KgVulnClass".toList text)).filterMap matchClassLine).flatten

/-- `dict(zip(digests, klass))`. -/
def dictOfZip (digests : List Text) (klass : Text) : DigestTable :=
  (digests.zip klass).foldl (fun t p => t.insert p.1 p.2) ∅

def parseExisting (text : Text) : Except PyRaise DigestTable :=
  let digests := headerDigests text
  let klass := headerClasses text
  if klass.length ≠ digests.length then .error .valueError
  else .ok (dictOfZip digests klass)

end KernelGuard
