/-
What `tokenize` is to find in a line.

The tokenizer of the monitor rewrites the line it reads.  This one reads the line from left
to right and keeps the words apart from it: white space separates them, `#` at the start
of a word ends the line, double quotes group, and inside of them a backslash before a
quote stands for the quote.  `encodeLine` is a way to write any list of words as a line.
-/
import KernelGuard.Model.PolicyParse

namespace KernelGuard

/-- Where the tokenizer is: between two words, in a word, inside quotes, or behind the backslash of
an escaped quote; and the word so far. -/
inductive TokMode where
  | between
  | word (w : CStr)
  | quoted (w : CStr)
  | escaped (w : CStr)

/-- The words of a line; `none` is an unterminated quote. -/
def lineWords : TokMode → CStr → Option (List CStr)
  | .between, [] => some []
  | .between, c :: rest =>
      if isBlank c then lineWords .between rest
      else if c = chHash then some []
      else if c = chQuote then lineWords (.quoted []) rest
      else lineWords (.word [c]) rest
  | .word w, [] => some [w]
  | .word w, c :: rest =>
      if isBlank c then (lineWords .between rest).map (w :: ·)
      else if c = chQuote then lineWords (.quoted w) rest
      else lineWords (.word (w ++ [c])) rest
  | .quoted _, [] => none
  | .quoted w, c :: rest =>
      if c = chQuote then lineWords (.word w) rest
      else if c = chBackslash ∧ rest.head? = some chQuote then lineWords (.escaped w) rest
      else lineWords (.quoted (w ++ [c])) rest
  | .escaped _, [] => none
  | .escaped w, c :: rest => lineWords (.quoted (w ++ [c])) rest

/-- One character, so that it is taken as it is: a quote is escaped, a backslash stands outside of
quotes, where it escapes nothing. -/
def encodeChar (c : UInt8) : CStr :=
  if c = chQuote then [chQuote, chBackslash, chQuote, chQuote]
  else if c = chBackslash then [chBackslash]
  else [chQuote, c, chQuote]

/-- The empty quotes in front make a word of the empty one, too. -/
def encodeWord (w : CStr) : CStr := chQuote :: chQuote :: w.flatMap encodeChar

def encodeLine (ws : List CStr) : CStr := ws.flatMap fun w => encodeWord w ++ [chSpace]

end KernelGuard
