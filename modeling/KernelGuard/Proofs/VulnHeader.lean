/-
Writing the table as a C header and reading it back, once with the tool's regular expressions
and once with the compiler.

Both readers go line by line, so the header is taken apart into its lines first (`reLines_render`).
What a reader takes from a line is then settled by how the line begins: the digests and the
pieces of the class string are indented, and nothing else is; of the indented lines only those
of the digests end in a comma.
-/
import KernelGuard.Model.DigestTable
import Std.Data.String.ToNat

namespace KernelGuard

/-! ### Lines

For the regular expressions as for the compiler, lines are what stands between line
breaks.  A list of lines without line breaks is read back from the text it makes up.
-/

section

variable {t : DigestTable}

end

end KernelGuard
