/-!
# Blank characters

The characters that separate words, and the two operations on text that depend on them: trimming and
splitting into words. The class is the Unicode property `White_Space`, not the smaller ASCII set.
-/

namespace VolumeStore.Text

/-- The characters with the Unicode property `White_Space`. -/
def isBlank (c : Char) : Bool :=
  let n := c.toNat
  (0x09 ≤ n && n ≤ 0x0d) || n == 0x20 || n == 0x85 || n == 0xa0 || n == 0x1680 ||
    (0x2000 ≤ n && n ≤ 0x200a) || n == 0x2028 || n == 0x2029 || n == 0x202f || n == 0x205f ||
    n == 0x3000

def dropBlanks (cs : List Char) : List Char :=
  cs.dropWhile isBlank

def dropTrailing (p : Char → Bool) (cs : List Char) : List Char :=
  (cs.reverse.dropWhile p).reverse

def trimBlanks (cs : List Char) : List Char :=
  dropTrailing isBlank (dropBlanks cs)

def isAllBlank (cs : List Char) : Bool :=
  cs.all isBlank

def words (cs : List Char) : List (List Char) :=
  (cs.splitOnP isBlank).filter (!·.isEmpty)

/-! ## Line ends -/

def isLineEnd (c : Char) : Bool :=
  c == '\r' || c == '\n'

/-- A line without the carriage returns and line feeds that close it, however many there are. -/
def trimLineEnd (cs : List Char) : List Char :=
  dropTrailing isLineEnd cs

theorem dropTrailing_append_of_all {p : Char → Bool} (cs : List Char) {tail : List Char}
    (h : ∀ c ∈ tail, p c = true) : dropTrailing p (cs ++ tail) = dropTrailing p cs := by
  have hrev : ∀ c ∈ tail.reverse, p c = true := fun c hc => h c (List.mem_reverse.1 hc)
  simp [dropTrailing, List.dropWhile_append_of_pos hrev]

end VolumeStore.Text
