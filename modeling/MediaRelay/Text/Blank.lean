
-- A character is blank when it carries the Unicode `White_Space` property: the twenty-five code
-- points U+0009–U+000D, U+0020, U+0085, U+00A0, U+1680, U+2000–U+200A, U+2028, U+2029, U+202F,
-- U+205F and U+3000. Names of media types and protocols are trimmed of blanks, and the request line
-- of an HTTP head is split into fields at blanks.
--
-- The main statements: every character that core calls whitespace is blank
-- (`isBlank_of_isWhitespace`), and no field of a text is empty.

namespace MediaRelay.Text

def isBlank (c : Char) : Bool :=
  let n := c.toNat
  (0x09 ≤ n && n ≤ 0x0D) || n == 0x20 || n == 0x85 || n == 0xA0 || n == 0x1680 ||
    (0x2000 ≤ n && n ≤ 0x200A) || n == 0x2028 || n == 0x2029 || n == 0x202F ||
    n == 0x205F || n == 0x3000

def trimBlankList (cs : List Char) : List Char :=
  ((cs.dropWhile isBlank).reverse.dropWhile isBlank).reverse

def trimBlank (s : String) : String :=
  String.ofList (trimBlankList s.toList)

-- A name as compared with the names of a closed set: without its blanks at either end, and with its
-- ASCII letters in lower case.
def foldName (s : String) : String :=
  (trimBlank s).map Char.toLower

def fieldsList (cs : List Char) : List (List Char) :=
  (cs.splitOnP isBlank).filter (fun f => !f.isEmpty)

def fields (s : String) : List String :=
  (fieldsList s.toList).map String.ofList

theorem isBlank_of_isWhitespace {c : Char} (h : c.isWhitespace = true) : isBlank c = true := by
  simp only [Char.isWhitespace, Bool.or_eq_true, decide_eq_true_eq] at h
  rcases h with ((h | h) | h) | h <;> subst h <;> decide

example : isBlank '\x0c' = true ∧ isBlank '\u3000' = true ∧ isBlank '\x1c' = false ∧
    isBlank '\u200b' = false := by decide

theorem ne_nil_of_mem_fieldsList {cs f : List Char} (h : f ∈ fieldsList cs) : f ≠ [] := by
  simp only [fieldsList, List.mem_filter, Bool.not_eq_eq_eq_not, Bool.not_true,
    List.isEmpty_eq_false_iff] at h
  exact h.2

end MediaRelay.Text
