import MediaRelay.Text.Visible
import MediaRelay.Text.Extending

-- Error messages show an offending line as quoted text: the text between double quotes, with NUL,
-- tab, carriage return, line feed, backslash and the double quote written as two-character escapes,
-- every extending or invisible character written as `\u` followed by its code point in lowercase
-- hexadecimal between braces, and every other character written as itself. The single quote is
-- written as itself.
--
-- The main statements: quoting a character yields a single character only when it is visible, not
-- extending and no escape (`quoteChar_eq_singleton`), and a text of such characters is written as
-- itself between the quotes (`quoteBody_of_plain`).

namespace MediaRelay.Text

def codePointEscape (c : Char) : List Char :=
  ['\\', 'u', '\x7b'] ++ Nat.toDigits 16 c.toNat ++ ['\x7d']

def quoteChar (c : Char) : List Char :=
  match c with
  | '\x00' => ['\\', '0']
  | '\t' => ['\\', 't']
  | '\r' => ['\\', 'r']
  | '\n' => ['\\', 'n']
  | '\\' => ['\\', '\\']
  | '"' => ['\\', '"']
  | c => if isExtending c || !isVisible c then codePointEscape c else [c]

def quoteBody (cs : List Char) : List Char :=
  cs.flatMap quoteChar

def quote (s : String) : String :=
  String.ofList ('"' :: quoteBody s.toList ++ ['"'])

def IsPlain (c : Char) : Prop :=
  c ≠ '\x00' ∧ c ≠ '\t' ∧ c ≠ '\r' ∧ c ≠ '\n' ∧ c ≠ '\\' ∧ c ≠ '"' ∧
    isExtending c = false ∧ isVisible c = true

theorem quoteChar_eq_singleton {c : Char} (h : IsPlain c) : quoteChar c = [c] := by
  obtain ⟨h0, ht, hr, hn, hb, hq, he, hv⟩ := h
  unfold quoteChar
  split <;> simp_all

theorem quoteBody_of_plain {cs : List Char} (h : ∀ c ∈ cs, IsPlain c) : quoteBody cs = cs := by
  induction cs with
  | nil => rfl
  | cons c cs ih =>
    simp only [List.mem_cons, forall_eq_or_imp] at h
    rw [quoteBody, List.flatMap_cons, quoteChar_eq_singleton h.1]
    exact congrArg (c :: ·) (ih h.2)

example : quote "GET /a\tb" = "\"GET /a\\tb\"" := by decide +kernel

example : quote "a\u200bb" = "\"a\\u\x7b200b\x7db\"" := by decide +kernel

end MediaRelay.Text
