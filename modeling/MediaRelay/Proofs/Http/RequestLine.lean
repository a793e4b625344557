import Mathlib
import MediaRelay.Http.Response

-- A request head is read as UTF-8 text; its request line is the text before the first line feed,
-- less the carriage returns at its end; the line must split at blanks into exactly three fields, a
-- method, a path starting with a slash and a version. Each part is given here by a grammar that
-- does not mention how the head is read: the text is the one the head encodes (`utf8`), the line is
-- a prefix followed by carriage returns and a line feed or the end (`FirstLine`), and the fields
-- are runs of non-blank characters between runs of blanks (`Text.Fields`).
--
-- The main statement: reading a head succeeds exactly on the heads of that grammar, with the
-- request its three fields name, and otherwise answers the fault of the first check that fails.

namespace MediaRelay

-- the first element left by `dropWhile` fails the test
theorem head_dropWhile_false {α : Type} {p : α → Bool} {l : List α} :
    ∀ c ∈ (l.dropWhile p).head?, p c = false := by
  have h := List.head?_dropWhile_not p l
  intro c hc
  rw [Option.mem_def] at hc
  simpa [hc] using h

namespace Text

-- The fields of a text: nothing but blanks, or blanks, then a field that runs up to a blank or
-- the end of the text, then the fields of the rest.
inductive Fields : List Char → List (List Char) → Prop
  | blanks {w : List Char} : (∀ c ∈ w, isBlank c) → Fields w []
  | field {w f rest : List Char} {fs : List (List Char)} :
      (∀ c ∈ w, isBlank c) → f ≠ [] → (∀ c ∈ f, isBlank c = false) →
      (∀ c ∈ rest.head?, isBlank c) → Fields rest fs → Fields (w ++ f ++ rest) (f :: fs)

@[simp]
theorem fieldsList_nil : fieldsList [] = [] := rfl

theorem fieldsList_blank_cons {c : Char} {cs : List Char} (h : isBlank c) :
    fieldsList (c :: cs) = fieldsList cs := by
  simp [fieldsList, List.splitOnP_cons_eq_if_modifyHead, h]

theorem fieldsList_blanks_append {w r : List Char} (h : ∀ c ∈ w, isBlank c) :
    fieldsList (w ++ r) = fieldsList r := by
  induction w with
  | nil => rfl
  | cons c w ih =>
    rw [List.cons_append, fieldsList_blank_cons (h c List.mem_cons_self)]
    exact ih fun c' hc' => h c' (List.mem_cons_of_mem _ hc')

theorem fieldsList_of_blanks {w : List Char} (h : ∀ c ∈ w, isBlank c) : fieldsList w = [] := by
  simpa using fieldsList_blanks_append (r := []) h

-- a field that a blank or the end of the text closes comes out whole
theorem fieldsList_field_append {f r : List Char} (hf : f ≠ [])
    (hnb : ∀ c ∈ f, isBlank c = false) (hr : ∀ c ∈ r.head?, isBlank c) :
    fieldsList (f ++ r) = f :: fieldsList r := by
  cases r with
  | nil => simp [fieldsList, List.splitOnP_eq_singleton hnb, hf]
  | cons b r' =>
    have hb : isBlank b := hr b rfl
    rw [fieldsList_blank_cons hb]
    simp [fieldsList, List.splitOnP_append_cons_of_forall_mem hnb b hb, hf]

theorem Fields.fieldsList_eq {cs : List Char} {fs : List (List Char)} (h : Fields cs fs) :
    fieldsList cs = fs := by
  induction h with
  | blanks hw => exact fieldsList_of_blanks hw
  | field hw hf hnb hr _ ih =>
    rw [List.append_assoc, fieldsList_blanks_append hw, fieldsList_field_append hf hnb hr, ih]

theorem fields_fieldsList (cs : List Char) : Fields cs (fieldsList cs) := by
  induction h : cs.length using Nat.strong_induction_on generalizing cs with
  | _ n ih =>
    -- the leading blanks, then the field after them, and the rest, which is shorter
    have hw : ∀ c ∈ cs.takeWhile isBlank, isBlank c := fun c hc => List.mem_takeWhile_imp hc
    have hcs : cs = cs.takeWhile isBlank ++ cs.dropWhile isBlank :=
      List.takeWhile_append_dropWhile.symm
    cases hd : cs.dropWhile isBlank with
    | nil =>
      rw [hd, List.append_nil] at hcs
      have hb : ∀ c ∈ cs, isBlank c := hcs ▸ hw
      rw [fieldsList_of_blanks hb]
      exact .blanks hb
    | cons c after =>
      have hc : isBlank c = false := head_dropWhile_false (l := cs) c (by simp [hd])
      have hnb : ∀ x ∈ (c :: after).takeWhile (!isBlank ·), isBlank x = false := fun x hx => by
        simpa using List.mem_takeWhile_imp hx
      have hf : (c :: after).takeWhile (!isBlank ·) ≠ [] := by simp [hc]
      have hr : ∀ x ∈ ((c :: after).dropWhile (!isBlank ·)).head?, isBlank x := fun x hx => by
        simpa using head_dropWhile_false x hx
      have hsplit : cs = cs.takeWhile isBlank ++ (c :: after).takeWhile (!isBlank ·) ++
          (c :: after).dropWhile (!isBlank ·) := by
        rw [List.append_assoc, List.takeWhile_append_dropWhile, ← hd,
          List.takeWhile_append_dropWhile]
      have hlt : ((c :: after).dropWhile (!isBlank ·)).length < n := by
        have hlen := congrArg List.length hsplit
        simp only [List.length_append] at hlen
        have := List.length_pos_of_ne_nil hf
        omega
      have hfl : fieldsList cs = (c :: after).takeWhile (!isBlank ·) ::
          fieldsList ((c :: after).dropWhile (!isBlank ·)) := by
        conv_lhs => rw [hsplit]
        rw [List.append_assoc, fieldsList_blanks_append hw, fieldsList_field_append hf hnb hr]
      have key := Fields.field hw hf hnb hr (ih _ hlt _ rfl)
      rwa [← hsplit, ← hfl] at key

-- The fields a text is split into are the fields of its grammar.
theorem fieldsList_eq_iff {cs : List Char} {fs : List (List Char)} :
    fieldsList cs = fs ↔ Fields cs fs :=
  ⟨fun h => h ▸ fields_fieldsList cs, Fields.fieldsList_eq⟩

-- fields written out with one space between them are split back into the same fields
theorem fieldsList_intercalate {fs : List (List Char)}
    (h : ∀ f ∈ fs, f ≠ [] ∧ ∀ c ∈ f, isBlank c = false) :
    fieldsList (List.intercalate [' '] fs) = fs := by
  induction fs with
  | nil => rfl
  | cons f fs ih =>
    have ⟨hf, hnb⟩ := h f List.mem_cons_self
    have ih' := ih fun g hg => h g (List.mem_cons_of_mem _ hg)
    cases fs with
    | nil => simpa using fieldsList_field_append (r := []) hf hnb (by simp)
    | cons g gs =>
      rw [List.intercalate_cons_cons, List.append_assoc,
        fieldsList_field_append hf hnb (by simp [isBlank]), List.singleton_append,
        fieldsList_blank_cons (c := ' ') (by decide), ih']

end Text

namespace Http

-- `line` is the first line of `text`: the text runs on from it with carriage returns and then
-- a line feed or nothing, it holds no line feed and does not end with a carriage return.
def FirstLine (text line : List Char) : Prop :=
  ∃ k rest, text = line ++ List.replicate k '\r' ++ rest ∧ '\n' ∉ line ∧
    line.getLast? ≠ some '\r' ∧ ∀ c ∈ rest.head?, c = '\n'

-- the text up to the first line feed is the request line, then carriage returns
theorem takeWhile_eq_requestLine (text : List Char) :
    ∃ k, text.takeWhile (· != '\n') = requestLine text ++ List.replicate k '\r' := by
  generalize ht : text.takeWhile (· != '\n') = t
  obtain ⟨k, hk⟩ : ∃ k, t.reverse.takeWhile (· == '\r') = List.replicate k '\r' :=
    ⟨_, List.eq_replicate_iff.mpr ⟨rfl, fun c hc => by simpa using List.mem_takeWhile_imp hc⟩⟩
  refine ⟨k, ?_⟩
  calc t = (t.reverse.takeWhile (· == '\r') ++ t.reverse.dropWhile (· == '\r')).reverse := by
        rw [List.takeWhile_append_dropWhile, List.reverse_reverse]
    _ = requestLine text ++ List.replicate k '\r' := by
        rw [List.reverse_append, hk, List.reverse_replicate, requestLine, ht]

theorem getLast?_requestLine (text : List Char) : (requestLine text).getLast? ≠ some '\r' := by
  intro h
  rw [requestLine, List.getLast?_reverse] at h
  simpa using head_dropWhile_false _ (Option.mem_def.mpr h)

theorem firstLine_requestLine (text : List Char) : FirstLine text (requestLine text) := by
  obtain ⟨k, hk⟩ := takeWhile_eq_requestLine text
  refine ⟨k, text.dropWhile (· != '\n'), ?_, fun hn => ?_, getLast?_requestLine text,
    fun c hc => ?_⟩
  · rw [← hk, List.takeWhile_append_dropWhile]
  · have : '\n' ∈ text.takeWhile (· != '\n') := hk ▸ List.mem_append_left _ hn
    simpa using List.mem_takeWhile_imp this
  · simpa using head_dropWhile_false c hc

theorem FirstLine.requestLine_eq {text line : List Char} (h : FirstLine text line) :
    requestLine text = line := by
  obtain ⟨k, rest, rfl, hn, hl, hr⟩ := h
  have hrest : rest.takeWhile (· != '\n') = [] := by
    cases rest with
    | nil => rfl
    | cons c r => simp [hr c rfl]
  have hnl : ∀ c ∈ line ++ List.replicate k '\r', (c != '\n') = true := by
    intro c hc
    rcases List.mem_append.mp hc with hc | hc
    · exact bne_iff_ne.mpr fun h => hn (h ▸ hc)
    · simp [(List.mem_replicate.mp hc).2]
  have hcr : ∀ c ∈ List.replicate k '\r', (c == '\r') = true := by
    intro c hc
    simp [(List.mem_replicate.mp hc).2]
  -- the line itself ends with no carriage return, so trimming stops at its end
  have hdrop : line.reverse.dropWhile (· == '\r') = line.reverse := by
    cases hrev : line.reverse with
    | nil => rfl
    | cons c r =>
      have : c ≠ '\r' := fun hc => hl (by rw [← List.head?_reverse, hrev, hc]; rfl)
      simp [this]
  rw [requestLine, List.takeWhile_append_of_pos hnl, hrest, List.append_nil, List.reverse_append,
    List.reverse_replicate, List.dropWhile_append_of_pos hcr, hdrop, List.reverse_reverse]

theorem requestLine_eq_iff {text line : List Char} :
    requestLine text = line ↔ FirstLine text line :=
  ⟨fun h => h ▸ firstLine_requestLine text, FirstLine.requestLine_eq⟩

theorem toList_loop (bs : ByteArray) (i : Nat) (r : List UInt8) :
    ByteArray.toList.loop bs i r = r.reverse ++ bs.data.toList.drop i := by
  fun_induction ByteArray.toList.loop bs i r with
  | case1 i r hi ih =>
    have hi' : i < bs.data.toList.length := by simpa using hi
    have hget : bs.get! i = bs.data.toList[i] := by simp [ByteArray.get!, hi]
    rw [ih, hget, List.reverse_cons, List.append_assoc, List.singleton_append,
      ← List.drop_eq_getElem_cons hi']
  | case2 i r hi =>
    have hl : bs.data.toList.length ≤ i := by simpa using Nat.le_of_not_lt hi
    rw [List.drop_eq_nil_of_le hl, List.append_nil]

theorem utf8_eq (s : String) : utf8 s = s.toByteArray.data.toList := by
  simp [utf8, ByteArray.toList, toList_loop]

theorem byteArray_eq_of_toList {b : ByteArray} {bs : Octets} (h : b.data.toList = bs) :
    b = ⟨bs.toArray⟩ := by
  obtain ⟨⟨l⟩⟩ := b
  simp only at h
  subst h
  rfl

-- A head decodes to the text it is the UTF-8 encoding of, and to nothing when it encodes no
-- text.
theorem decodeText?_eq_some_iff {head : Octets} {text : String} :
    decodeText? head = some text ↔ utf8 text = head := by
  unfold decodeText? String.fromUTF8?
  split
  · rw [Option.some.injEq, utf8_eq, ← String.toByteArray_inj]
    constructor
    · intro h
      rw [← h]
      rfl
    · intro h
      exact (byteArray_eq_of_toList h).symm
  · rename_i hv
    simp only [reduceCtorEq, false_iff]
    intro h
    rw [utf8_eq] at h
    exact hv (byteArray_eq_of_toList h ▸ text.isValidUTF8)

theorem decodeText?_eq_none {head : Octets} (h : ∀ text, utf8 text ≠ head) :
    decodeText? head = none := by
  cases hd : decodeText? head with
  | none => rfl
  | some text => exact absurd (decodeText?_eq_some_iff.mp hd) (h text)

theorem Method.ofToken?_eq_some_iff {m : String} {M : Method} :
    Method.ofToken? m = some M ↔ M.token = m := by
  cases M <;> unfold Method.ofToken? Method.token <;> split <;> simp_all [eq_comm]

theorem Version.ofToken?_eq_some_iff {v : String} {V : Version} :
    Version.ofToken? v = some V ↔ V.token = v := by
  cases V <;> unfold Version.ofToken? Version.token <;> split <;> simp_all [eq_comm]

@[simp]
theorem Method.ofToken?_token (M : Method) : Method.ofToken? M.token = some M := by
  cases M <;> rfl

@[simp]
theorem Version.ofToken?_token (V : Version) : Version.ofToken? V.token = some V := by
  cases V <;> rfl

theorem throw_eq_error {α : Type} (e : Fault) : (throw e : Except Fault α) = .error e := rfl

theorem token_eq_ofList_iff {s : String} {l : List Char} : s = String.ofList l ↔ s.toList = l := by
  rw [← String.toList_inj, String.toList_ofList]

section Outcomes

variable {head : Octets} {text : String} {line m p v : List Char}

theorem parse_of_not_utf8 (h : ∀ text, utf8 text ≠ head) :
    Request.parse head = .error (.badRequest .notUtf8) := by
  simp [Request.parse, decodeText?_eq_none h, throw_eq_error]

theorem parse_of_malformed (ht : utf8 text = head) (hl : FirstLine text.toList line)
    (hn : ∀ m p v, ¬ Text.Fields line [m, p, v]) :
    Request.parse head = .error (.badRequest (.malformedLine (String.ofList line))) := by
  have hd := decodeText?_eq_some_iff.mpr ht
  simp only [Request.parse, hd, hl.requestLine_eq]
  split
  · rename_i m' p' v' hf
    -- three fields after all
    obtain ⟨m, p, v, hf', -⟩ : ∃ m p v, Text.fieldsList line = [m, p, v] ∧ True := by
      cases hfl : Text.fieldsList line with
      | nil => simp [hfl] at hf
      | cons a as =>
        cases as with
        | nil => simp [hfl] at hf
        | cons b bs =>
          cases bs with
          | nil => simp [hfl] at hf
          | cons c cs =>
            cases cs with
            | nil => exact ⟨a, b, c, rfl, trivial⟩
            | cons d ds => simp [hfl] at hf
    exact absurd (Text.fieldsList_eq_iff.mp hf') (hn m p v)
  · rfl

variable (ht : utf8 text = head) (hl : FirstLine text.toList line)
include ht hl

theorem parse_of_method (hf : Text.Fields line [m, p, v]) (hm : ∀ M : Method, M.token.toList ≠ m) :
    Request.parse head = .error (.badRequest (.unsupportedMethod (String.ofList m))) := by
  have hm' : Method.ofToken? (String.ofList m) = none :=
    Option.eq_none_iff_forall_ne_some.mpr fun M h =>
      hm M (token_eq_ofList_iff.mp (Method.ofToken?_eq_some_iff.mp h))
  simp [Request.parse, decodeText?_eq_some_iff.mpr ht, hl.requestLine_eq, hf.fieldsList_eq, hm',
    throw_eq_error]

theorem parse_of_path {M : Method} (hf : Text.Fields line [M.token.toList, p, v])
    (hp : ¬ ['/'] <+: p) :
    Request.parse head = .error (.badRequest (.invalidPath (String.ofList p))) := by
  simp [Request.parse, decodeText?_eq_some_iff.mpr ht, hl.requestLine_eq, hf.fieldsList_eq, hp,
    throw_eq_error, bind, Except.bind]

theorem parse_of_version {M : Method} (hf : Text.Fields line [M.token.toList, p, v])
    (hp : ['/'] <+: p) (hv : ∀ V : Version, V.token.toList ≠ v) :
    Request.parse head = .error (.badRequest (.unsupportedVersion (String.ofList v))) := by
  have hv' : Version.ofToken? (String.ofList v) = none :=
    Option.eq_none_iff_forall_ne_some.mpr fun V h =>
      hv V (token_eq_ofList_iff.mp (Version.ofToken?_eq_some_iff.mp h))
  simp [Request.parse, decodeText?_eq_some_iff.mpr ht, hl.requestLine_eq, hf.fieldsList_eq, hp, hv',
    throw_eq_error]

theorem parse_of_fields {M : Method} {V : Version}
    (hf : Text.Fields line [M.token.toList, p, V.token.toList]) (hp : ['/'] <+: p) :
    Request.parse head = .ok ⟨M, String.ofList p, V⟩ := by
  simp [Request.parse, decodeText?_eq_some_iff.mpr ht, hl.requestLine_eq, hf.fieldsList_eq, hp,
    pure, Except.pure]

end Outcomes

-- the three fields of a request line that reads as a request
theorem fields_of_parse {head : Octets} {r : Request} (h : Request.parse head = .ok r) :
    ∃ text line, utf8 text = head ∧ FirstLine text.toList line ∧
      Text.Fields line [r.method.token.toList, r.path.toList, r.version.token.toList] ∧
      ['/'] <+: r.path.toList := by
  by_cases hu : ∃ text, utf8 text = head
  case neg => simp [parse_of_not_utf8 (not_exists.mp hu)] at h
  obtain ⟨text, ht⟩ := hu
  have hl := firstLine_requestLine text.toList
  -- each check that could fail answers a fault, so the line passes them all
  obtain ⟨m, p, v, hf⟩ : ∃ m p v, Text.Fields (requestLine text.toList) [m, p, v] := by
    by_contra hn
    simp [parse_of_malformed ht hl fun m p v hf => hn ⟨m, p, v, hf⟩] at h
  obtain ⟨M, rfl⟩ : ∃ M : Method, M.token.toList = m := by
    by_contra hn
    simp [parse_of_method ht hl hf fun M hM => hn ⟨M, hM⟩] at h
  by_cases hp : ['/'] <+: p
  case neg => simp [parse_of_path ht hl hf hp] at h
  obtain ⟨V, rfl⟩ : ∃ V : Version, V.token.toList = v := by
    by_contra hn
    simp [parse_of_version ht hl hf hp fun V hV => hn ⟨V, hV⟩] at h
  rw [parse_of_fields ht hl hf hp, Except.ok.injEq] at h
  subst h
  exact ⟨text, _, ht, hl, by simpa using hf, by simpa using hp⟩

-- a request line written out with single spaces and a CRLF, whatever follows it
theorem parse_written {M : Method} {V : Version} {p t : String} (hp : ['/'] <+: p.toList)
    (hb : ∀ c ∈ p.toList, Text.isBlank c = false) :
    Request.parse (utf8 (M.token ++ " " ++ p ++ " " ++ V.token ++ "\r\n" ++ t)) =
      .ok ⟨M, p, V⟩ := by
  have hM : M.token.toList ≠ [] ∧ ∀ c ∈ M.token.toList, Text.isBlank c = false := by
    cases M <;> simp [Method.token, Text.isBlank]
  have hV : V.token.toList ≠ [] ∧ ∀ c ∈ V.token.toList, Text.isBlank c = false := by
    cases V <;> simp [Version.token, Text.isBlank]
  have hpne : p.toList ≠ [] := fun h => by simp [h] at hp
  have hf : Text.Fields (List.intercalate [' '] [M.token.toList, p.toList, V.token.toList])
      [M.token.toList, p.toList, V.token.toList] := by
    refine Text.fieldsList_eq_iff.mp (Text.fieldsList_intercalate ?_)
    simp only [List.mem_cons, List.not_mem_nil, or_false]
    rintro f (rfl | rfl | rfl)
    exacts [hM, ⟨hpne, hb⟩, hV]
  -- the line ends at the carriage return before the first line feed
  have hl : FirstLine
      (M.token ++ " " ++ p ++ " " ++ V.token ++ "\r\n" ++ t).toList
      (List.intercalate [' '] [M.token.toList, p.toList, V.token.toList]) := by
    refine ⟨1, '\n' :: t.toList, by simp, ?_, ?_, by simp⟩
    · have hn : '\n' ∉ p.toList := fun h => by simpa [Text.isBlank] using hb _ h
      cases M <;> cases V <;> simp [Method.token, Version.token, hn]
    · rw [List.intercalate_cons_cons, List.intercalate_cons_cons, List.intercalate_singleton,
        List.getLast?_append_of_ne_nil _ (by cases V <;> simp [Version.token])]
      cases V <;> simp [Version.token]
  simpa using parse_of_fields rfl hl hf hp

-- Reading a request head follows the request line grammar: it succeeds exactly on UTF-8 text
-- whose first line is three fields, a method, a path starting with a slash and a version, and then
-- answers them; otherwise the first check that fails, in the order UTF-8, field count, method,
-- path, version, names the fault. So a request line written out with single spaces and a CRLF is
-- read back whole, whatever header lines follow it.
theorem parse_accepts_request_line_grammar :
    (∀ (head : Octets) (r : Request), Request.parse head = .ok r ↔
      ∃ text line, utf8 text = head ∧ FirstLine text.toList line ∧
        Text.Fields line [r.method.token.toList, r.path.toList, r.version.token.toList] ∧
        ['/'] <+: r.path.toList) ∧
    (∀ head : Octets, (∀ text, utf8 text ≠ head) →
      Request.parse head = .error (.badRequest .notUtf8)) ∧
    (∀ (head : Octets) text line, utf8 text = head → FirstLine text.toList line →
      (∀ m p v, ¬ Text.Fields line [m, p, v]) →
      Request.parse head = .error (.badRequest (.malformedLine (String.ofList line)))) ∧
    (∀ (head : Octets) text line m p v, utf8 text = head → FirstLine text.toList line →
      Text.Fields line [m, p, v] → (∀ M : Method, M.token.toList ≠ m) →
      Request.parse head = .error (.badRequest (.unsupportedMethod (String.ofList m)))) ∧
    (∀ (head : Octets) text line (M : Method) p v, utf8 text = head →
      FirstLine text.toList line → Text.Fields line [M.token.toList, p, v] → ¬ ['/'] <+: p →
      Request.parse head = .error (.badRequest (.invalidPath (String.ofList p)))) ∧
    (∀ (head : Octets) text line (M : Method) p v, utf8 text = head →
      FirstLine text.toList line → Text.Fields line [M.token.toList, p, v] → ['/'] <+: p →
      (∀ V : Version, V.token.toList ≠ v) →
      Request.parse head = .error (.badRequest (.unsupportedVersion (String.ofList v)))) ∧
    (∀ (M : Method) (p : String) (V : Version) (headers : List String), ['/'] <+: p.toList →
      (∀ c ∈ p.toList, Text.isBlank c = false) →
      Request.parse (utf8 (M.token ++ " " ++ p ++ " " ++ V.token ++ "\r\n" ++
        String.join (headers.map (· ++ "\r\n")) ++ "\r\n")) = .ok ⟨M, p, V⟩) := by
  refine ⟨fun head r => ⟨fields_of_parse, ?_⟩, fun _ => parse_of_not_utf8,
    fun _ _ _ => parse_of_malformed, fun _ _ _ _ _ _ => parse_of_method,
    fun _ _ _ _ _ _ ht hl hf hp => parse_of_path ht hl hf hp,
    fun _ _ _ _ _ _ ht hl hf hp hv => parse_of_version ht hl hf hp hv,
    fun M p V headers hp hb => ?_⟩
  · rintro ⟨text, line, ht, hl, hf, hp⟩
    simpa using parse_of_fields ht hl hf hp
  · simpa [String.append_assoc] using
      parse_written (M := M) (V := V) (t := String.join (headers.map (· ++ "\r\n")) ++ "\r\n")
        hp hb

end Http

end MediaRelay
