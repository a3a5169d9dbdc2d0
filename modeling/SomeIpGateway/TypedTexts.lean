import SomeIpGateway.DiagnosisHistory
import SomeIpGateway.PythonText

/-!
# What is typed into the client

`_parse_hex_payload` and `_parse_cid` read the texts of two fields of the window. A payload is
a row of numbers to base 16, with blanks, commas and hyphens between them.
-/
namespace SomeIpGateway.TypedTexts
open PythonText DiagnosisHistory

/-! ### Words -/

/-- `str.split()` -/
def splitWords (text : Text) : List Text := (text.splitOnP isSpace).filter (· ≠ [])

@[simp] theorem splitWords_nil : splitWords [] = [] := rfl

theorem splitWords_append_cons (text more : Text) {c : Char} (hc : isSpace c) :
    splitWords (text ++ c :: more) = splitWords text ++ splitWords more := by
  rw [splitWords, List.splitOnP_append_cons _ _ hc, List.filter_append, splitWords, splitWords]

theorem splitWords_of_word {word : Text} (hne : word ≠ []) (hword : ∀ c ∈ word, isSpace c = false) :
    splitWords word = [word] := by
  rw [splitWords, List.splitOnP_eq_singleton hword]
  simp [hne]

/-- White space between two texts parts their words. -/
theorem splitWords_gap {gap : Text} (hne : gap ≠ []) (hgap : Blank gap) (text more : Text) :
    splitWords (text ++ (gap ++ more)) = splitWords text ++ splitWords more := by
  induction gap generalizing text with
  | nil => exact absurd rfl hne
  | cons c gap ih =>
    rw [List.cons_append, splitWords_append_cons _ _ (hgap c List.mem_cons_self)]
    cases gap with
    | nil => rfl
    | cons d gap =>
      have hrest := ih (List.cons_ne_nil d gap) (fun e he => hgap e (List.mem_cons_of_mem c he)) []
      rw [List.nil_append, splitWords_nil, List.nil_append] at hrest
      rw [hrest]

theorem splitWords_lead {gap : Text} (hgap : Blank gap) (text : Text) :
    splitWords (gap ++ text) = splitWords text := by
  rcases eq_or_ne gap [] with rfl | hne
  · rfl
  · simpa using splitWords_gap hne hgap [] text

theorem splitWords_tail {gap : Text} (hgap : Blank gap) (text : Text) :
    splitWords (text ++ gap) = splitWords text := by
  rcases eq_or_ne gap [] with rfl | hne
  · rw [List.append_nil]
  · simpa using splitWords_gap hne hgap text []

/-- What `strip` takes away is white space. -/
theorem exists_pads (text : Text) :
    ∃ lead tail, Blank lead ∧ Blank tail ∧ text = lead ++ (strip text ++ tail) := by
  refine ⟨(text.rdropWhile isSpace).takeWhile isSpace, text.rtakeWhile isSpace,
    fun c hc => List.mem_takeWhile_imp hc, fun c hc => List.mem_rtakeWhile_imp hc, ?_⟩
  rw [strip, ← List.append_assoc, List.takeWhile_append_dropWhile,
    List.rdropWhile_append_rtakeWhile]

/-! ### Numbers -/

/-- A number to base 16 as it may be typed, with its base or without. -/
structure Number where
  base : Text
  digits : Text
  base_eq : base = [] ∨ base = ['0', 'x'] ∨ base = ['0', 'X']
  digits_ne : digits ≠ []
  digits_hex : HexDigits digits

namespace Number
variable (n : Number)

def text : Text := n.base ++ n.digits

def value : ℕ := hexNumber n.digits

/-- The characters of a number are digits, or the `x` of the base. -/
theorem mem_text {c : Char} (hc : c ∈ n.text) : (hexValue c).isSome ∨ c = 'x' ∨ c = 'X' := by
  rcases List.mem_append.mp hc with hbase | hdigit
  · rcases n.base_eq with h | h | h
    · simp [h] at hbase
    · rw [h] at hbase
      rcases List.mem_cons.mp hbase with rfl | hx
      · exact .inl rfl
      · exact .inr (.inl (List.mem_singleton.mp hx))
    · rw [h] at hbase
      rcases List.mem_cons.mp hbase with rfl | hx
      · exact .inl rfl
      · exact .inr (.inr (List.mem_singleton.mp hx))
  · exact .inl (n.digits_hex c hdigit)

theorem bounds_of_mem {c : Char} (hc : c ∈ n.text) : 48 ≤ c.toNat ∧ c.toNat ≤ 120 := by
  rcases n.mem_text hc with h | rfl | rfl
  · have hbounds := hexValue_bounds h
    omega
  · decide
  · decide

theorem not_space_of_mem {c : Char} (hc : c ∈ n.text) : isSpace c = false := by
  have hbounds := n.bounds_of_mem hc
  simp only [isSpace, Bool.or_eq_false_iff, Bool.and_eq_false_iff, decide_eq_false_iff_not,
    beq_eq_false_iff_ne]
  omega

theorem text_ne_nil : n.text ≠ [] := List.append_ne_nil_of_right_ne_nil _ n.digits_ne

theorem skipBase_text : skipBase n.text = n.digits := by
  obtain ⟨base, digits, hbase, hne, hdigits⟩ := n
  dsimp only [text]
  have hx {c : Char} {rest : Text} (h : digits = '0' :: c :: rest) : c ≠ 'x' ∧ c ≠ 'X' := by
    have hc := hdigits c (by simp [h])
    constructor
    · rintro rfl
      exact absurd hc (by decide)
    · rintro rfl
      exact absurd hc (by decide)
  have hunderscore {rest : Text} : digits ≠ '_' :: rest := by
    rintro rfl
    exact absurd (hdigits '_' List.mem_cons_self) (by decide)
  rcases hbase with rfl | rfl | rfl
  · rw [List.nil_append]
    unfold skipBase
    split
    · exact ((hx rfl).1 rfl).elim
    · exact ((hx rfl).2 rfl).elim
    · exact ((hx rfl).1 rfl).elim
    · exact ((hx rfl).2 rfl).elim
    · rfl
  · exact skipBase_of_hex hdigits
  · exact skipBase.eq_4 digits fun rest h => hunderscore h

/-- `int` reads the number. -/
theorem intBase16_text (decimal : Char → Option (Fin 10)) :
    intBase16 decimal n.text = some (n.value : ℤ) := by
  have hascii : n.text.map (toAscii decimal) = n.text := map_eq_self fun c hc =>
    toAscii_of_lt decimal (by have := n.bounds_of_mem hc; omega)
  have hspace {c : Char} (hc : c ∈ n.text) : ¬ isAsciiSpace c = true := by
    have hbounds := n.bounds_of_mem hc
    simp only [isAsciiSpace, Bool.or_eq_true, Bool.and_eq_true, decide_eq_true_eq, beq_iff_eq]
    omega
  have hlast : n.text.rdropWhile isAsciiSpace = n.text :=
    List.rdropWhile_eq_self_iff.mpr fun hne => hspace (List.getLast_mem hne)
  have hfirst : n.text.dropWhile isAsciiSpace = n.text := by
    obtain ⟨c, rest, htext⟩ := List.exists_cons_of_ne_nil n.text_ne_nil
    rw [htext]
    exact List.dropWhile_cons_of_neg (hspace (htext ▸ List.mem_cons_self))
  have hread : readNumber (skipBase n.text) = some n.value := by
    rw [n.skipBase_text, readNumber_of_hex n.digits_ne n.digits_hex, value]
  rw [intBase16, hascii, hlast, hfirst]
  split
  · next text htext =>
    have := n.bounds_of_mem (htext ▸ List.mem_cons_self)
    exact absurd this (by decide)
  · next text htext =>
    have := n.bounds_of_mem (htext ▸ List.mem_cons_self)
    exact absurd this (by decide)
  · rw [hread, Option.map_some]

end Number

/-! ### Payloads -/

section Fields
variable (decimal : Char → Option (Fin 10))

/-- `_parse_hex_payload`, or the text of its `ValueError`. -/
def parseHexPayload (payloadHex : Text) : Except String (List UInt8) :=
  let cleaned := replace '-' ' ' (replace ',' ' ' payloadHex)
  let parts := (splitWords cleaned).filter (· ≠ [])
  if parts = [] then .ok []
  else
    match parts.mapM (intBase16 decimal) with
    | none => .error "Payload must be hex bytes separated by spaces."
    | some values =>
      if values.any fun v => v < 0 || 0xFF < v then .error "Each payload byte must be 00..FF."
      else .ok (values.map fun v => UInt8.ofNat v.toNat)

/-- `_parse_cid`, or the text of its `ValueError`. -/
def parseCid (text : Text) : Except String ℤ :=
  if text = [] then .error "Client CID is required."
  else
    match intBase16 decimal text with
    | none => .error "Client CID must be hex (example: 700 or 0x700)."
    | some value =>
      if value < 0 ∨ 0x0FFF < value then .error "Client CID must be in range 0x000..0xFFF."
      else .ok value

/-- What may stand between two numbers. -/
def IsGap (text : Text) : Prop := ∀ c ∈ text, isSpace c ∨ c = ',' ∨ c = '-'

instance (text : Text) : Decidable (IsGap text) :=
  List.decidableBAll (fun c => isSpace c = true ∨ c = ',' ∨ c = '-') text

/-- Numbers with something between any two of them. -/
structure Row where
  lead : Text
  first : Number
  rest : List (Text × Number)
  tail : Text
  lead_gap : IsGap lead
  rest_gap : ∀ next ∈ rest, next.1 ≠ [] ∧ IsGap next.1
  tail_gap : IsGap tail

def joined (first : Number) (rest : List (Text × Number)) : Text :=
  first.text ++ rest.flatMap fun next => next.1 ++ next.2.text

namespace Row
variable (r : Row)

def text : Text := r.lead ++ (joined r.first r.rest ++ r.tail)

def numbers : List Number := r.first :: r.rest.map Prod.snd

end Row

/-- The two replacements at once. -/
def toBlank (c : Char) : Char := if c = ',' ∨ c = '-' then ' ' else c

theorem replace_separators (text : Text) :
    replace '-' ' ' (replace ',' ' ' text) = text.map toBlank := by
  simp only [replace, List.map_map]
  apply List.map_congr_left
  intro c _
  simp only [Function.comp_apply, toBlank]
  split_ifs <;> simp_all

theorem blank_of_gap {gap : Text} (h : IsGap gap) : Blank (gap.map toBlank) := by
  intro c hc
  obtain ⟨d, hd, rfl⟩ := List.mem_map.mp hc
  rcases h d hd with hspace | hsep
  · rw [toBlank]
    split_ifs
    · rfl
    · exact hspace
  · rw [toBlank, if_pos hsep]
    rfl

theorem gap_of_blank {gap : Text} (h : Blank gap) : IsGap gap := fun c hc => .inl (h c hc)

theorem Number.map_toBlank (n : Number) : n.text.map toBlank = n.text := by
  refine map_eq_self fun c hc => if_neg ?_
  have hbounds := n.bounds_of_mem hc
  rintro (rfl | rfl)
  · exact absurd hbounds (by decide)
  · exact absurd hbounds (by decide)

theorem splitWords_joined {first : Number} {rest : List (Text × Number)}
    (hrest : ∀ next ∈ rest, next.1 ≠ [] ∧ IsGap next.1) :
    splitWords ((joined first rest).map toBlank) =
      (first :: rest.map Prod.snd).map Number.text := by
  have hfirst := splitWords_of_word first.text_ne_nil fun c hc => first.not_space_of_mem hc
  induction rest generalizing first with
  | nil => simpa [joined, first.map_toBlank] using hfirst
  | cons next rest ih =>
    obtain ⟨hne, hgap⟩ := hrest next List.mem_cons_self
    have hjoined : (joined first (next :: rest)).map toBlank =
        first.text ++ (next.1.map toBlank ++ (joined next.2 rest).map toBlank) := by
      simp [joined, first.map_toBlank]
    have hnext := @ih next.2 (fun n hn => hrest n (List.mem_cons_of_mem next hn))
      (splitWords_of_word next.2.text_ne_nil fun c hc => next.2.not_space_of_mem hc)
    rw [hjoined, splitWords_gap (by simpa using hne) (blank_of_gap hgap), hfirst, hnext]
    rfl

theorem Row.splitWords_text (r : Row) :
    splitWords (r.text.map toBlank) = r.numbers.map Number.text := by
  rw [text, List.map_append, List.map_append, splitWords_lead (blank_of_gap r.lead_gap),
    splitWords_tail (blank_of_gap r.tail_gap), splitWords_joined r.rest_gap, numbers]

/-- White space at the ends of a field does not count. -/
theorem parseHexPayload_strip (text : Text) :
    parseHexPayload decimal (strip text) = parseHexPayload decimal text := by
  obtain ⟨lead, tail, hlead, htail, htext⟩ := exists_pads text
  have hwords : splitWords (text.map toBlank) = splitWords ((strip text).map toBlank) := by
    conv_lhs => rw [htext]
    rw [List.map_append, List.map_append, splitWords_lead (blank_of_gap (gap_of_blank hlead)),
      splitWords_tail (blank_of_gap (gap_of_blank htail))]
  simp only [parseHexPayload, replace_separators, hwords]

theorem mapM_intBase16 (numbers : List Number) :
    (numbers.map Number.text).mapM (intBase16 decimal) =
      some (numbers.map fun n => (n.value : ℤ)) := by
  induction numbers with
  | nil => rfl
  | cons n numbers ih =>
    rw [List.map_cons, List.mapM_cons, n.intBase16_text, ih]
    rfl

/-- A row of numbers is read as the bytes they are, if they are bytes. -/
theorem parseHexPayload_row (r : Row) :
    parseHexPayload decimal r.text =
      if ∀ n ∈ r.numbers, n.value < 256 then
        .ok (r.numbers.map fun n => UInt8.ofNat n.value)
      else .error "Each payload byte must be 00..FF." := by
  have hkept : (r.numbers.map Number.text).filter (· ≠ []) = r.numbers.map Number.text := by
    refine List.filter_eq_self.mpr fun word hword => ?_
    obtain ⟨n, -, rfl⟩ := List.mem_map.mp hword
    exact decide_eq_true n.text_ne_nil
  have hne : r.numbers.map Number.text ≠ [] := by simp [Row.numbers]
  have hany : ((r.numbers.map fun n => (n.value : ℤ)).any fun v => v < 0 || 0xFF < v) =
      decide (¬ ∀ n ∈ r.numbers, n.value < 256) := by
    rw [Bool.eq_iff_iff, List.any_map, List.any_eq_true, decide_eq_true_eq]
    push Not
    refine exists_congr fun n => and_congr_right fun _ => ?_
    simp only [Function.comp_apply, Bool.or_eq_true, decide_eq_true_eq]
    omega
  simp only [parseHexPayload, replace_separators, r.splitWords_text, hkept, if_neg hne,
    mapM_intBase16, hany, decide_eq_true_eq, List.map_map]
  by_cases hbytes : ∀ n ∈ r.numbers, n.value < 256
  · rw [if_neg (not_not.mpr hbytes), if_pos hbytes]
    rfl
  · rw [if_pos hbytes, if_neg hbytes]

/-- The number that a byte is printed as. -/
def byteNumber (b : UInt8) : Number where
  base := []
  digits := (Nat.toDigits 16 b.toNat).leftpad 2 '0'
  base_eq := .inl rfl
  digits_ne := by
    have hall : ∀ n < 256, (Nat.toDigits 16 n).leftpad 2 '0' ≠ [] := by decide +kernel
    exact hall b.toNat b.toNat_lt
  digits_hex := by
    have hall : ∀ n < 256, HexDigits ((Nat.toDigits 16 n).leftpad 2 '0') := by decide +kernel
    exact hall b.toNat b.toNat_lt

theorem value_byteNumber (b : UInt8) : (byteNumber b).value = b.toNat := by
  have hall : ∀ n < 256, hexNumber ((Nat.toDigits 16 n).leftpad 2 '0') = n := by decide +kernel
  exact hall b.toNat b.toNat_lt

/-- Bytes as they are printed, with a blank between any two. -/
def printedRow (b : UInt8) (data : List UInt8) : Row where
  lead := []
  first := byteNumber b
  rest := data.map fun c => ([' '], byteNumber c)
  tail := []
  lead_gap := by decide
  rest_gap := by
    intro next hnext
    obtain ⟨c, -, rfl⟩ := List.mem_map.mp hnext
    exact ⟨List.cons_ne_nil _ _, show IsGap [' '] by decide⟩
  tail_gap := by decide

theorem text_printedRow (b : UInt8) (data : List UInt8) :
    (printedRow b data).text = hexSpaced (b :: data) := by
  have hjoined : joined (byteNumber b) (data.map fun c => ([' '], byteNumber c)) =
      hexSpaced (b :: data) := by
    induction data generalizing b with
    | nil => simp [joined, hexSpaced, Number.text, byteNumber, List.intercalate]
    | cons c data ih =>
      have hrest := ih c
      simp only [joined, hexSpaced, List.map_cons, List.flatMap_cons] at hrest ⊢
      rw [List.intercalate_cons_cons, ← hrest]
      simp [Number.text, byteNumber]
  simp [Row.text, printedRow, hjoined]

theorem numbers_printedRow (b : UInt8) (data : List UInt8) :
    (printedRow b data).numbers = (b :: data).map byteNumber := by
  simp [Row.numbers, printedRow, Function.comp_def]

/-- A payload is read as the row of bytes that was typed, however they are written and set
apart; one number beyond a byte and all of it is refused. The bytes that the log shows may be
typed in again. -/
theorem payload_read_back :
    (∀ r : Row, parseHexPayload decimal (strip r.text) =
      if ∀ n ∈ r.numbers, n.value < 256 then
        .ok (r.numbers.map fun n => UInt8.ofNat n.value)
      else .error "Each payload byte must be 00..FF.") ∧
    ∀ data, parseHexPayload decimal (strip (hexSpaced data)) = .ok data := by
  refine ⟨fun r => ?_, fun data => ?_⟩
  · rw [parseHexPayload_strip, parseHexPayload_row]
  · rw [parseHexPayload_strip]
    cases data with
    | nil => rfl
    | cons b data =>
      have hbytes : ∀ n ∈ (printedRow b data).numbers, n.value < 256 := by
        intro n hn
        rw [numbers_printedRow] at hn
        obtain ⟨c, -, rfl⟩ := List.mem_map.mp hn
        exact (value_byteNumber c).trans_lt c.toNat_lt
      rw [← text_printedRow, parseHexPayload_row, if_pos hbytes, numbers_printedRow, List.map_map]
      congr 1
      refine (List.map_congr_left fun c _ => ?_).trans (List.map_id _)
      rw [Function.comp_apply, value_byteNumber, UInt8.ofNat_toNat, id]

end Fields
end SomeIpGateway.TypedTexts
