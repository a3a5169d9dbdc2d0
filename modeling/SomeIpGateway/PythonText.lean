import Mathlib.Data.List.DropRight
import Mathlib.Tactic

/-!
# Texts of Python

A `str` is the list of its characters. The methods `strip`, `split` and `lower` and the
conversion `int(text, 16)`, with what they make of a text that is put together from parts.
-/
namespace SomeIpGateway.PythonText

abbrev Text := List Char

/-! ### White space -/

/-- `str.isspace` of one character. -/
def isSpace (c : Char) : Bool :=
  (0x9 ≤ c.toNat && c.toNat ≤ 0xd) || (0x1c ≤ c.toNat && c.toNat ≤ 0x20) || c.toNat == 0x85 ||
    c.toNat == 0xa0 || c.toNat == 0x1680 || (0x2000 ≤ c.toNat && c.toNat ≤ 0x200a) ||
    c.toNat == 0x2028 || c.toNat == 0x2029 || c.toNat == 0x202f || c.toNat == 0x205f ||
    c.toNat == 0x3000

/-- `str.strip` -/
def strip (text : Text) : Text := (text.rdropWhile isSpace).dropWhile isSpace

/-- White space only. -/
def Blank (text : Text) : Prop := ∀ c ∈ text, isSpace c

instance (text : Text) : Decidable (Blank text) := List.decidableBAll (isSpace · = true) text

theorem rdropWhile_append_blank {p : Char → Bool} (text : Text) {gap : Text} (h : ∀ c ∈ gap, p c) :
    (text ++ gap).rdropWhile p = text.rdropWhile p := by
  induction gap using List.reverseRecOn with
  | nil => rw [List.append_nil]
  | append_singleton gap c ih =>
    rw [← List.append_assoc, List.rdropWhile_concat_pos _ _ _ (h c (by simp))]
    exact ih fun d hd => h d (by simp [hd])

theorem rdropWhile_append_of_ne {p : Char → Bool} (text : Text) {tail : Text}
    (h : ¬ ∀ c ∈ tail, p c) : (text ++ tail).rdropWhile p = text ++ tail.rdropWhile p := by
  induction tail using List.reverseRecOn with
  | nil => simp at h
  | append_singleton tail c ih =>
    rw [← List.append_assoc]
    by_cases hc : p c
    · rw [List.rdropWhile_concat_pos _ _ _ hc, List.rdropWhile_concat_pos _ _ _ hc]
      refine ih fun hall => h ?_
      intro d hd
      rcases List.mem_append.mp hd with hd | hd
      · exact hall d hd
      · exact List.mem_singleton.mp hd ▸ hc
    · rw [List.rdropWhile_concat_neg _ _ _ hc, List.rdropWhile_concat_neg _ _ _ hc,
        List.append_assoc]

theorem strip_eq_nil_iff {text : Text} : strip text = [] ↔ Blank text := by
  rw [strip, List.dropWhile_eq_nil_iff]
  constructor
  · intro h c hc
    by_contra hne
    have hblank : ¬ ∀ c ∈ text, isSpace c := fun hall => hne (hall c hc)
    have hnil : text.rdropWhile isSpace ≠ [] := mt (List.rdropWhile_eq_nil_iff ..).mp hblank
    exact List.rdropWhile_last_not _ _ hnil (h _ (List.getLast_mem hnil))
  · intro h c hc
    exact h c ((List.rdropWhile_prefix ..).subset hc)

/-- Stripping twice is stripping once. -/
theorem strip_strip (text : Text) : strip (strip text) = strip text := by
  have hkept : (strip text).rdropWhile isSpace = strip text := by
    rw [List.rdropWhile_eq_self_iff]
    intro hne
    have hsuffix : strip text <:+ text.rdropWhile isSpace := List.dropWhile_suffix _
    have hnil : text.rdropWhile isSpace ≠ [] := fun h => hne (List.suffix_nil.mp (h ▸ hsuffix))
    rw [hsuffix.getLast hne]
    exact List.rdropWhile_last_not _ _ hnil
  rw [strip, hkept, strip, List.dropWhile_idempotent]

theorem strip_rdropWhile (text : Text) : strip (text.rdropWhile isSpace) = strip text := by
  rw [strip, List.rdropWhile_idempotent, strip]

/-- White space before a text that begins with something else, and white space after it, do
not count. -/
theorem strip_pad {lead gap : Text} {c : Char} {text : Text} (hlead : Blank lead)
    (hgap : Blank gap) (hc : isSpace c = false) :
    strip (lead ++ c :: text ++ gap) = (c :: text).rdropWhile isSpace := by
  have hne : ¬ ∀ d ∈ c :: text, isSpace d := fun h => by simp [hc] at h
  have hhead : ((c :: text).rdropWhile isSpace).dropWhile isSpace =
      (c :: text).rdropWhile isSpace := by
    rw [show c :: text = [c] ++ text from rfl]
    by_cases htext : ∀ d ∈ text, isSpace d
    · rw [rdropWhile_append_blank _ htext]
      simp [List.rdropWhile_singleton, hc]
    · rw [rdropWhile_append_of_ne _ htext]
      simp [hc]
  rw [strip, rdropWhile_append_blank _ hgap, rdropWhile_append_of_ne _ hne,
    List.dropWhile_append_of_pos hlead, hhead]

/-! ### Lower case -/

/-- The lower case of an ASCII letter. Of the other characters only two become ASCII, an `i`
or a `k`, which are no part of a number. -/
def lowerChar (c : Char) : Char :=
  if 65 ≤ c.toNat ∧ c.toNat ≤ 90 then Char.ofNat (c.toNat + 32) else c

/-- `str.lower` -/
def lower (text : Text) : Text := text.map lowerChar

theorem lowerChar_of_not_upper {c : Char} (h : c.toNat < 65 ∨ 90 < c.toNat) : lowerChar c = c := by
  rw [lowerChar, if_neg (by omega)]

theorem toNat_lowerChar_of_upper {c : Char} (h : 65 ≤ c.toNat ∧ c.toNat ≤ 90) :
    (lowerChar c).toNat = c.toNat + 32 := by
  have hvalid : (c.toNat + 32).isValidChar := Or.inl (by omega)
  rw [lowerChar, if_pos h, Char.ofNat, dif_pos hvalid]
  rfl

/-- A character that is the lower case of itself alone. -/
theorem lowerChar_eq_iff {c d : Char} (hd : d.toNat < 65 ∨ 122 < d.toNat) :
    lowerChar c = d ↔ c = d := by
  by_cases hc : 65 ≤ c.toNat ∧ c.toNat ≤ 90
  · have hlower := toNat_lowerChar_of_upper hc
    constructor
    · intro h
      rw [h] at hlower
      omega
    · intro h
      rw [h] at hc
      omega
  · rw [lowerChar, if_neg hc]

theorem lowerChar_eq_x {c : Char} (h : lowerChar c = 'x') : c = 'x' ∨ c = 'X' := by
  by_cases hc : 65 ≤ c.toNat ∧ c.toNat ≤ 90
  · have hlower := toNat_lowerChar_of_upper hc
    rw [h] at hlower
    right
    rw [← Char.ofNat_toNat c, show c.toNat = 88 by simpa using hlower.symm]
  · rw [lowerChar, if_neg hc] at h
    exact Or.inl h

/-! ### Splitting -/

/-- `str.replace` of one character by another. -/
def replace (old new : Char) (text : Text) : Text := text.map fun c => if c = old then new else c

/-- `str.split(sep)` -/
def split (sep : Char) (text : Text) : List Text := text.splitOn sep

/-- `str.split(sep, 1)`: the text before the first separator, and the rest if there is one. -/
def splitOnce (sep : Char) (text : Text) : Text × Option Text :=
  (text.takeWhile (· ≠ sep), (text.dropWhile (· ≠ sep)).tail?)

theorem splitOnce_of_not_mem {sep : Char} {text : Text} (h : sep ∉ text) :
    splitOnce sep text = (text, none) := by
  have hall : ∀ c ∈ text, decide (c ≠ sep) = true :=
    fun c hc => decide_eq_true fun hcs => h (hcs ▸ hc)
  rw [splitOnce, List.takeWhile_eq_self_iff.mpr hall, List.dropWhile_eq_nil_iff.mpr hall]
  rfl

theorem splitOnce_append {sep : Char} {first : Text} (h : sep ∉ first) (rest : Text) :
    splitOnce sep (first ++ sep :: rest) = (first, some rest) := by
  have hall : ∀ c ∈ first, decide (c ≠ sep) = true :=
    fun c hc => decide_eq_true fun hcs => h (hcs ▸ hc)
  rw [splitOnce, List.takeWhile_append_of_pos hall, List.dropWhile_append_of_pos hall]
  simp

/-- Texts joined with separators of several kinds. -/
def joinWith (first : Text) (rest : List (Char × Text)) : Text :=
  first ++ rest.flatMap fun next => next.1 :: next.2

theorem map_eq_self {f : Char → Char} {text : Text} (h : ∀ c ∈ text, f c = c) :
    text.map f = text := (List.map_congr_left h).trans (List.map_id _)

theorem split_map_of_not_mem {f : Char → Char} {sep : Char} {text : Text}
    (h : ∀ c ∈ text, f c = c ∧ c ≠ sep) : split sep (text.map f) = [text] := by
  rw [map_eq_self fun c hc => (h c hc).1]
  exact List.splitOn_eq_singleton fun hmem => (h sep hmem).2 rfl

/-- Texts joined with separators that are made one are split into the texts. -/
theorem split_map_joinWith {f : Char → Char} {sep : Char} {first : Text}
    {rest : List (Char × Text)} (hfirst : ∀ c ∈ first, f c = c ∧ c ≠ sep)
    (hrest : ∀ next ∈ rest, f next.1 = sep ∧ ∀ c ∈ next.2, f c = c ∧ c ≠ sep) :
    split sep ((joinWith first rest).map f) = first :: rest.map Prod.snd := by
  induction rest generalizing first with
  | nil =>
    rw [joinWith, List.flatMap_nil, List.append_nil]
    exact split_map_of_not_mem hfirst
  | cons next rest ih =>
    obtain ⟨hsep, hnext⟩ := hrest next (by simp)
    have hkept : first.map f = first := map_eq_self fun c hc => (hfirst c hc).1
    have hjoin : (joinWith first (next :: rest)).map f =
        first ++ sep :: (joinWith next.2 rest).map f := by
      simp [joinWith, hkept, hsep]
    rw [hjoin, split, List.splitOn_append_cons_self,
      List.splitOn_eq_singleton fun hmem => (hfirst sep hmem).2 rfl]
    exact congrArg (first :: ·) (ih hnext fun n hn => hrest n (by simp [hn]))

/-! ### Numbers to base 16 -/

def hexValue (c : Char) : Option ℕ :=
  if 48 ≤ c.toNat ∧ c.toNat ≤ 57 then some (c.toNat - 48)
  else if 65 ≤ c.toNat ∧ c.toNat ≤ 70 then some (c.toNat - 55)
  else if 97 ≤ c.toNat ∧ c.toNat ≤ 102 then some (c.toNat - 87)
  else none

/-- The digits after the first; a single underscore may stand between two. -/
def readDigits : ℕ → Text → Option ℕ
  | n, [] => some n
  | n, '_' :: c :: text => (hexValue c).bind fun d => readDigits (16 * n + d) text
  | n, c :: text => (hexValue c).bind fun d => readDigits (16 * n + d) text

def readNumber : Text → Option ℕ
  | [] => none
  | c :: text => (hexValue c).bind fun d => readDigits d text

/-- Skip `0x` or `0X`, and an underscore behind it. -/
def skipBase : Text → Text
  | '0' :: 'x' :: '_' :: text => text
  | '0' :: 'X' :: '_' :: text => text
  | '0' :: 'x' :: text => text
  | '0' :: 'X' :: text => text
  | text => text

/-- What a conversion to `int` makes of a character before it looks at the digits. The
decimal digits outside ASCII are a parameter. -/
def toAscii (decimal : Char → Option (Fin 10)) (c : Char) : Char :=
  if c.toNat < 127 then c
  else if isSpace c then ' '
  else (decimal c).elim '?' fun d => Char.ofNat (48 + d)

/-- The white space of C, which is less than that of `str.strip`. -/
def isAsciiSpace (c : Char) : Bool := (9 ≤ c.toNat && c.toNat ≤ 13) || c.toNat == 32

/-- `int(text, 16)`, or no value for a `ValueError`. -/
def intBase16 (decimal : Char → Option (Fin 10)) (text : Text) : Option ℤ :=
  let text := ((text.map (toAscii decimal)).rdropWhile isAsciiSpace).dropWhile isAsciiSpace
  match text with
  | '-' :: text => (readNumber (skipBase text)).map fun n : ℕ => -(n : ℤ)
  | '+' :: text => (readNumber (skipBase text)).map fun n : ℕ => (n : ℤ)
  | text => (readNumber (skipBase text)).map fun n : ℕ => (n : ℤ)

/-- The number that hexadecimal digits stand for. -/
def hexNumber (digits : Text) : ℕ :=
  digits.foldl (fun n c => 16 * n + (hexValue c).getD 0) 0

/-- Hexadecimal digits only. -/
def HexDigits (text : Text) : Prop := ∀ c ∈ text, (hexValue c).isSome

instance (text : Text) : Decidable (HexDigits text) :=
  List.decidableBAll (fun c => (hexValue c).isSome = true) text

/-- White space that the conversion skips too: all but the four separators of ASCII. -/
def Skipped (text : Text) : Prop :=
  ∀ c ∈ text, isSpace c ∧ ¬ (0x1c ≤ c.toNat ∧ c.toNat ≤ 0x1f)

instance (text : Text) : Decidable (Skipped text) :=
  List.decidableBAll (fun c => isSpace c ∧ ¬ (0x1c ≤ c.toNat ∧ c.toNat ≤ 0x1f)) text

theorem hexValue_bounds {c : Char} (h : (hexValue c).isSome) :
    48 ≤ c.toNat ∧ c.toNat ≤ 57 ∨ 65 ≤ c.toNat ∧ c.toNat ≤ 70 ∨ 97 ≤ c.toNat ∧ c.toNat ≤ 102 := by
  unfold hexValue at h
  split_ifs at h <;> simp_all

theorem hexValue_lowerChar (c : Char) : hexValue (lowerChar c) = hexValue c := by
  by_cases hc : 65 ≤ c.toNat ∧ c.toNat ≤ 90
  · have hlower := toNat_lowerChar_of_upper hc
    unfold hexValue
    split_ifs <;> first | omega | (congr 1; omega) | rfl
  · rw [lowerChar, if_neg hc]

theorem readDigits_of_hex {digits : Text} (h : HexDigits digits) (n : ℕ) :
    readDigits n digits =
      some (digits.foldl (fun n c => 16 * n + (hexValue c).getD 0) n) := by
  induction digits generalizing n with
  | nil => rfl
  | cons c digits ih =>
    have hc := h c (by simp)
    obtain ⟨d, hd⟩ := Option.isSome_iff_exists.mp hc
    have hne : c ≠ '_' := by
      rintro rfl
      simp [hexValue] at hc
    rw [readDigits.eq_3 _ _ _ (fun _ _ h => absurd h hne), hd, Option.bind_some,
      ih fun e he => h e (by simp [he]), List.foldl_cons, hd, Option.getD_some]

theorem readNumber_of_hex {digits : Text} (hne : digits ≠ []) (h : HexDigits digits) :
    readNumber digits = some (hexNumber digits) := by
  cases digits with
  | nil => exact absurd rfl hne
  | cons c digits =>
    obtain ⟨d, hd⟩ := Option.isSome_iff_exists.mp (h c (by simp))
    rw [readNumber, hd, Option.bind_some, readDigits_of_hex fun e he => h e (by simp [he]),
      hexNumber, List.foldl_cons, hd, Option.getD_some, Nat.mul_zero, Nat.zero_add]

theorem toAscii_of_lt (decimal : Char → Option (Fin 10)) {c : Char} (h : c.toNat < 127) :
    toAscii decimal c = c := if_pos h

/-- Skipped white space becomes white space of ASCII. -/
theorem isAsciiSpace_toAscii (decimal : Char → Option (Fin 10)) {text : Text} (h : Skipped text)
    {c : Char} (hc : c ∈ text) : isAsciiSpace (toAscii decimal c) := by
  obtain ⟨hspace, hsep⟩ := h c hc
  unfold toAscii
  split_ifs with hlt
  · simp only [isSpace, isAsciiSpace, Bool.or_eq_true, Bool.and_eq_true, decide_eq_true_eq,
      beq_iff_eq] at hspace ⊢
    omega
  · rfl

theorem not_isAsciiSpace_of_hex {c : Char} (h : (hexValue c).isSome) : isAsciiSpace c = false := by
  have hbounds := hexValue_bounds h
  simp only [isAsciiSpace, Bool.or_eq_false_iff, Bool.and_eq_false_iff, decide_eq_false_iff_not,
    beq_eq_false_iff_ne]
  omega

theorem skipBase_of_hex {digits : Text} (h : HexDigits digits) :
    skipBase ('0' :: 'x' :: digits) = digits := by
  cases digits with
  | nil => rfl
  | cons c digits =>
    have hne : c ≠ '_' := by
      rintro rfl
      simpa [hexValue] using h '_' (by simp)
    exact skipBase.eq_3 _ fun _ heq => hne (List.cons.inj heq).1

/-- `int` reads a number with its base, up to white space that it skips. -/
theorem intBase16_of_hex (decimal : Char → Option (Fin 10)) {digits gap : Text}
    (hne : digits ≠ []) (hdigits : HexDigits digits) (hgap : Skipped gap) :
    intBase16 decimal ('0' :: 'x' :: digits ++ gap) = some (hexNumber digits : ℤ) := by
  have hnumber : ('0' :: 'x' :: digits).map (toAscii decimal) = '0' :: 'x' :: digits := by
    apply map_eq_self
    intro c hc
    apply toAscii_of_lt
    rcases List.mem_cons.mp hc with rfl | hc
    · decide
    rcases List.mem_cons.mp hc with rfl | hc
    · decide
    have hbounds := hexValue_bounds (hdigits c hc)
    omega
  have hblank : ∀ c ∈ gap.map (toAscii decimal), isAsciiSpace c := by
    intro c hc
    obtain ⟨d, hd, rfl⟩ := List.mem_map.mp hc
    exact isAsciiSpace_toAscii decimal hgap hd
  have hkept : ('0' :: 'x' :: digits).rdropWhile isAsciiSpace = '0' :: 'x' :: digits := by
    rw [List.rdropWhile_eq_self_iff]
    intro hcons
    have hlast : ('0' :: 'x' :: digits).getLast hcons = digits.getLast hne := by
      rw [List.getLast_cons (List.cons_ne_nil _ _), List.getLast_cons hne]
    rw [hlast, not_isAsciiSpace_of_hex (hdigits _ (List.getLast_mem hne))]
    exact Bool.false_ne_true
  have htext : ((('0' :: 'x' :: digits ++ gap).map (toAscii decimal)).rdropWhile
      isAsciiSpace).dropWhile isAsciiSpace = '0' :: 'x' :: digits := by
    rw [List.map_append, hnumber, rdropWhile_append_blank _ hblank, hkept]
    exact List.dropWhile_cons_of_neg (by decide)
  rw [intBase16, htext]
  change (readNumber (skipBase ('0' :: 'x' :: digits))).map _ = _
  rw [skipBase_of_hex hdigits, readNumber_of_hex hne hdigits, Option.map_some]

/-! ### Formatting -/

/-- `f"{n:02X}"` -/
def format02X (n : ℤ) : Text :=
  let digits := (Nat.toDigits 16 n.natAbs).map Char.toUpper
  if n < 0 then '-' :: digits else digits.leftpad 2 '0'

end SomeIpGateway.PythonText
