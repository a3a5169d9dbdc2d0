import Std.Data.ExtTreeMap
import Mathlib.Data.Finset.Sort
import SomeIpGateway.PythonText
import SomeIpGateway.PythonCodec
import SomeIpGateway.McuTransmit

/-!
# Service discovery

The MCU advertises its services as texts, one frame each. The Python client reads the texts
in `_add_services_from_brief` and keeps a name for each SID. An entry of a text is a SID to
base 16, with or without a name behind a colon; several entries may stand in one text.
-/
namespace SomeIpGateway.ServiceDiscovery
open PythonText PythonCodec
open McuTransmit (serviceAdvertisePayload)

/-! ### The client -/

/-- `SID_INFO` -/
def sidInfo : List (ℤ × String) :=
  [(0x01, "Service Advertise"), (0x10, "RPC_LD2_Control"), (0x11, "RPC_MCU_Reset"),
    (0x12, "RPC_SPI_ReadWrite"), (0x13, "RPC_PWM_SetOut"), (0x20, "Diag_PWM_Output_Value"),
    (0x21, "Diag_PWM_Input_Value"), (0x22, "Diag_ADC1_GetValue"), (0x23, "Diag_ADC2_GetValue"),
    (0x24, "Diag_GPO_PinState"), (0x25, "Diag_GPI_PinState"), (0x26, "Diag_LD2_PinState")]

/-- The name of a service that comes without one. -/
def defaultName (sid : ℤ) : Text :=
  ((sidInfo.lookup sid).map String.toList).getD ("Service_0x".toList ++ format02X sid)

/-- `McuInfo.services`, a name for each SID. -/
abbrev Services := Std.ExtTreeMap ℤ Text

variable (decimal : Char → Option (Fin 10))

/-- The body of the loop over the parts: the names, and the SIDs that were found. -/
def readPart (acc : Services × Finset ℤ) (part : Text) : Services × Finset ℤ :=
  let p := lower (strip part)
  if ['0', 'x'] <+: p then
    match intBase16 decimal (splitOnce ':' p).1 with
    | none => acc
    | some sid =>
      let found := insert sid acc.2
      match (splitOnce ':' (strip part)).2 with
      | some customName =>
        if strip customName ≠ [] then (acc.1.insert sid (strip customName), found)
        else (acc.1, found)
      | none => (acc.1, found)
  else acc

/-- The loop over the SIDs that were found. -/
def addDefaults (services : Services) (found : List ℤ) : Services :=
  found.foldl (fun services sid =>
    if services.contains sid then services else services.insert sid (defaultName sid)) services

/-- `_add_services_from_brief` -/
def addServicesFromBrief (services : Services) (brief : Text) : Services :=
  let parts := split ',' (replace '|' ',' (replace ';' ',' brief))
  let acc := parts.foldl (readPart decimal) (services, ∅)
  if acc.2 = ∅ then acc.1 else addDefaults acc.1 acc.2.sort

structure McuInfo where
  cid : UInt16
  brief : Text := []
  services : Services := ∅

/-- `bytes.decode("utf-8", errors="replace")`. What it makes of bytes that are not UTF-8 is a
parameter. -/
def decodeUtf8 (replaced : List UInt8 → Text) (payload : List UInt8) : Text :=
  ((String.fromUTF8? ⟨payload.toArray⟩).map String.toList).getD (replaced payload)

variable (replaced : List UInt8 → Text)

/-- `_handle_frame`, up to the time of arrival and what is shown on the screen. -/
def handleFrame (mcus : Std.ExtTreeMap UInt16 McuInfo) (frame : Frame) :
    Std.ExtTreeMap UInt16 McuInfo :=
  if frame.sid = 0x01 then
    let brief := strip (decodeUtf8 replaced frame.payload)
    let mcu := (mcus[frame.cid]?).getD { cid := frame.cid }
    mcus.insert frame.cid
      { mcu with brief := brief, services := addServicesFromBrief decimal mcu.services brief }
  else mcus

/-- The services of a node, of which nothing may have been heard. -/
def servicesOf (mcus : Std.ExtTreeMap UInt16 McuInfo) (cid : UInt16) : Services :=
  (mcus[cid]?).elim ∅ McuInfo.services

/-! ### The texts -/

def separators : Text := [',', ';', '|']

def NoSeparator (text : Text) : Prop := ∀ c ∈ text, c ∉ separators

instance (text : Text) : Decidable (NoSeparator text) :=
  List.decidableBAll (fun c => c ∉ separators) text

/-- A service as it is written in a text: a SID to base 16 and optionally a name. -/
structure Entry where
  lead : Text
  x : Char
  digits : Text
  gap : Text
  name : Option Text
  lead_blank : Blank lead
  x_base : x = 'x' ∨ x = 'X'
  digits_ne : digits ≠ []
  digits_hex : HexDigits digits
  gap_blank : Blank gap
  name_ok : ∀ n ∈ name, ¬ Blank n ∧ NoSeparator n

namespace Entry

def text (e : Entry) : Text :=
  e.lead ++ '0' :: e.x :: e.digits ++ e.gap ++ e.name.elim [] (':' :: ·)

def sid (e : Entry) : ℤ := hexNumber e.digits

end Entry

/-- What stands between two separators: an entry, or a text that does not look like one. -/
inductive Part where
  | entry (e : Entry)
  | other (text : Text) (noSeparator : NoSeparator text)
    (noBase : ¬ ['0', 'x'] <+: strip text ∧ ¬ ['0', 'X'] <+: strip text)

namespace Part

def text : Part → Text
  | entry e => e.text
  | other text _ _ => text

def sid : Part → Option ℤ
  | entry e => some e.sid
  | other _ _ _ => none

/-- The trimmed name that a part gives to a SID. -/
def nameFor (sid : ℤ) : Part → Option Text
  | entry e => if e.sid = sid then e.name.map strip else none
  | other _ _ _ => none

/-- The white space between the digits and a colon is such that a conversion to `int`
skips it. -/
def Readable : Part → Prop
  | entry e => e.name ≠ none → Skipped e.gap
  | other _ _ _ => True

instance (p : Part) : Decidable p.Readable := by
  cases p with
  | entry e => exact inferInstanceAs (Decidable (_ → _))
  | other _ _ _ => exact inferInstanceAs (Decidable True)

end Part

/-- Some part is an entry for the SID. -/
def Listed (parts : List Part) (sid : ℤ) : Prop := some sid ∈ parts.map Part.sid

instance (parts : List Part) (sid : ℤ) : Decidable (Listed parts sid) :=
  inferInstanceAs (Decidable (_ ∈ _))

/-- The name that the last named entry gives to a SID. -/
def lastName (parts : List Part) (sid : ℤ) : Option Text :=
  (parts.filterMap (Part.nameFor sid)).getLast?

/-! ### One part -/

theorem not_separator_of_blank {text : Text} (h : Blank text) : NoSeparator text := by
  intro c hc hmem
  have hspace := h c hc
  revert hspace
  simp only [separators, List.mem_cons, List.not_mem_nil, or_false] at hmem
  rcases hmem with rfl | rfl | rfl <;> decide

theorem not_separator_of_hex {c : Char} (h : (hexValue c).isSome) : c ∉ separators := by
  intro hmem
  revert h
  simp only [separators, List.mem_cons, List.not_mem_nil, or_false] at hmem
  rcases hmem with rfl | rfl | rfl <;> decide

namespace Entry
variable (e : Entry)

/-- The SID as it is written. -/
def number : Text := '0' :: e.x :: e.digits

theorem text_eq : e.text = e.lead ++ e.number ++ e.gap ++ e.name.elim [] (':' :: ·) := by
  simp [text, number]

theorem not_separator : NoSeparator e.text := by
  intro c hc
  rw [text_eq] at hc
  simp only [List.mem_append, number, List.mem_cons] at hc
  rcases hc with ((hc | hc | hc | hc) | hc) | hc
  · exact not_separator_of_blank e.lead_blank c hc
  · subst hc
    decide
  · subst hc
    rcases e.x_base with hx | hx <;> rw [hx] <;> decide
  · exact not_separator_of_hex (e.digits_hex c hc)
  · exact not_separator_of_blank e.gap_blank c hc
  · cases hname : e.name with
    | none => simp [hname] at hc
    | some n =>
      simp only [hname, Option.elim_some, List.mem_cons] at hc
      rcases hc with rfl | hc
      · decide
      · exact (e.name_ok n hname).2 c hc

theorem not_space_of_hex {c : Char} (h : (hexValue c).isSome) : isSpace c = false := by
  have hbounds := hexValue_bounds h
  simp only [isSpace, Bool.or_eq_false_iff, Bool.and_eq_false_iff, decide_eq_false_iff_not,
    beq_eq_false_iff_ne]
  omega

theorem strip_of_unnamed (h : e.name = none) : strip e.text = e.number := by
  have hkept : e.number.rdropWhile isSpace = e.number := by
    rw [List.rdropWhile_eq_self_iff]
    intro hne
    have hlast : e.number.getLast hne = e.digits.getLast e.digits_ne := by
      simp only [number]
      rw [List.getLast_cons (List.cons_ne_nil _ _), List.getLast_cons e.digits_ne]
    rw [hlast, not_space_of_hex (e.digits_hex _ (List.getLast_mem e.digits_ne))]
    exact Bool.false_ne_true
  rw [text_eq, h, Option.elim_none, List.append_nil]
  exact (strip_pad e.lead_blank e.gap_blank (by decide)).trans hkept

theorem strip_of_named {n : Text} (h : e.name = some n) :
    strip e.text = e.number ++ e.gap ++ ':' :: n.rdropWhile isSpace := by
  have hn : ¬ ∀ c ∈ n, isSpace c := (e.name_ok n h).1
  have htext : e.text = e.lead ++ '0' :: (e.x :: e.digits ++ e.gap ++ ':' :: n) ++ [] := by
    simp [text, h]
  have htail : (e.number ++ e.gap ++ ':' :: n).rdropWhile isSpace =
      e.number ++ e.gap ++ ':' :: n.rdropWhile isSpace := by
    have hsplit (m : Text) : e.number ++ e.gap ++ ':' :: m = e.number ++ e.gap ++ [':'] ++ m :=
      (List.append_cons ..)
    rw [hsplit n, rdropWhile_append_of_ne _ hn, ← hsplit]
  rw [htext, strip_pad e.lead_blank (by simp [Blank]) (by decide), ← htail]
  simp [number]

theorem lower_number : lower e.number = '0' :: 'x' :: lower e.digits := by
  have hx : lowerChar e.x = 'x' := by rcases e.x_base with hx | hx <;> rw [hx] <;> decide
  simp only [number, lower, List.map_cons, hx]
  rfl

theorem lower_gap : lower e.gap = e.gap := by
  apply map_eq_self
  intro c hc
  apply lowerChar_of_not_upper
  have hspace := e.gap_blank c hc
  simp only [isSpace, Bool.or_eq_true, Bool.and_eq_true, decide_eq_true_eq, beq_iff_eq] at hspace
  omega

theorem hexNumber_lower (digits : Text) : hexNumber (lower digits) = hexNumber digits := by
  simp [hexNumber, lower, List.foldl_map, hexValue_lowerChar]

/-- The SID is read from the text before a colon. -/
theorem intBase16_token {gap : Text} (hgap : Skipped gap) :
    intBase16 decimal (lower e.number ++ gap) = some e.sid := by
  rw [lower_number, intBase16_of_hex decimal (by simpa [lower] using e.digits_ne) _ hgap,
    hexNumber_lower, sid]
  intro c hc
  obtain ⟨d, hd, rfl⟩ := List.mem_map.mp hc
  rw [hexValue_lowerChar]
  exact e.digits_hex d hd

theorem colon_not_mem : ':' ∉ e.number ++ e.gap := by
  simp only [List.mem_append, number, List.mem_cons, not_or]
  refine ⟨⟨by decide, ?_, fun h => ?_⟩, fun h => ?_⟩
  · rcases e.x_base with hx | hx <;> rw [hx] <;> decide
  · have hbounds := hexValue_bounds (e.digits_hex _ h)
    revert hbounds
    decide
  · exact absurd (e.gap_blank _ h) (by decide)

theorem colon_not_mem_lower : ':' ∉ lower e.number ++ e.gap := by
  rw [← e.lower_gap, lower, lower, ← List.map_append]
  intro hmem
  obtain ⟨c, hc, hlower⟩ := List.mem_map.mp hmem
  rw [lowerChar_eq_iff (by decide)] at hlower
  exact e.colon_not_mem (hlower ▸ hc)

/-- An entry is taken for one. -/
theorem lower_strip_base : ['0', 'x'] <+: lower (strip e.text) := by
  cases hname : e.name with
  | none =>
    rw [e.strip_of_unnamed hname, e.lower_number]
    exact ⟨lower e.digits, rfl⟩
  | some n =>
    rw [e.strip_of_named hname, lower, List.map_append, List.map_append, ← lower, e.lower_number]
    exact ⟨lower e.digits ++ e.gap.map lowerChar ++ (':' :: n.rdropWhile isSpace).map lowerChar,
      by simp⟩

/-- What is split at the first colon: the SID can be read from the text before it, and the
text behind it is the name. -/
theorem splitOnce_strip (h : (Part.entry e).Readable) :
    intBase16 decimal (splitOnce ':' (lower (strip e.text))).1 = some e.sid ∧
      (splitOnce ':' (strip e.text)).2 = e.name.map (·.rdropWhile isSpace) := by
  have hcolon := e.colon_not_mem
  have hcolonLower := e.colon_not_mem_lower
  cases hname : e.name with
  | none =>
    have hnot : ':' ∉ e.number := fun hmem => hcolon (List.mem_append_left _ hmem)
    have hnotLower : ':' ∉ lower e.number := fun hmem => hcolonLower (List.mem_append_left _ hmem)
    rw [e.strip_of_unnamed hname, splitOnce_of_not_mem hnot, splitOnce_of_not_mem hnotLower]
    refine ⟨?_, rfl⟩
    simpa using e.intBase16_token decimal (List.forall_mem_nil _)
  | some n =>
    have hlower : lower (e.number ++ e.gap ++ ':' :: n.rdropWhile isSpace) =
        lower e.number ++ e.gap ++ ':' :: lower (n.rdropWhile isSpace) := by
      have hcons : lower (':' :: n.rdropWhile isSpace) = ':' :: lower (n.rdropWhile isSpace) := rfl
      rw [lower, List.map_append, List.map_append, ← lower, ← lower, ← lower, e.lower_gap, hcons]
    rw [e.strip_of_named hname, hlower, splitOnce_append hcolonLower, splitOnce_append hcolon]
    exact ⟨e.intBase16_token decimal (h (by simp [hname])), rfl⟩

end Entry

/-- An entry whose SID can be read is found, and its name is kept. -/
theorem readPart_entry (acc : Services × Finset ℤ) {e : Entry} (h : (Part.entry e).Readable) :
    readPart decimal acc e.text =
      (e.name.elim acc.1 fun n => acc.1.insert e.sid (strip n), insert e.sid acc.2) := by
  obtain ⟨hsid, hcustom⟩ := e.splitOnce_strip decimal h
  simp only [readPart, if_pos e.lower_strip_base, hsid, hcustom]
  cases hname : e.name with
  | none => rfl
  | some n =>
    have hnonblank : strip n ≠ [] := mt strip_eq_nil_iff.mp (e.name_ok n hname).1
    simp only [Option.map_some, strip_rdropWhile, if_pos hnonblank, Option.elim_some]

/-- Another text is passed over. -/
theorem readPart_other (acc : Services × Finset ℤ) {text : Text}
    (h : ¬ ['0', 'x'] <+: strip text ∧ ¬ ['0', 'X'] <+: strip text) :
    readPart decimal acc text = acc := by
  apply if_neg
  rintro ⟨rest, hrest⟩
  generalize strip text = t at h hrest
  cases t with
  | nil => simp [lower] at hrest
  | cons c t =>
    cases t with
    | nil => simp [lower] at hrest
    | cons d t =>
      simp only [lower, List.map_cons, List.cons_append, List.nil_append, List.cons.injEq] at hrest
      obtain ⟨hc, hd, -⟩ := hrest
      have hzero := (lowerChar_eq_iff (by decide)).mp hc.symm
      subst hzero
      rcases lowerChar_eq_x hd.symm with rfl | rfl
      · exact h.1 ⟨t, rfl⟩
      · exact h.2 ⟨t, rfl⟩

/-! ### The two loops -/

/-- What a part does to the name of a SID, and to the SIDs that were found. -/
theorem readPart_lookup (acc : Services × Finset ℤ) {p : Part} (h : p.Readable) (sid : ℤ) :
    (readPart decimal acc p.text).1[sid]? = (p.nameFor sid).or acc.1[sid]? ∧
      (sid ∈ (readPart decimal acc p.text).2 ↔ p.sid = some sid ∨ sid ∈ acc.2) := by
  cases p with
  | other text noSeparator noBase =>
    rw [Part.text, readPart_other decimal acc noBase]
    simp [Part.nameFor, Part.sid]
  | entry e =>
    rw [Part.text, readPart_entry decimal acc h]
    refine ⟨?_, by simp [Part.sid, eq_comm]⟩
    cases hname : e.name with
    | none => simp [Part.nameFor, hname]
    | some n =>
      by_cases hsid : e.sid = sid
      · simp [Part.nameFor, hname, hsid]
      · simp [Part.nameFor, hsid, Std.ExtTreeMap.getElem?_insert]

theorem lastName_cons (p : Part) (parts : List Part) (sid : ℤ) :
    lastName (p :: parts) sid = (lastName parts sid).or (p.nameFor sid) := by
  rw [lastName, List.filterMap_cons]
  cases hname : p.nameFor sid with
  | none => rw [Option.or_none, lastName]
  | some n => rw [List.getLast?_cons, lastName, Option.or_some]

theorem listed_cons (p : Part) (parts : List Part) (sid : ℤ) :
    Listed (p :: parts) sid ↔ p.sid = some sid ∨ Listed parts sid := by
  simp [Listed, eq_comm]

theorem foldl_readPart_lookup {parts : List Part} (h : ∀ p ∈ parts, p.Readable)
    (acc : Services × Finset ℤ) (sid : ℤ) :
    ((parts.map Part.text).foldl (readPart decimal) acc).1[sid]? =
        (lastName parts sid).or acc.1[sid]? ∧
      (sid ∈ ((parts.map Part.text).foldl (readPart decimal) acc).2 ↔
        Listed parts sid ∨ sid ∈ acc.2) := by
  induction parts generalizing acc with
  | nil => simp [lastName, Listed]
  | cons p parts ih =>
    obtain ⟨hnames, hfound⟩ := ih (fun q hq => h q (by simp [hq])) (readPart decimal acc p.text)
    obtain ⟨hname, hsid⟩ := readPart_lookup decimal acc (h p (by simp)) sid
    rw [List.map_cons, List.foldl_cons]
    refine ⟨hnames.trans ?_, hfound.trans ?_⟩
    · rw [hname, lastName_cons, Option.or_assoc]
    · rw [hsid, listed_cons, or_left_comm, or_assoc]

theorem addDefaults_lookup (services : Services) (found : List ℤ) (sid : ℤ) :
    (addDefaults services found)[sid]? =
      services[sid]?.or (if sid ∈ found then some (defaultName sid) else none) := by
  induction found generalizing services with
  | nil => simp [addDefaults]
  | cons next found ih =>
    rw [addDefaults, List.foldl_cons, ← addDefaults, ih]
    by_cases hnext : next = sid
    · subst hnext
      cases hname : services[next]? with
      | none =>
        have hmem : next ∉ services := by simpa using hname
        simp [hmem]
      | some n =>
        have hmem : services.contains next = true :=
          Std.ExtTreeMap.contains_eq_isSome_getElem?.trans (by rw [hname, Option.isSome_some])
        simp [hmem, hname]
    · have hkept : (if services.contains next then services
          else services.insert next (defaultName next))[sid]? = services[sid]? := by
        split_ifs
        · rfl
        · simp [Std.ExtTreeMap.getElem?_insert, hnext]
      rw [hkept]
      simp [Ne.symm hnext]

/-- The name of a SID after the parts were read, given its name before. -/
def readBack (parts : List Part) (sid : ℤ) (earlier : Option Text) : Option Text :=
  (lastName parts sid).or
    (earlier.or (if Listed parts sid then some (defaultName sid) else none))

theorem addServices_parts {parts : List Part} (h : ∀ p ∈ parts, p.Readable) {brief : Text}
    (hbrief : split ',' (replace '|' ',' (replace ';' ',' brief)) = parts.map Part.text)
    (services : Services) (sid : ℤ) :
    (addServicesFromBrief decimal services brief)[sid]? =
      readBack parts sid services[sid]? := by
  obtain ⟨hnames, hfound⟩ := foldl_readPart_lookup decimal h (services, ∅) sid
  simp only [addServicesFromBrief, hbrief]
  generalize (parts.map Part.text).foldl (readPart decimal) (services, ∅) = acc at hnames hfound
  simp only [Finset.notMem_empty, or_false] at hfound
  rw [readBack, ← Option.or_assoc, ← hnames]
  split_ifs with hempty hlisted
  · rw [← hfound, hempty] at hlisted
    exact absurd hlisted (Finset.notMem_empty sid)
  · rw [Option.or_none]
  · rw [addDefaults_lookup, if_pos (by rwa [Finset.mem_sort, hfound])]
  · rw [addDefaults_lookup, if_neg (by rwa [Finset.mem_sort, hfound])]

/-! ### Parts joined in one text -/

inductive Separator where
  | comma
  | semicolon
  | bar
  deriving Repr, DecidableEq

def Separator.char : Separator → Char
  | .comma => ','
  | .semicolon => ';'
  | .bar => '|'

/-- Parts with separators between them. -/
def brief (first : Part) (rest : List (Separator × Part)) : Text :=
  joinWith first.text (rest.map fun next => (next.1.char, next.2.text))

theorem brief_nil (p : Part) : brief p [] = p.text := List.append_nil _

def partsOf (first : Part) (rest : List (Separator × Part)) : List Part :=
  first :: rest.map Prod.snd

theorem Part.not_separator (p : Part) : NoSeparator p.text := by
  cases p with
  | entry e => exact e.not_separator
  | other text noSeparator noBase => exact noSeparator

/-- The two replacements make every separator a comma and nothing else. -/
def toComma (c : Char) : Char :=
  if (if c = ';' then ',' else c) = '|' then ',' else if c = ';' then ',' else c

theorem replace_replace (text : Text) :
    replace '|' ',' (replace ';' ',' text) = text.map toComma := by
  simp [replace, toComma, Function.comp_def]

theorem toComma_of_not_separator {c : Char} (h : c ∉ separators) : toComma c = c ∧ c ≠ ',' := by
  simp only [separators, List.mem_cons, List.not_mem_nil, or_false, not_or] at h
  obtain ⟨hcomma, hsemicolon, hbar⟩ := h
  exact ⟨by rw [toComma, if_neg hsemicolon, if_neg hbar], hcomma⟩

theorem Separator.toComma_char (sep : Separator) : toComma sep.char = ',' := by
  cases sep <;> decide

theorem split_brief (first : Part) (rest : List (Separator × Part)) :
    split ',' (replace '|' ',' (replace ';' ',' (brief first rest))) =
      (partsOf first rest).map Part.text := by
  rw [replace_replace, brief, split_map_joinWith]
  · simp [partsOf, Function.comp_def]
  · exact fun c hc => toComma_of_not_separator (first.not_separator c hc)
  · intro next hnext
    obtain ⟨⟨sep, p⟩, -, rfl⟩ := List.mem_map.mp hnext
    exact ⟨sep.toComma_char, fun c hc => toComma_of_not_separator (p.not_separator c hc)⟩

/-! ### One frame after another -/

theorem readPart_strip (acc : Services × Finset ℤ) (text : Text) :
    readPart decimal acc (strip text) = readPart decimal acc text := by
  rw [readPart, strip_strip, readPart]

/-- White space around a single part does not count. -/
theorem addServices_strip (services : Services) (p : Part) :
    addServicesFromBrief decimal services (strip p.text) =
      addServicesFromBrief decimal services p.text := by
  have hsplit {text : Text} (h : NoSeparator text) :
      split ',' (replace '|' ',' (replace ';' ',' text)) = [text] := by
    rw [replace_replace]
    exact split_map_of_not_mem fun c hc => toComma_of_not_separator (h c hc)
  have hstrip : NoSeparator (strip p.text) := fun c hc =>
    p.not_separator c ((List.rdropWhile_prefix ..).subset ((List.dropWhile_suffix _).subset hc))
  simp only [addServicesFromBrief, hsplit hstrip, hsplit p.not_separator, List.foldl_cons,
    List.foldl_nil, readPart_strip]

theorem readBack_cons (p : Part) (parts : List Part) (sid : ℤ) (earlier : Option Text) :
    readBack (p :: parts) sid earlier = readBack parts sid (readBack [p] sid earlier) := by
  have hlisted : (if Listed (p :: parts) sid then some (defaultName sid) else none) =
      (if Listed [p] sid then some (defaultName sid) else none).or
        (if Listed parts sid then some (defaultName sid) else none) := by
    simp only [listed_cons, show ¬ Listed [] sid by simp [Listed], or_false]
    split_ifs <;> simp_all
  have hlast : lastName [p] sid = p.nameFor sid := by
    rw [lastName_cons]
    exact Option.none_or
  simp only [readBack, hlisted, lastName_cons p parts, hlast, Option.or_assoc]

/-- The text of a part as it is sent. -/
def utf8 (text : Text) : List UInt8 := (String.ofList text).toByteArray.data.toList

theorem decodeUtf8_utf8 (text : Text) : decodeUtf8 replaced (utf8 text) = text := by
  have hbytes : (⟨(utf8 text).toArray⟩ : ByteArray) = (String.ofList text).toByteArray := rfl
  rw [decodeUtf8, hbytes, String.fromUTF8?, dif_pos (String.ofList text).isValidUTF8]
  exact String.toList_ofList

theorem servicesOf_handleFrame (mcus : Std.ExtTreeMap UInt16 McuInfo) {frame : Frame}
    (h : frame.sid = 0x01) :
    servicesOf (handleFrame decimal replaced mcus frame) frame.cid =
      addServicesFromBrief decimal (servicesOf mcus frame.cid)
        (strip (decodeUtf8 replaced frame.payload)) := by
  rw [handleFrame, if_pos h, servicesOf, Std.ExtTreeMap.getElem?_insert_self, Option.elim_some]
  cases hmcu : mcus[frame.cid]? with
  | none => simp [servicesOf, hmcu]
  | some mcu => simp [servicesOf, hmcu]

theorem frames_lookup {cid : UInt16} {frames : List Frame} {parts : List Part}
    (hreadable : ∀ p ∈ parts, p.Readable) (hframes : ∀ f ∈ frames, f.sid = 0x01 ∧ f.cid = cid)
    (hpayload : frames.map Frame.payload = parts.map (utf8 ∘ Part.text))
    (mcus : Std.ExtTreeMap UInt16 McuInfo) (sid : ℤ) :
    (servicesOf (frames.foldl (handleFrame decimal replaced) mcus) cid)[sid]? =
      readBack parts sid (servicesOf mcus cid)[sid]? := by
  induction frames generalizing mcus parts with
  | nil =>
    obtain rfl : parts = [] := by simpa using hpayload.symm
    simp [readBack, lastName, Listed]
  | cons frame frames ih =>
    cases parts with
    | nil => simp at hpayload
    | cons p parts =>
      obtain ⟨hp, hrest⟩ := List.cons.inj hpayload
      obtain ⟨hsid, rfl⟩ := hframes frame (by simp)
      have hone : (servicesOf (handleFrame decimal replaced mcus frame) frame.cid)[sid]? =
          readBack [p] sid (servicesOf mcus frame.cid)[sid]? := by
        rw [servicesOf_handleFrame decimal replaced mcus hsid, hp, Function.comp_apply,
          decodeUtf8_utf8, addServices_strip, ← brief_nil p]
        exact addServices_parts decimal (by simpa [partsOf] using hreadable p (by simp))
          (split_brief p []) _ sid
      rw [List.foldl_cons, ih (fun q hq => hreadable q (by simp [hq]))
        (fun f hf => hframes f (by simp [hf])) hrest, hone, ← readBack_cons]

/-! ### The table of the MCU -/

/-- An entry as the table writes it. -/
def tableEntry (digits name : String) (hne : digits.toList ≠ [])
    (hdigits : HexDigits digits.toList)
    (hname : ¬ Blank (' ' :: name.toList) ∧ NoSeparator (' ' :: name.toList)) : Part :=
  .entry
    { lead := [], x := 'x', digits := digits.toList, gap := [' '], name := some (' ' :: name.toList)
      lead_blank := by decide, x_base := .inl rfl, digits_ne := hne, digits_hex := hdigits
      gap_blank := by decide, name_ok := by simpa using hname }

/-- The table as parts: two texts, and entries that can be read. -/
def tableParts : List Part :=
  [.other "SOF".toList (by decide) (by decide),
    tableEntry "10" "RPC_LD2_Control" (by decide) (by decide) (by decide),
    tableEntry "11" "RPC_MCU_Reset" (by decide) (by decide) (by decide),
    tableEntry "12" "RPC_SPI_Read" (by decide) (by decide) (by decide),
    tableEntry "13" "RPC_PWM_SetOut" (by decide) (by decide) (by decide),
    tableEntry "20" "DIAG_PWM_Output_Value" (by decide) (by decide) (by decide),
    tableEntry "21" "DIAG_PWM_Input_Value" (by decide) (by decide) (by decide),
    tableEntry "22" "DIAG_ADC1_GetValue" (by decide) (by decide) (by decide),
    tableEntry "23" "DIAG_ADC2_GetValue" (by decide) (by decide) (by decide),
    tableEntry "24" "DIAG_GPO_PinState" (by decide) (by decide) (by decide),
    tableEntry "25" "DIAG_GPI_PinState" (by decide) (by decide) (by decide),
    tableEntry "26" "DIAG_LD2_PinState" (by decide) (by decide) (by decide),
    .other "EOF".toList (by decide) (by decide)]

theorem tableParts_text :
    tableParts.map Part.text = serviceAdvertisePayload.map String.toList := by decide

theorem tableParts_readable : ∀ p ∈ tableParts, p.Readable := by decide

/-! ### What is read back -/

/-- The services after a text, by what its parts say. -/
structure ReadsBack (parts : List Part) (earlier later : Services) : Prop where
  named : ∀ sid name, lastName parts sid = some name → later[sid]? = some name
  unnamed : ∀ sid, Listed parts sid → lastName parts sid = none →
    later[sid]? = some (earlier[sid]?.getD (defaultName sid))
  others : ∀ sid, ¬ Listed parts sid → later[sid]? = earlier[sid]?

theorem lastName_of_not_listed {parts : List Part} {sid : ℤ} (h : ¬ Listed parts sid) :
    lastName parts sid = none := by
  induction parts with
  | nil => rfl
  | cons p parts ih =>
    rw [listed_cons, not_or] at h
    rw [lastName_cons, ih h.2, Option.none_or]
    cases p with
    | other text noSeparator noBase => rfl
    | entry e => exact if_neg fun hsid => h.1 (congrArg some hsid)

theorem ReadsBack.of_lookup {parts : List Part} {earlier later : Services}
    (h : ∀ sid, later[sid]? = readBack parts sid earlier[sid]?) :
    ReadsBack parts earlier later where
  named sid name hname := by rw [h, readBack, hname, Option.some_or]
  unnamed sid hlisted hname := by
    rw [h, readBack, hname, Option.none_or, if_pos hlisted]
    cases earlier[sid]? <;> rfl
  others sid hlisted := by
    rw [h, readBack, lastName_of_not_listed hlisted, if_neg hlisted, Option.none_or,
      Option.or_none]

/-- What was advertised is read back, and it makes no difference whether the parts come in one
text or each in a frame of its own. -/
theorem advertised_read_back (first : Part) (rest : List (Separator × Part))
    (hreadable : ∀ p ∈ partsOf first rest, p.Readable) :
    (∀ services, ReadsBack (partsOf first rest) services
        (addServicesFromBrief decimal services (brief first rest))) ∧
      ∀ mcus cid (frames : List Frame), (∀ f ∈ frames, f.sid = 0x01 ∧ f.cid = cid) →
        frames.map Frame.payload = (partsOf first rest).map (utf8 ∘ Part.text) →
        servicesOf (frames.foldl (handleFrame decimal replaced) mcus) cid =
          addServicesFromBrief decimal (servicesOf mcus cid) (brief first rest) := by
  have hlookup := addServices_parts decimal hreadable (split_brief first rest)
  constructor
  · exact fun services => ReadsBack.of_lookup (hlookup services)
  · intro mcus cid frames hframes hpayload
    apply Std.ExtTreeMap.ext_getElem?
    intro sid
    rw [frames_lookup decimal replaced hreadable hframes hpayload, hlookup]

theorem advertised_read_back_three_parts :
    ∃ first rest, brief first rest = "SOF,0x10 : RPC_LD2_Control| 0X20 ".toList ∧
      (addServicesFromBrief (fun _ => none) ∅ (brief first rest))[(0x10 : ℤ)]? =
        some "RPC_LD2_Control".toList ∧
      (addServicesFromBrief (fun _ => none) ∅ (brief first rest))[(0x20 : ℤ)]? =
        some "Diag_PWM_Output_Value".toList ∧
      (addServicesFromBrief (fun _ => none) ∅ (brief first rest))[(0x11 : ℤ)]? = none := by
  let unnamed : Entry :=
    { lead := [' '], x := 'X', digits := ['2', '0'], gap := [' '], name := none
      lead_blank := by decide, x_base := .inr rfl, digits_ne := by decide
      digits_hex := by decide, gap_blank := by decide, name_ok := by simp }
  let first : Part := .other "SOF".toList (by decide) (by decide)
  let named := tableEntry "10" "RPC_LD2_Control" (by decide) (by decide) (by decide)
  have h := (advertised_read_back (fun _ => none) (fun _ => []) first
    [(.comma, named), (.bar, .entry unnamed)] (by decide)).1 ∅
  refine ⟨first, _, by decide, h.named 0x10 _ (by decide), ?_, ?_⟩
  · exact (h.unnamed 0x20 (by decide) (by decide)).trans (by decide)
  · exact (h.others 0x11 (by decide)).trans (by decide)

/-- A separator of ASCII is white space to `str.strip` and not to `int`. -/
def separatedEntry : Entry where
  lead := []
  x := 'x'
  digits := ['1', '0']
  gap := [Char.ofNat 0x1c]
  name := some ['A']
  lead_blank := by decide
  x_base := .inl rfl
  digits_ne := by decide
  digits_hex := by decide
  gap_blank := by decide
  name_ok := by decide

/-- Before a colon it keeps the entry from being read. -/
theorem separated_entry_not_read :
    ¬ ReadsBack [.entry separatedEntry] ∅
        (addServicesFromBrief (fun _ => none) ∅ (brief (.entry separatedEntry) [])) := by
  intro h
  exact absurd (h.named 0x10 ['A'] (by decide)) (by decide +kernel)

end SomeIpGateway.ServiceDiscovery
