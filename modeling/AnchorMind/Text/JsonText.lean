import Mathlib.Data.UInt
import AnchorMind.Text.Numbers

/-!
# JSON text

Strings are rows of UTF-16 units, as in the source.  `JSON.stringify` escapes quotes,
backslashes, control characters and surrogates that stand alone; everything else stands
for itself.
-/

namespace AnchorMind.Text.JsonText

open Kernel.Delimited Numbers List

abbrev JsString := List UInt16

def isHigh (unit : UInt16) : Bool := decide (0xD800 ≤ unit.toNat ∧ unit.toNat < 0xDC00)

def isLow (unit : UInt16) : Bool := decide (0xDC00 ≤ unit.toNat ∧ unit.toNat < 0xE000)

def pairChar (high low : UInt16) : Char :=
  Char.ofNat (0x10000 + (high.toNat - 0xD800) * 0x400 + (low.toNat - 0xDC00))

def charUnits (char : Char) : JsString :=
  if char.toNat < 0x10000 then [UInt16.ofNat char.toNat]
  else
    [UInt16.ofNat (0xD800 + (char.toNat - 0x10000) / 0x400),
      UInt16.ofNat (0xDC00 + (char.toNat - 0x10000) % 0x400)]

def ofString (text : String) : JsString := text.toList.flatMap charUnits

def shortEscapes : List (UInt16 × Char) :=
  [(0x22, '"'), (0x5C, '\\'), (0x08, 'b'), (0x0C, 'f'), (0x0A, 'n'), (0x0D, 'r'), (0x09, 't')]

def hexChar (digit : Fin 16) : Char :=
  if digit.val < 10 then Char.ofNat (48 + digit.val) else Char.ofNat (87 + digit.val)

def hexText (unit : UInt16) : List Char :=
  [hexChar (Fin.ofNat 16 (unit.toNat / 4096)), hexChar (Fin.ofNat 16 (unit.toNat / 256)),
    hexChar (Fin.ofNat 16 (unit.toNat / 16)), hexChar (Fin.ofNat 16 unit.toNat)]

def escapeUnit (unit : UInt16) : List Char :=
  match shortEscapes.lookup unit with
  | some letter => ['\\', letter]
  | none =>
    if unit.toNat < 0x20 ∨ isHigh unit = true ∨ isLow unit = true then
      '\\' :: 'u' :: hexText unit
    else [Char.ofNat unit.toNat]

def escape : JsString -> List Char
  | [] => []
  | [unit] => escapeUnit unit
  | high :: low :: rest =>
    if isHigh high && isLow low then pairChar high low :: escape rest
    else escapeUnit high ++ escape (low :: rest)

/-- `JSON.stringify` of a string. -/
def quote (units : JsString) : List Char := '"' :: (escape units ++ ['"'])

def hexValue (char : Char) : Nat :=
  if char.isDigit then char.toNat - 48 else char.toNat - 87

def unitOf (letter : Char) : Option UInt16 :=
  (shortEscapes.find? fun entry => decide (entry.2 = letter)).map Prod.fst

def prepend (units : JsString) : Option (JsString × List Char) -> Option (JsString × List Char) :=
  Option.map fun found => (units ++ found.1, found.2)

/-- The units up to the closing quote, and what follows it. -/
def unescape : List Char -> Option (JsString × List Char)
  | [] => none
  | first :: rest =>
    if first = '"' then some ([], rest)
    else if first = '\\' then
      match rest with
      | [] => none
      | letter :: more =>
        if letter = 'u' then
          match more with
          | a :: b :: c :: d :: tail =>
            prepend [UInt16.ofNat (hexValue a * 4096 + hexValue b * 256 + hexValue c * 16 +
              hexValue d)] (unescape tail)
          | _ => none
        else
          match unitOf letter with
          | some unit => prepend [unit] (unescape more)
          | none => none
    else prepend (charUnits first) (unescape rest)

theorem hexValue_hexChar (digit : Fin 16) : hexValue (hexChar digit) = digit.val := by
  revert digit
  decide

theorem hexText_value (unit : UInt16) :
    ∃ a b c d, hexText unit = [a, b, c, d] /\
      UInt16.ofNat (hexValue a * 4096 + hexValue b * 256 + hexValue c * 16 + hexValue d) =
        unit := by
  refine ⟨_, _, _, _, rfl, ?_⟩
  simp only [hexValue_hexChar, Fin.ofNat]
  have hbound := unit.toNat_lt
  have hvalue : unit.toNat / 4096 % 16 * 4096 + unit.toNat / 256 % 16 * 256 +
      unit.toNat / 16 % 16 * 16 + unit.toNat % 16 = unit.toNat := by
    omega
  rw [hvalue, UInt16.ofNat_toNat]

theorem shortEscapes_spec {unit : UInt16} {letter : Char}
    (hlookup : shortEscapes.lookup unit = some letter) :
    letter ≠ 'u' /\ unitOf letter = some unit := by
  have hall : ∀ entry ∈ shortEscapes,
      entry.2 ≠ 'u' /\ unitOf entry.2 = some entry.1 := by
    decide
  refine hall (unit, letter) ?_
  obtain ⟨before, after, hsplit, _⟩ := lookup_eq_some_iff.mp hlookup
  rw [hsplit]
  exact mem_append_right _ mem_cons_self

theorem toNat_ofNat_of_valid {code : Nat} (hvalid : code.isValidChar) :
    (Char.ofNat code).toNat = code := by
  rw [Char.ofNat, dif_pos hvalid]
  exact UInt32.toNat_ofNatLT

theorem unescape_quote (rest : List Char) : unescape ('"' :: rest) = some ([], rest) := by
  rw [unescape.eq_def]
  simp only [if_true]

theorem unescape_char {char : Char} (hquote : char ≠ '"') (hslash : char ≠ '\\')
    (rest : List Char) : unescape (char :: rest) = prepend (charUnits char) (unescape rest) := by
  rw [unescape.eq_def]
  simp only [hquote, hslash, if_false]

/-- A character that stands for itself in a string. -/
def IsPlain (char : Char) : Prop := char ≠ '"' /\ char ≠ '\\' /\ 0x20 ≤ char.toNat

theorem escapeUnit_cases (unit : UInt16) :
    (∃ letter, escapeUnit unit = ['\\', letter] /\ letter ≠ 'u' /\
        unitOf letter = some unit) \/
      escapeUnit unit = '\\' :: 'u' :: hexText unit \/
      ∃ char, escapeUnit unit = [char] /\ IsPlain char /\ charUnits char = [unit] := by
  unfold escapeUnit
  split
  · rename_i letter hlookup
    exact .inl ⟨letter, rfl, shortEscapes_spec hlookup⟩
  · rename_i hlookup
    split
    · exact .inr (.inl rfl)
    · rename_i hplain
      have hbound := unit.toNat_lt
      simp only [isHigh, isLow, decide_eq_true_eq, not_or, not_and] at hplain
      have hcode : (Char.ofNat unit.toNat).toNat = unit.toNat :=
        toNat_ofNat_of_valid (by simp only [Nat.isValidChar]; omega)
      have hne : ∀ entry ∈ shortEscapes, unit ≠ entry.1 := by
        intro entry hmem hequal
        have hnone := lookup_eq_none_iff.mp hlookup entry hmem
        simp [hequal] at hnone
      have hquote : Char.ofNat unit.toNat ≠ '"' := by
        intro hchar
        refine hne (0x22, '"') (by decide) (UInt16.toNat_inj.mp ?_)
        rw [<- hcode, hchar]
        rfl
      have hslash : Char.ofNat unit.toNat ≠ '\\' := by
        intro hchar
        refine hne (0x5C, '\\') (by decide) (UInt16.toNat_inj.mp ?_)
        rw [<- hcode, hchar]
        rfl
      refine .inr (.inr ⟨Char.ofNat unit.toNat, rfl, ⟨hquote, hslash, by omega⟩, ?_⟩)
      rw [charUnits, hcode, if_pos hbound, UInt16.ofNat_toNat]

variable {high low : UInt16}

theorem pairChar_plain (hhigh : isHigh high = true) (hlow : isLow low = true) :
    IsPlain (pairChar high low) /\ charUnits (pairChar high low) = [high, low] := by
  simp only [isHigh, isLow, decide_eq_true_eq] at hhigh hlow
  have hcode : (pairChar high low).toNat =
      0x10000 + (high.toNat - 0xD800) * 0x400 + (low.toNat - 0xDC00) :=
    toNat_ofNat_of_valid (by simp only [Nat.isValidChar]; omega)
  have hquote : pairChar high low ≠ '"' := by
    intro hchar
    rw [hchar, show '"'.toNat = 34 from rfl] at hcode
    omega
  have hslash : pairChar high low ≠ '\\' := by
    intro hchar
    rw [hchar, show '\\'.toNat = 92 from rfl] at hcode
    omega
  have hlarge : Not ((pairChar high low).toNat < 0x10000) := by omega
  have hfirst : 0xD800 + ((pairChar high low).toNat - 0x10000) / 0x400 = high.toNat := by omega
  have hsecond : 0xDC00 + ((pairChar high low).toNat - 0x10000) % 0x400 = low.toNat := by omega
  refine ⟨⟨hquote, hslash, by omega⟩, ?_⟩
  rw [charUnits, if_neg hlarge, hfirst, hsecond, UInt16.ofNat_toNat, UInt16.ofNat_toNat]

theorem unescape_escapeUnit (unit : UInt16) (rest : List Char) :
    unescape (escapeUnit unit ++ rest) = prepend [unit] (unescape rest) := by
  rcases escapeUnit_cases unit with ⟨letter, htext, hletter, hunit⟩ | htext |
    ⟨char, htext, hplain, hunits⟩
  · rw [htext, cons_append, singleton_append, unescape.eq_def]
    simp [hletter, hunit]
  · obtain ⟨a, b, c, d, hhex, hvalue⟩ := hexText_value unit
    rw [htext, hhex]
    simp only [cons_append, nil_append]
    rw [unescape.eq_def]
    simp [hvalue]
  · rw [htext, singleton_append, unescape_char hplain.1 hplain.2.1, hunits]

theorem unescape_pair (hhigh : isHigh high = true) (hlow : isLow low = true) (rest : List Char) :
    unescape (pairChar high low :: rest) = prepend [high, low] (unescape rest) := by
  obtain ⟨hplain, hunits⟩ := pairChar_plain hhigh hlow
  rw [unescape_char hplain.1 hplain.2.1, hunits]

theorem unescape_escape (units : JsString) (rest : List Char) :
    unescape (escape units ++ '"' :: rest) = some (units, rest) := by
  fun_induction escape units with
  | case1 => exact unescape_quote rest
  | case2 unit =>
    rw [unescape_escapeUnit, unescape_quote]
    rfl
  | case3 high low more hpair ih =>
    simp only [Bool.and_eq_true] at hpair
    rw [cons_append, unescape_pair hpair.1 hpair.2, ih]
    rfl
  | case4 high low more hpair ih =>
    rw [append_assoc, unescape_escapeUnit, ih]
    rfl

theorem quote_readable (units : JsString) : Readable (fun _ => True) quote units := by
  refine .of_reader (fun chars => chars.tail?.bind unescape) ?_
  intro units rest _
  simp only [quote, cons_append, append_assoc, nil_append, tail?_cons,
    Option.bind_some]
  exact unescape_escape units rest

inductive Json where
  | null
  | bool (value : Bool)
  | number (value : Number)
  | string (units : JsString)
  | array (items : List Json)
  | object (fields : List (JsString × Json))

mutual

def Json.print : Json -> List Char
  | .null => "null".toList
  | .bool true => "true".toList
  | .bool false => "false".toList
  | .number value => numberText value
  | .string units => quote units
  | .array items => '[' :: (joined ',' (printItems items) ++ [']'])
  | .object fields => '{' :: (joined ',' (printFields fields) ++ ['}'])
termination_by structural value => value

def Json.printItems : List Json -> List (List Char)
  | [] => []
  | item :: rest => item.print :: printItems rest
termination_by structural items => items

def Json.printFields : List (JsString × Json) -> List (List Char)
  | [] => []
  | (key, value) :: rest => (quote key ++ ':' :: value.print) :: printFields rest
termination_by structural fields => fields

end

def Json.printField (field : JsString × Json) : List Char := quote field.1 ++ ':' :: field.2.print

theorem Json.printItems_eq (items : List Json) : printItems items = items.map print := by
  induction items with
  | nil => rfl
  | cons item rest ih => rw [map_cons, <- ih, printItems]

theorem Json.printFields_eq (fields : List (JsString × Json)) :
    printFields fields = fields.map printField := by
  induction fields with
  | nil => rfl
  | cons field rest ih => rw [map_cons, <- ih, printFields, printField]

/-- What may follow a value inside a list. -/
def Closes (symbol : Char) : Prop := symbol ∈ [',', ']', '}']

instance : DecidablePred Closes := fun symbol =>
  inferInstanceAs (Decidable (symbol ∈ [',', ']', '}']))

inductive Kind where
  | null
  | bool (value : Bool)
  | number
  | string
  | array
  | object
  deriving DecidableEq

def Json.kind : Json -> Kind
  | .null => .null
  | .bool value => .bool value
  | .number _ => .number
  | .string _ => .string
  | .array _ => .array
  | .object _ => .object

def kindOf (symbol : Char) : Option Kind :=
  if symbol = 'n' then some .null
  else if symbol = 't' then some (.bool true)
  else if symbol = 'f' then some (.bool false)
  else if symbol = '"' then some .string
  else if symbol = '[' then some .array
  else if symbol = '{' then some .object
  else if symbol ∈ numericSymbols then some .number
  else none

theorem kindOf_numeric {symbol : Char} (hnumeric : symbol ∈ numericSymbols) :
    kindOf symbol = some .number := by
  have hall : (numericSymbols.all fun symbol => decide (kindOf symbol = some .number)) = true := by
    decide
  exact of_decide_eq_true (all_eq_true.mp hall symbol hnumeric)

theorem Json.print_starts (value : Json) :
    ∃ symbol rest, value.print = symbol :: rest /\ kindOf symbol = some value.kind := by
  cases value with
  | null => exact ⟨'n', _, rfl, rfl⟩
  | bool value => cases value with
    | false => exact ⟨'f', _, rfl, rfl⟩
    | true => exact ⟨'t', _, rfl, rfl⟩
  | number value =>
    obtain ⟨symbol, rest, htext, hnumeric⟩ := numberText_starts value
    exact ⟨symbol, rest, htext, kindOf_numeric hnumeric⟩
  | string units => exact ⟨'"', _, rfl, rfl⟩
  | array items => exact ⟨'[', _, rfl, rfl⟩
  | object fields => exact ⟨'{', _, rfl, rfl⟩

variable {rest tail : List Char}

theorem Json.kind_eq {left right : Json} (hequal : left.print ++ rest = right.print ++ tail) :
    left.kind = right.kind := by
  obtain ⟨first, more, hleft, hkind⟩ := left.print_starts
  obtain ⟨second, others, hright, hother⟩ := right.print_starts
  rw [hleft, hright] at hequal
  rw [(cons.inj hequal).1, hother] at hkind
  exact (Option.some.inj hkind).symm

theorem numberText_readable (number : Number) : Readable Closes numberText number := by
  refine .of_free ?_ fun _ => numberText_injective
  intro number symbol hmem
  have hall : (numericSymbols.all fun symbol => !decide (Closes symbol)) = true := by decide
  simpa using all_eq_true.mp hall symbol (numberText_numeric hmem)

theorem Json.print_starts_open (value : Json) :
    ∃ symbol rest, value.print = symbol :: rest /\ symbol ≠ ']' := by
  obtain ⟨symbol, rest, hprint, hkind⟩ := value.print_starts
  refine ⟨symbol, rest, hprint, ?_⟩
  rintro rfl
  cases hkind

theorem Json.printField_starts_open (field : JsString × Json) :
    ∃ symbol rest, printField field = symbol :: rest /\ symbol ≠ '}' :=
  ⟨'"', _, rfl, by decide⟩

theorem printItems_readable {items others : List Json}
    (hitems : ∀ item ∈ items, Readable Closes Json.print item)
    (hequal : (Json.array items).print ++ rest = (Json.array others).print ++ tail) :
    items = others /\ rest = tail := by
  simp only [Json.print, Json.printItems_eq, cons_append, append_assoc,
    nil_append] at hequal
  exact Readable.list (by decide) (by decide) (by decide) Json.print_starts_open hitems
    others rest tail (cons.inj hequal).2

theorem printFields_readable {fields others : List (JsString × Json)}
    (hfields : ∀ field ∈ fields, Readable Closes Json.printField field)
    (hequal : (Json.object fields).print ++ rest = (Json.object others).print ++ tail) :
    fields = others /\ rest = tail := by
  simp only [Json.print, Json.printFields_eq, cons_append, append_assoc,
    nil_append] at hequal
  exact Readable.list (by decide) (by decide) (by decide) Json.printField_starts_open hfields
    others rest tail (cons.inj hequal).2

mutual

/-- The text of a value is read up to what may follow it. -/
theorem Json.print_readable : ∀ value : Json, Readable Closes Json.print value
  | .null => by
      intro other rest tail _ _ hequal
      have hkind := Json.kind_eq hequal
      cases other with
      | null => exact ⟨rfl, append_cancel_left hequal⟩
      | _ => cases hkind
  | .bool value => by
      intro other rest tail _ _ hequal
      have hkind := Json.kind_eq hequal
      cases other with
      | bool found =>
        cases hkind
        exact ⟨rfl, append_cancel_left hequal⟩
      | _ => cases hkind
  | .number value => by
      intro other rest tail hrest htail hequal
      have hkind := Json.kind_eq hequal
      cases other with
      | number found =>
        obtain ⟨rfl, hsame⟩ := numberText_readable value found rest tail hrest htail hequal
        exact ⟨rfl, hsame⟩
      | _ => cases hkind
  | .string units => by
      intro other rest tail _ _ hequal
      have hkind := Json.kind_eq hequal
      cases other with
      | string found =>
        obtain ⟨rfl, hsame⟩ := quote_readable units found rest tail (.true _) (.true _) hequal
        exact ⟨rfl, hsame⟩
      | _ => cases hkind
  | .array items => by
      intro other rest tail _ _ hequal
      have hkind := Json.kind_eq hequal
      cases other with
      | array others =>
        obtain ⟨rfl, hsame⟩ := printItems_readable (Json.items_readable items) hequal
        exact ⟨rfl, hsame⟩
      | _ => cases hkind
  | .object fields => by
      intro other rest tail _ _ hequal
      have hkind := Json.kind_eq hequal
      cases other with
      | object others =>
        obtain ⟨rfl, hsame⟩ := printFields_readable (Json.fields_readable fields) hequal
        exact ⟨rfl, hsame⟩
      | _ => cases hkind

theorem Json.items_readable : ∀ (items : List Json) (item : Json), item ∈ items ->
    Readable Closes Json.print item
  | first :: rest, item, hmem => by
      rcases mem_cons.mp hmem with hfirst | hrest
      · rw [hfirst]
        exact Json.print_readable first
      · exact Json.items_readable rest item hrest

theorem Json.fields_readable : ∀ (fields : List (JsString × Json)) (field : JsString × Json),
    field ∈ fields -> Readable Closes Json.printField field
  | (key, value) :: rest, field, hmem => by
      rcases mem_cons.mp hmem with hfirst | hrest
      · rw [hfirst]
        exact Readable.pair ':' (quote_readable key) (Json.print_readable value)
      · exact Json.fields_readable rest field hrest

end

theorem Json.print_injective {left right : Json} (hequal : left.print = right.print) :
    left = right := by
  have hreadable := left.print_readable right [] [] .nil .nil
  exact (hreadable (by rw [hequal])).1

theorem IsPlain.ne_newline {char : Char} (hplain : IsPlain char) : char ≠ '\n' := by
  rintro rfl
  exact absurd hplain.2.2 (by decide)

theorem escapeUnit_oneLine (unit : UInt16) : '\n' ∉ escapeUnit unit := by
  rcases escapeUnit_cases unit with ⟨letter, htext, -, hunit⟩ | htext | ⟨char, htext, hplain, -⟩
  · have hletter : '\n' ≠ letter := by
      rintro rfl
      have hnone : unitOf '\n' = none := by decide
      simp [hnone] at hunit
    simp [htext, hletter]
  · have hhex : ∀ digit, hexChar digit ≠ '\n' := by decide
    simp [htext, hexText, (hhex _).symm]
  · simp [htext, hplain.ne_newline.symm]

theorem pairChar_ne_newline (hhigh : isHigh high = true) (hlow : isLow low = true) :
    pairChar high low ≠ '\n' :=
  (pairChar_plain hhigh hlow).1.ne_newline

theorem escape_oneLine (units : JsString) : '\n' ∉ escape units := by
  fun_induction escape units with
  | case1 => exact not_mem_nil
  | case2 unit => exact escapeUnit_oneLine unit
  | case3 high low more hpair ih =>
    simp only [Bool.and_eq_true] at hpair
    simp only [mem_cons, not_or]
    exact ⟨(pairChar_ne_newline hpair.1 hpair.2).symm, ih⟩
  | case4 high low more hpair ih =>
    simp only [mem_append, not_or]
    exact ⟨escapeUnit_oneLine high, ih⟩

theorem quote_oneLine (units : JsString) : '\n' ∉ quote units := by
  simp [quote, escape_oneLine units]

theorem numberText_oneLine (number : Number) : '\n' ∉ numberText number := by
  intro hmem
  exact absurd (numberText_numeric hmem) (by decide)

theorem bracketed_oneLine {before after : Char} {codes : List (List Char)} (hbefore : before ≠ '\n')
    (hafter : after ≠ '\n') (hcodes : ∀ code ∈ codes, '\n' ∉ code) :
    '\n' ∉ before :: (joined ',' codes ++ [after]) := by
  simp only [mem_cons, mem_append, not_mem_nil, or_false, not_or]
  refine ⟨hbefore.symm, ?_, hafter.symm⟩
  intro hmem
  rcases mem_joined hmem with hcomma | ⟨code, hcode, hsymbol⟩
  · cases hcomma
  · exact hcodes code hcode hsymbol

mutual

theorem Json.print_oneLine : ∀ value : Json, '\n' ∉ value.print
  | .null => by decide
  | .bool true => by decide
  | .bool false => by decide
  | .number value => numberText_oneLine value
  | .string units => quote_oneLine units
  | .array items => by
      rw [Json.print]
      exact bracketed_oneLine (by decide) (by decide) (Json.items_oneLine items)
  | .object fields => by
      rw [Json.print]
      exact bracketed_oneLine (by decide) (by decide) (Json.fields_oneLine fields)

theorem Json.items_oneLine : ∀ (items : List Json) (code : List Char),
    code ∈ Json.printItems items -> '\n' ∉ code
  | item :: rest, code, hmem => by
      rw [Json.printItems] at hmem
      rcases mem_cons.mp hmem with hfirst | hrest
      · rw [hfirst]
        exact Json.print_oneLine item
      · exact Json.items_oneLine rest code hrest

theorem Json.fields_oneLine : ∀ (fields : List (JsString × Json)) (code : List Char),
    code ∈ Json.printFields fields -> '\n' ∉ code
  | (key, value) :: rest, code, hmem => by
      rw [Json.printFields] at hmem
      rcases mem_cons.mp hmem with hfirst | hrest
      · rw [hfirst]
        simp only [mem_append, mem_cons, not_or]
        exact ⟨quote_oneLine key, by decide, Json.print_oneLine value⟩
      · exact Json.fields_oneLine rest code hrest

end

end AnchorMind.Text.JsonText
