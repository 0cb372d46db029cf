import AnchorMind.Text.JsonText
import AnchorMind.Text.Objects

/-!
# Reading JSON texts

`JSON.parse` as a recursive descent over the characters, with fuel for the depth of the
descent.  Whatever `Json.print` writes is read back.
-/

namespace AnchorMind.Text.JsonParse

open Kernel.Delimited Numbers JsonText NumberReading List
open Objects (digitValue)

/-- The unit of a `\u` escape. -/
def hexUnit (a b c d : Char) : Option UInt16 := do
  let first <- digitValue a
  let second <- digitValue b
  let third <- digitValue c
  let fourth <- digitValue d
  return UInt16.ofNat (first * 4096 + second * 256 + third * 16 + fourth)

/-- A slash may be escaped, although it never is by `JSON.stringify`. -/
def escapedUnit (letter : Char) : Option UInt16 :=
  if letter = '/' then some 0x2F else unitOf letter

def parseString : List Char -> Option (JsString × List Char)
  | [] => none
  | first :: rest =>
    if first = '"' then some ([], rest)
    else if first = '\\' then
      match rest with
      | [] => none
      | letter :: more =>
        if letter = 'u' then
          match more with
          | a :: b :: c :: d :: tail =>
            match hexUnit a b c d with
            | some unit => prepend [unit] (parseString tail)
            | none => none
          | _ => none
        else
          match escapedUnit letter with
          | some unit => prepend [unit] (parseString more)
          | none => none
    else if first.toNat < 0x20 then none
    else prepend (charUnits first) (parseString rest)

theorem parseString_quote (rest : List Char) : parseString ('"' :: rest) = some ([], rest) := by
  rw [parseString.eq_def]
  simp only [if_true]

theorem parseString_plain {char : Char} (hplain : IsPlain char) (rest : List Char) :
    parseString (char :: rest) = prepend (charUnits char) (parseString rest) := by
  rw [parseString.eq_def]
  simp only [hplain.1, hplain.2.1, if_false, if_neg (Nat.not_lt.mpr hplain.2.2)]

theorem digitValue_hexChar (digit : Fin 16) : digitValue (hexChar digit) = some digit.val := by
  revert digit
  decide

theorem hexUnit_hexText (unit : UInt16) :
    ∃ a b c d, hexText unit = [a, b, c, d] /\ hexUnit a b c d = some unit := by
  refine ⟨_, _, _, _, rfl, ?_⟩
  simp only [hexUnit, digitValue_hexChar, Fin.ofNat, Option.bind_eq_bind, Option.bind_some,
    Option.pure_def, Option.some.injEq]
  have hbound := unit.toNat_lt
  have hvalue : unit.toNat / 4096 % 16 * 4096 + unit.toNat / 256 % 16 * 256 +
      unit.toNat / 16 % 16 * 16 + unit.toNat % 16 = unit.toNat := by
    omega
  rw [hvalue, UInt16.ofNat_toNat]

theorem parseString_escapeUnit (unit : UInt16) (rest : List Char) :
    parseString (escapeUnit unit ++ rest) = prepend [unit] (parseString rest) := by
  rcases escapeUnit_cases unit with ⟨letter, htext, hletter, hunit⟩ | htext |
    ⟨char, htext, hplain, hunits⟩
  · have hslash : letter ≠ '/' := by
      rintro rfl
      have hnone : unitOf '/' = none := by decide
      simp [hnone] at hunit
    rw [htext, cons_append, singleton_append, parseString.eq_def]
    simp [hletter, hunit, escapedUnit, hslash]
  · obtain ⟨a, b, c, d, hhex, hvalue⟩ := hexUnit_hexText unit
    rw [htext, hhex]
    simp only [cons_append, nil_append]
    rw [parseString.eq_def]
    simp [hvalue]
  · rw [htext, singleton_append, parseString_plain hplain, hunits]

/-- What `JSON.stringify` writes between quotes is read back. -/
theorem parseString_escape (units : JsString) (rest : List Char) :
    parseString (escape units ++ '"' :: rest) = some (units, rest) := by
  fun_induction escape units with
  | case1 => exact parseString_quote rest
  | case2 unit =>
    rw [parseString_escapeUnit, parseString_quote]
    rfl
  | case3 high low more hpair ih =>
    simp only [Bool.and_eq_true] at hpair
    obtain ⟨hplain, hunits⟩ := pairChar_plain hpair.1 hpair.2
    rw [cons_append, parseString_plain hplain, hunits, ih]
    rfl
  | case4 high low more hpair ih =>
    rw [append_assoc, parseString_escapeUnit, ih]
    rfl

def isSpace (char : Char) : Bool :=
  decide (char = ' ') || decide (char = '\t') || decide (char = '\n') || decide (char = '\r')

def skip (text : List Char) : List Char := text.dropWhile isSpace

def parseWord (word : List Char) (value : Json) (text : List Char) : Option (Json × List Char) :=
  if word.isPrefixOf text then some (value, text.drop word.length) else none

def parseName (text : List Char) : Option (JsString × List Char) :=
  match skip text with
  | '"' :: quoted => do
      let (name, rest) <- parseString quoted
      match skip rest with
      | ':' :: more => some (name, more)
      | _ => none
  | _ => none

mutual

def parseValue : Nat -> List Char -> Option (Json × List Char)
  | 0, _ => none
  | fuel + 1, text =>
    match skip text with
    | [] => none
    | first :: rest =>
      match kindOf first with
      | none => none
      | some .null => parseWord "null".toList .null (first :: rest)
      | some (.bool true) => parseWord "true".toList (.bool true) (first :: rest)
      | some (.bool false) => parseWord "false".toList (.bool false) (first :: rest)
      | some .number => (parseNumber (first :: rest)).map fun found => (.number found.1, found.2)
      | some .string => (parseString rest).map fun found => (.string found.1, found.2)
      | some .array =>
        match skip rest with
        | ']' :: more => some (.array [], more)
        | _ => (parseItems fuel rest).map fun found => (.array found.1, found.2)
      | some .object =>
        match skip rest with
        | '}' :: more => some (.object [], more)
        | _ => (parseFields fuel rest).map fun found => (.object found.1, found.2)
termination_by structural fuel => fuel

def parseItems : Nat -> List Char -> Option (List Json × List Char)
  | 0, _ => none
  | fuel + 1, text => do
      let (item, rest) <- parseValue fuel text
      match skip rest with
      | ',' :: more => (parseItems fuel more).map fun found => (item :: found.1, found.2)
      | ']' :: more => some ([item], more)
      | _ => none
termination_by structural fuel => fuel

def parseFields : Nat -> List Char -> Option (List (JsString × Json) × List Char)
  | 0, _ => none
  | fuel + 1, text => do
      let (name, rest) <- parseName text
      let (value, rest) <- parseValue fuel rest
      match skip rest with
      | ',' :: more => (parseFields fuel more).map fun found => ((name, value) :: found.1, found.2)
      | '}' :: more => some ([(name, value)], more)
      | _ => none
termination_by structural fuel => fuel

end

/-- `JSON.parse`; `none` is a syntax error.  Every descent takes a character within two
levels, so the fuel does not run out. -/
def parse (text : List Char) : Option Json :=
  match parseValue (2 * text.length + 2) text with
  | some (value, rest) => if skip rest = [] then some value else none
  | none => none

def ReadsBack (value : Json) : Prop :=
  ∀ fuel rest, 2 * value.print.length ≤ fuel -> Stops Closes rest ->
    parseValue fuel (value.print ++ rest) = some (value, rest)

theorem skip_cons {symbol : Char} (hspace : isSpace symbol = false) (rest : List Char) :
    skip (symbol :: rest) = symbol :: rest := by
  simp [skip, hspace]

theorem not_space_of_kind {symbol : Char} {kind : Kind} (hkind : kindOf symbol = some kind) :
    isSpace symbol = false := by
  by_contra hspace
  have hone : symbol = ' ' \/ symbol = '\t' \/ symbol = '\n' \/ symbol = '\r' := by
    simpa only [isSpace, Bool.or_eq_true, decide_eq_true_eq, or_assoc, Bool.not_eq_false]
      using hspace
  have hall : ([' ', '\t', '\n', '\r'].all fun char => decide (kindOf char = none)) = true := by
    decide
  have hnone : kindOf symbol = none := by
    refine of_decide_eq_true (all_eq_true.mp hall symbol ?_)
    simpa using hone
  rw [hnone] at hkind
  cases hkind

theorem closes_endsNumber {rest : List Char} (hrest : Stops Closes rest) :
    Stops EndsNumber rest := by
  intro symbol tail hcons
  have hcloses := hrest symbol tail hcons
  have hall : ([',', ']', '}'].all fun char =>
      !char.isDigit && char != '.' && char != 'e' && char != 'E') = true := by decide
  have hone := all_eq_true.mp hall symbol hcloses
  simpa [EndsNumber, and_assoc] using hone

theorem parseWord_append (word : List Char) (value : Json) (rest : List Char) :
    parseWord word value (word ++ rest) = some (value, rest) := by
  have hprefix : word.isPrefixOf (word ++ rest) = true :=
    isPrefixOf_iff_prefix.mpr (prefix_append word rest)
  rw [parseWord, if_pos hprefix, drop_left]

theorem fuel_pos {value : Json} {fuel : Nat} (hfuel : 2 * value.print.length ≤ fuel) :
    ∃ less, fuel = less + 1 := by
  obtain ⟨symbol, rest, hprint, -⟩ := value.print_starts
  refine ⟨fuel - 1, ?_⟩
  rw [hprint, length_cons] at hfuel
  omega

theorem readsBack_null : ReadsBack .null := by
  intro fuel rest hfuel _
  obtain ⟨less, rfl⟩ := fuel_pos hfuel
  rw [parseValue]
  exact parseWord_append "null".toList .null rest

theorem readsBack_bool (value : Bool) : ReadsBack (.bool value) := by
  intro fuel rest hfuel _
  obtain ⟨less, rfl⟩ := fuel_pos hfuel
  cases value with
  | true =>
    rw [parseValue]
    exact parseWord_append "true".toList (.bool true) rest
  | false =>
    rw [parseValue]
    exact parseWord_append "false".toList (.bool false) rest

theorem readsBack_number (value : Number) : ReadsBack (.number value) := by
  intro fuel rest hfuel hrest
  obtain ⟨less, rfl⟩ := fuel_pos hfuel
  obtain ⟨symbol, more, htext, hnumeric⟩ := numberText_starts value
  have hread := parseNumber_numberText value (closes_endsNumber hrest)
  have hkind := kindOf_numeric hnumeric
  rw [htext] at hread
  rw [parseValue, Json.print, htext, cons_append, skip_cons (not_space_of_kind hkind)]
  simp only [hkind]
  rw [<- cons_append, hread, Option.map_some]

theorem readsBack_string (units : JsString) : ReadsBack (.string units) := by
  intro fuel rest hfuel _
  obtain ⟨less, rfl⟩ := fuel_pos hfuel
  have hkind : kindOf '"' = some .string := rfl
  rw [parseValue, Json.print, quote, cons_append, skip_cons (not_space_of_kind hkind)]
  simp only [hkind]
  rw [append_assoc, singleton_append, parseString_escape, Option.map_some]

theorem parseItems_joined {items : List Json} (hne : items ≠ [])
    (hitems : ∀ item ∈ items, ReadsBack item) {fuel : Nat} (rest : List Char)
    (hfuel : 2 * (joined ',' (items.map Json.print)).length + 1 ≤ fuel) :
    parseItems fuel (joined ',' (items.map Json.print) ++ ']' :: rest) = some (items, rest) := by
  induction items generalizing fuel with
  | nil => exact absurd rfl hne
  | cons item items ih =>
    obtain ⟨less, rfl⟩ : ∃ less, fuel = less + 1 := ⟨fuel - 1, by omega⟩
    have hitem := hitems item mem_cons_self
    cases items with
    | nil =>
      have hread := hitem less (']' :: rest) (by simpa [joined] using hfuel)
        (.cons (by decide) rest)
      rw [map_cons, map_nil, joined, parseItems, hread]
      rfl
    | cons next items =>
      simp only [map_cons, joined, length_append, length_cons] at hfuel ih ⊢
      have hread := hitem less (',' :: (joined ',' (next.print :: items.map Json.print) ++
        ']' :: rest)) (by omega) (.cons (by decide) _)
      have hless : 2 * (joined ',' (next.print :: items.map Json.print)).length + 1 ≤ less := by
        omega
      have hrest := ih (cons_ne_nil _ _)
        (fun other hother => hitems other (mem_cons_of_mem _ hother)) hless
      rw [append_assoc, cons_append, parseItems, hread]
      simp only [Option.bind_eq_bind, Option.bind_some,
        skip_cons (rfl : isSpace ',' = false), hrest, Option.map_some]

theorem parseName_quote (name : JsString) (rest : List Char) :
    parseName (quote name ++ ':' :: rest) = some (name, rest) := by
  rw [quote, cons_append, parseName, skip_cons (rfl : isSpace '"' = false)]
  simp only [append_assoc, singleton_append, parseString_escape, Option.bind_eq_bind,
    Option.bind_some, skip_cons (rfl : isSpace ':' = false)]

variable {fields : List (JsString × Json)}

theorem parseFields_joined (hne : fields ≠ []) (hfields : ∀ field ∈ fields, ReadsBack field.2)
    {fuel : Nat} (rest : List Char)
    (hfuel : 2 * (joined ',' (fields.map Json.printField)).length + 1 ≤ fuel) :
    parseFields fuel (joined ',' (fields.map Json.printField) ++ '}' :: rest) =
      some (fields, rest) := by
  induction fields generalizing fuel with
  | nil => exact absurd rfl hne
  | cons field fields ih =>
    obtain ⟨less, rfl⟩ : ∃ less, fuel = less + 1 := ⟨fuel - 1, by omega⟩
    have hvalue : ReadsBack field.2 := hfields field mem_cons_self
    have hsize : field.2.print.length ≤ (Json.printField field).length := by
      simp only [Json.printField, length_append, length_cons]
      omega
    have htext : ∀ tail, Json.printField field ++ tail =
        quote field.1 ++ ':' :: (field.2.print ++ tail) := by
      intro tail
      rw [Json.printField, append_assoc, cons_append]
    cases fields with
    | nil =>
      simp only [map_cons, map_nil, joined] at hfuel ⊢
      have hread := hvalue less ('}' :: rest) (by omega) (.cons (by decide) rest)
      rw [htext, parseFields, parseName_quote]
      simp only [Option.bind_eq_bind, Option.bind_some, hread,
        skip_cons (rfl : isSpace '}' = false)]
    | cons next fields =>
      simp only [map_cons, joined, length_append, length_cons] at hfuel ih ⊢
      have hread := hvalue less (',' :: (joined ',' (Json.printField next ::
        fields.map Json.printField) ++ '}' :: rest)) (by omega) (.cons (by decide) _)
      have hless : 2 * (joined ',' (Json.printField next ::
          fields.map Json.printField)).length + 1 ≤ less := by
        omega
      have hrest := ih (cons_ne_nil _ _)
        (fun other hother => hfields other (mem_cons_of_mem _ hother)) hless
      rw [append_assoc, cons_append, htext, parseFields, parseName_quote]
      simp only [Option.bind_eq_bind, Option.bind_some, hread,
        skip_cons (rfl : isSpace ',' = false), hrest, Option.map_some]

theorem joined_starts {Item : Type*} {encode : Item -> List Char} {items : List Item}
    (hne : items ≠ []) {kind : Char -> Prop}
    (hstarts : ∀ item, ∃ symbol rest, encode item = symbol :: rest /\ kind symbol) :
    ∃ symbol rest, joined ',' (items.map encode) = symbol :: rest /\ kind symbol := by
  cases items with
  | nil => exact absurd rfl hne
  | cons item items =>
    obtain ⟨symbol, rest, hprint, hkind⟩ := hstarts item
    cases items with
    | nil => exact ⟨symbol, rest, hprint, hkind⟩
    | cons next items =>
      refine ⟨symbol, rest ++ ',' :: joined ',' (encode next :: items.map encode), ?_, hkind⟩
      rw [map_cons, map_cons, joined, hprint, cons_append]

theorem readsBack_array {items : List Json} (hitems : ∀ item ∈ items, ReadsBack item) :
    ReadsBack (.array items) := by
  intro fuel rest hfuel _
  obtain ⟨less, rfl⟩ := fuel_pos hfuel
  have hkind : kindOf '[' = some .array := rfl
  simp only [Json.print, Json.printItems_eq, length_cons, length_append] at hfuel
  rw [parseValue, Json.print, Json.printItems_eq, cons_append,
    skip_cons (not_space_of_kind hkind)]
  simp only [hkind, append_assoc, singleton_append]
  by_cases hne : items = []
  · subst hne
    rfl
  · have hread := @parseItems_joined items hne hitems less rest (by omega)
    obtain ⟨symbol, more, hjoined, hspace, hclose⟩ := @joined_starts _ Json.print items hne
      (fun symbol => isSpace symbol = false /\ symbol ≠ ']') (by
        intro item
        obtain ⟨symbol, more, hprint, hkind⟩ := item.print_starts
        refine ⟨symbol, more, hprint, not_space_of_kind hkind, ?_⟩
        rintro rfl
        cases hkind)
    rw [hread, hjoined, cons_append, skip_cons hspace]
    split
    · rename_i heq
      exact absurd (cons.inj heq).1 hclose
    · rfl

theorem readsBack_object (hfields : ∀ field ∈ fields, ReadsBack field.2) :
    ReadsBack (.object fields) := by
  intro fuel rest hfuel _
  obtain ⟨less, rfl⟩ := fuel_pos hfuel
  have hkind : kindOf '{' = some .object := rfl
  simp only [Json.print, Json.printFields_eq, length_cons, length_append] at hfuel
  rw [parseValue, Json.print, Json.printFields_eq, cons_append,
    skip_cons (not_space_of_kind hkind)]
  simp only [hkind, append_assoc, singleton_append]
  by_cases hne : fields = []
  · subst hne
    rfl
  · have hread := @parseFields_joined fields hne hfields less rest (by omega)
    obtain ⟨symbol, more, hjoined, rfl⟩ := @joined_starts _ Json.printField fields hne
      (fun symbol => symbol = '"') fun field => ⟨'"', _, rfl, rfl⟩
    rw [hread, hjoined, cons_append, skip_cons (rfl : isSpace '"' = false)]
    rfl

mutual

theorem readsBack : ∀ value : Json, ReadsBack value
  | .null => readsBack_null
  | .bool value => readsBack_bool value
  | .number value => readsBack_number value
  | .string units => readsBack_string units
  | .array items => readsBack_array (readsBack_items items)
  | .object fields => readsBack_object (readsBack_fields fields)

theorem readsBack_items : ∀ (items : List Json) (item : Json), item ∈ items -> ReadsBack item
  | first :: rest, item, hmem => by
      rcases mem_cons.mp hmem with hfirst | hrest
      · rw [hfirst]
        exact readsBack first
      · exact readsBack_items rest item hrest

theorem readsBack_fields : ∀ (fields : List (JsString × Json)) (field : JsString × Json),
    field ∈ fields -> ReadsBack field.2
  | (key, value) :: rest, field, hmem => by
      rcases mem_cons.mp hmem with hfirst | hrest
      · rw [hfirst]
        exact readsBack value
      · exact readsBack_fields rest field hrest

end

/-- `JSON.parse` reads back what `JSON.stringify` writes. -/
theorem parse_print (value : Json) : parse value.print = some value := by
  have hread := readsBack value (2 * value.print.length + 2) [] (by omega) .nil
  rw [append_nil] at hread
  rw [parse, hread]
  rfl

end AnchorMind.Text.JsonParse
