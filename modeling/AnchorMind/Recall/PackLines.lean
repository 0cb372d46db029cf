import AnchorMind.Audit.DateReading
import AnchorMind.Recall.AnswerPack

/-!
# Lines of a pack

The text of a pack falls into its header, its policy, and three lines for every fragment.
An opening line is read back as its attributes, and neither it nor the body has a delimiter
of its own making.
-/

namespace AnchorMind.Recall.PackLines

open Kernel.Grouping Kernel.PieceCodes Recall.AnswerPack Recall.PackEscapes Text.CodePoints List

def readQuoted (escaped : Bool) : List Nat -> Option (List Nat × List Nat)
  | [] => none
  | code :: rest =>
    if escaped = false /\ code = 34 then some ([], rest)
    else (readQuoted (!escaped && code == 92) rest).map fun read => (code :: read.1, read.2)

def inBare (code : Nat) : Bool := code ≠ 32 && code ≠ 62

def readValue (text : List Nat) : Option (AttrValue × List Nat) :=
  if text.head? = some 34 then
    (readQuoted false text.tail).map fun read => (.quoted read.1, read.2)
  else some (.bare (text.takeWhile inBare), text.dropWhile inBare)

def inName (code : Nat) : Bool := code ≠ 61

def readAttribute (text : List Nat) : Option ((List Nat × AttrValue) × List Nat) :=
  (readValue (text.dropWhile inName).tail).map fun read => ((text.takeWhile inName, read.1), read.2)

def readAttributes : Nat -> List Nat -> Option (List (List Nat × AttrValue))
  | 0, _ => none
  | fuel + 1, text =>
    (readAttribute text).bind fun read =>
      if read.2.head? = some 32 then (readAttributes fuel read.2.tail).map (read.1 :: ·)
      else if read.2 = codes ">>>" then some [read.1]
      else none

def opening : List Nat := packBlockOpen ++ codes " "

def readHeader (line : List Nat) : Option (List (List Nat × AttrValue)) :=
  if opening <+: line then readAttributes line.length (line.drop opening.length) else none

theorem codes_space : codes " " = [32] := rfl

variable {text : List Nat}

theorem readQuoted_plain (htext : ∀ code ∈ text, code ≠ 34 /\ code ≠ 92) (rest : List Nat) :
    readQuoted false (text ++ rest) =
      (readQuoted false rest).map fun read => (text ++ read.1, read.2) := by
  induction text with
  | nil => simp
  | cons code text ih =>
    obtain ⟨hquote, hslash⟩ := htext code mem_cons_self
    rw [cons_append, readQuoted, if_neg (fun hend => hquote hend.2),
      beq_false_of_ne hslash, Bool.and_false,
      ih fun other hmem => htext other (mem_cons_of_mem _ hmem), Option.map_map]
    rfl

theorem readQuoted_escape (letter : Nat) (htext : ∀ code ∈ text, code ≠ 34 /\ code ≠ 92)
    (rest : List Nat) :
    readQuoted false (92 :: letter :: text ++ rest) =
      (readQuoted false rest).map fun read => (92 :: letter :: text ++ read.1, read.2) := by
  rw [cons_append, cons_append, readQuoted, if_neg (by simp), readQuoted,
    if_neg (by simp)]
  change Option.map _ (Option.map _ (readQuoted false (text ++ rest))) = _
  rw [readQuoted_plain htext, Option.map_map, Option.map_map]
  rfl

variable {code : Nat}

theorem readQuoted_piece {piece : List Nat} (hshown : Shown true code piece) (rest : List Nat) :
    readQuoted false (piece ++ rest) =
      (readQuoted false rest).map fun read => (piece ++ read.1, read.2) := by
  cases hshown with
  | itself hslash _ hquote =>
    refine readQuoted_plain (fun other hmem => ?_) rest
    rw [mem_singleton.mp hmem]
    exact ⟨hquote rfl, hslash⟩
  | simple _ => exact readQuoted_escape _ (fun _ hmem => absurd hmem not_mem_nil) rest
  | digits _ =>
    refine readQuoted_escape 117 (fun other hmem => ?_) rest
    have hdigit := isHexDigit_of_mem_digits hmem
    unfold isHexDigit at hdigit
    omega
  | braces =>
    refine readQuoted_escape 117 (fun other hmem => ?_) rest
    simp only [mem_cons, mem_append, not_mem_nil, or_false] at hmem
    rcases hmem with hsame | hhex | hsame
    · omega
    · have hdigit := isHexDigit_of_mem_hex hhex
      unfold isHexDigit at hdigit
      omega
    · omega

theorem readQuoted_pieces {pieces : List (List Nat)}
    (hpieces : ∀ piece ∈ pieces, ∃ code, Shown true code piece) (rest : List Nat) :
    readQuoted false (pieces.flatten ++ 34 :: rest) = some (pieces.flatten, rest) := by
  induction pieces with
  | nil => rfl
  | cons piece pieces ih =>
    obtain ⟨code, hshown⟩ := hpieces piece mem_cons_self
    rw [flatten_cons, append_assoc, readQuoted_piece hshown,
      ih fun other hmem => hpieces other (mem_cons_of_mem _ hmem)]
    rfl

theorem readQuoted_escapeAndCap (value : List Nat) (max : Nat) (rest : List Nat) :
    readQuoted false ((escapeAndCap value max true).text ++ 34 :: rest) =
      some ((escapeAndCap value max true).text, rest) := by
  obtain ⟨kept, htext, -⟩ := escapeAndCap_eq value max true
  rw [htext]
  exact readQuoted_pieces (fun _ hmem => exists_shown (mem_of_mem_take hmem)) rest

def Bare (code : Nat) : Prop :=
  isUnsafeChar code = false /\ code ≠ 32 /\ code ≠ 34 /\ code ≠ 60 /\ code ≠ 62

def NameCode (code : Nat) : Prop := code = 95 \/ 97 ≤ code /\ code ≤ 122

inductive SoundValue : AttrValue -> Prop
  | quoted (value : List Nat) : SoundValue (quotedValue value)
  | bare {text : List Nat} (htext : ∀ code ∈ text, Bare code) :
      SoundValue (.bare text)

structure SoundAttribute (attr : List Nat × AttrValue) : Prop where
  name : ∀ code ∈ attr.1, NameCode code
  value : SoundValue attr.2

variable {value : AttrValue}

theorem readValue_render (hvalue : SoundValue value) {rest : List Nat}
    (hrest : rest.head? = some 32 \/ rest.head? = some 62) :
    readValue (value.render ++ rest) = some (value, rest) := by
  cases hvalue with
  | quoted value =>
    have hshape : (quotedValue value).render ++ rest =
        34 :: ((escapeAndCap value packMetaMaxChars true).text ++ 34 :: rest) := by
      simp [quotedValue, AttrValue.render, show codes "\"" = [34] from rfl]
    rw [hshape, readValue, head?_cons, if_pos rfl, tail_cons, readQuoted_escapeAndCap]
    rfl
  | bare htext =>
    rename_i text
    have hin : ∀ code ∈ text, inBare code = true := by
      intro code hmem
      obtain ⟨-, hspace, -, -, hclose⟩ := htext code hmem
      simp [inBare, hspace, hclose]
    obtain ⟨next, more, rfl⟩ : ∃ next more, rest = next :: more := by
      cases rest with
      | nil => simp at hrest
      | cons next more => exact ⟨next, more, rfl⟩
    have hend : inBare next = false := by
      simp only [head?_cons, Option.some.injEq] at hrest
      rcases hrest with rfl | rfl <;> rfl
    have hquote : (text ++ next :: more).head? ≠ some 34 := by
      cases text with
      | nil =>
        intro hhead
        simp only [nil_append, head?_cons, Option.some.injEq] at hhead hrest
        omega
      | cons code text =>
        intro hhead
        exact (htext code mem_cons_self).2.2.1 (Option.some.inj hhead)
    change readValue (text ++ next :: more) = _
    rw [readValue, if_neg hquote, takeWhile_append_of_pos hin,
      dropWhile_append_of_pos hin, takeWhile_cons_of_neg (by simp [hend]),
      dropWhile_cons_of_neg (by simp [hend]), append_nil]

variable {attr : List Nat × AttrValue}

theorem readAttribute_render (hattr : SoundAttribute attr) {rest : List Nat}
    (hrest : rest.head? = some 32 \/ rest.head? = some 62) :
    readAttribute (renderAttribute attr ++ rest) = some (attr, rest) := by
  have hname : ∀ code ∈ attr.1, inName code = true := by
    intro code hmem
    have hcode := hattr.name code hmem
    unfold NameCode at hcode
    simp only [inName, ne_eq, decide_eq_true_eq]
    omega
  have hshape : renderAttribute attr ++ rest = attr.1 ++ 61 :: (attr.2.render ++ rest) := by
    simp [renderAttribute, show codes "=" = [61] from rfl]
  rw [hshape, readAttribute, takeWhile_append_of_pos hname,
    dropWhile_append_of_pos hname, takeWhile_cons_of_neg (by simp [inName]),
    dropWhile_cons_of_neg (by simp [inName]), tail_cons,
    readValue_render hattr.value hrest, append_nil]
  rfl

theorem readAttributes_render {attrs : List (List Nat × AttrValue)} (hne : attrs ≠ [])
    (hattrs : ∀ attr ∈ attrs, SoundAttribute attr) {fuel : Nat} (hfuel : attrs.length ≤ fuel) :
    readAttributes fuel
      ((codes " ").intercalate (attrs.map renderAttribute) ++ codes ">>>") = some attrs := by
  induction attrs generalizing fuel with
  | nil => exact absurd rfl hne
  | cons attr rest ih =>
    have hattr := hattrs attr mem_cons_self
    cases fuel with
    | zero => exact absurd hfuel (Nat.not_succ_le_zero _)
    | succ fuel =>
      cases rest with
      | nil =>
        have hread : readAttribute (renderAttribute attr ++ codes ">>>") =
            some (attr, codes ">>>") := readAttribute_render hattr (.inr rfl)
        simp only [map_cons, map_nil, intercalate_singleton, readAttributes,
          hread, Option.bind_some]
        rfl
      | cons next more =>
        have htail := ih (cons_ne_nil _ _)
          (fun other hmem => hattrs other (mem_cons_of_mem _ hmem))
          (Nat.le_of_succ_le_succ hfuel)
        have hshape : (codes " ").intercalate ((attr :: next :: more).map renderAttribute) ++
            codes ">>>" = renderAttribute attr ++
              32 :: ((codes " ").intercalate ((next :: more).map renderAttribute) ++
                codes ">>>") := by
          rw [map_cons, map_cons, intercalate_cons_cons, append_assoc,
            append_assoc, codes_space]
          rfl
        rw [hshape, readAttributes, readAttribute_render hattr (.inl rfl), Option.bind_some,
          head?_cons, if_pos rfl, tail_cons, htail]
        rfl

theorem length_le_intercalate (attrs : List (List Nat × AttrValue)) :
    attrs.length ≤ ((codes " ").intercalate (attrs.map renderAttribute)).length := by
  have hpos : ∀ attr, 0 < (renderAttribute attr).length := by
    intro attr
    simp only [renderAttribute, show codes "=" = [61] from rfl, length_append,
      length_singleton]
    omega
  induction attrs with
  | nil => exact Nat.zero_le _
  | cons attr rest ih =>
    have hattr := hpos attr
    cases rest with
    | nil =>
      rw [map_cons, map_nil, intercalate_singleton]
      exact hattr
    | cons next more =>
      rw [map_cons, map_cons, intercalate_cons_cons, length_append,
        length_append, length_cons]
      rw [map_cons] at ih
      omega

theorem headerLine_eq (item : Item) : headerLine item = opening ++
    ((codes " ").intercalate ((attributes item).map renderAttribute) ++ codes ">>>") := by
  rw [headerLine, opening, append_assoc]

theorem attributes_ne_nil (item : Item) : attributes item ≠ [] := by
  refine ne_nil_of_mem (a := (codes "status", .bare item.status)) ?_
  refine mem_filterMap.mpr ⟨(codes "status", some (.bare item.status)), ?_, rfl⟩
  simp

variable {item : Item}

theorem readHeader_headerLine (hattrs : ∀ attr ∈ attributes item, SoundAttribute attr) :
    readHeader (headerLine item) = some (attributes item) := by
  have hlength := length_le_intercalate (attributes item)
  rw [headerLine_eq, readHeader, if_pos (prefix_append _ _), drop_left]
  refine readAttributes_render (attributes_ne_nil item) hattrs ?_
  simp only [length_append]
  omega

theorem bare_of_range (hcode : 43 ≤ code /\ code ≤ 58 \/ 65 ≤ code /\ code ≤ 122) : Bare code :=
  ⟨isUnsafeChar_ascii (by omega) (by omega), by omega, by omega, by omega, by omega⟩

theorem NameCode.bare (hcode : NameCode code) : Bare code := by
  unfold NameCode at hcode
  exact bare_of_range (by omega)

theorem bare_of_isDigit {char : Char} (hdigit : char.isDigit = true) : Bare char.toNat := by
  obtain ⟨hlow, hhigh⟩ := Char.isDigit_iff_toNat.mp hdigit
  exact bare_of_range (.inl ⟨Nat.le_trans (by decide) hlow, Nat.le_trans hhigh (by decide)⟩)

instance : DecidablePred NameCode := fun code =>
  inferInstanceAs (Decidable (code = 95 \/ 97 ≤ code /\ code ≤ 122))

def BareText (text : List Nat) : Prop := ∀ code ∈ text, Bare code

theorem bareText_digits (width value : Nat) : BareText (codes (Audit.padded width value)) := by
  intro code hmem
  obtain ⟨char, hchar, rfl⟩ := mem_map.mp hmem
  exact bare_of_isDigit (Audit.isDigit_padded width value char hchar)

theorem BareText.append {front back : List Nat} (hfront : BareText front) (hback : BareText back) :
    BareText (front ++ back) := by
  intro code hmem
  rcases mem_append.mp hmem with hin | hin
  · exact hfront code hin
  · exact hback code hin

theorem BareText.take (htext : BareText text) (count : Nat) : BareText (text.take count) :=
  fun code hmem => htext code (mem_of_mem_take hmem)

theorem bareText_mark (code : Nat) (htext : text = [code])
    (hcode : 43 ≤ code /\ code ≤ 58 \/ 65 ≤ code /\ code ≤ 122) : BareText text := by
  intro other hmem
  rw [htext, mem_singleton] at hmem
  rw [hmem]
  exact bare_of_range hcode

theorem bareText_isoCodes (instant : Int) : BareText (isoCodes instant) := by
  have hyear : ∀ year, BareText (codes (Audit.yearText year)) := by
    intro year
    unfold Audit.yearText
    split
    · exact bareText_digits 4 _
    · rw [codes_append]
      refine .append ?_ (bareText_digits 6 _)
      split
      · exact bareText_mark 43 rfl (by omega)
      · exact bareText_mark 45 rfl (by omega)
  have hdash : BareText (codes "-") := bareText_mark 45 rfl (by omega)
  have hcolon : BareText (codes ":") := bareText_mark 58 rfl (by omega)
  have hpoint : BareText (codes ".") := bareText_mark 46 rfl (by omega)
  have hstart : BareText (codes "T") := bareText_mark 84 rfl (by omega)
  have hend : BareText (codes "Z") := bareText_mark 90 rfl (by omega)
  simp only [isoCodes, Audit.toISOString, codes_append]
  exact ((((((((((((hyear _).append hdash).append (bareText_digits 2 _)).append hdash).append
    (bareText_digits 2 _)).append hstart).append (bareText_digits 2 _)).append hcolon).append
    (bareText_digits 2 _)).append hcolon).append (bareText_digits 2 _)).append hpoint).append
    (bareText_digits 3 _) |>.append hend

theorem bareText_formatUtcDate {field : TimeField} (htext : formatUtcDate field = some text) :
    BareText text := by
  obtain ⟨instant, -, rfl⟩ := Option.map_eq_some_iff.mp htext
  exact (bareText_isoCodes instant).take 10

theorem bareText_formatEventTime {field : TimeField} {precision : FieldValue}
    (htext : formatEventTime field precision = some text) : BareText text := by
  obtain ⟨instant, -, rfl⟩ := Option.map_eq_some_iff.mp htext
  have hiso := bareText_isoCodes instant
  split
  · exact hiso.take 4
  split
  · exact hiso.take 7
  split
  · exact (hiso.take 16).append (bareText_mark 90 rfl (by omega))
  · exact hiso.take 10

theorem bareText_eventLabel {fragment : Fragment} (htext : eventLabel fragment = some text) :
    BareText text := by
  obtain ⟨start, hstart, rfl⟩ := Option.map_eq_some_iff.mp htext
  have hbare := bareText_formatEventTime hstart
  split
  · exact hbare
  split
  · exact hbare
  · rename_i finish hfinish
    have hdots : BareText (codes "..") := by
      intro code hmem
      have hdot : code = 46 := of_mem_codes (P := (· = 46)) ['.', '.'] (by decide) hmem
      exact bare_of_range (by omega)
    exact (hbare.append hdots).append (bareText_formatEventTime hfinish)

theorem bareText_of_names (htext : ∀ code ∈ text, NameCode code) : BareText text :=
  fun code hmem => (htext code hmem).bare

theorem bareText_knownLabel {labels : List String}
    (hlabels : ∀ label ∈ labels, ∀ code ∈ codes label, NameCode code) {value : FieldValue}
    (htext : knownLabel labels value = some text) : BareText text := by
  cases value with
  | absent => cases htext
  | other => cases htext
  | text value =>
    simp only [knownLabel, Option.ite_none_right_eq_some, Option.some.injEq] at htext
    obtain ⟨hmem, rfl⟩ := htext
    obtain ⟨label, hlabel, hcodes⟩ := mem_map.mp hmem
    rw [← hcodes]
    exact bareText_of_names (hlabels label hlabel)

theorem names_assertionStatuses (label : String) (hlabel : label ∈ assertionStatuses) :
    ∀ code ∈ codes label, NameCode code := by
  simp only [assertionStatuses, mem_cons, not_mem_nil, or_false] at hlabel
  intro code
  rcases hlabel with rfl | rfl | rfl | rfl <;> exact of_mem_codes _ (by decide)

theorem names_origins (label : String) (hlabel : label ∈ origins) :
    ∀ code ∈ codes label, NameCode code := by
  simp only [origins, mem_cons, not_mem_nil, or_false] at hlabel
  intro code
  rcases hlabel with rfl | rfl | rfl | rfl | rfl | rfl <;> exact of_mem_codes _ (by decide)

/-- What the fields of an item that are written without quotes look like. -/
structure BareItem (item : Item) : Prop where
  date : ∀ text, item.date = some text -> BareText text
  status : BareText item.status
  mentioned : ∀ text, item.mentioned = some text -> BareText text
  event : ∀ text, item.event = some text -> BareText text
  assertion : ∀ text, item.assertion = some text -> BareText text
  origin : ∀ text, item.origin = some text -> BareText text
  review : ∀ text, item.review = some text -> BareText text

theorem bareItem_toItem (fragment : Fragment) (provenance : Option Provenance) :
    BareItem (toItem fragment provenance).item where
  date _ htext := bareText_formatUtcDate htext
  status := by
    change BareText (if fragment.validTo = .absent then codes "valid" else codes "superseded")
    split <;> exact bareText_of_names fun code => of_mem_codes _ (by decide)
  mentioned _ htext := bareText_formatUtcDate htext
  event _ htext := bareText_eventLabel htext
  assertion _ htext := bareText_knownLabel names_assertionStatuses htext
  origin text htext := by
    obtain ⟨value, -, hlabel⟩ := Option.bind_eq_some_iff.mp htext
    exact bareText_knownLabel names_origins hlabel
  review text htext := by
    change (if fragment.pendingReview then some (codes "pending") else none) = some text at htext
    obtain ⟨-, hpending⟩ := Option.ite_none_right_eq_some.mp htext
    rw [← Option.some.inj hpending]
    exact bareText_of_names fun code => of_mem_codes _ (by decide)

theorem soundAttribute_of_field {name : List Nat} {field : Option AttrValue}
    (hname : ∀ code ∈ name, NameCode code)
    (hfield : ∀ value, field = some value -> SoundValue value)
    (hattr : field.map (fun value => (name, value)) = some attr) : SoundAttribute attr := by
  obtain ⟨value, hvalue, rfl⟩ := Option.map_eq_some_iff.mp hattr
  exact ⟨hname, hfield value hvalue⟩

theorem soundValue_quoted (field : Option (List Nat)) (value : AttrValue)
    (hvalue : field.map quotedValue = some value) : SoundValue value := by
  obtain ⟨text, -, rfl⟩ := Option.map_eq_some_iff.mp hvalue
  exact .quoted text

theorem soundValue_bare {field : Option (List Nat)}
    (hfield : ∀ text, field = some text -> BareText text) (value : AttrValue)
    (hvalue : field.map AttrValue.bare = some value) : SoundValue value := by
  obtain ⟨text, htext, rfl⟩ := Option.map_eq_some_iff.mp hvalue
  exact .bare (hfield text htext)

theorem soundAttribute_attributes (hitem : BareItem item) (hattr : attr ∈ attributes item) :
    SoundAttribute attr := by
  obtain ⟨⟨name, field⟩, hmem, hfield⟩ := mem_filterMap.mp hattr
  have hstatus : ∀ value, some (AttrValue.bare item.status) = some value ->
      SoundValue value := by
    rintro value ⟨⟩
    exact .bare hitem.status
  have htruncated : ∀ value,
      (if item.truncated then some (AttrValue.bare (codes "true")) else none) = some value ->
      SoundValue value := by
    intro value hvalue
    obtain ⟨-, hbare⟩ := Option.ite_none_right_eq_some.mp hvalue
    rw [← Option.some.inj hbare]
    exact .bare (bareText_of_names fun code => of_mem_codes _ (by decide))
  simp only [mem_cons, Prod.mk.injEq, not_mem_nil, or_false] at hmem
  refine soundAttribute_of_field ?_ ?_ hfield
  · rcases hmem with ⟨rfl, -⟩ | ⟨rfl, -⟩ | ⟨rfl, -⟩ | ⟨rfl, -⟩ | ⟨rfl, -⟩ | ⟨rfl, -⟩ | ⟨rfl, -⟩ |
      ⟨rfl, -⟩ | ⟨rfl, -⟩ | ⟨rfl, -⟩ | ⟨rfl, -⟩ | ⟨rfl, -⟩ | ⟨rfl, -⟩ | ⟨rfl, -⟩ | ⟨rfl, -⟩ |
      ⟨rfl, -⟩ <;> exact fun code => of_mem_codes _ (by decide)
  · rcases hmem with ⟨-, rfl⟩ | ⟨-, rfl⟩ | ⟨-, rfl⟩ | ⟨-, rfl⟩ | ⟨-, rfl⟩ | ⟨-, rfl⟩ | ⟨-, rfl⟩ |
      ⟨-, rfl⟩ | ⟨-, rfl⟩ | ⟨-, rfl⟩ | ⟨-, rfl⟩ | ⟨-, rfl⟩ | ⟨-, rfl⟩ | ⟨-, rfl⟩ | ⟨-, rfl⟩ | ⟨-,
        rfl⟩
    · exact soundValue_quoted _
    · exact soundValue_bare hitem.date
    · exact hstatus
    · exact soundValue_bare hitem.mentioned
    · exact soundValue_bare hitem.event
    · exact soundValue_bare hitem.assertion
    · exact soundValue_bare hitem.origin
    · exact soundValue_quoted _
    · exact soundValue_quoted _
    · exact soundValue_quoted _
    · exact soundValue_quoted _
    · exact soundValue_quoted _
    · exact soundValue_quoted _
    · exact soundValue_quoted _
    · exact htruncated
    · exact soundValue_bare hitem.review

variable {angle : Nat}

theorem runFree_of_bareText (htext : BareText text) (hangle : angle = 60 \/ angle = 62) :
    RunFree 3 angle text := by
  refine .of_not_mem (by omega) fun hmem => ?_
  obtain ⟨-, -, -, hopen, hclose⟩ := htext angle hmem
  omega

theorem runFree_render (hvalue : SoundValue value) (hangle : angle = 60 \/ angle = 62) :
    RunFree 3 angle value.render := by
  cases hvalue with
  | quoted value =>
    have hquote : RunFree 3 angle [34] := .of_not_mem (by omega) (by simp; omega)
    have hvalue := runFree_escapeAndCap value packMetaMaxChars true hangle
    have hopened := hquote.append hvalue (.inl (by simp; omega))
    have hclosed := hopened.append hquote (.inr (by simp; omega))
    exact hclosed
  | bare htext => exact runFree_of_bareText htext hangle

theorem runFree_renderAttribute (hattr : SoundAttribute attr) (hangle : angle = 60 \/ angle = 62) :
    RunFree 3 angle (renderAttribute attr) := by
  have hname : RunFree 3 angle (attr.1 ++ [61]) := by
    refine .of_not_mem (by omega) fun hmem => ?_
    rcases mem_append.mp hmem with hin | hin
    · have hcode := hattr.name angle hin
      unfold NameCode at hcode
      omega
    · rw [mem_singleton] at hin
      omega
  exact hname.append (runFree_render hattr.value hangle) (.inl (by simp; omega))

theorem safe_render (hvalue : SoundValue value) (hmem : code ∈ value.render) :
    isUnsafeChar code = false := by
  cases hvalue with
  | quoted value =>
    rcases mem_append.mp hmem with hin | hin
    · rcases mem_append.mp hin with hquote | hin
      · rw [mem_singleton.mp hquote]
        exact isUnsafeChar_ascii (by decide) (by decide)
      · exact safe_escapeAndCap value packMetaMaxChars true hin
    · rw [mem_singleton.mp hin]
      exact isUnsafeChar_ascii (by decide) (by decide)
  | bare htext => exact (htext code hmem).1

theorem getLast?_render (hvalue : SoundValue value) : value.render.getLast? ≠ some 62 := by
  intro hlast
  cases hvalue with
  | quoted value =>
    change ((codes "\"" ++ (escapeAndCap value packMetaMaxChars true).text) ++
      [34]).getLast? = some 62 at hlast
    rw [getLast?_concat] at hlast
    cases hlast
  | bare htext => exact (htext 62 (mem_of_getLast? hlast)).2.2.2.2 rfl

structure Undelimited (text : List Nat) : Prop where
  runs : ∀ angle, angle = 60 \/ angle = 62 -> RunFree 3 angle text
  starts : text.head? ≠ some 60
  ends : text.getLast? ≠ some 62

/-- The name of a block and its attributes, between the angle brackets. -/
def inner (item : Item) : List Nat :=
  codes "MEMORY" ++ codes " " ++ (codes " ").intercalate ((attributes item).map renderAttribute)

theorem headerLine_inner (item : Item) :
    headerLine item = codes "<<<" ++ inner item ++ codes ">>>" := by
  have hopen : packBlockOpen = codes "<<<" ++ codes "MEMORY" := rfl
  simp only [headerLine, inner, hopen, append_assoc]

variable {blocks : List (List Nat)} {separator : List Nat}

theorem getLast?_intercalate (hne : blocks ≠ []) (hblocks : ∀ block ∈ blocks, block ≠ []) :
    ∃ block ∈ blocks,
      (separator.intercalate blocks).getLast? = block.getLast? := by
  induction blocks with
  | nil => exact absurd rfl hne
  | cons block rest ih =>
    cases rest with
    | nil => exact ⟨block, mem_cons_self, by rw [intercalate_singleton]⟩
    | cons next more =>
      obtain ⟨last, hmem, hlast⟩ := ih (cons_ne_nil _ _)
        fun other hin => hblocks other (mem_cons_of_mem _ hin)
      refine ⟨last, mem_cons_of_mem _ hmem, ?_⟩
      have hnonempty : separator.intercalate (next :: more) ≠ [] := by
        intro hnil
        rw [hnil] at hlast
        exact hblocks last (mem_cons_of_mem _ hmem) (getLast?_eq_none_iff.mp hlast.symm)
      rw [intercalate_cons_cons, getLast?_append_of_ne_nil _ hnonempty, hlast]

theorem undelimited_inner (hitem : BareItem item) : Undelimited (inner item) where
  runs angle hangle := by
    have hattrs : RunFree 3 angle
        ((codes " ").intercalate ((attributes item).map renderAttribute)) := by
      rw [codes_space]
      refine .intercalate (by omega) (cons_ne_nil _ _) ?_ ?_
      · rw [mem_singleton]
        omega
      · intro block hblock
        obtain ⟨attr, hattr, rfl⟩ := mem_map.mp hblock
        exact runFree_renderAttribute (soundAttribute_attributes hitem hattr) hangle
    have hname : angle ∉ codes "MEMORY" ++ codes " " := by
      rw [show codes "MEMORY" ++ codes " " = [77, 69, 77, 79, 82, 89, 32] from rfl]
      simp
      omega
    refine RunFree.append (.of_not_mem (by omega) hname) hattrs (.inl ?_)
    exact fun hlast => hname (mem_of_getLast? hlast)
  starts := by
    rw [inner, show codes "MEMORY" = [77, 69, 77, 79, 82, 89] from rfl]
    simp
  ends := by
    have hne : (attributes item).map renderAttribute ≠ [] := by simpa using attributes_ne_nil item
    have hblocks : ∀ block ∈ (attributes item).map renderAttribute,
        block ≠ [] /\ block.getLast? ≠ some 62 := by
      intro block hblock
      obtain ⟨attr, hattr, rfl⟩ := mem_map.mp hblock
      have hvalue := getLast?_render (soundAttribute_attributes hitem hattr).value
      rw [renderAttribute, show codes "=" = [61] from rfl]
      constructor
      · simp
      · intro hlast
        by_cases hnil : attr.2.render = []
        · rw [hnil, append_nil, getLast?_concat] at hlast
          cases hlast
        · rw [getLast?_append_of_ne_nil _ hnil] at hlast
          exact hvalue hlast
    obtain ⟨block, hblock, hlast⟩ :=
      getLast?_intercalate hne fun block hmem => (hblocks block hmem).1
    have hnonempty : (codes " ").intercalate ((attributes item).map renderAttribute) ≠ [] := by
      intro hnil
      rw [hnil] at hlast
      exact (hblocks block hblock).1 (getLast?_eq_none_iff.mp hlast.symm)
    rw [inner, getLast?_append_of_ne_nil _ hnonempty, hlast]
    exact (hblocks block hblock).2

theorem mem_intercalate (hmem : code ∈ separator.intercalate blocks) :
    code ∈ separator \/ ∃ block ∈ blocks, code ∈ block := by
  induction blocks with
  | nil => simp at hmem
  | cons block rest ih =>
    cases rest with
    | nil =>
      rw [intercalate_singleton] at hmem
      exact .inr ⟨block, mem_cons_self, hmem⟩
    | cons next more =>
      rw [intercalate_cons_cons] at hmem
      rcases mem_append.mp hmem with hin | hin
      · rcases mem_append.mp hin with hin | hin
        · exact .inr ⟨block, mem_cons_self, hin⟩
        · exact .inl hin
      · rcases ih hin with hsep | ⟨other, hother, hcode⟩
        · exact .inl hsep
        · exact .inr ⟨other, mem_cons_of_mem _ hother, hcode⟩

theorem safe_headerLine (hitem : BareItem item) (hmem : code ∈ headerLine item) :
    isUnsafeChar code = false := by
  have hascii : ∀ chars : List Char,
      (chars.all fun char => decide (32 ≤ char.toNat /\ char.toNat < 127)) = true ->
      code ∈ codes (String.ofList chars) -> isUnsafeChar code = false := by
    intro chars hchars hin
    obtain ⟨hlow, hhigh⟩ := of_mem_codes (P := fun code => 32 ≤ code /\ code < 127) chars hchars hin
    exact isUnsafeChar_ascii hlow hhigh
  rw [headerLine_inner] at hmem
  rcases mem_append.mp hmem with hin | hin
  · rcases mem_append.mp hin with hin | hin
    · exact hascii _ (by decide) hin
    · rcases mem_append.mp hin with hin | hin
      · rcases mem_append.mp hin with hin | hin <;> exact hascii _ (by decide) hin
      · rcases mem_intercalate hin with hin | ⟨block, hblock, hin⟩
        · exact hascii _ (by decide) hin
        · obtain ⟨attr, hattr, rfl⟩ := mem_map.mp hblock
          have hsound := soundAttribute_attributes hitem hattr
          rcases mem_append.mp hin with hin | hin
          · rcases mem_append.mp hin with hin | hin
            · exact (hsound.name code hin).bare.1
            · exact hascii _ (by decide) hin
          · exact safe_render hsound.value hin
  · exact hascii _ (by decide) hin

structure Sealed (fragment : Fragment) (entry : Entry) : Prop where
  /-- The opening line is read as the attributes, each value up to its own quote. -/
  opening : readHeader (headerLine entry.item) = some (attributes entry.item)
  delimited : headerLine entry.item = codes "<<<" ++ inner entry.item ++ codes ">>>"
  inside : Undelimited (inner entry.item)
  body : ∀ angle, angle = 60 \/ angle = 62 -> RunFree 3 angle entry.body
  safe : ∀ line ∈ entry.lines, ∀ code ∈ line, isUnsafeChar code = false
  /-- The escapes undone, the body is the content or, if it was cut, a part of it. -/
  content : ∃ kept, unescape entry.body = fragment.content.shown.take kept /\
    if entry.item.truncated then kept < fragment.content.shown.length
    else kept = fragment.content.shown.length

theorem sealed_toItem (fragment : Fragment) (provenance : Option Provenance) :
    Sealed fragment (toItem fragment provenance) where
  opening := readHeader_headerLine fun _ hattr =>
    soundAttribute_attributes (bareItem_toItem fragment provenance) hattr
  delimited := headerLine_inner _
  inside := undelimited_inner (bareItem_toItem fragment provenance)
  body _ hangle := runFree_escapeAndCap fragment.content.shown packItemMaxChars false hangle
  safe := by
    intro line hline code hcode
    simp only [Entry.lines, mem_cons, not_mem_nil, or_false] at hline
    rcases hline with rfl | rfl | rfl
    · exact safe_headerLine (bareItem_toItem fragment provenance) hcode
    · exact safe_escapeAndCap fragment.content.shown packItemMaxChars false hcode
    · obtain ⟨hlow, hhigh⟩ :=
        of_mem_codes (P := fun code => 32 ≤ code /\ code < 127) _ (by decide) hcode
      exact isUnsafeChar_ascii hlow hhigh
  content := unescape_escapeAndCap fragment.content.shown packItemMaxChars false

theorem perm_ordered (order : Order) (fragments : List Fragment) :
    (ordered order fragments).Perm fragments := by
  cases order with
  | rank => exact perm_groupBy groupKeyOf fragments
  | chronological => exact .refl _

theorem newline_not_mem_codes (chars : List Char)
    (hchars : (chars.all fun char => decide (char.toNat ≠ 10)) = true) :
    10 ∉ codes (String.ofList chars) :=
  fun hmem => of_mem_codes (P := (· ≠ 10)) chars hchars hmem rfl

set_option maxRecDepth 4000 in
theorem newline_not_mem_packPolicy : 10 ∉ packPolicy := by
  intro hmem
  simp only [packPolicy, codes_append, mem_append] at hmem
  rcases hmem with (((((hin | hin) | hin) | hin) | hin) | hin) | hin <;>
    exact newline_not_mem_codes _ (by decide) hin

theorem newline_not_mem_packHeader : 10 ∉ packHeader := by
  unfold packHeader
  exact newline_not_mem_codes _ (by decide)

theorem newline_not_mem_packLines (provenance : FieldValue -> Option Provenance) (order : Order)
    (fragments : List Fragment) (line : List Nat)
    (hline : line ∈ packLines provenance order fragments) : 10 ∉ line := by
  intro hnewline
  rcases mem_append.mp hline with hin | hin
  · simp only [mem_cons, not_mem_nil, or_false] at hin
    rcases hin with hheader | hpolicy
    · rw [hheader] at hnewline
      exact newline_not_mem_packHeader hnewline
    · rw [hpolicy] at hnewline
      exact newline_not_mem_packPolicy hnewline
  · obtain ⟨fragment, -, hin⟩ := mem_flatMap.mp hin
    have hsafe := (sealed_toItem fragment (provenance fragment.id)).safe line hin 10 hnewline
    have hcontrol : isUnsafeChar 10 = true := rfl
    rw [hcontrol] at hsafe
    cases hsafe

/-- A pack is its header, its policy and three lines for every fragment; what is stored stays
between its quotes and in its line, and is read back. -/
theorem buildAnswerPack_sealed (provenance : FieldValue -> Option Provenance) (order : Order)
    (fragments : List Fragment) :
    ∃ shown : List Fragment, shown.Perm fragments /\
      (buildAnswerPack provenance order fragments).splitOn 10 =
        packHeader :: packPolicy :: shown.flatMap (fun fragment =>
          let entry := toItem fragment (provenance fragment.id)
          [headerLine entry.item, entry.body, packBlockClose]) /\
      ∀ fragment ∈ shown,
        Sealed fragment (toItem fragment (provenance fragment.id)) := by
  refine ⟨ordered order fragments, perm_ordered order fragments, ?_,
    fun fragment _ => sealed_toItem fragment (provenance fragment.id)⟩
  rw [buildAnswerPack, show codes "\n" = [10] from rfl, splitOn_intercalate]
  · rfl
  · exact newline_not_mem_packLines provenance order fragments
  · exact cons_ne_nil _ _

end AnchorMind.Recall.PackLines
