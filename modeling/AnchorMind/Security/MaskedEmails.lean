import AnchorMind.Text.JsonText
import Mathlib.Data.FinEnum

/-!
# Masked e-mail addresses

The scan looks around each `@`; a regular expression looks from each place on.  No part of an
address before its `@` holds another one, so both find the same addresses.
-/

namespace AnchorMind.Security.MaskedEmails

open List Text.JsonText

section

variable {Symbol : Type*}

/-- What may be left of a text, in the order in which a backtracking search comes to it. -/
abbrev Matcher (Symbol : Type*) : Type _ := List Symbol -> List (List Symbol)

def one (kind : Symbol -> Bool) : Matcher Symbol
  | [] => []
  | c :: rest => if kind c then [rest] else []

/-- One or more of a kind, as many as there are at first. -/
def plus (kind : Symbol -> Bool) : Matcher Symbol
  | [] => []
  | c :: rest => if kind c then plus kind rest ++ [rest] else []

def Matcher.andThen (matcher next : Matcher Symbol) : Matcher Symbol :=
  fun text => (matcher text).flatMap next

/-- `replace` of a global expression that does not match the empty text. -/
def replaceAll (matcher : Matcher Symbol) (replacement : List Symbol) : List Symbol -> List Symbol
  | [] => []
  | c :: rest =>
    match (matcher (c :: rest)).head? with
    | some left =>
      replacement ++ replaceAll matcher replacement (rest.drop (rest.length - left.length))
    | none => c :: replaceAll matcher replacement rest
termination_by text => text.length
decreasing_by all_goals simp_wf <;> omega

end

def AT : UInt16 := 64

def isLetter (c : UInt16) : Bool := (97 ≤ c && c ≤ 122) || (65 ≤ c && c ≤ 90)

def isAlnum (c : UInt16) : Bool := isLetter c || (48 ≤ c && c ≤ 57)

/-- `[a-zA-Z0-9._%+-]` -/
def EMAIL_LOCAL_CHAR (c : UInt16) : Bool := isAlnum c || c ∈ ofString "._%+-"

/-- `[a-zA-Z0-9.-]+\.[a-zA-Z]{2,}` -/
def EMAIL_DOMAIN : Matcher UInt16 :=
  (plus fun c => isAlnum c || c ∈ ofString ".-").andThen <| (one (· == 46)).andThen <|
    (one isLetter).andThen (plus isLetter)

/-- `[a-zA-Z0-9._%+-]+@[a-zA-Z0-9.-]+\.[a-zA-Z]{2,}` -/
def email : Matcher UInt16 :=
  (plus EMAIL_LOCAL_CHAR).andThen <| (one (· == AT)).andThen EMAIL_DOMAIN

/-- `pending` is the text from `last` to `from`, and the text behind `from` follows. -/
def scan (replacement pending : JsString) : JsString -> JsString
  | [] => pending
  | c :: rest =>
    if c = AT then
      let start := pending.rdropWhile EMAIL_LOCAL_CHAR
      if start = pending then scan replacement (pending ++ [c]) rest
      else
        match (EMAIL_DOMAIN rest).head? with
        | none => scan replacement (pending ++ [c]) rest
        | some left =>
          start ++ replacement ++ scan replacement [] (rest.drop (rest.length - left.length))
    else scan replacement (pending ++ [c]) rest
termination_by text => text.length
decreasing_by all_goals simp_wf <;> omega

def maskEmails (text replacement : JsString) : JsString := scan replacement [] text

section

variable {Symbol : Type*} {kind : Symbol -> Bool} {matcher next : Matcher Symbol}

/-- A matcher goes forward only. -/
def Forward (matcher : Matcher Symbol) : Prop :=
  ∀ text, ∀ left ∈ matcher text, left.length ≤ text.length

theorem forward_one : Forward (one kind) := by
  intro text left hleft
  cases text with
  | nil => cases hleft
  | cons c rest =>
    rw [one] at hleft
    split at hleft
    · rw [mem_singleton.mp hleft]
      exact Nat.le_succ _
    · cases hleft

theorem forward_plus : Forward (plus kind) := by
  intro text left hleft
  induction text with
  | nil => cases hleft
  | cons c rest ih =>
    rw [plus] at hleft
    split at hleft
    · rcases mem_append.mp hleft with hlater | hhere
      · exact (ih hlater).trans (Nat.le_succ _)
      · rw [mem_singleton.mp hhere]
        exact Nat.le_succ _
    · cases hleft

theorem Forward.andThen (hmatcher : Forward matcher) (hnext : Forward next) :
    Forward (matcher.andThen next) := by
  intro text left hleft
  obtain ⟨middle, hmiddle, hleft⟩ := mem_flatMap.mp hleft
  exact (hnext middle left hleft).trans (hmatcher text middle hmiddle)

theorem replaceAll_append {before : List Symbol} (replacement rest : List Symbol)
    (hnone : ∀ part, part <:+ before -> part ≠ [] -> matcher (part ++ rest) = []) :
    replaceAll matcher replacement (before ++ rest) =
      before ++ replaceAll matcher replacement rest := by
  induction before with
  | nil => rfl
  | cons c before ih =>
    have hhere : matcher (c :: (before ++ rest)) = [] := hnone _ suffix_rfl (cons_ne_nil _ _)
    rw [cons_append, replaceAll, hhere]
    exact congrArg (cons c) (ih fun part hpart => hnone part (hpart.trans (suffix_cons c before)))

theorem rdropWhile_append {before : List Symbol} (hbefore : before.rdropWhile kind = before)
    (last : List Symbol) :
    (before ++ last).rdropWhile kind = before ++ last.rdropWhile kind := by
  induction last using reverseRecOn with
  | nil => simpa using hbefore
  | append_singleton last c ih =>
    rw [← append_assoc, rdropWhile_concat, rdropWhile_concat, ih]
    split <;> simp

end

theorem forward_domain : Forward EMAIL_DOMAIN :=
  forward_plus.andThen (forward_one.andThen (forward_one.andThen forward_plus))

/-- Up to an `@`, the expression matches a local part with a domain behind that `@`. -/
theorem email_append {before : JsString} (rest : JsString) (hat : AT ∉ before) :
    email (before ++ AT :: rest) =
      if before ≠ [] /\ ∀ c ∈ before, EMAIL_LOCAL_CHAR c = true then EMAIL_DOMAIN rest else [] := by
  induction before with
  | nil => rfl
  | cons c before ih =>
    obtain ⟨hne, hlater⟩ := not_or.mp (mt mem_cons.mpr hat)
    have hmark : ((one (· == AT)).andThen EMAIL_DOMAIN) (before ++ AT :: rest) =
        if before = [] then EMAIL_DOMAIN rest else [] := by
      cases before with
      | nil => exact append_nil _
      | cons d before =>
        have hother : d ≠ AT := fun heq => hlater (heq ▸ mem_cons_self)
        simp [Matcher.andThen, one, hother]
    have hrest := ih hlater
    rw [email, Matcher.andThen] at hrest
    rw [cons_append, email, Matcher.andThen, plus]
    by_cases hlocal : EMAIL_LOCAL_CHAR c = true
    · rw [if_pos hlocal, flatMap_append, flatMap_singleton, hrest, hmark]
      cases before <;> simp [hlocal]
    · simp [hlocal]

theorem email_free {text : JsString} (hat : AT ∉ text) : email text = [] := by
  induction text with
  | nil => rfl
  | cons c rest ih =>
    have hrest := ih fun hmem => hat (mem_cons_of_mem c hmem)
    have hmark : (one (· == AT)) rest = [] := by
      cases rest with
      | nil => rfl
      | cons d rest =>
        have hother : d ≠ AT := fun heq => hat (heq ▸ mem_cons_of_mem c mem_cons_self)
        simp [one, hother]
    rw [email, Matcher.andThen] at hrest ⊢
    rw [plus]
    split
    · rw [flatMap_append, hrest, flatMap_singleton, Matcher.andThen, hmark]
      rfl
    · rfl

variable {replacement last rest : JsString}

/-- No address begins in what goes on with a character that no local part holds. -/
theorem email_stopped (rest : JsString) (hat : AT ∉ last)
    (hstop : last.rdropWhile EMAIL_LOCAL_CHAR = last) {more : JsString} (hmore : AT ∉ more)
    {part : JsString} (hpart : part <:+ last) (hne : part ≠ []) :
    email (part ++ more ++ AT :: rest) = [] := by
  have hfree : AT ∉ part ++ more := by
    rw [mem_append]
    exact fun hmem => hmem.elim (fun hin => hat (hpart.subset hin)) hmore
  rw [email_append rest hfree, if_neg]
  rintro ⟨-, hall⟩
  have hlast := rdropWhile_eq_self_iff.mp hstop (fun hnil => hne (by simpa [hnil] using hpart))
  rw [← hpart.getLast hne] at hlast
  exact hlast (hall _ (mem_append_left _ (getLast_mem hne)))

theorem replaceAll_missed (hat : AT ∉ last)
    (hmissed : last.rdropWhile EMAIL_LOCAL_CHAR = last \/ EMAIL_DOMAIN rest = []) :
    replaceAll email replacement (last ++ AT :: rest) =
      last ++ AT :: replaceAll email replacement rest := by
  have hnone : ∀ part, part <:+ last ++ [AT] -> part ≠ [] -> email (part ++ rest) = [] := by
    intro part hpart hne
    obtain rfl | ⟨inner, rfl, hinner⟩ := suffix_concat_iff.mp hpart
    · exact absurd rfl hne
    · rw [append_assoc, singleton_append]
      rcases hmissed with hstop | hdomain
      · by_cases hnil : inner = []
        · rw [hnil]
          rfl
        · simpa using email_stopped rest hat hstop not_mem_nil hinner hnil
      · rw [email_append rest fun hmem => hat (hinner.subset hmem), hdomain, ite_self]
  have hall := replaceAll_append replacement rest hnone
  rwa [append_assoc, append_assoc] at hall

theorem replaceAll_hit (hat : AT ∉ last) (hlocal : last.rdropWhile EMAIL_LOCAL_CHAR ≠ last)
    {left : JsString} (hdomain : (EMAIL_DOMAIN rest).head? = some left) :
    replaceAll email replacement (last ++ AT :: rest) =
      last.rdropWhile EMAIL_LOCAL_CHAR ++ replacement ++
        replaceAll email replacement (rest.drop (rest.length - left.length)) := by
  obtain ⟨before, hbefore⟩ : ∃ before, last.rdropWhile EMAIL_LOCAL_CHAR = before := ⟨_, rfl⟩
  have hsplit : last.rdropWhile EMAIL_LOCAL_CHAR ++ last.rtakeWhile EMAIL_LOCAL_CHAR = last :=
    rdropWhile_append_rtakeWhile
  have hlocals : ∀ c ∈ last.rtakeWhile EMAIL_LOCAL_CHAR, EMAIL_LOCAL_CHAR c = true :=
    fun c hc => mem_rtakeWhile_imp hc
  have hstop : before.rdropWhile EMAIL_LOCAL_CHAR = before := by
    rw [← hbefore]
    exact rdropWhile_idempotent _ _
  rw [hbefore] at hsplit hlocal ⊢
  generalize last.rtakeWhile EMAIL_LOCAL_CHAR = taken at hsplit hlocals
  subst hsplit
  obtain ⟨hatBefore, hatTaken⟩ := not_or.mp (mt mem_append.mpr hat)
  rw [append_assoc, replaceAll_append, append_assoc]
  · congr 1
    cases taken with
    | nil => simp at hlocal
    | cons c taken =>
      have hhere := email_append rest hatTaken
      rw [if_pos ⟨cons_ne_nil _ _, hlocals⟩] at hhere
      have hle : left.length ≤ rest.length := forward_domain rest left (mem_of_head? hdomain)
      rw [cons_append, replaceAll, ← cons_append, hhere, hdomain]
      have hlength : (taken ++ AT :: rest).length - left.length =
          (taken ++ [AT]).length + (rest.length - left.length) := by
        simp only [length_append, length_cons, length_nil]
        omega
      have hdrop : (taken ++ AT :: rest).drop ((taken ++ AT :: rest).length - left.length) =
          rest.drop (rest.length - left.length) := by
        rw [hlength, append_cons taken AT rest, drop_length_add_append]
      dsimp only
      rw [hdrop]
  · intro part hpart hne
    rw [← append_assoc]
    exact email_stopped rest hatBefore hstop hatTaken hpart hne

theorem passed (before : JsString) :
    (before ++ [AT]).rdropWhile EMAIL_LOCAL_CHAR = before ++ [AT] :=
  rdropWhile_concat_neg _ _ _ (by decide)

/-- What stands before `last` holds no part of an address any more. -/
theorem scan_eq (pending ahead : JsString) :
    ∀ done last, done.rdropWhile EMAIL_LOCAL_CHAR = done -> AT ∉ last -> pending = done ++ last ->
      scan replacement pending ahead = done ++ replaceAll email replacement (last ++ ahead) := by
  fun_induction scan replacement pending ahead with
  | case1 pending =>
    rintro done last - hat rfl
    have hnone : ∀ part, part <:+ last -> part ≠ [] -> email (part ++ []) = [] := by
      intro part hpart _
      rw [append_nil]
      exact email_free fun hmem => hat (hpart.subset hmem)
    have hfree := replaceAll_append replacement [] hnone
    rw [hfree, replaceAll, append_nil]
  | case2 pending rest start hstart ih =>
    rintro done last hdone hat rfl
    have hall : done ++ last = done ++ last.rdropWhile EMAIL_LOCAL_CHAR :=
      hstart.symm.trans (rdropWhile_append hdone last)
    rw [ih _ [] (passed _) not_mem_nil (append_nil _).symm, nil_append,
      replaceAll_missed hat (.inl (append_cancel_left hall).symm)]
    simp
  | case3 pending rest start hstart hnone ih =>
    rintro done last - hat rfl
    rw [ih _ [] (passed _) not_mem_nil (append_nil _).symm, nil_append,
      replaceAll_missed hat (.inr (head?_eq_none_iff.mp hnone))]
    simp
  | case4 pending rest start hstart left hsome ih =>
    rintro done last hdone hat rfl
    have hall : start = done ++ last.rdropWhile EMAIL_LOCAL_CHAR := rdropWhile_append hdone last
    have hlocal : last.rdropWhile EMAIL_LOCAL_CHAR ≠ last := by
      intro hstop
      exact hstart (hall.trans (congrArg (done ++ ·) hstop))
    rw [ih [] [] rfl not_mem_nil rfl, replaceAll_hit hat hlocal hsome, hall]
    simp
  | case5 pending c rest hother ih =>
    rintro done last hdone hat rfl
    have hfree : AT ∉ last ++ [c] := by
      rw [mem_append, mem_singleton]
      exact fun hmem => hmem.elim hat fun heq => hother heq.symm
    rw [ih done (last ++ [c]) hdone hfree (append_assoc _ _ _), append_assoc, singleton_append]

/-- The scan replaces what the expression matches. -/
theorem maskEmails_eq_replaceAll (text replacement : JsString) :
    maskEmails text replacement = replaceAll email replacement text :=
  scan_eq [] text [] [] rfl not_mem_nil rfl

end AnchorMind.Security.MaskedEmails
