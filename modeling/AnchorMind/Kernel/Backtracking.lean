
/-!
# Backtracking matchers

A matcher gives, at a place in a text, every reading of what is ahead, in the order a
backtracking search comes to them; the search takes the first.  The rules say what holds
of every value a matcher reads.
-/

namespace AnchorMind.Kernel.Backtracking

open List

variable {Symbol Value Other : Type}

structure Place (Symbol : Type) where
  behind : List Symbol
  ahead : List Symbol

def Matcher (Symbol Value : Type) : Type := Place Symbol -> List (Value × Place Symbol)

instance : Monad (Matcher Symbol) where
  pure value := fun place => [(value, place)]
  bind matcher next := fun place =>
    (matcher place).flatMap fun reading => next reading.1 reading.2

/-- The readings of the one, then those of the other. -/
instance : OrElse (Matcher Symbol Value) where
  orElse one other := fun place => one place ++ other () place

namespace Matcher

def symbol (kind : Symbol -> Bool) : Matcher Symbol Symbol
  | ⟨behind, next :: ahead⟩ => if kind next then [(next, ⟨next :: behind, ahead⟩)] else []
  | ⟨_, []⟩ => []

def upTo (kind : Symbol -> Bool) : Nat -> Matcher Symbol (List Symbol)
  | 0 => pure []
  | limit + 1 =>
    (do
      let first <- symbol kind
      let rest <- upTo kind limit
      pure (first :: rest)) <|> pure []

def exactly (kind : Symbol -> Bool) : Nat -> Matcher Symbol (List Symbol)
  | 0 => pure []
  | count + 1 => do
      let first <- symbol kind
      let rest <- exactly kind count
      pure (first :: rest)

/-- Between `least` and `most` symbols of a kind. -/
def between (kind : Symbol -> Bool) (least most : Nat) : Matcher Symbol (List Symbol) := do
  let first <- exactly kind least
  let rest <- upTo kind (most - least)
  pure (first ++ rest)

/-- Any number of symbols of a kind, from `least` on. -/
def many (kind : Symbol -> Bool) (least : Nat) : Matcher Symbol (List Symbol) :=
  fun place => between kind least (least + place.ahead.length) place

/-- The symbols of a text, each up to what `fold` makes of it. -/
def literal [DecidableEq Symbol] (fold : Symbol -> Symbol) : List Symbol -> Matcher Symbol PUnit
  | [] => pure ⟨⟩
  | first :: rest => do
      let _ <- symbol fun next => fold next == fold first
      literal fold rest

def oneOf [DecidableEq Symbol] (fold : Symbol -> Symbol) :
    List (List Symbol × Value) -> Matcher Symbol Value
  | [] => fun _ => []
  | (text, value) :: table =>
    (do
      literal fold text
      pure value) <|> oneOf fold table

def optional (matcher : Matcher Symbol Value) : Matcher Symbol (Option Value) :=
  (do
    let value <- matcher
    pure (some value)) <|> pure none

def check (holds : Place Symbol -> Bool) : Matcher Symbol PUnit :=
  fun place => if holds place then [(⟨⟩, place)] else []

/-- No reading of this is ahead. -/
def notBefore (matcher : Matcher Symbol Value) : Matcher Symbol PUnit :=
  check fun place => (matcher place).isEmpty

def notAfter (kind : Symbol -> Bool) : Matcher Symbol PUnit :=
  check fun place => !(place.behind.head?.any kind)

def atStart : Matcher Symbol PUnit := check fun place => place.behind.isEmpty

def atEnd : Matcher Symbol PUnit := check fun place => place.ahead.isEmpty

def boundary (kind : Symbol -> Bool) : Matcher Symbol PUnit :=
  check fun place => place.behind.head?.any kind != place.ahead.head?.any kind

def first (matcher : Matcher Symbol Value) (text : List Symbol) : Option Value :=
  (matcher ⟨[], text⟩).head?.map Prod.fst

end Matcher

structure Match (Value : Type) where
  index : Nat
  length : Nat
  value : Value
  deriving DecidableEq

def Place.next : Place Symbol -> Option (Place Symbol)
  | ⟨behind, symbol :: ahead⟩ => some ⟨symbol :: behind, ahead⟩
  | ⟨_, []⟩ => none

def scan (matcher : Matcher Symbol Value) : Nat -> Place Symbol -> List (Match Value)
  | 0, _ => []
  | fuel + 1, place =>
    match (matcher place).head? with
    | some (value, rest) =>
      ⟨place.behind.length, rest.behind.length - place.behind.length, value⟩ ::
        if rest.behind.length = place.behind.length then
          rest.next.elim [] (scan matcher fuel)
        else scan matcher fuel rest
    | none => place.next.elim [] (scan matcher fuel)

def matchAll (matcher : Matcher Symbol Value) (text : List Symbol) : List (Match Value) :=
  scan matcher (text.length + 1) ⟨[], text⟩

def Yields (matcher : Matcher Symbol Value) (holds : Value -> Prop) : Prop :=
  ∀ place reading, reading ∈ matcher place -> holds reading.1

namespace Yields

variable {holds : Value -> Prop} {after : Other -> Prop}

theorem pure {value : Value} (hvalue : holds value) :
    Yields (Pure.pure value : Matcher Symbol Value) holds := by
  intro place reading hreading
  rw [mem_singleton.mp hreading]
  exact hvalue

variable {matcher : Matcher Symbol Value}

theorem bind {next : Value -> Matcher Symbol Other} (hmatcher : Yields matcher holds)
    (hnext : ∀ value, holds value -> Yields (next value) after) :
    Yields (matcher >>= next) after := by
  intro place reading hreading
  obtain ⟨before, hbefore, hrest⟩ := mem_flatMap.mp hreading
  exact hnext before.1 (hmatcher place before hbefore) before.2 reading hrest

theorem next {next : Value -> Matcher Symbol Other} (hnext : ∀ value, Yields (next value) after) :
    Yields (matcher >>= next) after := by
  have hany : Yields matcher fun _ => True := fun _ _ _ => trivial
  exact hany.bind fun value _ => hnext value

theorem orElse {one other : Matcher Symbol Value} (hone : Yields one holds)
    (hother : Yields other holds) : Yields (one <|> other) holds := by
  intro place reading hreading
  rcases mem_append.mp hreading with hin | hin
  · exact hone place reading hin
  · exact hother place reading hin

variable {kind : Symbol -> Bool}

theorem symbol : Yields (Matcher.symbol kind) fun next => kind next = true := by
  intro place reading hreading
  obtain ⟨behind, ahead⟩ := place
  cases ahead with
  | nil => cases hreading
  | cons next ahead =>
    rw [Matcher.symbol] at hreading
    split at hreading
    · rename_i hkind
      rw [mem_singleton.mp hreading]
      exact hkind
    · cases hreading

def Row (kind : Symbol -> Bool) (most : Nat) (row : List Symbol) : Prop :=
  row.length ≤ most /\ ∀ next ∈ row, kind next = true

theorem Row.cons {most : Nat} {next : Symbol} {row : List Symbol} (hnext : kind next = true)
    (hrow : Row kind most row) : Row kind (most + 1) (next :: row) :=
  ⟨Nat.succ_le_succ hrow.1, forall_mem_cons.mpr ⟨hnext, hrow.2⟩⟩

theorem upTo (limit : Nat) : Yields (Matcher.upTo kind limit) (Row kind limit) := by
  induction limit with
  | zero => exact Yields.pure ⟨Nat.le_refl 0, forall_mem_nil _⟩
  | succ limit ih =>
    refine Yields.orElse ?_ (Yields.pure ⟨Nat.zero_le _, forall_mem_nil _⟩)
    exact Yields.symbol.bind fun next hnext => ih.bind fun row hrow =>
      Yields.pure (hrow.cons hnext)

theorem exactly (count : Nat) : Yields (Matcher.exactly kind count) (Row kind count) := by
  induction count with
  | zero => exact Yields.pure ⟨Nat.le_refl 0, forall_mem_nil _⟩
  | succ count ih =>
    exact Yields.symbol.bind fun next hnext => ih.bind fun row hrow =>
      Yields.pure (hrow.cons hnext)

theorem between {least most : Nat} (hle : least ≤ most) :
    Yields (Matcher.between kind least most) (Row kind most) := by
  refine (Yields.exactly least).bind fun first hfirst =>
    (Yields.upTo (most - least)).bind fun rest hrest => Yields.pure ⟨?_, ?_⟩
  · rw [length_append]
    have hlength := Nat.add_le_add hfirst.1 hrest.1
    omega
  · exact forall_mem_append.mpr ⟨hfirst.2, hrest.2⟩

theorem oneOf [DecidableEq Symbol] {fold : Symbol -> Symbol} {table : List (List Symbol × Value)}
    (htable : ∀ entry ∈ table, holds entry.2) : Yields (Matcher.oneOf fold table) holds := by
  induction table with
  | nil =>
    intro place reading hreading
    cases hreading
  | cons entry table ih =>
    obtain ⟨hentry, hrest⟩ := forall_mem_cons.mp htable
    exact Yields.orElse (Yields.next fun _ => Yields.pure hentry) (ih hrest)

theorem first (hmatcher : Yields matcher holds) {text : List Symbol} {value : Value}
    (hfirst : matcher.first text = some value) : holds value := by
  obtain ⟨reading, hhead, rfl⟩ := Option.map_eq_some_iff.mp hfirst
  exact hmatcher _ reading (mem_of_head? hhead)

theorem scan (hmatcher : Yields matcher holds) (fuel : Nat) :
    ∀ place found, found ∈ Backtracking.scan matcher fuel place -> holds found.value := by
  induction fuel with
  | zero =>
    intro place found hfound
    cases hfound
  | succ fuel ih =>
    intro place found hfound
    have hnext : ∀ here : Place Symbol,
        found ∈ here.next.elim [] (Backtracking.scan matcher fuel) -> holds found.value := by
      intro here hfound
      cases hstep : here.next with
      | none =>
        rw [hstep] at hfound
        cases hfound
      | some place =>
        rw [hstep] at hfound
        exact ih place found hfound
    rw [Backtracking.scan] at hfound
    split at hfound
    · rename_i value rest hhead
      rcases mem_cons.mp hfound with rfl | hfound
      · exact hmatcher place _ (mem_of_head? hhead)
      · split at hfound
        · exact hnext rest hfound
        · exact ih rest found hfound
    · exact hnext place hfound

theorem matchAll (hmatcher : Yields matcher holds) {text : List Symbol} {found : Match Value}
    (hfound : found ∈ matchAll matcher text) : holds found.value := hmatcher.scan _ _ found hfound

end Yields

end AnchorMind.Kernel.Backtracking
