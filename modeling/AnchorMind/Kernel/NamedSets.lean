import Mathlib.Data.Finset.Basic

/-!
# Named sets of items

An inverted index is a set of items for each name.  It stays within an entitlement
when every item is only in sets it is entitled to be in, and it holds an item exactly
under some names when it is in those sets and in no other.
-/

namespace AnchorMind.Kernel.NamedSets

abbrev Sets (Name Item : Type*) := Name -> Finset Item

section

variable {Name Item : Type*} [DecidableEq Name] [DecidableEq Item]

def add (sets : Sets Name Item) (names : List Name) (item : Item) : Sets Name Item :=
  fun name => if name ∈ names then insert item (sets name) else sets name

def remove (sets : Sets Name Item) (names : List Name) (item : Item) :
    Sets Name Item :=
  fun name => if name ∈ names then (sets name).erase item else sets name

variable {sets : Sets Name Item} {names more : List Name} {name : Name} {item other : Item}

theorem mem_add :
    other ∈ add sets names item name <-> (other = item /\ name ∈ names) \/ other ∈ sets name := by
  unfold add
  split
  · rename_i hname
    simp [hname]
  · rename_i hname
    simp [hname]

theorem mem_remove :
    other ∈ remove sets names item name <->
      Not (other = item /\ name ∈ names) /\ other ∈ sets name := by
  unfold remove
  split
  · rename_i hname
    simp [hname]
  · rename_i hname
    simp [hname]

variable {entitled after : Item -> Name -> Prop}

def Within (sets : Sets Name Item) (entitled : Item -> Name -> Prop) : Prop :=
  ∀ item name, item ∈ sets name -> entitled item name

section

variable (hwithin : Within sets entitled)
include hwithin

omit [DecidableEq Name] [DecidableEq Item] in
theorem Within.mono (hmore : ∀ item name, entitled item name -> after item name) :
    Within sets after :=
  fun item name hmem => hmore item name (hwithin item name hmem)

theorem Within.add (hnames : ∀ name ∈ names, entitled item name) :
    Within (add sets names item) entitled := by
  intro other name hmem
  rcases mem_add.mp hmem with ⟨rfl, hname⟩ | hold
  · exact hnames name hname
  · exact hwithin other name hold

theorem Within.remove (hnames : ∀ name, entitled item name -> name ∈ names) :
    Within (remove sets names item) fun other name => other ≠ item /\ entitled other name := by
  intro other name hmem
  obtain ⟨hnot, hold⟩ := mem_remove.mp hmem
  have hentitled := hwithin other name hold
  refine ⟨?_, hentitled⟩
  rintro rfl
  exact hnot ⟨rfl, hnames name hentitled⟩

theorem Within.removeAll {Entry : Type*} {entries : List Entry} {itemOf : Entry -> Item}
    {namesOf : Entry -> List Name}
    (hnames : ∀ entry ∈ entries, ∀ name, entitled (itemOf entry) name -> name ∈ namesOf entry) :
    Within (entries.foldl (fun sets entry =>
      NamedSets.remove sets (namesOf entry) (itemOf entry)) sets)
      fun other name => (∀ entry ∈ entries, other ≠ itemOf entry) /\
        entitled other name := by
  induction entries generalizing sets entitled with
  | nil => exact hwithin.mono fun _ _ hentitled => ⟨nofun, hentitled⟩
  | cons entry rest ih =>
    have hfirst := hwithin.remove (hnames entry List.mem_cons_self)
    have hrest := ih hfirst fun later hlater name hboth =>
      hnames later (List.mem_cons_of_mem _ hlater) name hboth.2
    refine hrest.mono ?_
    rintro other name ⟨hothers, hne, hentitled⟩
    refine ⟨fun wanted hwanted => ?_, hentitled⟩
    rcases List.mem_cons.mp hwanted with rfl | hlater
    · exact hne
    · exact hothers wanted hlater

end

def Exactly (sets : Sets Name Item) (item : Item) (names : List Name) : Prop :=
  ∀ name, item ∈ sets name <-> name ∈ names

theorem Exactly.remove (hexact : Exactly sets item names) (hmore : names ⊆ more) :
    Exactly (remove sets more item) item [] := by
  intro name
  rw [mem_remove, hexact name]
  constructor
  · rintro ⟨hnot, hname⟩
    exact absurd ⟨rfl, hmore hname⟩ hnot
  · intro hname
    cases hname

theorem Exactly.add (hexact : Exactly sets item []) : Exactly (add sets names item) item names := by
  intro name
  rw [mem_add, hexact name]
  simp

end

end AnchorMind.Kernel.NamedSets
