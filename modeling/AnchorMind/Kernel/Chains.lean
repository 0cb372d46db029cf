import Mathlib.Data.List.Basic
import Mathlib.Logic.Relation
import Mathlib.Order.Basic

/-!
# Simple chains

Edges that lead from earlier to later items, with at most one edge into an item and at
most one out of it.  They have no cycle, and another edge may be added between an earlier
item that no edge leaves and a later one that no edge enters.
-/

namespace AnchorMind.Kernel.Chains

open List

variable {Item : Type*} [Preorder Item] {edge : Item -> Item -> Prop} {first last : Item}

structure Chained (edge : Item -> Item -> Prop) : Prop where
  forward : ∀ a b, edge a b -> a < b
  onePredecessor : ∀ a a' b, edge a b -> edge a' b -> a = a'
  oneSuccessor : ∀ a b b', edge a b -> edge a b' -> b = b'

theorem Chained.acyclic (hchained : Chained edge) (item : Item) :
    Not (Relation.TransGen edge item item) := by
  have hforward : ∀ a b, Relation.TransGen edge a b -> a < b := by
    intro a b hpath
    induction hpath with
    | single hedge => exact hchained.forward _ _ hedge
    | tail _ hedge ih => exact lt_trans ih (hchained.forward _ _ hedge)
  exact fun hcycle => lt_irrefl item (hforward item item hcycle)

theorem Chained.link (hchained : Chained edge) (hlt : first < last)
    (hfirst : ∀ b, Not (edge first b)) (hlast : ∀ a, Not (edge a last)) :
    Chained fun a b => edge a b \/ a = first /\ b = last where
  forward := by
    rintro a b (hedge | ⟨rfl, rfl⟩)
    · exact hchained.forward a b hedge
    · exact hlt
  onePredecessor := by
    rintro a a' b (hedge | ⟨rfl, rfl⟩) (hedge' | ⟨rfl, hb⟩)
    · exact hchained.onePredecessor a a' b hedge hedge'
    · exact absurd hedge (hb ▸ hlast a)
    · exact absurd hedge' (hlast a')
    · rfl
  oneSuccessor := by
    rintro a b b' (hedge | ⟨rfl, rfl⟩) (hedge' | ⟨ha, rfl⟩)
    · exact hchained.oneSuccessor a b b' hedge hedge'
    · exact absurd hedge (ha ▸ hfirst b)
    · exact absurd hedge' (hfirst b')
    · rfl

end AnchorMind.Kernel.Chains

/-!
# Chains of numbered rows

Each row has the number after the one before it and fits the tag of the one before it.  A
chain may be cut anywhere, and grows at its end.
-/

namespace AnchorMind.Kernel.NumberedChain

open List

structure Links (Row Tag : Type*) where
  number : Row -> Nat
  tag : Row -> Tag
  fits : Tag -> Row -> Prop

namespace Links

variable {Row Tag : Type*} (links : Links Row Tag)

def Chained : Nat -> Tag -> List Row -> Prop
  | _, _, [] => True
  | number, tag, row :: rest =>
    links.number row = number /\ links.fits tag row /\
      Chained (number + 1) (links.tag row) rest

def endTag (tag : Tag) (rows : List Row) : Tag := (rows.getLast?.map links.tag).getD tag

variable {links} {number : Nat} {tag : Tag} {row : Row} {front back rows : List Row}

theorem endTag_nil : links.endTag tag [] = tag := rfl

theorem endTag_concat : links.endTag tag (front ++ [row]) = links.tag row := by simp [endTag]

theorem endTag_cons : links.endTag tag (row :: rows) = links.endTag (links.tag row) rows := by
  cases rows with
  | nil => rfl
  | cons next rest =>
    obtain ⟨front, last, hlast⟩ := eq_nil_or_concat' (next :: rest) |>.resolve_left
      (cons_ne_nil next rest)
    rw [hlast, <- cons_append, endTag_concat, endTag_concat]

theorem endTag_append : links.endTag tag (front ++ back) =
    links.endTag (links.endTag tag front) back := by
  induction front generalizing tag with
  | nil => rfl
  | cons row rest ih => rw [cons_append, endTag_cons, ih, endTag_cons]

namespace Chained

theorem append_iff : links.Chained number tag (front ++ back) <->
    links.Chained number tag front /\
      links.Chained (number + front.length) (links.endTag tag front) back := by
  induction front generalizing number tag with
  | nil => simp [Chained, endTag_nil]
  | cons row rest ih =>
    simp only [cons_append, Chained, ih, length_cons, endTag_cons,
      Nat.add_assoc, Nat.add_comm 1, and_assoc]

section

variable (hchained : links.Chained number tag rows)
include hchained

theorem concat (hnumber : links.number row = number + rows.length)
    (hfits : links.fits (links.endTag tag rows) row) : links.Chained number tag (rows ++ [row]) :=
  append_iff.mpr ⟨hchained, hnumber, hfits, trivial⟩

theorem number_bounds (hmem : row ∈ rows) :
    number <= links.number row /\ links.number row < number + rows.length := by
  induction rows generalizing number tag with
  | nil => cases hmem
  | cons first rest ih =>
    obtain ⟨hfirst, _, hrest⟩ := hchained
    rcases mem_cons.mp hmem with rfl | hlater
    · simp only [length_cons]
      omega
    · have hbounds := ih hrest hlater
      simp only [length_cons]
      omega

theorem number_getLast (hlast : rows.getLast? = some row) :
    links.number row + 1 = number + rows.length := by
  obtain ⟨front, rfl⟩ := getLast?_eq_some_iff.mp hlast
  obtain ⟨_, hnumber, _⟩ := append_iff.mp hchained
  rw [length_append, length_singleton, hnumber]
  omega

theorem exists_number {wanted : Nat} (hlow : number <= wanted)
    (hhigh : wanted < number + rows.length) :
    ∃ front row back, rows = front ++ row :: back /\ links.number row = wanted /\
      number + front.length = wanted := by
  induction rows generalizing number tag with
  | nil =>
    simp only [length_nil] at hhigh
    omega
  | cons first rest ih =>
    obtain ⟨hfirst, _, hrest⟩ := hchained
    rcases Nat.eq_or_lt_of_le hlow with rfl | hlater
    · exact ⟨[], first, rest, rfl, hfirst, rfl⟩
    · obtain ⟨front, row, back, rfl, hrow, hplace⟩ := ih hrest hlater (by
        simp only [length_cons] at hhigh
        omega)
      refine ⟨first :: front, row, back, rfl, hrow, ?_⟩
      simp only [length_cons]
      omega

end

theorem filter_after (hchained : links.Chained number tag (front ++ back)) {after : Nat}
    (hafter : after + 1 = number + front.length) :
    (front ++ back).filter (fun row => decide (after < links.number row)) = back := by
  obtain ⟨hfront, hback⟩ := append_iff.mp hchained
  have hnone : front.filter (fun row => decide (after < links.number row)) = [] := by
    refine filter_eq_nil_iff.mpr fun row hmem => ?_
    have hbounds := number_bounds hfront hmem
    simp only [decide_eq_true_eq]
    omega
  have hall : back.filter (fun row => decide (after < links.number row)) = back := by
    refine filter_eq_self.mpr fun row hmem => ?_
    have hbounds := number_bounds hback hmem
    simp only [decide_eq_true_eq]
    omega
  rw [filter_append, hnone, hall, nil_append]

end Chained

end Links

end AnchorMind.Kernel.NumberedChain

/-!
# Successors of retired items

An item that is retired names a later one as its successor.  Every retired item leads
to one that is not, and stays so when one more item is retired and the links that name
it are kept or moved to its successor.
-/

namespace AnchorMind.Kernel.Succession

open List

variable {Item : Type*}

def Hop (retired : Item -> Prop) (link later : Item -> Item -> Prop) (item next : Item) : Prop :=
  retired item /\ link item next /\ later item next

def Succeeded (retired stands : Item -> Prop) (link later : Item -> Item -> Prop) : Prop :=
  ∀ item, retired item ->
    ∃ last, stands last /\ Relation.TransGen (Hop retired link later) item last

variable {retired stands after : Item -> Prop} {link relinked later : Item -> Item -> Prop}
  {old keep : Item}

theorem not_transGen_self (htrans : ∀ a b c, later a b -> later b c -> later a c)
    (hirrefl : ∀ a, Not (later a a)) (item : Item) :
    Not (Relation.TransGen (Hop retired link later) item item) := by
  have hlater : ∀ a b, Relation.TransGen (Hop retired link later) a b -> later a b := by
    intro a b hchain
    induction hchain with
    | single hop => exact hop.2.2
    | tail _ hop ih => exact htrans _ _ _ ih hop.2.2
  exact fun hcycle => hirrefl item (hlater item item hcycle)

section Retire

variable (htrans : ∀ a b c, later a b -> later b c -> later a c)
  (hafter : ∀ item, after item <-> retired item \/ item = old)
  (hold : Not (retired old))
  (hlater : later old keep) (hlink : relinked old keep)
  (hkept : ∀ item next, retired item -> link item next -> next ≠ old -> relinked item next)
  (hmoved : ∀ item, retired item -> link item old ->
    relinked item old \/ relinked item keep)

include htrans hafter hold hlater hlink hkept hmoved

theorem transGen_retire {item last : Item}
    (hchain : Relation.TransGen (Hop retired link later) item last) :
    (last ≠ old -> Relation.TransGen (Hop after relinked later) item last) /\
      (last = old -> Relation.TransGen (Hop after relinked later) item keep) := by
  have hup : Hop after relinked later old keep := ⟨(hafter old).mpr (.inr rfl), hlink, hlater⟩
  have hstep : ∀ a b, Hop retired link later a b -> b ≠ old -> Hop after relinked later a b :=
    fun a b hop hne => ⟨(hafter a).mpr (.inl hop.1), hkept a b hop.1 hop.2.1 hne, hop.2.2⟩
  have hlast : ∀ a, Hop retired link later a old ->
      Relation.TransGen (Hop after relinked later) a keep := by
    intro a hop
    have hretired := (hafter a).mpr (.inl hop.1)
    rcases hmoved a hop.1 hop.2.1 with hstays | hmoves
    · exact .tail (.single ⟨hretired, hstays, hop.2.2⟩) hup
    · exact .single ⟨hretired, hmoves, htrans _ _ _ hop.2.2 hlater⟩
  induction hchain with
  | single hop =>
    constructor
    · exact fun hne => .single (hstep _ _ hop hne)
    · rintro rfl
      exact hlast _ hop
  | tail _ hop ih =>
    have hbefore := ih.1 fun heq => hold (heq ▸ hop.1)
    constructor
    · exact fun hne => .tail hbefore (hstep _ _ hop hne)
    · rintro rfl
      exact hbefore.trans (hlast _ hop)

theorem Succeeded.retire {stood : Item -> Prop}
    (hstands : ∀ item, stood item -> item ≠ old -> stands item) (hkeep : stands keep)
    (hsucceeded : Succeeded retired stood link later) : Succeeded after stands relinked later := by
  intro item hitem
  rcases (hafter item).mp hitem with hretired | rfl
  · obtain ⟨last, hstood, hchain⟩ := hsucceeded item hretired
    obtain ⟨hother, hend⟩ :=
      transGen_retire htrans hafter hold hlater hlink hkept hmoved hchain
    rcases Classical.em (last = old) with hlast | hlast
    · exact ⟨keep, hkeep, hend hlast⟩
    · exact ⟨last, hstands last hstood hlast, hother hlast⟩
  · exact ⟨keep, hkeep, .single ⟨(hafter item).mpr (.inr rfl), hlink, hlater⟩⟩

end Retire

section Acyclic

variable {edge : Item -> Item -> Prop} {next : Item}

/-- A path with one more edge into an item without successors either does without it or
ends there. -/
theorem transGen_or_eq_of_insert (hend : ∀ item, Not (edge next item)) (hne : old ≠ next)
    {item last : Item}
    (hpath : Relation.TransGen (fun a b => edge a b \/ (a = old /\ b = next)) item last) :
    Relation.TransGen edge item last \/ last = next := by
  have hstop : ∀ last, Not (edge next last \/ (next = old /\ last = next)) := by
    rintro last (hedge | ⟨heq, -⟩)
    · exact hend last hedge
    · exact hne heq.symm
  induction hpath with
  | single hstep =>
    rcases hstep with hedge | ⟨-, rfl⟩
    · exact .inl (.single hedge)
    · exact .inr rfl
  | tail _ hstep ih =>
    rcases ih with hbefore | rfl
    · rcases hstep with hedge | ⟨-, rfl⟩
      · exact .inl (.tail hbefore hedge)
      · exact .inr rfl
    · exact absurd hstep (hstop _)

theorem acyclic_insert (hacyclic : ∀ item, Not (Relation.TransGen edge item item))
    (hend : ∀ item, Not (edge next item)) (hne : old ≠ next) (item : Item) :
    Not (Relation.TransGen (fun a b => edge a b \/ (a = old /\ b = next)) item item) := by
  intro hcycle
  rcases transGen_or_eq_of_insert hend hne hcycle with hbefore | rfl
  · exact hacyclic item hbefore
  · obtain ⟨last, hstep, -⟩ := Relation.TransGen.head'_iff.mp hcycle
    rcases hstep with hedge | ⟨heq, -⟩
    · exact hend last hedge
    · exact hne heq.symm

end Acyclic

end AnchorMind.Kernel.Succession

/-!
# Superseded items

Items of a collection belong to groups and have a level.  A collection that loses an item
only when its group has one of a higher level never loses a group, however often and in
whatever order items are lost.
-/

namespace AnchorMind.Kernel.Supersession

open List

variable {Item Group Level : Type*} [Preorder Level] {group : Item -> Group}
  {level : Item -> Level}

def Present (group : Item -> Group) (items : List Item) (among : Group) : Prop :=
  ∃ item ∈ items, group item = among

def Above (group : Item -> Group) (level : Item -> Level) (items : List Item) (among : Group)
    (bound : Level) : Prop :=
  ∃ item ∈ items, group item = among /\ bound < level item

def Loses (items after : List Item) (lost : Item) : Prop :=
  ∀ item ∈ items, item = lost \/ item ∈ after

variable {items after : List Item} {among : Group}

theorem Present.keep (hpresent : Present group items among) (hkeep : ∀ item ∈ items, item ∈ after) :
    Present group after among := by
  obtain ⟨item, hmem, hgroup⟩ := hpresent
  exact ⟨item, hkeep item hmem, hgroup⟩

variable {bound : Level}

theorem Above.keep (habove : Above group level items among bound)
    (hkeep : ∀ item ∈ items, item ∈ after) : Above group level after among bound := by
  obtain ⟨item, hmem, hgroup, hlevel⟩ := habove
  exact ⟨item, hkeep item hmem, hgroup, hlevel⟩

variable {lost : Item}

section

variable (hloses : Loses items after lost)
include hloses

section

variable (hsuperseded : Above group level items (group lost) (level lost))
include hsuperseded

theorem Loses.superseding : Above group level after (group lost) (level lost) := by
  obtain ⟨item, hmem, hgroup, hlevel⟩ := hsuperseded
  rcases hloses item hmem with rfl | hthere
  · exact absurd hlevel (lt_irrefl _)
  · exact ⟨item, hthere, hgroup, hlevel⟩

theorem Loses.above (habove : Above group level items among bound) :
    Above group level after among bound := by
  obtain ⟨item, hmem, hgroup, hlevel⟩ := habove
  rcases hloses item hmem with rfl | hthere
  · obtain ⟨other, hother, hsame, hhigher⟩ := hloses.superseding hsuperseded
    exact ⟨other, hother, hsame.trans hgroup, hlevel.trans hhigher⟩
  · exact ⟨item, hthere, hgroup, hlevel⟩

theorem Loses.present (hpresent : Present group items among) : Present group after among := by
  obtain ⟨item, hmem, hgroup⟩ := hpresent
  rcases hloses item hmem with rfl | hthere
  · obtain ⟨other, hother, hsame, -⟩ := hloses.superseding hsuperseded
    exact ⟨other, hother, hsame.trans hgroup⟩
  · exact ⟨item, hthere, hgroup⟩

end

theorem Loses.above_other (hother : group lost ≠ among)
    (habove : Above group level items among bound) : Above group level after among bound := by
  obtain ⟨item, hmem, hgroup, hlevel⟩ := habove
  rcases hloses item hmem with rfl | hthere
  · exact absurd hgroup hother
  · exact ⟨item, hthere, hgroup, hlevel⟩

theorem Loses.present_other (hother : group lost ≠ among) (hpresent : Present group items among) :
    Present group after among := by
  obtain ⟨item, hmem, hgroup⟩ := hpresent
  rcases hloses item hmem with rfl | hthere
  · exact absurd hgroup hother
  · exact ⟨item, hthere, hgroup⟩

end

end AnchorMind.Kernel.Supersession
