import AnchorMind.Recall.BudgetBounds
import AnchorMind.Recall.Recaller

/-!
# Counts made during a request are exact

The counts kept beside a recall are keyed by the objects of the request.  Each
entry is the exact count of its object, so looking it up instead of counting
again changes nothing.
-/

namespace AnchorMind.Recall.ExactCounts

open Recall.Tokens Recall.BudgetSelector Recall.BudgetBounds Recall.Recaller List

section

variable {Id : Type*}

def Known (counter : TokenCounter) (counts : Counts Id) (known : List (Fragment Id)) : Prop :=
  ∀ f ∈ known, ∀ n, counts f.ref = some n -> n = fragmentTokens counter f

def Agree (counter : TokenCounter) (fragments known : List (Fragment Id)) : Prop :=
  ∀ f ∈ fragments, ∀ g ∈ known, f.ref = g.ref ->
    fragmentTokens counter f = fragmentTokens counter g

variable {counter : TokenCounter} {counts : Counts Id} {known fragments : List (Fragment Id)}

theorem known_noCounts : Known counter noCounts known := by
  intro f _ n hcount
  cases hcount

theorem Known.mono (hknown : Known counter counts known) (hsub : fragments ⊆ known) :
    Known counter counts fragments :=
  fun f hf => hknown f (hsub hf)

theorem Agree.mono {part : List (Fragment Id)} (hagree : Agree counter fragments known)
    (hsub : part ⊆ fragments) : Agree counter part known :=
  fun f hf => hagree f (hsub hf)

theorem Known.countedTokens_eq (hknown : Known counter counts known) {f : Fragment Id}
    (hf : f ∈ known) : countedTokens counter counts f = fragmentTokens counter f := by
  rw [countedTokens]
  cases hcount : counts f.ref with
  | none => rfl
  | some n => exact hknown f hf n hcount

theorem agree_self (hids : (known.map Fragment.id).Nodup) : Agree counter known known := by
  intro f hf g hg href
  have hsame : f = g := inj_on_of_nodup_map hids hf hg (congrArg Prod.fst href)
  rw [hsame]

variable [DecidableEq Id]

theorem Known.set (hknown : Known counter counts known) {f : Fragment Id} {tokens : Nat}
    (htokens : ∀ g ∈ known, f.ref = g.ref -> tokens = fragmentTokens counter g) :
    Known counter (counts.set f tokens) known := by
  intro g hg n hcount
  by_cases href : f.ref = g.ref
  · rw [Counts.set, href, Function.update_self] at hcount
    rw [← htokens g hg href]
    exact (Option.some.inj hcount).symm
  · rw [Counts.set, Function.update_of_ne (fun heq => href heq.symm)] at hcount
    exact hknown g hg n hcount

variable {budget : Rat}

theorem Known.countUntilOver (hagree : Agree counter fragments known) (exact : Nat)
    (hknown : Known counter counts known) :
    Known counter (countUntilOver counter budget fragments exact counts).2 known := by
  induction fragments generalizing exact counts with
  | nil => exact hknown
  | cons f rest ih =>
    have hset := hknown.set (hagree f mem_cons_self)
    rw [Tokens.countUntilOver]
    split
    · exact hset
    · exact ih (hagree.mono (subset_cons_self f rest)) _ hset

theorem Known.exceedsBudget (budget : Rat) (hagree : Agree counter fragments known)
    (hknown : Known counter counts known) :
    Known counter (exceedsBudget counter fragments budget counts).2 known := by
  unfold Tokens.exceedsBudget
  split
  · exact hknown
  · exact hknown.countUntilOver hagree 0

theorem Known.countPrefixExactly (hself : Agree counter known known) (hsub : fragments ⊆ known)
    (exact : Nat) (hknown : Known counter counts known) :
    Known counter (countPrefixExactly counter budget fragments exact counts) known := by
  induction fragments generalizing exact counts with
  | nil => exact hknown
  | cons f rest ih =>
    have hf : f ∈ known := hsub mem_cons_self
    have hset : Known counter (counts.set f (countedTokens counter counts f)) known := by
      rw [hknown.countedTokens_eq hf]
      exact hknown.set (hself f hf)
    rw [Tokens.countPrefixExactly]
    split
    · exact hset
    · exact ih (Subset.trans (subset_cons_self f rest) hsub) _ hset

theorem Known.partitionCandidates {includeSuperseded : Bool} {limit : Nat}
    (hself : Agree counter known known) (hsub : fragments ⊆ known)
    (hknown : Known counter counts known) :
    Known counter (partitionCandidates counter fragments budget includeSuperseded limit
      counts).counts known := by
  have hcurrent : Agree counter (fragments.filter (isCurrent includeSuperseded)) known :=
    hself.mono (Subset.trans (filter_subset_self ..) hsub)
  have hcounted := hknown.exceedsBudget budget hcurrent
  unfold BudgetSelector.partitionCandidates
  dsimp only
  split
  · rename_i hexceeds
    rw [hexceeds] at hcounted
    exact hcounted
  · rename_i hexceeds
    rw [hexceeds] at hcounted
    exact hcounted.countPrefixExactly hself hsub 0

end

section

variable {Id Value : Type*}

/-- What an object is counted as. -/
def signature (counter : TokenCounter) (f : Fragment Id) : Ref Id × Nat :=
  (f.ref, fragmentTokens counter f)

theorem attachStoredTokens_signature (counter : TokenCounter)
    (loader : List Id -> Option (Id -> Option Int)) (fragments : List (Fragment Id)) :
    (attachStoredTokens loader fragments).map (signature counter)
      = fragments.map (signature counter) := by
  unfold attachStoredTokens
  dsimp only
  split
  · rfl
  · rfl
  · rw [map_map]
    apply map_congr_left
    intro f _
    simp only [Function.comp_apply]
    split <;> rfl

variable [DecidableEq Id]

theorem countedResults_signature (backend : Backend Id Value) (params : RecallParams)
    (anchorTime : Int) (counter : TokenCounter) :
    (countedResults backend params anchorTime).1.map (signature counter)
      = (backend.search anchorTime).ordered.map (signature counter) := by
  unfold countedResults
  dsimp only
  split
  · rfl
  · rw [map_append, attachStoredTokens_signature, ← map_append, take_append_drop]

variable {present : List Id} {rows : List (Fragment Id)}

theorem addLinked_linked : ∀ f ∈ addLinked present rows, f.linked = true := by
  induction rows generalizing present with
  | nil =>
    intro f hf
    rw [addLinked] at hf
    cases hf
  | cons row rest ih =>
    rw [addLinked]
    split
    · exact ih
    · intro f hf
      rcases mem_cons.mp hf with rfl | hf
      · rfl
      · exact ih f hf

theorem addLinked_fresh : ∀ f ∈ addLinked present rows, f.id ∉ present := by
  induction rows generalizing present with
  | nil =>
    intro f hf
    rw [addLinked] at hf
    cases hf
  | cons row rest ih =>
    rw [addLinked]
    split
    · exact ih
    · rename_i hfresh
      intro f hf
      rcases mem_cons.mp hf with rfl | hf
      · exact hfresh
      · exact fun hin => ih f hf (mem_cons_of_mem _ hin)

theorem addLinked_idsNodup : ((addLinked present rows).map Fragment.id).Nodup := by
  induction rows generalizing present with
  | nil => exact nodup_nil
  | cons row rest ih =>
    rw [addLinked]
    split
    · exact ih
    · rw [map_cons, nodup_cons]
      refine ⟨?_, ih⟩
      intro hin
      obtain ⟨f, hf, hid⟩ := mem_map.mp hin
      exact addLinked_fresh f hf (hid ▸ mem_cons_self)

variable {backend : Backend Id Value} {params : RecallParams} {anchorTime : Int}
  {partition : Partition Id}

theorem loadLinkedFragments_linked :
    ∀ f ∈ loadLinkedFragments backend params anchorTime partition, f.linked = true := by
  unfold loadLinkedFragments
  dsimp only
  split
  · exact addLinked_linked
  · intro f hf
    cases hf

theorem loadLinkedFragments_idsNodup :
    ((loadLinkedFragments backend params anchorTime partition).map Fragment.id).Nodup := by
  unfold loadLinkedFragments
  dsimp only
  split
  · exact addLinked_idsNodup
  · exact nodup_nil

theorem countedResults_notLinked :
    ∀ f ∈ (countedResults backend params anchorTime).1, f.linked = false := by
  intro f hf
  have hsignature := mem_map_of_mem (f := signature backend.counter) hf
  rw [countedResults_signature] at hsignature
  obtain ⟨g, hg, hsame⟩ := mem_map.mp hsignature
  have hlinked : g.linked = f.linked := congrArg (fun pair => pair.1.2) hsame
  rw [← hlinked]
  exact (backend.search anchorTime).notLinked g hg

theorem countedResults_idsNodup :
    ((countedResults backend params anchorTime).1.map Fragment.id).Nodup := by
  have hids : ∀ fragments : List (Fragment Id), fragments.map Fragment.id
      = (fragments.map (signature backend.counter)).map fun pair => pair.1.1 := by
    intro fragments
    rw [map_map]
    rfl
  rw [hids, countedResults_signature, ← hids]
  exact (backend.search anchorTime).idsNodup

def objects (backend : Backend Id Value) (params : RecallParams) (anchorTime : Int) :
    List (Fragment Id) :=
  (countedResults backend params anchorTime).1 ++
    loadLinkedFragments backend params anchorTime (searchCandidates backend params anchorTime)

theorem agree_objects : Agree backend.counter (objects backend params anchorTime)
    (objects backend params anchorTime) := by
  intro f hf g hg href
  have hlinked : f.linked = g.linked := congrArg Prod.snd href
  rcases mem_append.mp hf with hf | hf <;> rcases mem_append.mp hg with hg | hg
  · exact agree_self countedResults_idsNodup f hf g hg href
  · rw [countedResults_notLinked f hf, loadLinkedFragments_linked g hg] at hlinked
    cases hlinked
  · rw [loadLinkedFragments_linked f hf, countedResults_notLinked g hg] at hlinked
    cases hlinked
  · exact agree_self loadLinkedFragments_idsNodup f hf g hg href

theorem agree_search_objects :
    Agree backend.counter (backend.search anchorTime).ordered
      (objects backend params anchorTime) := by
  intro f hf g hg href
  rcases mem_append.mp hg with hg | hg
  · have hsignature := mem_map_of_mem (f := signature backend.counter) hg
    rw [countedResults_signature] at hsignature
    obtain ⟨h, hh, hsame⟩ := mem_map.mp hsignature
    have hid : f.id = h.id :=
      (congrArg Prod.fst href).trans (congrArg (fun pair => pair.1.1) hsame).symm
    obtain rfl : f = h :=
      inj_on_of_nodup_map (backend.search anchorTime).idsNodup hf hh hid
    exact congrArg Prod.snd hsame
  · have hlinked : f.linked = g.linked := congrArg Prod.snd href
    rw [(backend.search anchorTime).notLinked f hf, loadLinkedFragments_linked g hg] at hlinked
    cases hlinked

theorem countedResults_known :
    Known backend.counter (countedResults backend params anchorTime).2
      (objects backend params anchorTime) := by
  have hagree : Agree backend.counter
      ((backend.search anchorTime).ordered.filter (isCurrent params.includeSuperseded))
      (objects backend params anchorTime) :=
    agree_search_objects.mono (filter_subset_self _)
  have hcounted := known_noCounts.exceedsBudget params.budget hagree
  unfold countedResults
  dsimp only
  split
  · rename_i hexceeds
    rw [hexceeds] at hcounted
    exact hcounted
  · rename_i hexceeds
    rw [hexceeds] at hcounted
    exact hcounted

theorem partition_known :
    Known backend.counter (searchCandidates backend params anchorTime).counts
      (objects backend params anchorTime) :=
  Known.partitionCandidates agree_objects (subset_append_left _ _) countedResults_known

theorem partitionCandidates_subset {counter : TokenCounter} {ordered : List (Fragment Id)}
    {budget : Rat} {includeSuperseded : Bool} {limit : Nat} {counts : Counts Id} :
    (partitionCandidates counter ordered budget includeSuperseded limit counts).candidates
      ⊆ ordered := by
  unfold partitionCandidates
  dsimp only
  split
  · exact filter_subset_self _
  · intro f hf
    rcases mem_append.mp hf with hf | hf
    · exact mem_of_mem_take (mem_of_mem_filter hf)
    · exact (trimInSearchOrder_sublist {}).subset
        (mem_of_mem_filter (mem_of_mem_filter hf))

end

end AnchorMind.Recall.ExactCounts
