import Mathlib.Data.List.Induction
import Mathlib.Data.List.Pairwise

/-!
# Keeping the first item of each key

A list is folded to the first item of each key, in order.  The first item of an
item's key is its leader.
-/

namespace AnchorMind.Kernel.FirstOf

open List

variable {Item Key : Type*} [DecidableEq Key] (key : Item -> Key)

def firsts (items : List Item) : List Item :=
  items.foldl (fun seen item =>
    if seen.any (fun earlier => decide (key earlier = key item)) then seen else seen ++ [item]) []

def leader (items : List Item) (item : Item) : Item :=
  (items.find? fun earlier => decide (key earlier = key item)).getD item

@[simp] theorem firsts_nil : firsts key [] = [] := rfl

theorem mem_keys_foldl (seen items : List Item) (wanted : Key) :
    (∃ item ∈ items.foldl (fun seen item =>
        if seen.any (fun earlier => decide (key earlier = key item)) then seen else seen ++ [item])
          seen, key item = wanted) <->
      (∃ item ∈ seen, key item = wanted) \/
        ∃ item ∈ items, key item = wanted := by
  induction items generalizing seen with
  | nil => simp
  | cons head rest ih =>
    rw [foldl_cons, ih]
    split
    · rename_i hseen
      obtain ⟨earlier, hearlier, hkey⟩ := any_eq_true.mp hseen
      have hkey : key earlier = key head := by simpa using hkey
      constructor
      · rintro (hold | ⟨item, hitem, hwanted⟩)
        · exact .inl hold
        · exact Or.inr ⟨item, mem_cons_of_mem _ hitem, hwanted⟩
      · rintro (hold | ⟨item, hitem, hwanted⟩)
        · exact .inl hold
        · rcases mem_cons.mp hitem with rfl | hitem
          · exact Or.inl ⟨earlier, hearlier, hkey.trans hwanted⟩
          · exact Or.inr ⟨item, hitem, hwanted⟩
    · simp only [mem_append, mem_cons]
      grind

theorem exists_mem_firsts (items : List Item) (wanted : Key) :
    (∃ item ∈ firsts key items, key item = wanted) <->
      ∃ item ∈ items, key item = wanted := by
  rw [firsts, mem_keys_foldl key]
  simp

section

variable {key} {items : List Item} {item other : Item}

theorem firsts_concat (items : List Item) (item : Item) :
    firsts key (items ++ [item]) =
      if ∃ earlier ∈ items, key earlier = key item then firsts key items
      else firsts key items ++ [item] := by
  have hany : ((firsts key items).any fun earlier => decide (key earlier = key item)) = true <->
      ∃ earlier ∈ items, key earlier = key item := by
    rw [any_eq_true, <- exists_mem_firsts key]
    simp
  rw [firsts, foldl_append, foldl_cons, foldl_nil]
  exact if_congr hany rfl rfl

theorem firsts_concat_of_seen (hseen : other ∈ items) (hkey : key other = key item) :
    firsts key (items ++ [item]) = firsts key items := by
  rw [firsts_concat, if_pos ⟨other, hseen, hkey⟩]

theorem firsts_concat_of_new (hnew : ∀ earlier ∈ items, key earlier ≠ key item) :
    firsts key (items ++ [item]) = firsts key items ++ [item] := by
  rw [firsts_concat, if_neg]
  rintro ⟨earlier, hearlier, hkey⟩
  exact hnew earlier hearlier hkey

theorem head?_firsts (item : Item) (items : List Item) :
    (firsts key (item :: items)).head? = some item := by
  induction items using reverseRecOn with
  | nil => rfl
  | append_singleton items last ih =>
    rw [<- cons_append, firsts_concat]
    split
    · exact ih
    · rw [head?_append, ih]
      rfl

theorem firsts_sublist (items : List Item) : (firsts key items).Sublist items := by
  induction items using reverseRecOn with
  | nil => exact Sublist.slnil
  | append_singleton items last ih =>
    rw [firsts_concat]
    split
    · exact ih.trans (sublist_append_left _ _)
    · exact ih.append (Sublist.refl _)

theorem mem_of_mem_firsts (hitem : item ∈ firsts key items) : item ∈ items :=
  (firsts_sublist items).subset hitem

theorem firsts_pairwise (items : List Item) :
    (firsts key items).Pairwise fun left right => key left ≠ key right := by
  induction items using reverseRecOn with
  | nil => exact Pairwise.nil
  | append_singleton items last ih =>
    rw [firsts_concat]
    split
    · exact ih
    · rename_i hnew
      rw [pairwise_append]
      refine ⟨ih, pairwise_singleton _ _, ?_⟩
      intro earlier hearlier other hother
      rw [mem_singleton.mp hother]
      intro hkey
      exact hnew ⟨earlier, mem_of_mem_firsts hearlier, hkey⟩

theorem eq_of_mem_firsts (hitem : item ∈ firsts key items) (hother : other ∈ firsts key items)
    (hkey : key item = key other) : item = other := by
  by_contra hne
  have hsymm : Std.Symm fun left right : Item => key left ≠ key right := ⟨fun _ _ h => h.symm⟩
  exact (firsts_pairwise items).forall hitem hother hne hkey

theorem filter_firsts (select : Item -> Bool)
    (hselect : ∀ left right, left ∈ items -> right ∈ items -> key left = key right ->
      select left = select right) :
    (firsts key items).filter select = firsts key (items.filter select) := by
  induction items using reverseRecOn with
  | nil => rfl
  | append_singleton items last ih =>
    have ih := ih fun left right hleft hright =>
      hselect left right (mem_append_left _ hleft) (mem_append_left _ hright)
    have hlast : last ∈ items ++ [last] := mem_append_right _ mem_cons_self
    rw [filter_append]
    cases hkeep : select last with
    | false =>
      have hdrop : [last].filter select = [] := by simp [hkeep]
      rw [hdrop, append_nil, <- ih, firsts_concat]
      split
      · rfl
      · rw [filter_append, hdrop, append_nil]
    | true =>
      have hstay : [last].filter select = [last] := by simp [hkeep]
      rw [hstay, firsts_concat, firsts_concat, <- ih]
      have hiff : (∃ earlier ∈ items, key earlier = key last) <->
          ∃ earlier ∈ items.filter select, key earlier = key last := by
        constructor
        · rintro ⟨earlier, hearlier, hkey⟩
          have hsame := hselect earlier last (mem_append_left _ hearlier) hlast hkey
          exact ⟨earlier, mem_filter.mpr ⟨hearlier, hsame.trans hkeep⟩, hkey⟩
        · rintro ⟨earlier, hearlier, hkey⟩
          exact ⟨earlier, (mem_filter.mp hearlier).1, hkey⟩
      rw [apply_ite (filter select), filter_append, hstay]
      exact if_congr hiff rfl rfl

end

section

variable {key} {items : List Item} {item other : Item}

theorem key_leader (items : List Item) (item : Item) : key (leader key items item) = key item := by
  unfold leader
  cases hfind : items.find? (fun earlier => decide (key earlier = key item)) with
  | none => rfl
  | some first => simpa using find?_some hfind

theorem leader_append (hseen : other ∈ items) (hkey : key other = key item) (more : List Item) :
    leader key (items ++ more) item = leader key items item := by
  unfold leader
  cases hfind : items.find? (fun earlier => decide (key earlier = key item)) with
  | none => simpa [hkey] using find?_eq_none.mp hfind other hseen
  | some first => rw [find?_append, hfind]; rfl

theorem leader_concat_self (hnew : ∀ earlier ∈ items, key earlier ≠ key item) (more : List Item) :
    leader key (items ++ item :: more) item = item := by
  have hnone : items.find? (fun earlier => decide (key earlier = key item)) = none := by
    rw [find?_eq_none]
    intro earlier hearlier
    simpa using hnew earlier hearlier
  simp [leader, find?_append, hnone]

theorem leader_mem_firsts (hseen : other ∈ items) (hkey : key other = key item) :
    leader key items item ∈ firsts key items := by
  induction items using reverseRecOn generalizing other with
  | nil => cases hseen
  | append_singleton items last ih =>
    rcases Classical.em (∃ earlier ∈ items, key earlier = key item) with
      ⟨earlier, hearlier, hsame⟩ | hnew
    · have hmem := ih hearlier hsame
      rw [leader_append hearlier hsame, firsts_concat]
      split
      · exact hmem
      · exact mem_append_left _ hmem
    · have hlast : other = last := by
        rcases mem_append.mp hseen with hold | hlast
        · exact absurd ⟨other, hold, hkey⟩ hnew
        · exact mem_singleton.mp hlast
      subst hlast
      have hnew' : ∀ earlier ∈ items, key earlier ≠ key other :=
        fun earlier hearlier hsame => hnew ⟨earlier, hearlier, hsame.trans hkey⟩
      have hlead : leader key (items ++ [other]) item = other := by
        have hnone : items.find? (fun earlier => decide (key earlier = key item)) = none := by
          rw [find?_eq_none]
          intro earlier hearlier
          simpa [hkey] using hnew' earlier hearlier
        simp [leader, find?_append, hnone, hkey]
      rw [hlead, firsts_concat_of_new hnew']
      exact mem_append_right _ mem_cons_self

theorem eq_leader (hother : other ∈ firsts key items) (hkey : key other = key item) :
    other = leader key items item :=
  eq_of_mem_firsts hother (leader_mem_firsts (mem_of_mem_firsts hother) hkey)
    (hkey.trans (key_leader items item).symm)

theorem filter_leader (hitem : item ∈ firsts key items) :
    items.filter (fun other => decide (key other = key item)) =
      item :: (items.filter fun other => key other = key item).drop 1 := by
  have hlead : item = leader key items item := eq_leader hitem rfl
  cases hfilter : items.filter (fun other => decide (key other = key item)) with
  | nil =>
    have hmem : item ∈ items.filter fun other => decide (key other = key item) :=
      mem_filter.mpr ⟨mem_of_mem_firsts hitem, by simp⟩
    rw [hfilter] at hmem
    cases hmem
  | cons first rest =>
    have hfind : items.find? (fun other => decide (key other = key item)) = some first := by
      rw [<- head?_filter, hfilter, head?_cons]
    rw [leader, hfind] at hlead
    rw [hlead]
    rfl

end

section

variable (absorb : Item -> Item -> Item)

def mergeStep (kept : List Item) (item : Item) : List Item :=
  if ∃ first ∈ kept, key first = key item then
    kept.map fun other => if key other = key item then absorb other item else other
  else kept ++ [item]

def gathered (items : List Item) (first : Item) : Item :=
  ((items.filter fun item => decide (key item = key first)).drop 1).foldl absorb first

variable {key absorb} {items : List Item} {first last : Item}

section

variable (hkey : ∀ first item, key (absorb first item) = key first)
include hkey

omit [DecidableEq Key] in
theorem key_foldl_absorb (items : List Item) (first : Item) :
    key (items.foldl absorb first) = key first := by
  induction items generalizing first with
  | nil => rfl
  | cons item rest ih => rw [foldl_cons, ih, hkey]

theorem key_gathered (items : List Item) (first : Item) :
    key (gathered key absorb items first) = key first :=
  key_foldl_absorb hkey _ first

omit hkey in
theorem gathered_concat (hmem : first ∈ items) :
    gathered key absorb (items ++ [last]) first =
      if key first = key last then absorb (gathered key absorb items first) last
      else gathered key absorb items first := by
  have hne : items.filter (fun item => decide (key item = key first)) ≠ [] :=
    ne_nil_of_mem (mem_filter.mpr ⟨hmem, by simp⟩)
  unfold gathered
  rw [filter_append]
  split
  · rename_i hsame
    have hlast : [last].filter (fun item => decide (key item = key first)) = [last] := by
      simp [hsame]
    rw [hlast, drop_append_of_le_length (length_pos_iff.mpr hne), foldl_append]
    rfl
  · rename_i hother
    have hlast : [last].filter (fun item => decide (key item = key first)) = [] := by
      simp [Ne.symm hother]
    rw [hlast, append_nil]

omit hkey in
theorem gathered_concat_self (hnew : ∀ item ∈ items, key item ≠ key last) :
    gathered key absorb (items ++ [last]) last = last := by
  have hnone : items.filter (fun item => decide (key item = key last)) = [] := by
    rw [filter_eq_nil_iff]
    intro item hitem
    simpa using hnew item hitem
  simp [gathered, filter_append, hnone]

theorem foldl_mergeStep (items : List Item) :
    items.foldl (mergeStep key absorb) [] =
      (firsts key items).map (gathered key absorb items) := by
  induction items using reverseRecOn with
  | nil => rfl
  | append_singleton items last ih =>
    have hmet : (∃ kept ∈ (firsts key items).map (gathered key absorb items),
        key kept = key last) <-> ∃ item ∈ items, key item = key last := by
      rw [<- exists_mem_firsts key items (key last)]
      simp only [mem_map, exists_exists_and_eq_and, key_gathered hkey]
    rw [foldl_append, foldl_cons, foldl_nil, ih, mergeStep, firsts_concat]
    by_cases hseen : ∃ item ∈ items, key item = key last
    · rw [if_pos (hmet.mpr hseen), if_pos hseen, map_map]
      refine map_congr_left ?_
      intro first hfirst
      rw [Function.comp_apply, gathered_concat (mem_of_mem_firsts hfirst), key_gathered hkey]
    · have hnew : ∀ item ∈ items, key item ≠ key last :=
        fun item hitem hsame => hseen ⟨item, hitem, hsame⟩
      rw [if_neg (fun hback => hseen (hmet.mp hback)), if_neg hseen, map_append,
        map_cons, map_nil, gathered_concat_self hnew]
      congr 1
      refine map_congr_left ?_
      intro first hfirst
      rw [gathered_concat (mem_of_mem_firsts hfirst),
        if_neg (hnew first (mem_of_mem_firsts hfirst))]

end

end

end AnchorMind.Kernel.FirstOf
