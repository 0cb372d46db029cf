import Mathlib.Data.List.SplitBy

/-!
# Codes that can be told apart from what follows

An encoding is readable at an item when its code, followed by nothing or by a stop,
determines the item and the rest.  Readable encodings compose: pairs behind a mark, and
lists whose items are separated and whose end is closed.
-/

namespace AnchorMind.Kernel.Delimited

open List

variable {Symbol Item Other : Type*}

def Stops (stop : Symbol -> Prop) (rest : List Symbol) : Prop :=
  ∀ symbol tail, rest = symbol :: tail -> stop symbol

def Readable (stop : Symbol -> Prop) (encode : Item -> List Symbol) (item : Item) : Prop :=
  ∀ other rest tail, Stops stop rest -> Stops stop tail ->
    encode item ++ rest = encode other ++ tail -> item = other /\ rest = tail

theorem append_mark_inj {mark : Symbol} {front other back rest : List Symbol} (hback : mark ∉ back)
    (hrest : mark ∉ rest) (hequal : front ++ mark :: back = other ++ mark :: rest) :
    front = other /\ back = rest := by
  rcases append_eq_append_iff.mp hequal with ⟨more, hother, hback'⟩ | ⟨more, hfront, hrest'⟩
  · cases more with
    | nil => exact ⟨by simpa using hother.symm, (cons.inj hback').2⟩
    | cons symbol more =>
      refine absurd ?_ hback
      rw [(cons.inj hback').2]
      simp
  · cases more with
    | nil => exact ⟨by simpa using hfront, (cons.inj hrest').2.symm⟩
    | cons symbol more =>
      refine absurd ?_ hrest
      rw [(cons.inj hrest').2]
      simp

def joined (separator : Symbol) : List (List Symbol) -> List Symbol
  | [] => []
  | [code] => code
  | code :: next :: rest => code ++ separator :: joined separator (next :: rest)

theorem mem_joined {separator symbol : Symbol} {codes : List (List Symbol)}
    (hmem : symbol ∈ joined separator codes) :
    symbol = separator \/ ∃ code ∈ codes, symbol ∈ code := by
  induction codes with
  | nil => cases hmem
  | cons code rest ih =>
    cases rest with
    | nil => exact .inr ⟨code, mem_cons_self, hmem⟩
    | cons next rest =>
      rcases mem_append.mp hmem with hcode | hrest
      · exact .inr ⟨code, mem_cons_self, hcode⟩
      · rcases mem_cons.mp hrest with hseparator | hjoined
        · exact .inl hseparator
        · rcases ih hjoined with hseparator | ⟨found, hfound, hsymbol⟩
          · exact .inl hseparator
          · exact .inr ⟨found, mem_cons_of_mem _ hfound, hsymbol⟩

variable {stop : Symbol -> Prop} {encode : Item -> List Symbol} {item : Item}

theorem Stops.nil : Stops stop [] := by
  intro symbol tail hnil
  cases hnil

theorem Stops.cons {symbol : Symbol} (hstop : stop symbol) (rest : List Symbol) :
    Stops stop (symbol :: rest) := by
  intro first tail hcons
  obtain rfl := (cons.inj hcons).1
  exact hstop

theorem Stops.true (rest : List Symbol) : Stops (fun _ => True) rest :=
  fun _ _ _ => trivial

namespace Readable

theorem of_reader (read : List Symbol -> Option (Item × List Symbol))
    (hread : ∀ item rest, Stops stop rest -> read (encode item ++ rest) = some (item, rest)) :
    Readable stop encode item := by
  intro other rest tail hrest htail hequal
  have hboth : some (item, rest) = some (other, tail) := by
    rw [<- hread item rest hrest, <- hread other tail htail, hequal]
  cases hboth
  exact ⟨rfl, rfl⟩

theorem of_free (hfree : ∀ item symbol, symbol ∈ encode item -> Not (stop symbol))
    (hinjective : ∀ other, encode item = encode other -> item = other) :
    Readable stop encode item := by
  intro other rest tail hrest htail hequal
  rcases append_eq_append_iff.mp hequal with ⟨more, hother, hrest'⟩ | ⟨more, hitem, htail'⟩
  · cases more with
    | nil => exact ⟨hinjective other (by simpa using hother.symm), by simpa using hrest'⟩
    | cons symbol more =>
      have hmem : symbol ∈ encode other := by simp [hother]
      exact absurd (hrest symbol _ hrest') (hfree other symbol hmem)
  · cases more with
    | nil => exact ⟨hinjective other (by simpa using hitem), by simpa using htail'.symm⟩
    | cons symbol more =>
      have hmem : symbol ∈ encode item := by simp [hitem]
      exact absurd (htail symbol _ htail') (hfree item symbol hmem)

theorem pair {second : Other -> List Symbol} {other : Other} (mark : Symbol)
    (hfirst : Readable (fun _ => True) encode item) (hsecond : Readable stop second other) :
    Readable stop (fun both : Item × Other => encode both.1 ++ mark :: second both.2)
      (item, other) := by
  rintro ⟨found, foundOther⟩ rest tail hrest htail hequal
  simp only [append_assoc, cons_append] at hequal
  obtain ⟨rfl, hmarked⟩ := hfirst found _ _ (.true _) (.true _) hequal
  obtain ⟨rfl, hlast⟩ := hsecond foundOther rest tail hrest htail (cons.inj hmarked).2
  exact ⟨rfl, hlast⟩

theorem list {separator close : Symbol} (hseparator : stop separator) (hclose : stop close)
    (hdistinct : separator ≠ close)
    (hstart : ∀ item, ∃ symbol code, encode item = symbol :: code /\ symbol ≠ close)
    {items : List Item} (hitems : ∀ item ∈ items, Readable stop encode item) (others : List Item)
    (rest tail : List Symbol)
    (hequal : joined separator (items.map encode) ++ close :: rest =
      joined separator (others.map encode) ++ close :: tail) : items = others /\ rest = tail := by
  have hnonempty : ∀ item (more : List Item) (after before : List Symbol),
      joined separator ((item :: more).map encode) ++ after ≠ close :: before := by
    intro item more after before hbad
    obtain ⟨symbol, code, hcode, hne⟩ := hstart item
    cases more with
    | nil =>
      simp only [map_cons, map_nil, joined, hcode, cons_append] at hbad
      exact hne (cons.inj hbad).1
    | cons next more =>
      simp only [map_cons, joined, hcode, cons_append] at hbad
      exact hne (cons.inj hbad).1
  induction items generalizing others with
  | nil =>
    cases others with
    | nil => exact ⟨rfl, (cons.inj hequal).2⟩
    | cons other others => exact absurd hequal.symm (hnonempty other others _ _)
  | cons item items ih =>
    have hitem := hitems item mem_cons_self
    cases others with
    | nil => exact absurd hequal (hnonempty item items _ _)
    | cons other others =>
      cases items with
      | nil =>
        cases others with
        | nil =>
          obtain ⟨rfl, hrest⟩ := hitem other _ _ (.cons hclose rest) (.cons hclose tail)
            hequal
          exact ⟨rfl, (cons.inj hrest).2⟩
        | cons next others =>
          simp only [map_cons, map_nil, joined, append_assoc] at hequal
          obtain ⟨_, hrest⟩ := hitem other _ _ (.cons hclose rest)
            (.cons hseparator _) hequal
          exact absurd (cons.inj hrest).1.symm hdistinct
      | cons following items =>
        cases others with
        | nil =>
          simp only [map_cons, map_nil, joined, append_assoc] at hequal
          obtain ⟨_, hrest⟩ := hitem other _ _ (.cons hseparator _)
            (.cons hclose tail) hequal
          exact absurd (cons.inj hrest).1 hdistinct
        | cons next others =>
          simp only [map_cons, joined, append_assoc] at hequal
          obtain ⟨rfl, hrest⟩ := hitem other _ _ (.cons hseparator _)
            (.cons hseparator _) hequal
          have hmore := ih (fun later hlater =>
            hitems later (mem_cons_of_mem _ hlater)) (next :: others)
            (cons.inj hrest).2
          exact ⟨congrArg (item :: ·) hmore.1, hmore.2⟩

end Readable

end AnchorMind.Kernel.Delimited

/-!
# Texts written piece by piece

Every symbol is written as a piece of code, and a reader takes one piece after another.  A
text may be cut between two pieces, and a run of one code may be kept out of it.
-/

namespace AnchorMind.Kernel.PieceCodes

open List

variable {Code Symbol : Type*}

def readAll (read : List Code -> Option (Symbol × List Code)) : Nat -> List Code -> List Symbol
  | 0, _ => []
  | fuel + 1, text =>
    match read text with
    | none => []
    | some (symbol, rest) => symbol :: readAll read fuel rest

def ReadsBack (read : List Code -> Option (Symbol × List Code)) (symbol : Symbol)
    (piece : List Code) : Prop :=
  piece ≠ [] /\ ∀ rest, read (piece ++ rest) = some (symbol, rest)

theorem readAll_flatten {read : List Code -> Option (Symbol × List Code)} (hnil : read [] = none)
    {symbols : List Symbol} {pieces : List (List Code)}
    (hpieces : Forall₂ (ReadsBack read) symbols pieces) {fuel : Nat}
    (hfuel : pieces.flatten.length ≤ fuel) : readAll read fuel pieces.flatten = symbols := by
  induction hpieces generalizing fuel with
  | nil =>
    cases fuel with
    | zero => rfl
    | succ fuel => simp [readAll, hnil]
  | cons hpiece _ ih =>
    rename_i symbol piece symbols pieces _
    obtain ⟨hne, hread⟩ := hpiece
    have hpos : 0 < piece.length := length_pos_iff.mpr hne
    rw [flatten_cons, length_append] at hfuel
    cases fuel with
    | zero => omega
    | succ fuel =>
      rw [flatten_cons, readAll, hread]
      exact congrArg (symbol :: ·) (ih (by omega))

/-- Pieces are appended while the text stays within `max` codes. -/
def capFrom (max length : Nat) (out : List Code) : List (List Code) -> List Code × Bool
  | [] => (out, false)
  | piece :: rest =>
    if max < length + piece.length then (out, true)
    else capFrom max (length + piece.length) (out ++ piece) rest

theorem capFrom_eq (max length : Nat) (out : List Code) (pieces : List (List Code)) :
    ∃ kept, (capFrom max length out pieces).1 = out ++ (pieces.take kept).flatten /\
      if (capFrom max length out pieces).2 then kept < pieces.length
      else kept = pieces.length := by
  induction pieces generalizing length out with
  | nil => exact ⟨0, by simp [capFrom], rfl⟩
  | cons piece rest ih =>
    rw [capFrom]
    split
    · exact ⟨0, by simp, by simp⟩
    · obtain ⟨kept, htext, hkept⟩ := ih (length + piece.length) (out ++ piece)
      refine ⟨kept + 1, by simp [htext], ?_⟩
      split at hkept
      · rename_i hcut
        rw [if_pos hcut, length_cons]
        omega
      · rename_i hcut
        rw [if_neg hcut, length_cons]
        omega

/-- The code does not stand `n` times in a row. -/
def RunFree (n : Nat) (code : Code) (text : List Code) : Prop :=
  ¬ replicate n code <:+: text

variable {n : Nat} {code : Code}

theorem RunFree.of_not_mem {text : List Code} (hn : 0 < n) (hnot : code ∉ text) :
    RunFree n code text := by
  intro hrun
  exact hnot (hrun.subset (mem_replicate.mpr ⟨Nat.pos_iff_ne_zero.mp hn, rfl⟩))

theorem RunFree.of_length_lt {text : List Code} (hshort : text.length < n) :
    RunFree n code text := by
  intro hrun
  have hlength := hrun.length_le
  rw [length_replicate] at hlength
  omega

theorem RunFree.of_part {part text : List Code} (htext : RunFree n code text)
    (hpart : part <:+: text) : RunFree n code part :=
  fun hrun => htext (hrun.trans hpart)

theorem RunFree.append {front back : List Code} (hfront : RunFree n code front)
    (hback : RunFree n code back) (hborder : front.getLast? ≠ some code \/ back.head? ≠ some code) :
    RunFree n code (front ++ back) := by
  intro hrun
  rcases infix_append_iff_ne_nil.mp hrun with hin | hin | ⟨left, right, hleft, hright, heq,
    hsuffix, hprefix⟩
  · exact hfront hin
  · exact hback hin
  · have hcode : ∀ other ∈ left ++ right, other = code :=
      fun other hmem => eq_of_mem_replicate (heq ▸ hmem)
    rcases hborder with hlast | hhead
    · obtain ⟨before, rfl⟩ := hsuffix
      rw [getLast?_append_of_ne_nil _ hleft, getLast?_eq_some_getLast hleft] at hlast
      exact hlast (congrArg some
        (hcode _ (mem_append_left _ (getLast_mem hleft))))
    · obtain ⟨after, rfl⟩ := hprefix
      rw [head?_append_of_ne_nil _ hright, head?_eq_some_head hright] at hhead
      exact hhead (congrArg some
        (hcode _ (mem_append_right _ (head_mem hright))))

variable {blocks : List (List Code)}

theorem RunFree.intercalate {separator : List Code} (hn : 0 < n) (hne : separator ≠ [])
    (hnot : code ∉ separator) (hblocks : ∀ block ∈ blocks, RunFree n code block) :
    RunFree n code (separator.intercalate blocks) := by
  induction blocks with
  | nil => exact .of_not_mem hn (by simp [List.intercalate])
  | cons block rest ih =>
    have hblock := hblocks block mem_cons_self
    cases rest with
    | nil => simpa [intercalate] using hblock
    | cons next more =>
      rw [intercalate_cons_cons]
      have hrest := ih fun other hmem => hblocks other (mem_cons_of_mem _ hmem)
      have hlast : separator.getLast? ≠ some code :=
        fun hlast => hnot (mem_of_getLast? hlast)
      have hhead : separator.head? ≠ some code :=
        fun hhead => hnot (mem_of_head? hhead)
      refine (hblock.append (.of_not_mem hn hnot) (.inr hhead)).append hrest (.inl ?_)
      rwa [getLast?_append_of_ne_nil _ hne]

theorem RunFree.flatten (hblocks : ∀ block ∈ blocks, RunFree n code block) (hn : 0 < n)
    (hchain : blocks.IsChain fun first second => code ∉ first \/ second ≠ [] /\ code ∉ second) :
    RunFree n code blocks.flatten := by
  induction blocks with
  | nil => exact .of_not_mem hn not_mem_nil
  | cons block rest ih =>
    rw [flatten_cons]
    have hrest : RunFree n code rest.flatten :=
      ih (fun other hmem => hblocks other (mem_cons_of_mem _ hmem)) hchain.tail
    refine (hblocks block mem_cons_self).append hrest ?_
    cases rest with
    | nil => right; simp
    | cons next more =>
      rcases (isChain_cons_cons.mp hchain).1 with hnot | ⟨hne, hnot⟩
      · left
        exact fun hlast => hnot (mem_of_getLast? hlast)
      · right
        rw [flatten_cons, head?_append_of_ne_nil _ hne]
        exact fun hhead => hnot (mem_of_head? hhead)

theorem eq_of_mem_splitBy [DecidableEq Code] {text run : List Code}
    (hrun : run ∈ text.splitBy (· == ·)) {first second : Code} (hfirst : first ∈ run)
    (hsecond : second ∈ run) : first = second := by
  have hchain : run.IsChain Eq :=
    (isChain_of_mem_splitBy hrun).imp fun _ _ hsame => eq_of_beq hsame
  exact (isChain_iff_pairwise.mp hchain).forall_of_forall (fun _ _ => rfl) hfirst hsecond

theorem isChain_splitBy [DecidableEq Code] (code : Code) (text : List Code) :
    (text.splitBy (· == ·)).IsChain fun first second => code ∉ first \/ code ∉ second := by
  refine (isChain_getLast_head_splitBy (· == ·) text).imp_of_mem_imp ?_
  rintro first second hfirst hsecond ⟨hne, hne', hdiffer⟩
  by_contra hboth
  rw [not_or, not_not, not_not] at hboth
  have hlast := eq_of_mem_splitBy hfirst (getLast_mem hne) hboth.1
  have hhead := eq_of_mem_splitBy hsecond (head_mem hne') hboth.2
  rw [hlast, hhead, beq_self_eq_true] at hdiffer
  cases hdiffer

end AnchorMind.Kernel.PieceCodes
