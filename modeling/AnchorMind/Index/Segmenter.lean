import Mathlib.Data.List.Chain
import Mathlib.Tactic.Linarith
import AnchorMind.Kernel.JointedRuns

/-!
# Segments of long texts

A long text is cut into overlapping windows whose edges are pulled back to blanks.  Where
the windows would be too many, their starts are spread evenly over the text instead, and
then two neighbours may leave a gap.
-/

namespace AnchorMind.Index.Segmenter

open Kernel.NearestMark List

structure SegmenterConfig where
  windowChars : Nat
  strideChars : Nat
  minChars : Nat
  maxSegments : Nat
  strideChars_pos : 0 < strideChars
  strideChars_le : strideChars ≤ windowChars
  two_le_maxSegments : 2 ≤ maxSegments

/-- `Math.round(i * (lastStart / gaps))`, whichever way a half or its approximation falls. -/
structure Rounding where
  place : Nat -> Nat -> Nat -> Nat
  place_le : ∀ lastStart gaps i, 0 < gaps ->
    2 * (gaps * place lastStart gaps i) ≤ 2 * (i * lastStart) + gaps
  le_place : ∀ lastStart gaps i, 0 < gaps ->
    2 * (i * lastStart) ≤ 2 * (gaps * place lastStart gaps i) + gaps

/-- Offsets and lengths count code points. -/
structure Segment where
  idx : Nat
  start : Nat
  stop : Nat
  text : List Nat
  deriving DecidableEq

/-- A blank, a line feed, a tab or a carriage return. -/
def isBreak (code : Nat) : Bool := code == 32 || code == 10 || code == 9 || code == 13

/-- The characters that `trim` strips. -/
def isSpace (code : Nat) : Bool :=
  (9 ≤ code && code ≤ 13) || code == 32 || code == 160 || code == 0x1680 ||
    (0x2000 ≤ code && code ≤ 0x200A) || code == 0x2028 || code == 0x2029 || code == 0x202F ||
    code == 0x205F || code == 0x3000 || code == 0xFEFF

def snapDistance : Nat := 40

def breakAt (cp : List Nat) (pos : Nat) : Bool := cp[pos]?.any isBreak

def snapStart (cp : List Nat) (pos floor : Nat) : Nat :=
  if pos ≤ floor then floor
  else nearest (fun place => breakAt cp (place - 1)) snapDistance floor pos

def snapEnd (cp : List Nat) (pos ceil : Nat) : Nat :=
  if ceil ≤ pos then ceil else nearest (breakAt cp) snapDistance 0 pos

/-- `cp.slice(start, end)` -/
def slice (cp : List Nat) (start stop : Nat) : List Nat := (cp.drop start).take (stop - start)

/-- `s = 0; s < lastStart; s += strideChars`, then the last start. -/
def strideStarts (lastStart strideChars : Nat) : List Nat :=
  (range ((lastStart + strideChars - 1) / strideChars)).map (· * strideChars) ++ [lastStart]

def spreadStarts (rounding : Rounding) (lastStart maxSegments : Nat) : List Nat :=
  (range maxSegments).map (rounding.place lastStart (maxSegments - 1))

def rawStarts (rounding : Rounding) (cfg : SegmenterConfig) (length : Nat) : List Nat :=
  let lastStart := length - cfg.windowChars
  let starts := strideStarts lastStart cfg.strideChars
  if cfg.maxSegments < starts.length then spreadStarts rounding lastStart cfg.maxSegments
  else starts

section

variable (cfg : SegmenterConfig) (cp : List Nat)

/-- `out[out.length - 1]?.start ?? 0` -/
def floorOf (out : List Segment) : Nat := (out.getLast?.map Segment.start).getD 0

/-- `prev + 1`, where `prev` is the start of the last segment, or minus one. -/
def afterPrev (out : List Segment) : Nat := out.getLast?.elim 0 fun segment => segment.start + 1

def startOf (out : List Segment) (rawStart : Nat) : Nat :=
  max (snapStart cp rawStart (floorOf out + 1)) (afterPrev out)

def endOf (rawStart : Nat) : Nat :=
  snapEnd cp (min (rawStart + cfg.windowChars) cp.length) cp.length

/-- The end of the window at `rawStart` when `rest` follows. -/
def stopOf (rawStart : Nat) (rest : List Nat) : Nat :=
  if rest = [] then cp.length else endOf cfg cp rawStart

def addSegment (out : List Segment) (start stop : Nat) : List Segment :=
  if stop ≤ start then out
  else if (slice cp start stop).all isSpace then out
  else if out.getLast?.any fun segment => segment.start == start && segment.stop == stop then out
  else out ++ [{ idx := out.length, start := start, stop := stop, text := slice cp start stop }]

def addSegments : List Nat -> List Segment -> List Segment
  | [], out => out
  | rawStart :: rest, out =>
    addSegments rest (addSegment cp out (startOf cp out rawStart) (stopOf cfg cp rawStart rest))

def segmentsFrom : List Nat -> List Segment
  | [] => []
  | rawStart :: rest => addSegments cfg cp rest (addSegment cp [] 0 (stopOf cfg cp rawStart rest))

def splitIntoSegments (rounding : Rounding) : List Segment :=
  if cp.length ≤ cfg.minChars then []
  else segmentsFrom cfg cp (rawStarts rounding cfg cp.length)

end

section

variable (rounding : Rounding) (cfg : SegmenterConfig)

theorem strideStarts_length (lastStart strideChars : Nat) :
    (strideStarts lastStart strideChars).length =
      (lastStart + strideChars - 1) / strideChars + 1 := by
  rw [strideStarts, length_append, length_map, length_range]
  rfl

theorem rawStarts_length_le (length : Nat) :
    (rawStarts rounding cfg length).length ≤ cfg.maxSegments := by
  unfold rawStarts
  dsimp only
  split
  · rw [spreadStarts, length_map, length_range]
  · exact not_lt.mp ‹_›

variable {lastStart strideChars : Nat}

theorem chain_strideStarts (hstride : 0 < strideChars) :
    (strideStarts lastStart strideChars).IsChain fun a b => a < b /\ b ≤ a + strideChars := by
  rw [isChain_iff_getElem]
  intro i hi
  have hlength := strideStarts_length lastStart strideChars
  have hlow := Nat.div_mul_le_self (lastStart + strideChars - 1) strideChars
  have hhigh := Nat.lt_div_mul_add (a := lastStart + strideChars - 1) hstride
  have hfront : i < (lastStart + strideChars - 1) / strideChars := by omega
  have hleft : (strideStarts lastStart strideChars)[i] = i * strideChars := by
    simp [strideStarts, hfront]
  rw [hleft]
  by_cases hlast : i + 1 < (lastStart + strideChars - 1) / strideChars
  · have hright : (strideStarts lastStart strideChars)[i + 1] = (i + 1) * strideChars := by
      simp [strideStarts, hlast]
    rw [hright, Nat.succ_mul]
    omega
  · have hright : (strideStarts lastStart strideChars)[i + 1] = lastStart := by
      simp [strideStarts, getElem_append, hlast]
    have hcount : (lastStart + strideChars - 1) / strideChars = i + 1 := by omega
    rw [hcount, Nat.succ_mul] at hlow hhigh
    rw [hright]
    omega

theorem mem_strideStarts_le (hstride : 0 < strideChars) {a : Nat}
    (ha : a ∈ strideStarts lastStart strideChars) : a ≤ lastStart := by
  rcases mem_append.mp ha with hfront | hlast
  · obtain ⟨i, hi, rfl⟩ := mem_map.mp hfront
    have hlow := Nat.div_mul_le_self (lastStart + strideChars - 1) strideChars
    have hnext := Nat.mul_le_mul_right strideChars (Nat.succ_le_of_lt (mem_range.mp hi))
    rw [Nat.succ_mul] at hnext
    omega
  · exact (mem_singleton.mp hlast).le

theorem lt_lastStart_of_spread {maxSegments : Nat} (hstride : 0 < strideChars)
    (htwo : 2 ≤ maxSegments) (hmany : maxSegments < (strideStarts lastStart strideChars).length) :
    maxSegments - 1 < lastStart := by
  rw [strideStarts_length] at hmany
  have hcount : maxSegments ≤ (lastStart + strideChars - 1) / strideChars := by omega
  have hmul := (Nat.le_div_iff_mul_le hstride).mp hcount
  have hone : (maxSegments - 1) * 1 ≤ (maxSegments - 1) * strideChars :=
    Nat.mul_le_mul_left _ hstride
  have hsplit : maxSegments * strideChars = (maxSegments - 1) * strideChars + strideChars := by
    rw [← Nat.succ_mul]
    congr 1
    omega
  omega

theorem place_lt {gaps : Nat} (hgaps : 0 < gaps) (hlt : gaps < lastStart) (i : Nat) :
    rounding.place lastStart gaps i < rounding.place lastStart gaps (i + 1) := by
  have hlow := rounding.place_le lastStart gaps i hgaps
  have hhigh := rounding.le_place lastStart gaps (i + 1) hgaps
  rw [Nat.succ_mul i lastStart] at hhigh
  by_contra hle
  have hmul := Nat.mul_le_mul_left gaps (not_lt.mp hle)
  omega

theorem place_le_lastStart {gaps i : Nat} (hi : i ≤ gaps) (hgaps : 0 < gaps) :
    rounding.place lastStart gaps i ≤ lastStart := by
  have hlow := rounding.place_le lastStart gaps i hgaps
  have hmul := Nat.mul_le_mul_right lastStart hi
  by_contra hlt
  have hnext := Nat.mul_le_mul_left gaps (not_le.mp hlt)
  rw [Nat.mul_succ] at hnext
  omega

theorem chain_rawStarts (length : Nat) :
    (rawStarts rounding cfg length).IsChain fun a b => a < b := by
  unfold rawStarts
  dsimp only
  split
  · rename_i hmany
    have htwo := cfg.two_le_maxSegments
    have hlt := lt_lastStart_of_spread cfg.strideChars_pos htwo hmany
    rw [isChain_iff_getElem]
    intro i hi
    simp only [spreadStarts, getElem_map, getElem_range]
    exact place_lt rounding (by omega) hlt i
  · exact (chain_strideStarts cfg.strideChars_pos).imp fun a b hab => hab.1

theorem mem_rawStarts_le {length a : Nat} (ha : a ∈ rawStarts rounding cfg length) :
    a ≤ length - cfg.windowChars := by
  unfold rawStarts at ha
  dsimp only at ha
  split at ha
  · obtain ⟨i, hi, rfl⟩ := mem_map.mp ha
    have htwo := cfg.two_le_maxSegments
    have hrange := mem_range.mp hi
    exact place_le_lastStart rounding (by omega) (by omega)
  · exact mem_strideStarts_le cfg.strideChars_pos ha

theorem rawStarts_ne_nil (length : Nat) : rawStarts rounding cfg length ≠ [] := by
  have htwo := cfg.two_le_maxSegments
  refine ne_nil_of_length_pos ?_
  unfold rawStarts
  dsimp only
  split
  · rw [spreadStarts, length_map, length_range]
    omega
  · rw [strideStarts_length]
    exact Nat.succ_pos _

end

section

variable {cp : List Nat}

theorem isSpace_of_isBreak {code : Nat} (hbreak : isBreak code = true) : isSpace code = true := by
  simp only [isBreak, Bool.or_eq_true, beq_iff_eq] at hbreak
  rcases hbreak with ((rfl | rfl) | rfl) | rfl <;> decide

variable {pos floor : Nat}

theorem snapStart_mono {otherPos otherFloor : Nat} (hpos : pos ≤ otherPos)
    (hfloor : floor ≤ otherFloor) : snapStart cp pos floor ≤ snapStart cp otherPos otherFloor := by
  unfold snapStart
  split
  · split
    · exact hfloor
    · exact hfloor.trans (lt_nearest (by omega)).le
  · split
    · exact (nearest_le _ _).trans (by omega)
    · exact nearest_mono hfloor hpos

theorem snapEnd_le (pos ceil : Nat) : snapEnd cp pos ceil ≤ ceil := by
  unfold snapEnd
  split
  · exact le_refl ceil
  · exact (nearest_le _ _).trans (by omega)

theorem snapEnd_pos {ceil : Nat} (hpos : 0 < pos) (hceil : 0 < ceil) : 0 < snapEnd cp pos ceil := by
  unfold snapEnd
  split
  · exact hceil
  · exact lt_nearest hpos

theorem snapEnd_mono {other ceil : Nat} (hpos : pos ≤ other) :
    snapEnd cp pos ceil ≤ snapEnd cp other ceil := by
  unfold snapEnd
  split
  · rw [if_pos (by omega)]
  · split
    · exact (nearest_le _ _).trans (by omega)
    · exact nearest_mono (le_refl 0) hpos

def behindBreak (cp : List Nat) (place : Nat) : Bool := breakAt cp (place - 1)

theorem snapStart_of_lt (hpos : floor < pos) :
    snapStart cp pos floor = nearest (behindBreak cp) snapDistance floor pos :=
  if_neg (Nat.not_le.mpr hpos)

theorem snapEnd_of_lt (hpos : pos < cp.length) :
    snapEnd cp pos cp.length = nearest (breakAt cp) snapDistance 0 pos :=
  if_neg (Nat.not_le.mpr hpos)

theorem snapStart_le_max {stop start : Nat} (hstop : stop < cp.length)
    (hfloor : floor ≤ snapEnd cp stop cp.length) (hone : 1 ≤ floor) :
    snapStart cp start floor ≤ max (snapStart cp start 1) (snapEnd cp stop cp.length) := by
  by_cases hlow : start ≤ floor
  · rw [snapStart, if_pos hlow]
    exact hfloor.trans (le_max_right _ _)
  · rw [snapStart_of_lt (not_le.mp hlow), snapStart_of_lt (by omega), snapEnd_of_lt hstop] at *
    rw [le_max_iff]
    by_contra hover
    obtain ⟨hstart, hend⟩ := not_or.mp hover
    rcases @nearest_spec (behindBreak cp) snapDistance floor start with
      ⟨hnear, -⟩ | ⟨hstay, hnone⟩
    · -- A break found above the floor is found without it.
      have hlower : Near (behindBreak cp) snapDistance 1 start
          (nearest (behindBreak cp) snapDistance floor start) :=
        ⟨hone.trans_lt hnear.1, hnear.2⟩
      exact hstart hlower.le_nearest
    · rw [hstay] at hstart hend
      rcases @nearest_spec (behindBreak cp) snapDistance 1 start with
        ⟨hlower, -⟩ | ⟨hsame, -⟩
      · -- The break found without the floor is at most the floor, so before the end.
        obtain ⟨habove, hbelow, hclose, hmark⟩ := hlower
        have hunder : nearest (behindBreak cp) snapDistance 1 start ≤ floor := by
          by_contra hover
          exact hnone _ ⟨not_le.mp hover, hbelow, hclose, hmark⟩
        rcases @nearest_spec (breakAt cp) snapDistance 0 stop with
          ⟨hfound, -⟩ | ⟨hkept, hclean⟩
        · refine hnone (nearest (breakAt cp) snapDistance 0 stop + 1) ⟨?_, ?_, ?_, ?_⟩
          · omega
          · omega
          · omega
          · exact hfound.2.2.2
        · refine hclean (nearest (behindBreak cp) snapDistance 1 start - 1) ⟨?_, ?_, ?_, hmark⟩
          · omega
          · omega
          · omega
      · exact hstart hsame.ge

def BlankBetween (cp : List Nat) (low high : Nat) : Prop :=
  ∀ p code, cp[p]? = some code -> low ≤ p -> p < high -> isSpace code = true

theorem blankBetween_of_le {stop start : Nat} (hstop : stop < cp.length) (hpos : 0 < stop)
    (hle : start ≤ stop) : BlankBetween cp (snapEnd cp stop cp.length) (snapStart cp start 1) := by
  intro p code hcode hlow hhigh
  have hend : 0 < snapEnd cp stop cp.length := snapEnd_pos hpos (by omega)
  by_cases hone : start ≤ 1
  · rw [snapStart, if_pos hone] at hhigh
    omega
  · rw [snapStart_of_lt (not_le.mp hone)] at hhigh
    rw [snapEnd_of_lt hstop] at hlow hend
    have hplain := @nearest_le (behindBreak cp) snapDistance 1 start
    rcases @nearest_spec (breakAt cp) snapDistance 0 stop with
      ⟨hfound, hlast⟩ | ⟨hkept, -⟩
    · -- The start is pulled back to the same break.
      have hcandidate : Near (behindBreak cp) snapDistance 1 start
          (nearest (breakAt cp) snapDistance 0 stop + 1) := by
        obtain ⟨-, hbelow, hclose, hmark⟩ := hfound
        exact ⟨by omega, by omega, by omega, hmark⟩
      obtain ⟨habove, hbelow, hclose, hmark⟩ := hcandidate.near_nearest
      have hback : nearest (behindBreak cp) snapDistance 1 start - 1 ≤
          nearest (breakAt cp) snapDistance 0 stop := by
        refine hlast _ ⟨by omega, by omega, ?_, hmark⟩
        have := hfound.2.2.1
        have := hcandidate.le_nearest
        omega
      have hp : p = nearest (breakAt cp) snapDistance 0 stop := by omega
      have hbreak := hfound.2.2.2
      rw [breakAt, ← hp, hcode] at hbreak
      exact isSpace_of_isBreak hbreak
    · omega

end

section

variable {cfg : SegmenterConfig} {cp : List Nat} {out : List Segment} {start stop : Nat}

def Segment.Holds (segment : Segment) (p : Nat) : Prop :=
  segment.start ≤ p /\ p < segment.stop

/-- Every character before `limit` that is not white space lies in a segment. -/
def CoversTo (cp : List Nat) (out : List Segment) (limit : Nat) : Prop :=
  ∀ p code, cp[p]? = some code -> p < limit -> isSpace code = false ->
    ∃ segment ∈ out, segment.Holds p

structure Reached (cp : List Nat) (out : List Segment) (limit : Nat) : Prop where
  starts : out.Pairwise fun a b => a.start < b.start
  nonempty : ∀ segment ∈ out, segment.start < segment.stop
  within : ∀ segment ∈ out, segment.stop ≤ limit
  texts : ∀ segment ∈ out,
    segment.text = slice cp segment.start segment.stop

theorem subset_addSegment : out ⊆ addSegment cp out start stop := by
  unfold addSegment
  split_ifs
  · exact Subset.refl out
  · exact Subset.refl out
  · exact Subset.refl out
  · exact subset_append_left _ _

theorem mem_addSegment {segment : Segment} (hsegment : segment ∈ addSegment cp out start stop) :
    segment ∈ out \/ start < stop /\ segment =
      { idx := out.length, start := start, stop := stop, text := slice cp start stop } := by
  unfold addSegment at hsegment
  split_ifs at hsegment with hempty
  · exact .inl hsegment
  · exact .inl hsegment
  · exact .inl hsegment
  · rcases mem_append.mp hsegment with hold | hnew
    · exact .inl hold
    · exact .inr ⟨not_le.mp hempty, mem_singleton.mp hnew⟩

theorem length_addSegment_le : (addSegment cp out start stop).length ≤ out.length + 1 := by
  unfold addSegment
  split_ifs
  · exact Nat.le_succ _
  · exact Nat.le_succ _
  · exact Nat.le_succ _
  · exact (length_append).le

theorem getElem?_slice {p : Nat} (hlow : start ≤ p) (hhigh : p < stop) {code : Nat}
    (hcode : cp[p]? = some code) : code ∈ slice cp start stop := by
  refine mem_of_getElem? (i := p - start) ?_
  rw [slice, getElem?_take_of_lt (by omega), getElem?_drop]
  rw [show start + (p - start) = p by omega]
  exact hcode

theorem exists_holds_addSegment {p : Nat} (hlow : start ≤ p) (hhigh : p < stop) {code : Nat}
    (hcode : cp[p]? = some code) (hspace : isSpace code = false) :
    ∃ segment ∈ addSegment cp out start stop, segment.Holds p := by
  unfold addSegment
  split_ifs with hempty hblank hsame
  · omega
  · have hall := all_eq_true.mp hblank code (getElem?_slice hlow hhigh hcode)
    rw [hall] at hspace
    cases hspace
  · obtain ⟨last, hlast, hequal⟩ := (Option.any_eq_true _ _).mp hsame
    simp only [Bool.and_eq_true, beq_iff_eq] at hequal
    refine ⟨last, mem_of_getLast? hlast, ?_⟩
    exact ⟨hequal.1.le.trans hlow, hhigh.trans_le hequal.2.ge⟩
  · exact ⟨_, mem_append_right _ mem_cons_self, hlow, hhigh⟩

variable {limit : Nat}

theorem coversTo_addSegment (hcovers : CoversTo cp out limit)
    (hblank : BlankBetween cp limit start) : CoversTo cp (addSegment cp out start stop) stop := by
  intro p code hcode hp hspace
  by_cases hbefore : p < limit
  · obtain ⟨segment, hsegment, hholds⟩ := hcovers p code hcode hbefore hspace
    exact ⟨segment, subset_addSegment hsegment, hholds⟩
  · by_cases hgap : p < start
    · rw [hblank p code hcode (not_lt.mp hbefore) hgap] at hspace
      cases hspace
    · exact exists_holds_addSegment (not_lt.mp hgap) hp hcode hspace

section

variable (hreached : Reached cp out limit)
include hreached

theorem start_lt_afterPrev {segment : Segment} (hsegment : segment ∈ out) :
    segment.start < afterPrev out := by
  obtain ⟨front, last, rfl⟩ := (eq_nil_or_concat out).resolve_left
    (ne_nil_of_mem hsegment)
  rw [concat_eq_append] at *
  rw [afterPrev, getLast?_append]
  rcases mem_append.mp hsegment with hfront | hlast
  · have hbefore := (pairwise_append.mp hreached.starts).2.2 segment hfront last
      mem_cons_self
    exact Nat.lt_succ_of_lt hbefore
  · rw [mem_singleton.mp hlast]
    exact Nat.lt_succ_self _

theorem afterPrev_le : afterPrev out ≤ limit := by
  unfold afterPrev
  cases hlast : out.getLast? with
  | none => exact Nat.zero_le limit
  | some last =>
    have hmem := mem_of_getLast? hlast
    exact (Nat.succ_le_of_lt (hreached.nonempty last hmem)).trans (hreached.within last hmem)

theorem floorOf_lt (hpos : 0 < limit) : floorOf out + 1 ≤ limit := by
  have hafter := afterPrev_le hreached
  unfold floorOf
  unfold afterPrev at hafter
  cases hlast : out.getLast? with
  | none => exact hpos
  | some last =>
    rw [hlast] at hafter
    exact hafter

theorem reached_addSegment (hstart : afterPrev out ≤ start) (hstop : limit ≤ stop) :
    Reached cp (addSegment cp out start stop) stop where
  starts := by
    have hold := hreached.starts
    unfold addSegment
    split_ifs
    · exact hold
    · exact hold
    · exact hold
    · refine pairwise_append.mpr ⟨hold, pairwise_singleton _ _, ?_⟩
      intro segment hsegment new hnew
      rw [mem_singleton.mp hnew]
      exact (start_lt_afterPrev hreached hsegment).trans_le hstart
  nonempty segment hsegment := by
    rcases mem_addSegment hsegment with hold | ⟨hlt, rfl⟩
    · exact hreached.nonempty segment hold
    · exact hlt
  within segment hsegment := by
    rcases mem_addSegment hsegment with hold | ⟨-, rfl⟩
    · exact (hreached.within segment hold).trans hstop
    · exact le_refl stop
  texts segment hsegment := by
    rcases mem_addSegment hsegment with hold | ⟨-, rfl⟩
    · exact hreached.texts segment hold
    · rfl

end

end

section

variable {cfg : SegmenterConfig} {cp : List Nat} {out : List Segment} {a : Nat} {rest : List Nat}

theorem endOf_eq (ha : a + cfg.windowChars < cp.length) :
    endOf cfg cp a = snapEnd cp (a + cfg.windowChars) cp.length := by
  rw [endOf, min_eq_left ha.le]

theorem endOf_le_stopOf {b : Nat} (hle : a ≤ b) (rest : List Nat) :
    endOf cfg cp a ≤ stopOf cfg cp b rest := by
  unfold stopOf
  split
  · exact snapEnd_le _ _
  · refine snapEnd_mono ?_
    omega

theorem reached_addSegments (hchain : (a :: rest).IsChain fun a b => a < b)
    (hreached : Reached cp out (stopOf cfg cp a rest)) :
    Reached cp (addSegments cfg cp rest out) cp.length := by
  induction rest generalizing a out with
  | nil => exact hreached
  | cons b rest ih =>
    obtain ⟨hlt, htail⟩ := isChain_cons_cons.mp hchain
    refine ih htail ?_
    exact reached_addSegment hreached (le_max_right _ _) (endOf_le_stopOf hlt.le rest)

theorem length_addSegments_le (rest : List Nat) (out : List Segment) :
    (addSegments cfg cp rest out).length ≤ out.length + rest.length := by
  induction rest generalizing out with
  | nil => exact Nat.le_refl _
  | cons b rest ih =>
    have hone : (addSegment cp out (startOf cp out b) (stopOf cfg cp b rest)).length ≤
        out.length + 1 := length_addSegment_le
    refine (ih _).trans ?_
    rw [length_cons]
    omega

theorem le_start_of_mem_addSegments {bound : Nat} (hbound : ∀ x ∈ rest, bound ≤ snapStart cp x 1)
    {segment : Segment} (hsegment : segment ∈ addSegments cfg cp rest out) :
    segment ∈ out \/ bound ≤ segment.start := by
  induction rest generalizing out with
  | nil => exact .inl hsegment
  | cons b rest ih =>
    rcases ih (fun x hx => hbound x (mem_cons_of_mem _ hx)) hsegment with hadded | hlater
    · rcases mem_addSegment hadded with hold | ⟨-, rfl⟩
      · exact .inl hold
      · refine .inr ((hbound b mem_cons_self).trans ?_)
        exact (snapStart_mono (le_refl b) (Nat.le_add_left 1 _)).trans (le_max_left _ _)
    · exact .inr hlater

/-- Two neighbouring starts leave nothing out: the window reaches to the next start, or what
lies between the pulled back edges is blank. -/
def Bridged (cfg : SegmenterConfig) (cp : List Nat) (a b : Nat) : Prop :=
  b ≤ a + cfg.windowChars \/ BlankBetween cp (endOf cfg cp a) (snapStart cp b 1)

theorem blankBetween_startOf {b : Nat} (hreached : Reached cp out (endOf cfg cp a))
    (ha : a + cfg.windowChars < cp.length) (hbridged : Bridged cfg cp a b) :
    BlankBetween cp (endOf cfg cp a) (startOf cp out b) := by
  intro p code hcode hlow hhigh
  have hwindow := cfg.strideChars_pos.trans_le cfg.strideChars_le
  have hpos : 0 < endOf cfg cp a := by
    rw [endOf_eq ha]
    exact snapEnd_pos (by omega) (by omega)
  have hstart : p < snapStart cp b (floorOf out + 1) := by
    rcases lt_max_iff.mp hhigh with hsnap | hafter
    · exact hsnap
    · exact absurd (hafter.trans_le (afterPrev_le hreached)) (not_lt.mpr hlow)
  have hmax : snapStart cp b (floorOf out + 1) ≤ max (snapStart cp b 1) (endOf cfg cp a) := by
    have hfloor := floorOf_lt hreached hpos
    rw [endOf_eq ha] at hfloor ⊢
    exact snapStart_le_max ha hfloor (Nat.le_add_left 1 _)
  have hplain : p < snapStart cp b 1 := by
    rcases lt_max_iff.mp (hstart.trans_le hmax) with hsnap | hover
    · exact hsnap
    · exact absurd hover (not_lt.mpr hlow)
  rcases hbridged with hle | hblank
  · rw [endOf_eq ha] at hlow
    exact blankBetween_of_le ha (by omega) hle p code hcode hlow hplain
  · exact hblank p code hcode hlow hplain

theorem coversTo_addSegments (hchain : (a :: rest).IsChain fun a b => a < b)
    (hlast : ∀ x ∈ a :: rest, x ≤ cp.length - cfg.windowChars)
    (hbridged : (a :: rest).IsChain (Bridged cfg cp))
    (hreached : Reached cp out (stopOf cfg cp a rest))
    (hcovers : CoversTo cp out (stopOf cfg cp a rest)) :
    CoversTo cp (addSegments cfg cp rest out) cp.length := by
  induction rest generalizing a out with
  | nil => exact hcovers
  | cons b rest ih =>
    obtain ⟨hlt, htail⟩ := isChain_cons_cons.mp hchain
    obtain ⟨hbridge, hbridges⟩ := isChain_cons_cons.mp hbridged
    have hb := hlast b (mem_cons_of_mem _ mem_cons_self)
    have ha : a + cfg.windowChars < cp.length := by omega
    refine ih htail (fun x hx => hlast x (mem_cons_of_mem _ hx)) hbridges ?_ ?_
    · exact reached_addSegment hreached (le_max_right _ _) (endOf_le_stopOf hlt.le rest)
    · exact coversTo_addSegment hcovers (blankBetween_startOf hreached ha hbridge)

theorem bridged_of_coversTo (hchain : (a :: rest).IsChain fun a b => a < b)
    (hreached : Reached cp out (stopOf cfg cp a rest))
    (hcovers : CoversTo cp (addSegments cfg cp rest out) cp.length) :
    (a :: rest).IsChain (Bridged cfg cp) := by
  induction rest generalizing a out with
  | nil => exact isChain_singleton a
  | cons b rest ih =>
    obtain ⟨hlt, htail⟩ := isChain_cons_cons.mp hchain
    refine isChain_cons_cons.mpr ⟨.inr ?_, ih htail ?_ hcovers⟩
    · intro p code hcode hlow hhigh
      by_contra hspace
      have hp := (List.getElem?_eq_some_iff.mp hcode).1
      obtain ⟨segment, hsegment, hstart, hstop⟩ :=
        hcovers p code hcode hp (Bool.eq_false_iff.mpr hspace)
      have hbound : ∀ x ∈ b :: rest, snapStart cp b 1 ≤ snapStart cp x 1 := by
        intro x hx
        refine snapStart_mono ?_ (le_refl 1)
        rcases mem_cons.mp hx with rfl | hrest
        · exact le_refl x
        · have hsorted := isChain_iff_pairwise.mp htail
          exact (rel_of_pairwise_cons hsorted hrest).le
      rcases le_start_of_mem_addSegments hbound hsegment with hold | hlater
      · exact absurd (hstop.trans_le (hreached.within segment hold)) (not_lt.mpr hlow)
      · exact absurd (hhigh.trans_le hlater) (not_lt.mpr hstart)
    · exact reached_addSegment hreached (le_max_right _ _) (endOf_le_stopOf hlt.le rest)

theorem reached_first (stop : Nat) : Reached cp (addSegment cp [] 0 stop) stop := by
  have hempty : Reached cp [] 0 := by
    constructor
    · exact Pairwise.nil
    · exact nofun
    · exact nofun
    · exact nofun
  exact reached_addSegment hempty (Nat.le_refl 0) (Nat.zero_le stop)

theorem coversTo_first (stop : Nat) : CoversTo cp (addSegment cp [] 0 stop) stop := by
  have hempty : CoversTo cp [] 0 := fun _ _ _ hlt => absurd hlt (Nat.not_lt_zero _)
  exact coversTo_addSegment hempty fun _ _ _ _ hlt => absurd hlt (Nat.not_lt_zero _)

end

section

variable (cfg : SegmenterConfig) (cp : List Nat) (rounding : Rounding)

structure Segmented (segments : List Segment) : Prop where
  count : segments.length ≤ cfg.maxSegments
  starts : segments.Pairwise fun a b => a.start < b.start
  texts : ∀ segment ∈ segments,
    segment.stop ≤ cp.length /\ segment.text = slice cp segment.start segment.stop
  covers : ∀ p code, cp[p]? = some code -> isSpace code = false ->
    ∃ segment ∈ segments, segment.Holds p

/-- The texts that are cut: nothing is lost exactly when every two neighbouring starts are
bridged. -/
theorem splitIntoSegments_segmented_iff (hlong : cfg.minChars < cp.length) :
    Segmented cfg cp (splitIntoSegments cfg cp rounding) <->
      (rawStarts rounding cfg cp.length).IsChain (Bridged cfg cp) := by
  have hsplit : splitIntoSegments cfg cp rounding =
      segmentsFrom cfg cp (rawStarts rounding cfg cp.length) := if_neg (not_le.mpr hlong)
  have hcount := rawStarts_length_le rounding cfg cp.length
  have hchain := chain_rawStarts rounding cfg cp.length
  have hlast : ∀ x ∈ rawStarts rounding cfg cp.length,
      x ≤ cp.length - cfg.windowChars := fun x => mem_rawStarts_le rounding cfg
  rw [hsplit]
  cases hstarts : rawStarts rounding cfg cp.length with
  | nil => exact absurd hstarts (rawStarts_ne_nil rounding cfg cp.length)
  | cons a rest =>
    rw [hstarts] at hcount hchain hlast
    have hfirst : Reached cp _ _ := reached_first (stopOf cfg cp a rest)
    have hreached := reached_addSegments hchain hfirst
    constructor
    · intro hsegmented
      refine bridged_of_coversTo hchain hfirst ?_
      exact fun p code hcode _ hspace => hsegmented.covers p code hcode hspace
    · intro hbridged
      have hcovers := coversTo_addSegments hchain hlast hbridged hfirst (coversTo_first _)
      refine ⟨?_, hreached.starts, ?_, ?_⟩
      · have hone : (addSegment cp [] 0 (stopOf cfg cp a rest)).length ≤ 1 :=
          length_addSegment_le
        refine (length_addSegments_le rest _).trans (le_trans ?_ hcount)
        rw [length_cons]
        omega
      · intro segment hsegment
        exact ⟨hreached.within segment hsegment, hreached.texts segment hsegment⟩
      · intro p code hcode hspace
        exact hcovers p code hcode (List.getElem?_eq_some_iff.mp hcode).1 hspace

theorem bridged_of_few_starts
    (hfew : (strideStarts (cp.length - cfg.windowChars) cfg.strideChars).length ≤ cfg.maxSegments) :
    (rawStarts rounding cfg cp.length).IsChain (Bridged cfg cp) := by
  have hstarts : rawStarts rounding cfg cp.length =
      strideStarts (cp.length - cfg.windowChars) cfg.strideChars := if_neg (not_lt.mpr hfew)
  rw [hstarts]
  refine (chain_strideStarts cfg.strideChars_pos).imp ?_
  intro a b hab
  exact .inl (hab.2.trans (Nat.add_le_add_left cfg.strideChars_le a))

end

def halfUp : Rounding where
  place lastStart gaps i := (2 * (i * lastStart) + gaps) / (2 * gaps)
  place_le lastStart gaps i _ := by
    have := Nat.mul_div_le (2 * (i * lastStart) + gaps) (2 * gaps)
    rwa [Nat.mul_assoc 2 gaps] at this
  le_place lastStart gaps i hgaps := by
    have := Nat.lt_mul_div_succ (2 * (i * lastStart) + gaps) (show 0 < 2 * gaps by omega)
    rw [Nat.mul_succ, Nat.mul_assoc 2 gaps] at this
    omega

def narrow : SegmenterConfig where
  windowChars := 2
  strideChars := 1
  minChars := 2
  maxSegments := 2
  strideChars_pos := by decide
  strideChars_le := by decide
  two_le_maxSegments := by decide

theorem splitIntoSegments_segmented_iff_three :
    Segmented narrow [120, 120, 120] (splitIntoSegments narrow [120, 120, 120] halfUp) := by
  refine (splitIntoSegments_segmented_iff narrow [120, 120, 120] halfUp (by decide)).mpr ?_
  exact bridged_of_few_starts narrow [120, 120, 120] halfUp (by decide)

/-- Two windows of two characters do not hold ten. -/
theorem splitIntoSegments_gap :
    ¬ Segmented narrow (replicate 10 120)
      (splitIntoSegments narrow (replicate 10 120) halfUp) := by
  intro hsegmented
  obtain ⟨segment, hsegment, hstart, hstop⟩ := hsegmented.covers 4 120 (by decide) (by decide)
  have hsegments : splitIntoSegments narrow (replicate 10 120) halfUp =
      [{ idx := 0, start := 0, stop := 2, text := [120, 120] },
        { idx := 1, start := 8, stop := 10, text := [120, 120] }] := by decide
  rw [hsegments] at hsegment
  rcases mem_pair.mp hsegment with rfl | rfl
  · exact absurd hstop (by decide)
  · exact absurd hstart (by decide)

end AnchorMind.Index.Segmenter
