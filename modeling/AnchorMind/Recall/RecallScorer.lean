import Mathlib.Algebra.Order.Field.Basic
import Mathlib.Data.List.Infix
import Mathlib.Tactic.Linarith
import AnchorMind.Kernel.InsertionMap

/-!
# The last score of a recall

Fragments that a cross-encoder has scored keep its score; all others have a score made of
importance, age and similarity.  The two scales do not meet, so the scorer is calibrated on
the candidates: what was not reranked is mapped below the smallest reranked score.
-/

namespace AnchorMind.Recall.RecallScorer

open Kernel.InsertionMap List

section

variable (K : Type) [Field K] [LinearOrder K]

structure MathFunctions where
  log1p : K -> K
  log1p_pos : ∀ x, 0 < x -> 0 < log1p x
  /-- `Math.pow(2, x)` -/
  pow2 : K -> K
  pow2_pos : ∀ x, 0 < pow2 x

structure Cosine where
  value : K
  neg_one_le : -1 ≤ value

structure Importance where
  value : K
  nonneg : 0 ≤ value
  le_one : value ≤ 1

structure Fragment where
  id : String
  content : Option String := none
  topic : Option String := none
  keywords : List String := []
  importance : Option (Importance K) := none
  mentionTime : Option K := none
  createdAt : Option K := none
  similarity : Option (Cosine K) := none
  rankSimilarity : Option (Cosine K) := none
  rerankerScore : Option K := none
  source : Option String := none
  workspace : Option String := none
  keyId : Option String := none

structure LexicalQuery where
  keywords : List String
  topic : Option String
  implicitKeywords : List String

structure Ranking where
  importanceWeight : K
  recencyWeight : K
  semanticWeight : K
  recencyHalfLifeDays : K
  lexicalWeightReranked : K
  lexicalWeightFallback : K
  lexicalLinkedMultiplier : K
  lexicalSaturation : K
  unrerankedBaseDiscount : K
  sharedFragmentFactor : K

structure WorkspaceDecay where
  enabled : Bool
  penalty : K
  nonneg : 0 ≤ penalty
  le_one : penalty ≤ 1

end

section

variable {K : Type} [Field K] [LinearOrder K]

def memoryRanking : Ranking K where
  importanceWeight := 4 / 10
  recencyWeight := 3 / 10
  semanticWeight := 3 / 10
  recencyHalfLifeDays := 30
  lexicalWeightReranked := 12 / 100
  lexicalWeightFallback := 18 / 100
  lexicalLinkedMultiplier := 5 / 10
  lexicalSaturation := 8
  unrerankedBaseDiscount := 85 / 100
  sharedFragmentFactor := 9 / 10

inductive QueryProfile where
  | neutral
  | exactSymbol
  | conceptIntent
  | hybrid
  deriving DecidableEq

def applyProfileToConfig (config : Ranking K) : QueryProfile -> Ranking K
  | .neutral => config
  | .exactSymbol =>
    { config with lexicalWeightReranked := 18 / 100, lexicalWeightFallback := 26 / 100 }
  | .conceptIntent =>
    { config with lexicalWeightReranked := 8 / 100, lexicalWeightFallback := 12 / 100 }
  | .hybrid => config

inductive EmbeddingModel where
  | bgeM3
  | other
  deriving DecidableEq

def rankBand : EmbeddingModel -> Option (K × K)
  | .bgeM3 => some (50 / 100, 85 / 100)
  | .other => none

def withModelRanking (config : Ranking K) : EmbeddingModel -> Ranking K
  | .bgeM3 =>
    let ratio := if 0 < config.semanticWeight then (6 / 10) / config.semanticWeight else 1
    { config with
      importanceWeight := 3 / 10
      recencyWeight := 1 / 10
      semanticWeight := 6 / 10
      lexicalWeightFallback := config.lexicalWeightFallback * ratio }
  | .other => config

end

section

variable {K : Type} [Field K] [LinearOrder K]

/-- What the score reads apart from the fragment. -/
structure RankContext (K : Type) [Field K] [LinearOrder K] where
  math : MathFunctions K
  lower : String -> String
  lexicalQuery : LexicalQuery
  anchorTime : K
  profile : QueryProfile
  model : EmbeddingModel
  decay : WorkspaceDecay K
  workspace : Option String
  requesterKeyId : Option String

def RankContext.rank (ctx : RankContext K) : Ranking K :=
  withModelRanking (applyProfileToConfig memoryRanking ctx.profile) ctx.model

/-- Similarities kept by id. -/
abbrev RankSims (K : Type) [Field K] [LinearOrder K] := Map String (Cosine K)

/-- Zero is falsy. -/
def truthy (cosine : Option (Cosine K)) : Option (Cosine K) :=
  cosine.filter fun cosine => cosine.value ≠ 0

def rankCosine (rankSims : RankSims K) (fragment : Fragment K) : Option (Cosine K) :=
  (truthy fragment.similarity).or ((truthy (rankSims.get fragment.id)).or
    (truthy fragment.rankSimilarity))

def rankingSimilarity (similarity : K) : Option (K × K) -> K
  | none => similarity
  | some (low, high) => min 1 (max 0 ((similarity - low) / (high - low)))

def statedAtMs (fragment : Fragment K) : Option K := fragment.mentionTime.or fragment.createdAt

/-- `text.includes(part)` -/
def includes (text part : String) : Bool := decide (part.toList <:+: text.toList)

def keywordScore (lower : String -> String) (fragment : Fragment K) (keyword : String) : K :=
  if includes (lower (fragment.topic.getD "")) keyword then 2
  else if (fragment.keywords.map lower).any fun k => includes k keyword then 15 / 10
  else if includes (lower (fragment.content.getD "")) keyword then 1
  else 0

/-- The words of a query, once each, the empty one left out. -/
def normalized (lower : String -> String) (keywords : List String) : List String :=
  ((keywords.map lower).filter fun keyword => keyword ≠ "").eraseDups

def lexicalMatchScore (lower : String -> String) (fragment : Fragment K) (query : LexicalQuery) :
    K :=
  let topicScore : K :=
    match query.topic with
    | some topic => if topic ≠ "" ∧ fragment.topic = some topic then 4 else 0
    | none => 0
  let keywords := if query.keywords = [] then query.implicitKeywords else query.keywords
  let words := normalized lower keywords
  let joined : K :=
    if 1 < words.length ∧
        includes (lower (fragment.topic.getD "")) ("-".intercalate words) then 2
    else 0
  topicScore + (words.map (keywordScore lower fragment)).sum + joined

def computeWorkspaceDecayFactor (decay : WorkspaceDecay K) (fragment : Fragment K)
    (workspace : Option String) : K :=
  if decay.enabled = false then 1
  else if workspace = none then 1
  else if fragment.workspace = workspace then 1
  else decay.penalty

def sharedRankFactor (fragmentKeyId requesterKeyId : Option String) (factor : K) : K :=
  if requesterKeyId = none ∨ fragmentKeyId = none ∨ fragmentKeyId = requesterKeyId then 1
  else factor

/-- `lexNorm * lexWeight` -/
def lexicalBonus (ctx : RankContext K) (fragment : Fragment K) : K :=
  let lexRaw := lexicalMatchScore ctx.lower fragment ctx.lexicalQuery
  let lexNorm :=
    if 0 < lexRaw then
      min (ctx.math.log1p lexRaw / ctx.math.log1p ctx.rank.lexicalSaturation) 1
    else 0
  let lexWeight :=
    if fragment.rerankerScore.isSome then ctx.rank.lexicalWeightReranked
    else ctx.rank.lexicalWeightFallback
  let lexWeight :=
    if fragment.source = some "linked" then lexWeight * ctx.rank.lexicalLinkedMultiplier
    else lexWeight
  lexNorm * lexWeight

def composite (ctx : RankContext K) (rankSims : RankSims K) (fragment : Fragment K) : K :=
  let importance := (fragment.importance.map Importance.value).getD 0
  let statedAt := (statedAtMs fragment).getD ctx.anchorTime
  let distDays := |ctx.anchorTime - statedAt| / 86400000
  let proximity := ctx.math.pow2 (-distDays / ctx.rank.recencyHalfLifeDays)
  let similarity :=
    match rankCosine rankSims fragment with
    | some cosine => rankingSimilarity cosine.value (rankBand ctx.model)
    | none => 0
  importance * ctx.rank.importanceWeight + proximity * ctx.rank.recencyWeight +
    similarity * ctx.rank.semanticWeight

def computeRecallScore (ctx : RankContext K) (rankSims : RankSims K) (fragment : Fragment K) :
    K :=
  let base :=
    match fragment.rerankerScore with
    | some rerankerScore => rerankerScore
    | none => composite ctx rankSims fragment * ctx.rank.unrerankedBaseDiscount
  let score := base + lexicalBonus ctx fragment
  score * computeWorkspaceDecayFactor ctx.decay fragment ctx.workspace *
    sharedRankFactor fragment.keyId ctx.requesterKeyId ctx.rank.sharedFragmentFactor

/-- What calibration sets.  A missing floor leaves the scores alone. -/
structure Scorer (K : Type) [Field K] [LinearOrder K] where
  rankSims : RankSims K := Map.empty
  rerankFloor : Option K := none

def Scorer.score (ctx : RankContext K) (scorer : Scorer K) (fragment : Fragment K) : K :=
  let score := computeRecallScore ctx scorer.rankSims fragment
  match scorer.rerankFloor with
  | none => score
  | some rerankFloor =>
    if fragment.rerankerScore.isSome then score else rerankFloor * (score / (1 + score))

/-- `Math.min(floor, score)`, where nothing stands for infinity. -/
def lowered (floor : Option K) (score : K) : Option K := some (floor.elim score (min · score))

def calibrateOne (ctx : RankContext K) (scorer : Scorer K) (f : Fragment K) : Scorer K :=
  let rankSims :=
    match f.rankSimilarity with
    | some rankSimilarity => scorer.rankSims.set f.id rankSimilarity
    | none => scorer.rankSims
  { rankSims := rankSims
    rerankFloor :=
      if f.rerankerScore.isSome then
        lowered scorer.rerankFloor (computeRecallScore ctx rankSims f)
      else scorer.rerankFloor }

def calibrate (ctx : RankContext K) (scorer : Scorer K) (fragments : List (Fragment K)) :
    Scorer K :=
  fragments.foldl (calibrateOne ctx) { scorer with rerankFloor := none }

end

section

variable {K : Type} [Field K] [LinearOrder K] [IsStrictOrderedRing K]

theorem div_one_add_lt_iff {x y : K} (hx : -1 < x) (hy : -1 < y) :
    x / (1 + x) < y / (1 + y) ↔ x < y := by
  have hxpos : 0 < 1 + x := by linarith
  have hypos : 0 < 1 + y := by linarith
  rw [div_lt_div_iff₀ hxpos hypos]
  constructor <;> intro hlt <;> linarith

theorem div_one_add_lt_one {x : K} (hx : -1 < x) : x / (1 + x) < 1 := by
  have hpos : 0 < 1 + x := by linarith
  rw [div_lt_one hpos]
  linarith

variable (ctx : RankContext K) (rankSims : RankSims K)

structure Ranking.Sound (rank : Ranking K) : Prop where
  importance : 0 ≤ rank.importanceWeight
  recency : 0 ≤ rank.recencyWeight
  semantic : 0 ≤ rank.semanticWeight
  semantic_lt : rank.semanticWeight < 1
  reranked : 0 ≤ rank.lexicalWeightReranked
  fallback : 0 ≤ rank.lexicalWeightFallback
  linked : 0 ≤ rank.lexicalLinkedMultiplier
  saturation : 0 < rank.lexicalSaturation
  discount : 0 ≤ rank.unrerankedBaseDiscount
  discount_le : rank.unrerankedBaseDiscount ≤ 1
  shared : 0 < rank.sharedFragmentFactor
  shared_le : rank.sharedFragmentFactor ≤ 1

theorem memoryRanking_sound : (memoryRanking : Ranking K).Sound := by
  constructor <;> norm_num [memoryRanking]

theorem applyProfileToConfig_sound {config : Ranking K} (hconfig : config.Sound)
    (profile : QueryProfile) : (applyProfileToConfig config profile).Sound := by
  cases profile with
  | neutral => exact hconfig
  | hybrid => exact hconfig
  | exactSymbol =>
    exact { hconfig with
      reranked := by norm_num [applyProfileToConfig]
      fallback := by norm_num [applyProfileToConfig] }
  | conceptIntent =>
    exact { hconfig with
      reranked := by norm_num [applyProfileToConfig]
      fallback := by norm_num [applyProfileToConfig] }

theorem withModelRanking_sound {config : Ranking K} (hconfig : config.Sound)
    (model : EmbeddingModel) : (withModelRanking config model).Sound := by
  cases model with
  | other => exact hconfig
  | bgeM3 =>
    refine { hconfig with
      importance := by norm_num [withModelRanking]
      recency := by norm_num [withModelRanking]
      semantic := by norm_num [withModelRanking]
      semantic_lt := by norm_num [withModelRanking]
      fallback := ?_ }
    refine mul_nonneg hconfig.fallback ?_
    split
    · exact div_nonneg (by norm_num) hconfig.semantic
    · exact zero_le_one

theorem rank_sound : ctx.rank.Sound :=
  withModelRanking_sound (applyProfileToConfig_sound memoryRanking_sound _) _

theorem lexicalBonus_nonneg (fragment : Fragment K) : 0 ≤ lexicalBonus ctx fragment := by
  have hrank := rank_sound ctx
  refine mul_nonneg ?_ ?_
  · split
    · rename_i hraw
      refine le_min (div_nonneg ?_ ?_) zero_le_one
      · exact (ctx.math.log1p_pos _ hraw).le
      · exact (ctx.math.log1p_pos _ hrank.saturation).le
    · exact le_refl 0
  · have hweight : 0 ≤ if fragment.rerankerScore.isSome then ctx.rank.lexicalWeightReranked
        else ctx.rank.lexicalWeightFallback := by
      split
      · exact hrank.reranked
      · exact hrank.fallback
    split
    · exact mul_nonneg hweight hrank.linked
    · exact hweight

theorem neg_one_le_rankingSimilarity (cosine : Cosine K) (model : EmbeddingModel) :
    -1 ≤ rankingSimilarity cosine.value (rankBand model) := by
  cases model with
  | other => exact cosine.neg_one_le
  | bgeM3 =>
    have hnonneg : (0 : K) ≤ rankingSimilarity cosine.value (rankBand .bgeM3) :=
      le_min zero_le_one (le_max_left _ _)
    linarith

/-- A score without reranker is at least the lowest similarity. -/
theorem neg_semanticWeight_le_composite (fragment : Fragment K) :
    -ctx.rank.semanticWeight ≤ composite ctx rankSims fragment := by
  have hrank := rank_sound ctx
  have himportance : 0 ≤ (fragment.importance.map Importance.value).getD 0 := by
    cases fragment.importance with
    | none => exact le_refl 0
    | some importance => exact importance.nonneg
  have hsimilarity : -1 ≤ (match rankCosine rankSims fragment with
      | some cosine => rankingSimilarity cosine.value (rankBand ctx.model)
      | none => 0) := by
    cases rankCosine rankSims fragment with
    | none => exact neg_one_lt_zero.le
    | some cosine => exact neg_one_le_rankingSimilarity cosine ctx.model
  unfold composite
  have hfirst := mul_nonneg himportance hrank.importance
  have hsecond := mul_nonneg (ctx.math.pow2_pos
    (-(|ctx.anchorTime - (statedAtMs fragment).getD ctx.anchorTime| / 86400000) /
      ctx.rank.recencyHalfLifeDays)).le hrank.recency
  have hthird := mul_le_mul_of_nonneg_right hsimilarity hrank.semantic
  rw [neg_one_mul] at hthird
  dsimp only
  linarith

theorem workspaceDecayFactor_nonneg (fragment : Fragment K) :
    0 ≤ computeWorkspaceDecayFactor ctx.decay fragment ctx.workspace := by
  unfold computeWorkspaceDecayFactor
  split_ifs
  · exact zero_le_one
  · exact zero_le_one
  · exact zero_le_one
  · exact ctx.decay.nonneg

omit [IsStrictOrderedRing K] in
theorem workspaceDecayFactor_le_one (fragment : Fragment K) :
    computeWorkspaceDecayFactor ctx.decay fragment ctx.workspace ≤ 1 := by
  unfold computeWorkspaceDecayFactor
  split_ifs
  · exact le_refl 1
  · exact le_refl 1
  · exact le_refl 1
  · exact ctx.decay.le_one

theorem sharedRankFactor_pos (fragment : Fragment K) :
    0 < sharedRankFactor fragment.keyId ctx.requesterKeyId ctx.rank.sharedFragmentFactor := by
  unfold sharedRankFactor
  split
  · exact zero_lt_one
  · exact (rank_sound ctx).shared

theorem sharedRankFactor_le_one (fragment : Fragment K) :
    sharedRankFactor fragment.keyId ctx.requesterKeyId ctx.rank.sharedFragmentFactor ≤ 1 := by
  unfold sharedRankFactor
  split
  · exact le_refl 1
  · exact (rank_sound ctx).shared_le

theorem neg_one_lt_mul {x factor : K} (hx : -1 < x) (hnonneg : 0 ≤ factor) (hle : factor ≤ 1) :
    -1 < x * factor := by
  rcases le_or_gt 0 x with hpos | hneg
  · exact neg_one_lt_zero.trans_le (mul_nonneg hpos hnonneg)
  · have hmul : x ≤ x * factor := by
      have := mul_le_mul_of_nonpos_left hle hneg.le
      rwa [mul_one] at this
    exact hx.trans_le hmul

theorem neg_one_lt_computeRecallScore {fragment : Fragment K}
    (hfragment : fragment.rerankerScore = none) :
    -1 < computeRecallScore ctx rankSims fragment := by
  have hrank := rank_sound ctx
  have hcomposite : -1 < composite ctx rankSims fragment := by
    have := neg_semanticWeight_le_composite ctx rankSims fragment
    have := hrank.semantic_lt
    linarith
  have hbase := neg_one_lt_mul hcomposite hrank.discount hrank.discount_le
  have hbonus := lexicalBonus_nonneg ctx fragment
  unfold computeRecallScore
  rw [hfragment]
  dsimp only
  refine neg_one_lt_mul (neg_one_lt_mul ?_ ?_ ?_) ?_ ?_
  · linarith
  · exact workspaceDecayFactor_nonneg ctx fragment
  · exact workspaceDecayFactor_le_one ctx fragment
  · exact (sharedRankFactor_pos ctx fragment).le
  · exact sharedRankFactor_le_one ctx fragment

end

section

variable {K : Type} [Field K] [LinearOrder K] (ctx : RankContext K)

def Reranked (fragment : Fragment K) : Prop := fragment.rerankerScore.isSome = true

instance (fragment : Fragment K) : Decidable (Reranked fragment) :=
  inferInstanceAs (Decidable (_ = _))

theorem computeRecallScore_of_reranked {fragment : Fragment K} (hreranked : Reranked fragment)
    (rankSims other : RankSims K) :
    computeRecallScore ctx rankSims fragment = computeRecallScore ctx other fragment := by
  obtain ⟨rerankerScore, hscore⟩ := Option.isSome_iff_exists.mp hreranked
  simp only [computeRecallScore, hscore]

omit [Field K] in
theorem lowered_le {floor : Option K} {score : K} :
    ∃ low, lowered floor score = some low /\ low ≤ score := by
  cases floor with
  | none => exact ⟨score, rfl, le_refl score⟩
  | some floor => exact ⟨min floor score, rfl, min_le_right _ _⟩

theorem rerankFloor_of_reranked {f : Fragment K} (hf : Reranked f) (scorer : Scorer K)
    (rankSims : RankSims K) :
    (calibrateOne ctx scorer f).rerankFloor =
      lowered scorer.rerankFloor (computeRecallScore ctx rankSims f) := by
  rw [computeRecallScore_of_reranked ctx hf rankSims]
  exact if_pos hf

theorem rerankFloor_of_not_reranked {f : Fragment K} (hf : ¬ Reranked f) (scorer : Scorer K) :
    (calibrateOne ctx scorer f).rerankFloor = scorer.rerankFloor :=
  if_neg hf

theorem rerankFloor_foldl {floor : K} {scorer : Scorer K} (hfloor : scorer.rerankFloor = some floor)
    (fragments : List (Fragment K)) :
    ∃ low, (fragments.foldl (calibrateOne ctx) scorer).rerankFloor = some low /\
      low ≤ floor := by
  induction fragments generalizing scorer floor with
  | nil => exact ⟨floor, hfloor, le_refl floor⟩
  | cons f rest ih =>
    by_cases hf : Reranked f
    · have hnext : ∃ next, (calibrateOne ctx scorer f).rerankFloor = some next /\
          next ≤ floor := by
        rw [rerankFloor_of_reranked ctx hf scorer Map.empty, hfloor]
        exact ⟨_, rfl, min_le_left _ _⟩
      obtain ⟨next, hnext, hle⟩ := hnext
      obtain ⟨low, hlow, hlownext⟩ := ih hnext
      exact ⟨low, hlow, hlownext.trans hle⟩
    · refine ih ?_
      rw [rerankFloor_of_not_reranked ctx hf]
      exact hfloor

variable {fragments : List (Fragment K)}

theorem rerankFloor_le {r : Fragment K} (hr : r ∈ fragments) (hreranked : Reranked r)
    (scorer : Scorer K) (rankSims : RankSims K) :
    ∃ low, (fragments.foldl (calibrateOne ctx) scorer).rerankFloor = some low /\
      low ≤ computeRecallScore ctx rankSims r := by
  induction fragments generalizing scorer with
  | nil => exact absurd hr not_mem_nil
  | cons f rest ih =>
    rcases mem_cons.mp hr with rfl | hrest
    · have hone : ∃ low, (calibrateOne ctx scorer r).rerankFloor = some low /\
          low ≤ computeRecallScore ctx rankSims r := by
        rw [rerankFloor_of_reranked ctx hreranked scorer rankSims]
        exact lowered_le
      obtain ⟨next, hnext, hle⟩ := hone
      obtain ⟨low, hlow, hlownext⟩ := rerankFloor_foldl ctx hnext rest
      exact ⟨low, hlow, hlownext.trans hle⟩
    · exact ih hrest _

theorem rerankFloor_attained {scorer : Scorer K} {low : K}
    (hlow : (fragments.foldl (calibrateOne ctx) scorer).rerankFloor = some low)
    (rankSims : RankSims K) :
    scorer.rerankFloor = some low \/
      ∃ r ∈ fragments, Reranked r /\ computeRecallScore ctx rankSims r = low := by
  induction fragments generalizing scorer with
  | nil => exact .inl hlow
  | cons f rest ih =>
    rcases ih hlow with hnext | ⟨r, hr, hreranked, hscore⟩
    · by_cases hf : Reranked f
      · rw [rerankFloor_of_reranked ctx hf scorer rankSims] at hnext
        cases hfloor : scorer.rerankFloor with
        | none =>
          rw [hfloor] at hnext
          exact .inr ⟨f, mem_cons_self, hf, Option.some.inj hnext⟩
        | some floor =>
          rw [hfloor] at hnext
          rcases min_choice floor (computeRecallScore ctx rankSims f) with hmin | hmin
          · exact .inl (hmin ▸ hnext)
          · exact .inr ⟨f, mem_cons_self, hf, hmin ▸ Option.some.inj hnext⟩
      · rw [rerankFloor_of_not_reranked ctx hf] at hnext
        exact .inl hnext
    · exact .inr ⟨r, mem_cons_of_mem _ hr, hreranked, hscore⟩

end

section

variable {K : Type} [Field K] [LinearOrder K] (ctx : RankContext K)

def Aligned (scorer : Scorer K) (fragments : List (Fragment K)) : Prop :=
  (∀ u ∈ fragments, ¬ Reranked u -> ∀ r ∈ fragments, Reranked r ->
    scorer.score ctx u < scorer.score ctx r) /\
  ∀ u ∈ fragments, ¬ Reranked u -> ∀ v ∈ fragments, ¬ Reranked v ->
    (scorer.score ctx u < scorer.score ctx v <->
      computeRecallScore ctx scorer.rankSims u < computeRecallScore ctx scorer.rankSims v)

def Lifted (r : Fragment K) : Prop :=
  0 < r.rerankerScore.getD 0 + lexicalBonus ctx r /\
    0 < computeWorkspaceDecayFactor ctx.decay r ctx.workspace

variable [IsStrictOrderedRing K]

theorem lifted_iff {r : Fragment K} (hr : Reranked r) (rankSims : RankSims K) :
    0 < computeRecallScore ctx rankSims r <-> Lifted ctx r := by
  obtain ⟨rerankerScore, hscore⟩ := Option.isSome_iff_exists.mp hr
  have hshared := sharedRankFactor_pos ctx r
  have hdecay := workspaceDecayFactor_nonneg ctx r
  simp only [computeRecallScore, Lifted, hscore, Option.getD_some]
  rw [mul_pos_iff_of_pos_right hshared]
  constructor
  · intro hpos
    have hfactor : 0 < computeWorkspaceDecayFactor ctx.decay r ctx.workspace :=
      hdecay.lt_of_ne fun hzero => hpos.ne' (by rw [← hzero, mul_zero])
    exact ⟨(mul_pos_iff_of_pos_right hfactor).mp hpos, hfactor⟩
  · rintro ⟨hbase, hfactor⟩
    exact mul_pos hbase hfactor

section

variable {scorer : Scorer K} {fragment : Fragment K}

omit [IsStrictOrderedRing K] in
theorem score_of_reranked (hfragment : Reranked fragment) :
    scorer.score ctx fragment = computeRecallScore ctx scorer.rankSims fragment := by
  unfold Scorer.score
  cases scorer.rerankFloor with
  | none => rfl
  | some floor => exact if_pos hfragment

omit [IsStrictOrderedRing K] in
theorem score_of_floor {floor : K} (hfloor : scorer.rerankFloor = some floor)
    (hfragment : ¬ Reranked fragment) :
    scorer.score ctx fragment = floor *
      (computeRecallScore ctx scorer.rankSims fragment /
        (1 + computeRecallScore ctx scorer.rankSims fragment)) := by
  unfold Scorer.score
  rw [hfloor]
  exact if_neg hfragment

omit [IsStrictOrderedRing K] in
theorem score_of_no_floor (hfloor : scorer.rerankFloor = none) :
    scorer.score ctx fragment = computeRecallScore ctx scorer.rankSims fragment := by
  unfold Scorer.score
  rw [hfloor]

end

theorem neg_one_lt_of_not_reranked {fragment : Fragment K} (hfragment : ¬ Reranked fragment)
    (rankSims : RankSims K) : -1 < computeRecallScore ctx rankSims fragment := by
  refine neg_one_lt_computeRecallScore ctx rankSims ?_
  exact Option.not_isSome_iff_eq_none.mp hfragment

/-- Above a positive floor nothing of the others comes up. -/
theorem aligned_of_floor_pos {scorer : Scorer K} {fragments : List (Fragment K)} {floor : K}
    (hfloor : scorer.rerankFloor = some floor) (hpos : 0 < floor)
    (hle : ∀ r ∈ fragments, Reranked r -> floor ≤ computeRecallScore ctx scorer.rankSims r) :
    Aligned ctx scorer fragments := by
  constructor
  · intro u hu hnot r hr hreranked
    rw [score_of_floor ctx hfloor hnot, score_of_reranked ctx hreranked]
    have hbelow := div_one_add_lt_one (neg_one_lt_of_not_reranked ctx hnot scorer.rankSims)
    have hmul := mul_lt_mul_of_pos_left hbelow hpos
    rw [mul_one] at hmul
    exact hmul.trans_le (hle r hr hreranked)
  · intro u hu hnotu v hv hnotv
    rw [score_of_floor ctx hfloor hnotu, score_of_floor ctx hfloor hnotv,
      mul_lt_mul_iff_right₀ hpos]
    exact div_one_add_lt_iff (neg_one_lt_of_not_reranked ctx hnotu _)
      (neg_one_lt_of_not_reranked ctx hnotv _)

theorem floor_le_score {scorer : Scorer K} {u : Fragment K} {floor : K}
    (hfloor : scorer.rerankFloor = some floor) (hneg : floor ≤ 0) (hu : ¬ Reranked u) :
    floor ≤ scorer.score ctx u := by
  rw [score_of_floor ctx hfloor hu]
  have hbelow := (div_one_add_lt_one (neg_one_lt_of_not_reranked ctx hu scorer.rankSims)).le
  have hmul := mul_le_mul_of_nonpos_left hbelow hneg
  rwa [mul_one] at hmul

/-- Calibration separates the groups and keeps the order exactly where no reranked score
comes down to zero. -/
theorem calibrate_aligned_iff (scorer : Scorer K) (fragments : List (Fragment K)) :
    Aligned ctx (calibrate ctx scorer fragments) fragments <->
      (∀ u ∈ fragments, Reranked u) \/
        ∀ r ∈ fragments, Reranked r -> Lifted ctx r := by
  generalize hcalibrated : calibrate ctx scorer fragments = calibrated
  have hattained : ∀ low, calibrated.rerankFloor = some low ->
      ∃ r ∈ fragments, Reranked r /\
        computeRecallScore ctx calibrated.rankSims r = low := by
    intro low hlow
    subst hcalibrated
    exact (rerankFloor_attained ctx hlow _).resolve_left nofun
  have hbelow : ∀ r ∈ fragments, Reranked r ->
      ∃ low, calibrated.rerankFloor = some low /\
        low ≤ computeRecallScore ctx calibrated.rankSims r := by
    intro r hr hreranked
    subst hcalibrated
    exact rerankFloor_le ctx hr hreranked _ _
  constructor
  · intro haligned
    rw [or_iff_not_imp_left]
    intro hmixed r hr hreranked
    obtain ⟨u, hu, hnot⟩ : ∃ u ∈ fragments, ¬ Reranked u := by
      by_contra hall
      exact hmixed fun u hu => by_contra fun hnot => hall ⟨u, hu, hnot⟩
    obtain ⟨floor, hfloor, hle⟩ := hbelow r hr hreranked
    obtain ⟨least, hleast, hleastReranked, hscore⟩ := hattained floor hfloor
    have hlt := haligned.1 u hu hnot least hleast hleastReranked
    rw [score_of_reranked ctx hleastReranked, hscore] at hlt
    have hpos : 0 < floor := by
      by_contra hneg
      exact (floor_le_score ctx hfloor (not_lt.mp hneg) hnot).not_gt hlt
    exact (lifted_iff ctx hreranked calibrated.rankSims).mp (hpos.trans_le hle)
  · intro hcondition
    rcases hcondition with hall | hlifted
    · exact ⟨fun u hu hnot => absurd (hall u hu) hnot,
        fun u hu hnot => absurd (hall u hu) hnot⟩
    · cases hfloor : calibrated.rerankFloor with
      | none =>
        -- Nothing was reranked, so every score is the base score.
        constructor
        · intro u hu hnot r hr hreranked
          obtain ⟨low, hlow, -⟩ := hbelow r hr hreranked
          rw [hfloor] at hlow
          cases hlow
        · intro u hu hnotu v hv hnotv
          rw [score_of_no_floor ctx hfloor, score_of_no_floor ctx hfloor]
      | some floor =>
        obtain ⟨least, hleast, hreranked, hscore⟩ := hattained floor hfloor
        have hpos : 0 < floor := hscore ▸
          (lifted_iff ctx hreranked calibrated.rankSims).mpr (hlifted least hleast hreranked)
        refine aligned_of_floor_pos ctx hfloor hpos ?_
        intro r hr hrReranked
        obtain ⟨low, hlow, hle⟩ := hbelow r hr hrReranked
        rw [hfloor] at hlow
        cases hlow
        exact hle

end

def atZero : MathFunctions Rat where
  log1p := fun x => x
  log1p_pos := fun _ hx => hx
  pow2 := fun _ => 1
  pow2_pos := fun _ => zero_lt_one

def plainContext : RankContext Rat where
  math := atZero
  lower := id
  lexicalQuery := { keywords := [], topic := none, implicitKeywords := [] }
  anchorTime := 0
  profile := .hybrid
  model := .other
  decay := { enabled := true, penalty := 7 / 10, nonneg := by norm_num, le_one := by norm_num }
  workspace := none
  requesterKeyId := none

def scoredAndLinked (rerankerScore : Rat) : List (Fragment Rat) :=
  [{ id := "scored", rerankerScore := some rerankerScore },
    { id := "linked", createdAt := some 0, source := some "linked" }]

theorem calibrate_aligned_iff_scored :
    Aligned plainContext (calibrate plainContext {} (scoredAndLinked (3 / 10)))
      (scoredAndLinked (3 / 10)) := by
  refine (calibrate_aligned_iff plainContext {} (scoredAndLinked (3 / 10))).mpr (.inr ?_)
  intro r hr hreranked
  rcases mem_pair.mp hr with rfl | rfl
  · exact ⟨by decide +kernel, by decide +kernel⟩
  · exact absurd hreranked (by decide)

/-- A reranker that leaves a document out scores it zero. -/
theorem calibrate_not_aligned :
    ¬ Aligned plainContext (calibrate plainContext {} (scoredAndLinked 0))
      (scoredAndLinked 0) := by
  intro haligned
  have hlt := haligned.1 { id := "linked", createdAt := some 0, source := some "linked" }
    (mem_cons_of_mem _ mem_cons_self) (by decide)
    { id := "scored", rerankerScore := some 0 } mem_cons_self (by decide)
  exact absurd hlt (by decide +kernel)

end AnchorMind.Recall.RecallScorer
