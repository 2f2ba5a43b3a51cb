import Mathlib.Data.String.Basic
import Verbatus.Corpus.HungarianOptimal
import Verbatus.Library.Checked
import Verbatus.Library.Sorting
import Verbatus.Refusal

namespace Verbatus.Corpus

open Library Library.Checked Refusal

/-- A rectangle of a page. -/
structure Box where
  x : ℕ
  y : ℕ
  w : ℕ
  h : ℕ
  wide : 0 < w
  high : 0 < h

namespace Box

def intersectionArea (a b : Box) : ℕ :=
  let x1 := max a.x b.x
  let y1 := max a.y b.y
  let x2 := min (a.x + a.w) (b.x + b.w)
  let y2 := min (a.y + a.h) (b.y + b.h)
  if x2 ≤ x1 ∨ y2 ≤ y1 then 0 else (x2 - x1) * (y2 - y1)

def area (box : Box) : ℕ := box.w * box.h

def unionArea (a b : Box) : ℕ := a.area + b.area - intersectionArea a b

def iou (a b : Box) : ℚ :=
  if intersectionArea a b = 0 then 0 else (intersectionArea a b : ℚ) / unionArea a b

/-- `repr` of the record of a box. -/
def text (box : Box) : String :=
  "\x7b'x': " ++ toString box.x ++ ", 'y': " ++ toString box.y ++ ", 'w': " ++ toString box.w ++
    ", 'h': " ++ toString box.h ++ "\x7d"

theorem intersectionArea_le (a b : Box) : intersectionArea a b ≤ a.area := by
  simp only [intersectionArea]
  split_ifs
  · exact Nat.zero_le _
  · exact Nat.mul_le_mul (by omega) (by omega)

theorem area_pos (box : Box) : 0 < box.area := Nat.mul_pos box.wide box.high

theorem intersectionArea_le_unionArea (a b : Box) : intersectionArea a b ≤ unionArea a b := by
  have first := intersectionArea_le a b
  have second : intersectionArea a b ≤ b.area := by
    have same : intersectionArea a b = intersectionArea b a := by
      simp only [intersectionArea, max_comm a.x, max_comm a.y, min_comm (a.x + a.w),
        min_comm (a.y + a.h)]
    rw [same]
    exact intersectionArea_le b a
  unfold unionArea
  omega

theorem unionArea_pos (a b : Box) : 0 < unionArea a b := by
  have first := intersectionArea_le a b
  have second := b.area_pos
  unfold unionArea
  omega

theorem iou_eq (a b : Box) : iou a b = (intersectionArea a b : ℚ) / unionArea a b := by
  unfold iou
  split_ifs with none
  · rw [none, Nat.cast_zero, zero_div]
  · rfl

theorem iou_le_one (a b : Box) : iou a b ≤ 1 := by
  rw [iou_eq]
  refine div_le_one_of_le₀ ?_ (Nat.cast_nonneg _)
  exact_mod_cast intersectionArea_le_unionArea a b

end Box

structure PipelineAct where
  actId : String
  bounds : Box
  pageSha256 : String

structure ReferenceAct where
  recordId : String
  physicalActId : String
  region : Box

structure ReferencePage where
  corpusId : String
  selfHash : String
  sha256 : String
  width : ℕ
  height : ℕ
  acts : List ReferenceAct

def maxActsPerPage : ℕ := 128

section Edges

variable (pipelineActs : List PipelineAct) (referenceActs : List ReferenceAct) (threshold : ℚ)

/-- `weight.get((p, r))`, over every act of either side -/
def pageWeight (p r : ℕ) : Option ℚ :=
  match pipelineActs[p]?, referenceActs[r]? with
  | some pact, some ract =>
      if threshold ≤ Box.iou pact.bounds ract.region then some (Box.iou pact.bounds ract.region)
      else none
  | _, _ => none

def weightKeys : List (ℕ × ℕ) :=
  (List.range pipelineActs.length).flatMap fun p =>
    ((List.range referenceActs.length).filter fun r =>
      (pageWeight pipelineActs referenceActs threshold p r).isSome).map fun r => (p, r)

def eligiblePipeline : List ℕ :=
  sortedSet ((weightKeys pipelineActs referenceActs threshold).map Prod.fst)

variable {pipelineActs referenceActs threshold}

theorem pageWeight_eq_some {p r : ℕ} {edge : ℚ} :
    pageWeight pipelineActs referenceActs threshold p r = some edge ↔
      ∃ pact ract, pipelineActs[p]? = some pact ∧ referenceActs[r]? = some ract ∧
        threshold ≤ edge ∧ Box.iou pact.bounds ract.region = edge := by
  unfold pageWeight
  cases pipelineActs[p]? with
  | none => simp
  | some pact =>
      cases referenceActs[r]? with
      | none => simp
      | some ract =>
          by_cases enough : threshold ≤ Box.iou pact.bounds ract.region
          · simp only [enough, if_true, Option.some.injEq]
            constructor
            · rintro rfl
              exact ⟨pact, ract, rfl, rfl, enough, rfl⟩
            · rintro ⟨_, _, rfl, rfl, _, same⟩
              exact same
          · simp only [enough, if_false, reduceCtorEq, false_iff]
            rintro ⟨_, _, same, also, above, rfl⟩
            rw [Option.some.injEq] at same also
            exact enough (same ▸ also ▸ above)

theorem pageWeight_within {p r : ℕ} {edge : ℚ}
    (found : pageWeight pipelineActs referenceActs threshold p r = some edge) :
    p < pipelineActs.length ∧ r < referenceActs.length := by
  obtain ⟨pact, ract, first, second, _⟩ := pageWeight_eq_some.mp found
  exact ⟨(List.getElem?_eq_some_iff.mp first).1, (List.getElem?_eq_some_iff.mp second).1⟩

theorem mem_weightKeys {p r : ℕ} :
    (p, r) ∈ weightKeys pipelineActs referenceActs threshold ↔
      (pageWeight pipelineActs referenceActs threshold p r).isSome := by
  simp only [weightKeys, List.mem_flatMap, List.mem_map, List.mem_filter, List.mem_range,
    Prod.mk.injEq]
  constructor
  · rintro ⟨_, _, _, ⟨_, edge⟩, rfl, rfl⟩
    exact edge
  · intro edge
    obtain ⟨value, found⟩ := Option.isSome_iff_exists.mp edge
    obtain ⟨row, col⟩ := pageWeight_within found
    exact ⟨p, row, r, ⟨col, edge⟩, rfl, rfl⟩

theorem eligiblePipeline_nodup : (eligiblePipeline pipelineActs referenceActs threshold).Nodup :=
  (List.perm_insertionSort _ _).nodup_iff.mpr (List.nodup_dedup _)

theorem mem_eligiblePipeline {p r : ℕ}
    (edge : (pageWeight pipelineActs referenceActs threshold p r).isSome) :
    p ∈ eligiblePipeline pipelineActs referenceActs threshold :=
  mem_sortedSet.mpr (List.mem_map.mpr ⟨(p, r), mem_weightKeys.mpr edge, rfl⟩)

/-- The edges over the pipeline acts that have one, indexed among themselves. -/
def compactWeights (positive : 0 < threshold) : Weights where
  rowCount := (eligiblePipeline pipelineActs referenceActs threshold).length
  colCount := referenceActs.length
  weight compactP r := (eligiblePipeline pipelineActs referenceActs threshold)[compactP]?.bind
    fun originalP => pageWeight pipelineActs referenceActs threshold originalP r
  within found := by
    obtain ⟨originalP, listed, weighed⟩ := Option.bind_eq_some_iff.mp found
    exact ⟨(List.getElem?_eq_some_iff.mp listed).1, (pageWeight_within weighed).2⟩
  positive found := by
    obtain ⟨originalP, _, weighed⟩ := Option.bind_eq_some_iff.mp found
    obtain ⟨_, _, _, _, above, _⟩ := pageWeight_eq_some.mp weighed
    exact positive.trans_le above
  atMostOne found := by
    obtain ⟨originalP, _, weighed⟩ := Option.bind_eq_some_iff.mp found
    obtain ⟨pact, ract, _, _, _, rfl⟩ := pageWeight_eq_some.mp weighed
    exact Box.iou_le_one _ _

end Edges

/-- `items[index]` -/
def itemAt {α : Type} (items : List α) (index : ℕ) : Except Refusal α :=
  match items[index]? with
  | some item => .ok item
  | none => .error (.indexError "list index out of range")

/-- The pairing of pipeline indices with reference indices; nothing where the assignment does not
    return. -/
def bestAssignment (pipelineActs : List PipelineAct) (referenceActs : List ReferenceAct)
    (threshold : ℚ) (positive : 0 < threshold) : Except Refusal (Option (List (ℕ × ℕ))) := do
  let eligible := eligiblePipeline pipelineActs referenceActs threshold
  require (eligible.length ≤ maxActsPerPage ∧ referenceActs.length ≤ maxActsPerPage)
    (.contractError ("too-many-acts-for-page: " ++
      s!"{eligible.length} pipeline acts with an eligible reference edge / " ++
      s!"{referenceActs.length} reference acts exceeds the predeclared sanity " ++
      s!"cap of {maxActsPerPage} acts per page"))
  match (@compactWeights pipelineActs referenceActs threshold positive).maxWeightAssignment with
  | none => return none
  | some compactMatches =>
      let matched ← compactMatches.mapM fun pair => do
        return (← itemAt eligible pair.1, pair.2)
      return some (dictOf matched)

structure MatrixEntry where
  pipelineActId : String
  referencePhysicalActId : String
  intersectionArea : ℕ
  unionArea : ℕ
  eligible : Bool

structure MatchedPair where
  pipelineActId : String
  referencePhysicalActId : String
  recordId : String
  intersectionArea : ℕ
  unionArea : ℕ

structure Miss where
  physicalActId : String
  recordId : String
  deriving DecidableEq

/-- The regions a comparison declined to look at, counted. -/
structure ExcludedRegionCounts where
  byKind : List (String × ℕ)
  byOrigin : List (String × ℕ)

structure PageGeometry where
  corpusId : String
  referencePageSelfHash : String
  pageSha256 : String
  threshold : ℚ
  matrix : List MatrixEntry
  matchedPairs : List MatchedPair
  misses : List Miss
  unmatchedPipelineActs : List String
  excludedRegionCounts : ExcludedRegionCounts

def checkPipelineAct (page : ReferencePage) (act : PipelineAct) : Except Refusal Unit := do
  require (act.pageSha256 = page.sha256) (.contractError
    (s!"wrong-page: pipeline act {quote act.actId} carries page_sha256 " ++
      s!"{quote act.pageSha256}, which does not match this reference page's " ++
      s!"{quote page.sha256}"))
  require (act.bounds.x + act.bounds.w ≤ page.width ∧ act.bounds.y + act.bounds.h ≤ page.height)
    (.contractError
      (s!"region-outside-page: pipeline act {quote act.actId} bounds {act.bounds.text} " ++
        s!"exceed this reference page's {page.width}x{page.height} bounds"))

def matrixEntry (threshold : ℚ) (pact : PipelineAct) (ract : ReferenceAct) : MatrixEntry where
  pipelineActId := pact.actId
  referencePhysicalActId := ract.physicalActId
  intersectionArea := Box.intersectionArea pact.bounds ract.region
  unionArea := Box.unionArea pact.bounds ract.region
  eligible := threshold.num * Box.unionArea pact.bounds ract.region ≤
    Box.intersectionArea pact.bounds ract.region * (threshold.den : ℤ)

def matchedPair (pact : PipelineAct) (ract : ReferenceAct) : MatchedPair where
  pipelineActId := pact.actId
  referencePhysicalActId := ract.physicalActId
  recordId := ract.recordId
  intersectionArea := Box.intersectionArea pact.bounds ract.region
  unionArea := Box.unionArea pact.bounds ract.region

/-- The record of one page, once the assignment has returned. -/
def geometryOf (page : ReferencePage) (orderedPipeline : List PipelineAct) (threshold : ℚ)
    (matched : List (ℕ × ℕ)) (excluded : ExcludedRegionCounts) : Except Refusal PageGeometry := do
  let matchedPairs ← (sortBy (fun pair : ℕ × ℕ => toLex pair) matched).mapM fun pair => do
    return matchedPair (← itemAt orderedPipeline pair.1) (← itemAt page.acts pair.2)
  return {
    corpusId := page.corpusId
    referencePageSelfHash := page.selfHash
    pageSha256 := page.sha256
    threshold := threshold
    matrix := orderedPipeline.flatMap fun pact => page.acts.map (matrixEntry threshold pact)
    matchedPairs := matchedPairs
    misses := (page.acts.zipIdx.filter fun entry => entry.2 ∉ matched.map Prod.snd).map
      fun entry => ⟨entry.1.physicalActId, entry.1.recordId⟩
    unmatchedPipelineActs := (orderedPipeline.zipIdx.filter fun entry =>
      entry.2 ∉ matched.map Prod.fst).map fun entry => entry.1.actId
    excludedRegionCounts := excluded }

/-- The page assignment and geometry of a validated reference page. -/
def comparePageGeometry (page : ReferencePage) (pipelineActs : List PipelineAct) (threshold : ℚ)
    (excluded : Option ExcludedRegionCounts) : Except Refusal (Option PageGeometry) := do
  if positive : 0 < threshold ∧ threshold ≤ 1 then
    pipelineActs.forM (checkPipelineAct page)
    let orderedPipeline := sortBy PipelineAct.actId pipelineActs
    match ← bestAssignment orderedPipeline page.acts threshold positive.1 with
    | none => return none
    | some matched =>
        return some (← geometryOf page orderedPipeline threshold matched (excluded.getD ⟨[], []⟩))
  else
    .error (.contractError ("malformed-record: threshold must be a Fraction in (0, 1], got " ++
      s!"Fraction({threshold.num}, {threshold.den})"))

end Verbatus.Corpus
