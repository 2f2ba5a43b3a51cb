import Verbatus.Corpus.Compare

namespace Verbatus.Corpus

open Library Library.Checked

section Pairing

variable (pipelineActs : List PipelineAct) (referenceActs : List ReferenceAct) (threshold : ℚ)

/-- The IoU of an edge, nothing where there is none. -/
def pairWeight (pair : ℕ × ℕ) : ℚ :=
  (pageWeight pipelineActs referenceActs threshold pair.1 pair.2).getD 0

/-- A matching of eligible pairs, over all the acts of either side, whose total IoU is no less than
    any other's. -/
structure BestPairing (pairs : List (ℕ × ℕ)) : Prop where
  eligible : ∀ pair ∈ pairs, (pageWeight pipelineActs referenceActs threshold pair.1 pair.2).isSome
  rows : (pairs.map Prod.fst).Nodup
  cols : (pairs.map Prod.snd).Nodup
  greatest : ∀ others : Finset (ℕ × ℕ), IsMatching others →
    (∀ pair ∈ others, (pageWeight pipelineActs referenceActs threshold pair.1 pair.2).isSome) →
      ∑ pair ∈ others, pairWeight pipelineActs referenceActs threshold pair ≤
        (pairs.map (pairWeight pipelineActs referenceActs threshold)).sum

variable {pipelineActs referenceActs threshold}

theorem compactWeights_weight (positive : 0 < threshold) {p : ℕ}
    (listed : p ∈ eligiblePipeline pipelineActs referenceActs threshold) (r : ℕ) :
    (@compactWeights pipelineActs referenceActs threshold positive).weight
        ((eligiblePipeline pipelineActs referenceActs threshold).idxOf p) r =
      pageWeight pipelineActs referenceActs threshold p r := by
  have found : (eligiblePipeline pipelineActs referenceActs threshold)[
      (eligiblePipeline pipelineActs referenceActs threshold).idxOf p]? = some p :=
    List.getElem?_idxOf listed
  change Option.bind _ _ = _
  rw [found]
  rfl

theorem compactWeights_of_getElem? (positive : 0 < threshold) {compactP p : ℕ}
    (found : (eligiblePipeline pipelineActs referenceActs threshold)[compactP]? = some p) (r : ℕ) :
    (@compactWeights pipelineActs referenceActs threshold positive).weight compactP r =
      pageWeight pipelineActs referenceActs threshold p r := by
  change Option.bind _ _ = _
  rw [found]
  rfl

/-- A matching of the page is one of the compact rows, and weighs the same there. -/
theorem compact_sum (positive : 0 < threshold) {others : Finset (ℕ × ℕ)}
    (matching : IsMatching others)
    (edges : ∀ pair ∈ others,
      (pageWeight pipelineActs referenceActs threshold pair.1 pair.2).isSome)
    {compactMatches : List (ℕ × ℕ)}
    (optimal : (@compactWeights pipelineActs referenceActs threshold positive).Optimal
      compactMatches) :
    ∑ pair ∈ others, pairWeight pipelineActs referenceActs threshold pair ≤
      (compactMatches.map
        (@compactWeights pipelineActs referenceActs threshold positive).edgeWeight).sum := by
  set weights := @compactWeights pipelineActs referenceActs threshold positive
  set eligible := eligiblePipeline pipelineActs referenceActs threshold
  have member : ∀ pair ∈ others, pair.1 ∈ eligible := fun pair listed =>
    mem_eligiblePipeline (edges pair listed)
  have rowsApart : Set.InjOn (fun p => eligible.idxOf p) (others.image Prod.fst) := by
    intro p first q second same
    obtain ⟨one, listed, rfl⟩ := Finset.mem_image.mp first
    exact (List.idxOf_inj (member one listed)).mp same
  have renamed := matching.image rowsApart (Set.injOn_id _)
  have sums : ∑ pair ∈ others.image (fun pair => (eligible.idxOf pair.1, pair.2)),
      weights.edgeWeight pair =
        ∑ pair ∈ others, pairWeight pipelineActs referenceActs threshold pair := by
    rw [Finset.sum_image]
    · refine Finset.sum_congr rfl fun pair listed => ?_
      exact congrArg (·.getD 0) (compactWeights_weight positive (member pair listed) pair.2)
    · intro one listed two also same
      have rows := (List.idxOf_inj (member one listed)).mp (congrArg Prod.fst same)
      exact matching.1 listed also rows
  rw [← sums]
  refine optimal.greatest _ renamed fun pair listed => ?_
  obtain ⟨original, inside, rfl⟩ := Finset.mem_image.mp listed
  rw [compactWeights_weight positive (member original inside)]
  exact edges original inside

/-- Within the cap, the assignment of a page returns the best pairing of all its acts. -/
theorem bestAssignment_best (positive : 0 < threshold)
    (capped : (eligiblePipeline pipelineActs referenceActs threshold).length ≤ maxActsPerPage ∧
      referenceActs.length ≤ maxActsPerPage) :
    ∃ matched, bestAssignment pipelineActs referenceActs threshold positive = .ok (some matched) ∧
      BestPairing pipelineActs referenceActs threshold matched := by
  obtain ⟨pairs, ran, optimal⟩ :=
    (@compactWeights pipelineActs referenceActs threshold positive).maxWeightAssignment_optimal
  set weights := @compactWeights pipelineActs referenceActs threshold positive
  set eligible := eligiblePipeline pipelineActs referenceActs threshold with eligible_eq
  have original : ∀ pair ∈ pairs, eligible[pair.1]? = some (eligible.getD pair.1 0) := by
    intro pair listed
    obtain ⟨edge, found⟩ := Option.isSome_iff_exists.mp (optimal.eligible pair listed)
    have inside : pair.1 < eligible.length := (weights.within found).1
    rw [List.getD_eq_getElem?_getD, List.getElem?_eq_getElem inside, Option.getD_some]
  have weighed : ∀ pair ∈ pairs, weights.weight pair.1 pair.2 =
      pageWeight pipelineActs referenceActs threshold (eligible.getD pair.1 0) pair.2 :=
    fun pair listed => compactWeights_of_getElem? positive (original pair listed) pair.2
  have mapped : (pairs.mapM fun pair => (do
      return (← itemAt eligible pair.1, pair.2) : Except Refusal (ℕ × ℕ))) =
        .ok (pairs.map fun pair => (eligible.getD pair.1 0, pair.2)) := by
    refine mapM_eq_ok.mpr (List.forall₂_map_right_iff.mpr (List.forall₂_same.mpr ?_))
    intro pair listed
    rw [itemAt, original pair listed]
    rfl
  have rows : ((pairs.map fun pair => (eligible.getD pair.1 0, pair.2)).map Prod.fst).Nodup := by
    rw [List.map_map]
    have apart := optimal.rows
    rw [List.Nodup, List.pairwise_map] at apart ⊢
    refine apart.imp_of_mem fun {one two} first second differ same => differ ?_
    have inside := (List.getElem?_eq_some_iff.mp (original one first)).1
    refine (List.getElem?_inj inside eligiblePipeline_nodup).mp ?_
    rw [original one first, original two second]
    exact congrArg some same
  refine ⟨pairs.map fun pair => (eligible.getD pair.1 0, pair.2), ?_, ?_, rows, ?_, ?_⟩
  · unfold bestAssignment
    rw [require_bind_of capped, ran]
    change (List.mapM _ pairs >>= _) = _
    rw [mapped, ok_bind, dictOf_of_nodup rows]
    rfl
  · intro pair listed
    obtain ⟨compactPair, inside, rfl⟩ := List.mem_map.mp listed
    rw [← weighed compactPair inside]
    exact optimal.eligible compactPair inside
  · rw [List.map_map]
    exact optimal.cols
  · intro others matching edges
    refine (compact_sum positive matching edges optimal).trans_eq ?_
    rw [List.map_map]
    refine congrArg List.sum (List.map_congr_left fun pair listed => ?_)
    exact congrArg (·.getD 0) (weighed pair listed)

end Pairing

section Sides

variable {α : Type} {items : List α} {taken : List ℕ}

/-- The items at indices that occur once each, and the items at the other indices, are all of them. -/
theorem taken_left_perm (distinct : taken.Nodup) {chosen : List α}
    (each : List.Forall₂ (fun index item => items[index]? = some item) taken chosen) :
    (chosen ++ (items.zipIdx.filter fun entry => entry.2 ∉ taken).map Prod.fst).Perm items := by
  have pairs : ∀ entry, entry ∈ chosen.zip taken ↔
      entry.2 ∈ taken ∧ items[entry.2]? = some entry.1 := by
    intro entry
    clear distinct
    induction each with
    | nil => simp
    | @cons index item taken chosen here rest ih =>
        rw [List.zip_cons_cons, List.mem_cons, ih, List.mem_cons]
        constructor
        · rintro (rfl | ⟨inside, found⟩)
          · exact ⟨.inl rfl, here⟩
          · exact ⟨.inr inside, found⟩
        · rintro ⟨same | inside, found⟩
          · rw [same, here, Option.some.injEq] at found
            exact .inl (Prod.ext found.symm same)
          · exact .inr ⟨inside, found⟩
  have lengths := each.length_eq
  have zipped : (chosen.zip taken).Nodup := by
    refine List.Nodup.of_map Prod.snd ?_
    rw [List.map_snd_zip lengths.le]
    exact distinct
  have listed : items.zipIdx.Nodup := by
    refine List.Nodup.of_map Prod.snd ?_
    rw [List.zipIdx_map_snd]
    exact List.nodup_range'
  have whole : (chosen.zip taken ++ items.zipIdx.filter fun entry => entry.2 ∉ taken).Perm
      items.zipIdx := by
    refine (List.perm_ext_iff_of_nodup ?_ listed).mpr fun entry => ?_
    · refine List.nodup_append'.mpr ⟨zipped, listed.filter _, fun entry first second => ?_⟩
      have outside := (List.mem_filter.mp second).2
      exact absurd ((pairs entry).mp first).1 (of_decide_eq_true outside)
    · rw [List.mem_append, pairs, List.mem_filter, List.mem_zipIdx_iff_getElem?, decide_eq_true_eq]
      tauto
  have firsts := whole.map Prod.fst
  rw [List.map_append, List.map_fst_zip lengths.ge, List.zipIdx_map_fst] at firsts
  exact firsts

end Sides

/-- A pair is flagged eligible exactly when its IoU reaches the threshold. -/
theorem matrixEntry_eligible (threshold : ℚ) (pact : PipelineAct) (ract : ReferenceAct) :
    (matrixEntry threshold pact ract).eligible =
      decide (threshold ≤ Box.iou pact.bounds ract.region) := by
  have union : (0 : ℚ) < Box.unionArea pact.bounds ract.region := by
    exact_mod_cast Box.unionArea_pos pact.bounds ract.region
  have den : (0 : ℚ) < threshold.den := by exact_mod_cast threshold.den_pos
  refine decide_eq_decide.mpr ?_
  have crossed : threshold ≤ Box.iou pact.bounds ract.region ↔
      (threshold.num : ℚ) * Box.unionArea pact.bounds ract.region ≤
        Box.intersectionArea pact.bounds ract.region * threshold.den := by
    rw [Box.iou_eq, le_div_iff₀ union]
    conv_lhs => rw [← Rat.num_div_den threshold]
    rw [div_mul_eq_mul_div, div_le_iff₀ den]
  rw [crossed]
  exact_mod_cast Iff.rfl

/-- What the record of a page says of its pairing. -/
structure ExactGeometry (page : ReferencePage) (pipelineActs : List PipelineAct) (threshold : ℚ)
    (geometry : PageGeometry) : Prop where
  /-- The flags of the matrix, row by row, are the edges. -/
  flags : geometry.matrix.map MatrixEntry.eligible =
    (sortBy PipelineAct.actId pipelineActs).zipIdx.flatMap fun pact =>
      page.acts.zipIdx.map fun ract =>
        (pageWeight (sortBy PipelineAct.actId pipelineActs) page.acts threshold
          pact.2 ract.2).isSome
  pipelineSide : (geometry.matchedPairs.map MatchedPair.pipelineActId ++
    geometry.unmatchedPipelineActs).Perm (pipelineActs.map PipelineAct.actId)
  referenceSide : (geometry.matchedPairs.map
      (fun pair => (⟨pair.referencePhysicalActId, pair.recordId⟩ : Miss)) ++ geometry.misses).Perm
    (page.acts.map fun act => ⟨act.physicalActId, act.recordId⟩)
  /-- The matched pairs are a best pairing's, each with its areas. -/
  best : ∃ matched, BestPairing (sortBy PipelineAct.actId pipelineActs) page.acts threshold matched ∧
    (geometry.matchedPairs.map fun pair => (pair.intersectionArea : ℚ) / pair.unionArea).sum =
      (matched.map
        (pairWeight (sortBy PipelineAct.actId pipelineActs) page.acts threshold)).sum

theorem itemAt_eq_ok {α : Type} {items : List α} {index : ℕ} {item : α} :
    itemAt items index = .ok item ↔ items[index]? = some item := by
  unfold itemAt
  cases items[index]? with
  | none => simp
  | some found => simp

theorem flags_eq (page : ReferencePage) (ordered : List PipelineAct) (threshold : ℚ) :
    (ordered.flatMap fun pact => page.acts.map (matrixEntry threshold pact)).map
        MatrixEntry.eligible =
      ordered.zipIdx.flatMap fun pact => page.acts.zipIdx.map fun ract =>
        (pageWeight ordered page.acts threshold pact.2 ract.2).isSome := by
  have rows : ordered = ordered.zipIdx.map Prod.fst := (List.zipIdx_map_fst 0 ordered).symm
  have cols : page.acts = page.acts.zipIdx.map Prod.fst := (List.zipIdx_map_fst 0 page.acts).symm
  rw [List.map_flatMap]
  conv_lhs => rw [rows, List.flatMap_map]
  refine List.flatMap_congr fun pact listed => ?_
  conv_lhs => rw [cols, List.map_map, List.map_map]
  refine List.map_congr_left fun ract also => ?_
  have row := List.mem_zipIdx_iff_getElem?.mp listed
  have col := List.mem_zipIdx_iff_getElem?.mp also
  change (matrixEntry threshold pact.1 ract.1).eligible = _
  rw [matrixEntry_eligible, pageWeight, row, col]
  by_cases enough : threshold ≤ Box.iou pact.1.bounds ract.1.region
  · simp [enough]
  · simp [enough]

/-- What a recorded pair is of: the acts at its indices. -/
def PairOf (ordered : List PipelineAct) (acts : List ReferenceAct) (pair : ℕ × ℕ)
    (entry : MatchedPair) : Prop :=
  ∃ pact ract, ordered[pair.1]? = some pact ∧ acts[pair.2]? = some ract ∧
    entry = matchedPair pact ract

/-- The acts of the recorded pairs, on either side. -/
theorem acts_of_pairs {ordered : List PipelineAct} {acts : List ReferenceAct}
    {taken : List (ℕ × ℕ)} {pairs : List MatchedPair}
    (each : List.Forall₂ (PairOf ordered acts) taken pairs) :
    ∃ pacts racts,
      List.Forall₂ (fun index item => ordered[index]? = some item) (taken.map Prod.fst) pacts ∧
      List.Forall₂ (fun index item => acts[index]? = some item) (taken.map Prod.snd) racts ∧
      pairs.map MatchedPair.pipelineActId = pacts.map PipelineAct.actId ∧
      pairs.map (fun pair => (⟨pair.referencePhysicalActId, pair.recordId⟩ : Miss)) =
        racts.map fun act => ⟨act.physicalActId, act.recordId⟩ := by
  induction each with
  | nil => exact ⟨[], [], .nil, .nil, rfl, rfl⟩
  | cons here _ ih =>
      obtain ⟨pact, ract, first, second, rfl⟩ := here
      obtain ⟨pacts, racts, rows, cols, ids, misses⟩ := ih
      refine ⟨pact :: pacts, ract :: racts, .cons first rows, .cons second cols, ?_, ?_⟩
      · rw [List.map_cons, List.map_cons, ids]
        rfl
      · rw [List.map_cons, List.map_cons, misses]
        rfl

/-- The recorded areas give back the IoU of each pair. -/
theorem areas_of_pairs {ordered : List PipelineAct} {acts : List ReferenceAct} {threshold : ℚ}
    {taken : List (ℕ × ℕ)} {pairs : List MatchedPair}
    (each : List.Forall₂ (PairOf ordered acts) taken pairs)
    (eligible : ∀ pair ∈ taken, (pageWeight ordered acts threshold pair.1 pair.2).isSome) :
    (pairs.map fun pair => (pair.intersectionArea : ℚ) / pair.unionArea) =
      taken.map (pairWeight ordered acts threshold) := by
  induction each with
  | nil => rfl
  | @cons pair _ _ _ here _ ih =>
      obtain ⟨pact, ract, first, second, rfl⟩ := here
      rw [List.map_cons, List.map_cons,
        ih fun other listed => eligible other (List.mem_cons_of_mem _ listed)]
      congr 1
      obtain ⟨edge, found⟩ := Option.isSome_iff_exists.mp (eligible pair List.mem_cons_self)
      obtain ⟨_, _, also, again, _, weighed⟩ := pageWeight_eq_some.mp found
      obtain rfl := Option.some.inj (first.symm.trans also)
      obtain rfl := Option.some.inj (second.symm.trans again)
      rw [pairWeight, found, Option.getD_some, ← weighed, Box.iou_eq]
      rfl

/-- The record of a best pairing is exact. -/
theorem geometryOf_exact {page : ReferencePage} {pipelineActs : List PipelineAct} {threshold : ℚ}
    {matched : List (ℕ × ℕ)} {excluded : ExcludedRegionCounts} {geometry : PageGeometry}
    (best : BestPairing (sortBy PipelineAct.actId pipelineActs) page.acts threshold matched)
    (recorded : geometryOf page (sortBy PipelineAct.actId pipelineActs) threshold matched excluded =
      .ok geometry) :
    ExactGeometry page pipelineActs threshold geometry := by
  obtain ⟨pairs, paired, made⟩ := bind_eq_ok.mp recorded
  obtain rfl := pure_eq_ok.mp made
  set ordered := sortBy PipelineAct.actId pipelineActs
  have sorted := sortBy_perm (fun pair : ℕ × ℕ => toLex pair) matched
  have each : List.Forall₂ (PairOf ordered page.acts)
      (sortBy (fun pair : ℕ × ℕ => toLex pair) matched) pairs := by
    refine (mapM_eq_ok.mp paired).imp fun pair entry ran => ?_
    obtain ⟨pact, first, continued⟩ := bind_eq_ok.mp ran
    obtain ⟨ract, second, made⟩ := bind_eq_ok.mp continued
    exact ⟨pact, ract, itemAt_eq_ok.mp first, itemAt_eq_ok.mp second, (pure_eq_ok.mp made).symm⟩
  obtain ⟨pacts, racts, rows, cols, ids, misses⟩ := acts_of_pairs each
  have rowsApart := (sorted.map Prod.fst).nodup_iff.mpr best.rows
  have colsApart := (sorted.map Prod.snd).nodup_iff.mpr best.cols
  refine ⟨flags_eq page ordered threshold, ?_, ?_, matched, best, ?_⟩
  · have left := (taken_left_perm rowsApart rows).map PipelineAct.actId
    simp only [(sorted.map Prod.fst).mem_iff] at left
    rw [List.map_append, List.map_map, ← ids] at left
    exact left.trans ((sortBy_perm PipelineAct.actId pipelineActs).map PipelineAct.actId)
  · have left := (taken_left_perm colsApart cols).map
      fun act => (⟨act.physicalActId, act.recordId⟩ : Miss)
    simp only [(sorted.map Prod.snd).mem_iff] at left
    rw [List.map_append, List.map_map, ← misses] at left
    exact left
  · have eligible : ∀ pair ∈ sortBy (fun pair : ℕ × ℕ => toLex pair) matched,
        (pageWeight ordered page.acts threshold pair.1 pair.2).isSome :=
      fun pair listed => best.eligible pair (sorted.mem_iff.mp listed)
    change (pairs.map fun pair => (pair.intersectionArea : ℚ) / pair.unionArea).sum = _
    rw [areas_of_pairs each eligible]
    exact (sorted.map _).sum_eq

/-- What a returned comparison went through. -/
theorem comparePageGeometry_eq_ok {page : ReferencePage} {pipelineActs : List PipelineAct}
    {threshold : ℚ} {excluded : Option ExcludedRegionCounts} {result : Option PageGeometry}
    (returned : comparePageGeometry page pipelineActs threshold excluded = .ok result) :
    ∃ positive : 0 < threshold, threshold ≤ 1 ∧
      (∀ act ∈ pipelineActs, checkPipelineAct page act = .ok ()) ∧
      ∃ matched geometry,
        bestAssignment (sortBy PipelineAct.actId pipelineActs) page.acts threshold positive =
          .ok (some matched) ∧
        BestPairing (sortBy PipelineAct.actId pipelineActs) page.acts threshold matched ∧
        geometryOf page (sortBy PipelineAct.actId pipelineActs) threshold matched
          (excluded.getD ⟨[], []⟩) = .ok geometry ∧ result = some geometry := by
  unfold comparePageGeometry at returned
  by_cases bounds : 0 < threshold ∧ threshold ≤ 1
  · rw [dif_pos bounds] at returned
    obtain ⟨⟨⟩, checked, continued⟩ := bind_eq_ok.mp returned
    obtain ⟨found, ran, rest⟩ := bind_eq_ok.mp continued
    have capped := (require_bind_eq_ok.mp ran).1
    obtain ⟨matched, assigned, best⟩ := bestAssignment_best bounds.1 capped
    rw [assigned, Except.ok.injEq] at ran
    subst ran
    obtain ⟨geometry, recorded, made⟩ := bind_eq_ok.mp rest
    exact ⟨bounds.1, bounds.2, forM_eq_ok.mp checked, matched, geometry, assigned, best, recorded,
      (pure_eq_ok.mp made).symm⟩
  · rw [dif_neg bounds] at returned
    cases returned

/-- The record does not depend on the order in which the pipeline acts come. -/
theorem comparePageGeometry_perm {page : ReferencePage} {pipelineActs others : List PipelineAct}
    {threshold : ℚ} {excluded : Option ExcludedRegionCounts} {result : Option PageGeometry}
    (same : pipelineActs.Perm others)
    (apart : ∀ a ∈ pipelineActs, ∀ b ∈ pipelineActs, a.actId = b.actId → a = b)
    (returned : comparePageGeometry page pipelineActs threshold excluded = .ok result) :
    comparePageGeometry page others threshold excluded = .ok result := by
  obtain ⟨positive, bound, checked, matched, geometry, assigned, _, recorded, rfl⟩ :=
    comparePageGeometry_eq_ok returned
  have sorted := sortBy_eq_of_perm same apart
  have checks : others.forM (checkPipelineAct page) = .ok () :=
    forM_eq_ok.mpr fun act listed => checked act (same.mem_iff.mpr listed)
  unfold comparePageGeometry
  rw [dif_pos ⟨positive, bound⟩, checks, ok_bind, ← sorted]
  exact bind_eq_ok.mpr ⟨some matched, assigned, bind_eq_ok.mpr ⟨geometry, recorded, rfl⟩⟩

/-- The assignment runs below its sentinel to a matching of the greatest weight; a page's pairing is
    the best over all the acts of either side, its flags are the edges, and nothing is dropped. -/
theorem iouAssignment_exact :
    (∀ weights : Weights, (∀ state, weights.Head state → weights.BelowSentinel state) ∧
      ∃ pairs, weights.maxWeightAssignment = some pairs ∧ weights.Optimal pairs) ∧
    (∀ pipelineActs referenceActs threshold, ∀ positive : 0 < threshold,
      (eligiblePipeline pipelineActs referenceActs threshold).length ≤ maxActsPerPage →
        referenceActs.length ≤ maxActsPerPage →
          ∃ matched,
            bestAssignment pipelineActs referenceActs threshold positive = .ok (some matched) ∧
              BestPairing pipelineActs referenceActs threshold matched) ∧
    ∀ page pipelineActs threshold excluded result,
      comparePageGeometry page pipelineActs threshold excluded = .ok result →
        (∃ geometry, result = some geometry ∧
          ExactGeometry page pipelineActs threshold geometry) ∧
        ∀ others, pipelineActs.Perm others →
          (∀ a ∈ pipelineActs, ∀ b ∈ pipelineActs, a.actId = b.actId → a = b) →
            comparePageGeometry page others threshold excluded = .ok result := by
  refine ⟨fun weights => ⟨fun _ head => head.belowSentinel, weights.maxWeightAssignment_optimal⟩,
    fun pipelineActs referenceActs threshold positive eligible references =>
      bestAssignment_best positive ⟨eligible, references⟩,
    fun page pipelineActs threshold excluded result returned => ⟨?_, fun others same apart =>
      comparePageGeometry_perm same apart returned⟩⟩
  obtain ⟨_, _, _, matched, geometry, _, best, recorded, made⟩ :=
    comparePageGeometry_eq_ok returned
  exact ⟨geometry, made, geometryOf_exact best recorded⟩

end Verbatus.Corpus
