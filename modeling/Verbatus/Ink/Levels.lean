import Verbatus.Ink.Background

namespace Verbatus.Ink

section Maximum

variable {key : ℕ → ℕ}

/-- A value of a list that no other beats, and none in front of it reaches. -/
structure FirstBest (key : ℕ → ℕ) (values : List ℕ) (best : ℕ) : Prop where
  listed : best ∈ values
  most : ∀ other ∈ values, key other ≤ key best
  first : ∀ other ∈ values, other < best → key other < key best

theorem firstMaximum_best {first : ℕ} {rest : List ℕ}
    (rising : (first :: rest).Pairwise (· < ·)) :
    FirstBest key (first :: rest) (firstMaximum key first rest) := by
  induction rest generalizing first with
  | nil =>
      refine ⟨.head _, ?_, ?_⟩
      · simp [firstMaximum]
      · simp [firstMaximum]
  | cons value rest ih =>
      obtain ⟨above, later⟩ := List.pairwise_cons.mp rising
      obtain ⟨aboveValue, tail⟩ := List.pairwise_cons.mp later
      have aboveFirst := above value (.head _)
      have step : firstMaximum key first (value :: rest) =
          firstMaximum key (if key first < key value then value else first) rest := rfl
      rw [step]
      split_ifs with more
      · obtain ⟨listed, most, strict⟩ := ih later
        refine ⟨.tail _ listed, List.forall_mem_cons.mpr ⟨?_, most⟩,
          List.forall_mem_cons.mpr ⟨fun _ => ?_, strict⟩⟩
        · exact more.le.trans (most value (.head _))
        · exact more.trans_le (most value (.head _))
      · have skipped : (first :: rest).Pairwise (· < ·) :=
          List.pairwise_cons.mpr ⟨fun other member => above other (.tail _ member), tail⟩
        obtain ⟨listed, most, strict⟩ := ih skipped
        have mostFirst := most first (.head _)
        obtain ⟨mostValue, mostRest⟩ : key value ≤ key (firstMaximum key first rest) ∧
            ∀ other ∈ rest, key other ≤ key (firstMaximum key first rest) :=
          ⟨(not_lt.mp more).trans mostFirst, fun other member => most other (.tail _ member)⟩
        refine ⟨?_, ?_, ?_⟩
        · rcases List.mem_cons.mp listed with same | member
          · rw [same]
            exact .head _
          · exact .tail _ (.tail _ member)
        · exact List.forall_mem_cons.mpr ⟨mostFirst, List.forall_mem_cons.mpr ⟨mostValue, mostRest⟩⟩
        · refine List.forall_mem_cons.mpr ⟨strict first (.head _), List.forall_mem_cons.mpr
            ⟨fun before => ?_, fun other member => strict other (.tail _ member)⟩⟩
          exact (not_lt.mp more).trans_lt (strict first (.head _) (aboveFirst.trans before))

/-- The best of the values from a lowest to a highest one. -/
theorem firstMaximum_range' (key : ℕ → ℕ) (low count : ℕ) :
    FirstBest key (List.range' low (count + 1))
      (firstMaximum key low (List.range' (low + 1) count)) := by
  have rising := List.pairwise_lt_range' (s := low) (n := count + 1)
  rw [List.range'_succ] at rising ⊢
  exact firstMaximum_best rising

end Maximum

section Pixels

variable (page : Page)

/-- The values of a page's pixels, row after row. -/
def Page.values : List ℕ := page.rows.flatten.map UInt8.toNat

/-- How many pixels have a value. -/
def Page.occurrences (value : ℕ) : ℕ := page.values.count value

/-- How many pixels are at or below a level. -/
def Page.atOrBelow (level : ℤ) : ℕ := page.values.countP fun value : ℕ => (value : ℤ) ≤ level

/-- The mean of a page's pixels, rounded down. -/
def Page.mean : ℕ := page.values.sum / (page.width * page.height)

theorem Page.counted_pos : 0 < page.width * page.height :=
  Nat.mul_pos page.widthPositive page.heightPositive

theorem Page.length_values : page.values.length = page.width * page.height := by
  have widths : page.rows.map List.length = List.replicate page.height page.width := by
    rw [List.eq_replicate_iff, List.length_map]
    refine ⟨page.rowCount, fun width listed => ?_⟩
    obtain ⟨row, member, rfl⟩ := List.mem_map.mp listed
    exact page.rowWidth row member
  rw [values, List.length_map, List.length_flatten, widths, List.sum_replicate, smul_eq_mul,
    Nat.mul_comm]

theorem Page.values_lt {value : ℕ} (listed : value ∈ page.values) : value < 256 := by
  obtain ⟨byte, -, rfl⟩ := List.mem_map.mp listed
  exact byte.toNat_lt

theorem Page.count_flatten {value : ℕ} (small : value < 256) :
    page.rows.flatten.count (UInt8.ofNat value) = page.occurrences value := by
  have same : (UInt8.ofNat value).toNat = value := by
    rw [UInt8.toNat_ofNat', Nat.mod_eq_of_lt small]
  have injective : Function.Injective UInt8.toNat := fun _ _ => UInt8.toNat_inj.mp
  have counted := List.count_map_of_injective page.rows.flatten _ injective (UInt8.ofNat value)
  rw [same] at counted
  exact counted.symm

/-- The histogram counts each value's pixels. -/
theorem histogram_eq : histogram page = (List.range 256).map page.occurrences := by
  refine List.map_congr_left fun value listed => ?_
  rw [← page.count_flatten (List.mem_range.mp listed), List.count_flatten]

theorem histogram_getD {value : ℕ} (small : value < 256) :
    (histogram page).getD value 0 = page.occurrences value := by
  rw [histogram_eq, List.getD_eq_getElem?_getD, List.getElem?_map, List.getElem?_range small]
  rfl

theorem sum_indicator (weight : ℕ → ℕ) (value bound : ℕ) :
    ((List.range bound).map fun other => if value = other then weight other else 0).sum =
      if value < bound then weight value else 0 := by
  induction bound with
  | zero => rfl
  | succ bound ih =>
      rw [List.range_succ, List.map_append, List.sum_append, ih, List.map_singleton,
        List.sum_singleton]
      by_cases here : value = bound
      · rw [if_neg (by omega), if_pos here, if_pos (by omega), Nat.zero_add, here]
      · rw [if_neg here, Nat.add_zero]
        exact if_congr (by omega) rfl rfl

/-- A sum over the counted values is one over the pixels. -/
theorem sum_weighted_counts (weight : ℕ → ℕ) (values : List ℕ) (bound : ℕ) :
    ((List.range bound).map fun other => weight other * values.count other).sum =
      ((values.filter (· < bound)).map weight).sum := by
  induction values with
  | nil => simp
  | cons value values ih =>
      have apart : ∀ other, weight other * (value :: values).count other =
          weight other * values.count other + if value = other then weight other else 0 := by
        intro other
        rw [List.count_cons, Nat.mul_add]
        by_cases same : value = other
        · simp [same]
        · simp [same]
      rw [List.map_congr_left fun other _ => apart other, List.sum_map_add, ih, sum_indicator,
        List.filter_cons]
      by_cases small : value < bound
      · rw [if_pos small, if_pos (by simpa using small), List.map_cons, List.sum_cons, Nat.add_comm]
      · rw [if_neg small, if_neg (by simpa using small), Nat.add_zero]

theorem filter_values_lt : page.values.filter (· < 256) = page.values :=
  List.filter_eq_self.mpr fun _ listed => by simpa using page.values_lt listed

theorem countAtOrBelow_eq (level : ℤ) :
    countAtOrBelow (histogram page) level = page.atOrBelow level := by
  have weighed := sum_weighted_counts (fun _ => 1) page.values (min (level + 1).toNat 256)
  simp only [Nat.one_mul, List.map_const', List.sum_replicate, smul_eq_mul, Nat.mul_one,
    ← List.countP_eq_length_filter] at weighed
  rw [countAtOrBelow, histogram_eq, ← List.map_take, List.take_range, Page.atOrBelow]
  refine congrArg Nat.cast (weighed.trans (List.countP_congr fun value listed => ?_))
  have small := page.values_lt listed
  simp only [decide_eq_true_eq]
  omega

/-- The histogram's total is the sum of the pixels. -/
theorem histogram_total : ((histogram page).zipIdx.map fun (count, value) => value * count).sum =
    page.values.sum := by
  have paired : (histogram page).zipIdx.map (fun entry => entry.2 * entry.1) =
      (List.range 256).map fun value => value * page.values.count value := by
    rw [histogram_eq]
    apply List.ext_getElem
    · simp
    · intro index within also
      simp [Page.occurrences]
  have weighed := sum_weighted_counts id page.values 256
  rw [filter_values_lt, List.map_id] at weighed
  exact (congrArg List.sum paired).trans weighed

end Pixels

end Verbatus.Ink
