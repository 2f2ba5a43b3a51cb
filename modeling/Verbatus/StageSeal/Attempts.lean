import Verbatus.StageSeal.Inventory

namespace Verbatus.StageSeal

open Library Library.Checked Refusal RunTree

variable (hashing : Hashing) (stage : Stage)

/-- The ordinals of a run of attempts without a gap. -/
def ordinalsUpTo (count : ℕ) : List ℤ := (List.range count).map fun index : ℕ => (index : ℤ) + 1

theorem mem_ordinalsUpTo {count : ℕ} {ordinal : ℤ} :
    ordinal ∈ ordinalsUpTo count ↔ 1 ≤ ordinal ∧ ordinal ≤ count := by
  rw [ordinalsUpTo, List.mem_map]
  constructor
  · rintro ⟨index, listed, rfl⟩
    rw [List.mem_range] at listed
    omega
  · intro bounds
    exact ⟨(ordinal - 1).toNat, List.mem_range.mpr (by omega), by omega⟩

theorem ordinalsUpTo_pairwise (count : ℕ) : (ordinalsUpTo count).Pairwise (· < ·) := by
  rw [ordinalsUpTo, List.pairwise_map]
  apply List.pairwise_lt_range.imp
  intro first second below
  omega

theorem ordinalsUpTo_nodup (count : ℕ) : (ordinalsUpTo count).Nodup :=
  (ordinalsUpTo_pairwise count).imp ne_of_lt

/-- The ordinal an artifact's payload gives its attempt, or 0. -/
def ordinalOf (record : Envelope) : ℤ := (attemptOrdinal? record.payload).getD 0

/-- An attempt whose identity is derived from the ordinal in its payload. -/
structure BoundAttempt (operation : String) (record : Envelope) : Prop where
  ordinal : attemptOrdinal? record.payload = some (ordinalOf record)
  identity : record.attemptId =
    some (hashing.attemptId record.subjectId operation (ordinalOf record))

/-- Bound attempts with distinct ordinals are collected as they come. -/
theorem collectOrdinals_bound (what operation : String) {records : List Envelope}
    (bound : ∀ record ∈ records, BoundAttempt hashing operation record)
    (ordinals : List (ℤ × Envelope))
    (distinct : (ordinals.map Prod.fst ++ records.map ordinalOf).Nodup) :
    collectOrdinals hashing what operation records ordinals =
      .ok (ordinals ++ records.map fun record => (ordinalOf record, record)) := by
  induction records generalizing ordinals with
  | nil => rw [List.map_nil, List.append_nil, collectOrdinals]
  | cons record records ih =>
      obtain ⟨given, identity⟩ := bound record (.head _)
      have fresh : ordinalOf record ∉ ordinals.map Prod.fst := by
        intro listed
        exact List.disjoint_of_nodup_append distinct listed (.head _)
      have later : ((ordinals ++ [(ordinalOf record, record)]).map Prod.fst ++
          records.map ordinalOf).Nodup := by
        simpa [List.append_assoc] using distinct
      simp only [collectOrdinals, given, if_neg fresh, if_pos identity]
      rw [ih (fun other listed => bound other (.tail _ listed)) _ later, List.append_assoc]
      rfl

/-- Of attempts numbered without a gap the one of the last number is the latest. -/
theorem latestAttempt_eq (what operation : String) {records : List Envelope}
    (bound : ∀ record ∈ records, BoundAttempt hashing operation record)
    (numbered : (records.map ordinalOf).Perm (ordinalsUpTo records.length)) {last : Envelope}
    (listed : last ∈ records) (greatest : ordinalOf last = records.length) :
    latestAttempt hashing records what operation = .ok last := by
  have distinct : (records.map ordinalOf).Nodup :=
    numbered.nodup_iff.mpr (ordinalsUpTo_nodup records.length)
  have collected := collectOrdinals_bound hashing what operation bound [] (by simpa using distinct)
  rw [List.nil_append] at collected
  let ordinals := records.map fun record => (ordinalOf record, record)
  have keys : ordinals.map Prod.fst = records.map ordinalOf := List.map_map
  have contiguous : sortBy id (ordinals.map Prod.fst) =
      (List.range ordinals.length).map fun index : ℕ => (index : ℤ) + 1 := by
    rw [keys, sortBy_congr numbered Function.injective_id, List.length_map]
    exact sortBy_of_pairwise _ ((ordinalsUpTo_pairwise _).imp le_of_lt)
  have attempts : attemptOrdinals hashing records what operation = .ok ordinals := by
    rw [attemptOrdinals, require_bind_of (List.ne_nil_of_mem listed), collected, ok_bind,
      require_bind_of contiguous]
    rfl
  have maximal : (ordinals.map Prod.fst).max? = some (records.length : ℤ) := by
    rw [List.max?_eq_some_iff, keys]
    refine ⟨greatest ▸ List.mem_map_of_mem listed, ?_⟩
    intro ordinal member
    exact (mem_ordinalsUpTo.mp (numbered.mem_iff.mp member)).2
  have found : ordinals.lookup (records.length : ℤ) = some last := by
    rw [lookup_eq_some_iff_mem (keys ▸ distinct), ← greatest]
    exact List.mem_map_of_mem (f := fun record => (ordinalOf record, record)) listed
  rw [latestAttempt, attempts, ok_bind, maximal]
  simp only [Option.bind_some, found]
  rfl

/-- A stage seal of the given ordinal, and the inventory it was published over. -/
structure Witnesses (ordinal : ℤ) (envelope : Envelope) (recorded : Inventory) : Prop where
  attempt : envelope.attemptId = some (sealAttempt hashing stage ordinal)
  subject : envelope.subjectId = stage.name
  payload : ∃ tree environment, Readable hashing stage tree ∧
    tree.artifacts.get? (boundaryKey hashing stage "decode-environment" ordinal) =
      some environment ∧
    (∀ owner, validateDecodeEnvironment environment.payload owner = .ok ()) ∧
    envelope.payload = .seal (payloadOf hashing stage tree ordinal environment) ∧
    recorded = inventoryAt hashing stage tree ordinal

theorem Witnesses.ordinalOf_eq {ordinal : ℤ} {envelope : Envelope} {recorded : Inventory}
    (witness : Witnesses hashing stage ordinal envelope recorded) :
    attemptOrdinal? envelope.payload = some ordinal ∧ ordinalOf envelope = ordinal := by
  obtain ⟨tree, environment, _, _, _, published, _⟩ := witness.payload
  rw [ordinalOf, published]
  exact ⟨rfl, rfl⟩

/-- The seals on disk are one for each inventory sealed, numbered in order without a gap. -/
structure SealedBy (tree : Tree) (witnessed : List Inventory) (seals : List Envelope) : Prop where
  listed : ∀ envelope, envelope ∈ sealsOf stage tree ↔ envelope ∈ seals
  each : ∀ index : ℕ, ∀ envelope ∈ seals[index]?, ∀ recorded ∈ witnessed[index]?,
    Witnesses hashing stage (index + 1) envelope recorded
  length : seals.length = witnessed.length

variable {hashing stage}

theorem SealedBy.witness {tree : Tree} {witnessed : List Inventory} {seals : List Envelope}
    (sealed : SealedBy hashing stage tree witnessed seals) {index : ℕ} (inside : index < seals.length) :
    ∃ recorded ∈ witnessed[index]?, Witnesses hashing stage (index + 1) seals[index] recorded := by
  have recorded := List.getElem?_eq_getElem (sealed.length ▸ inside)
  exact ⟨_, recorded, sealed.each index _ (List.getElem?_eq_getElem inside) _ recorded⟩

theorem SealedBy.ordinals {tree : Tree} {witnessed : List Inventory} {seals : List Envelope}
    (sealed : SealedBy hashing stage tree witnessed seals) :
    seals.map ordinalOf = ordinalsUpTo seals.length := by
  apply List.ext_getElem
  · simp [ordinalsUpTo]
  · intro index inside _
    rw [List.length_map] at inside
    obtain ⟨_, _, witness⟩ := sealed.witness inside
    simp [ordinalsUpTo, witness.ordinalOf_eq.2]

/-- The seals on disk, listed by their ids, are the seals in order of their ordinals. -/
theorem SealedBy.perm {tree : Tree} {witnessed : List Inventory} {seals : List Envelope}
    (sealed : SealedBy hashing stage tree witnessed seals)
    (readable : Readable hashing stage tree) : (sealsOf stage tree).Perm seals := by
  have distinct : seals.Nodup :=
    List.Nodup.of_map ordinalOf (sealed.ordinals ▸ ordinalsUpTo_nodup seals.length)
  have once : (sealsOf stage tree).Nodup := by
    apply List.Nodup.filter
    exact (sortBy_perm _ _).nodup_iff.mpr (ownArtifacts_nodup hashing stage readable)
  exact (List.perm_ext_iff_of_nodup once distinct).mpr sealed.listed

/-- The latest seal on disk is the last of the seals in order. -/
theorem SealedBy.latestAttempt_eq {tree : Tree} {witnessed : List Inventory}
    {seals : List Envelope} {last : Envelope}
    (sealed : SealedBy hashing stage tree witnessed (seals ++ [last]))
    (readable : Readable hashing stage tree) (what : String) :
    latestAttempt hashing (sealsOf stage tree) what "seal" = .ok last := by
  have same := sealed.perm readable
  apply StageSeal.latestAttempt_eq hashing what "seal"
  · intro record listed
    obtain ⟨index, inside, rfl⟩ := List.mem_iff_getElem.mp ((sealed.listed record).mp listed)
    obtain ⟨_, _, witness⟩ := sealed.witness inside
    obtain ⟨given, ordinal⟩ := witness.ordinalOf_eq
    refine ⟨ordinal.symm ▸ given, ?_⟩
    rw [witness.subject, witness.attempt, ordinal]
    rfl
  · rw [same.length_eq, ← sealed.ordinals]
    exact same.map ordinalOf
  · exact (sealed.listed last).mpr (List.mem_append_right _ (.head _))
  · have inside : seals.length < (seals ++ [last]).length := by simp
    obtain ⟨_, _, witness⟩ := sealed.witness inside
    rw [List.getElem_concat_length rfl] at witness
    rw [witness.ordinalOf_eq.2, same.length_eq, List.length_append]
    rfl

/-- Either nothing is sealed, or the latest seal on disk witnesses the inventory sealed last. -/
theorem SealedBy.last {tree : Tree} {witnessed : List Inventory} {seals : List Envelope}
    (sealed : SealedBy hashing stage tree witnessed seals)
    (readable : Readable hashing stage tree) :
    witnessed = [] ∧ sealsOf stage tree = [] ∨
      ∃ earlier recorded last, witnessed = earlier ++ [recorded] ∧
        last ∈ sealsOf stage tree ∧ Witnesses hashing stage witnessed.length last recorded ∧
        ∀ what, latestAttempt hashing (sealsOf stage tree) what "seal" = .ok last := by
  have same := sealed.perm readable
  rcases List.eq_nil_or_concat seals with rfl | ⟨others, last, rfl⟩
  · exact .inl ⟨List.length_eq_zero_iff.mp sealed.length.symm, List.perm_nil.mp same⟩
  · rw [List.concat_eq_append] at sealed same
    rcases List.eq_nil_or_concat witnessed with rfl | ⟨earlier, recorded, rfl⟩
    · simpa using sealed.length
    · rw [List.concat_eq_append] at sealed ⊢
      have counted : others.length = earlier.length := by simpa using sealed.length
      refine .inr ⟨earlier, recorded, last, rfl, ?_, ?_, sealed.latestAttempt_eq readable⟩
      · exact (sealed.listed last).mpr (List.mem_append_right _ (.head _))
      · have witness := sealed.each earlier.length last (by simp [← counted]) recorded (by simp)
        simpa using witness

end Verbatus.StageSeal
