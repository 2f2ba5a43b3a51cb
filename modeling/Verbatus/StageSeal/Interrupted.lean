import Verbatus.StageSeal.Witnessed

namespace Verbatus.StageSeal

open Library Library.Checked Refusal RunTree

section Statement

variable (hashing : Hashing) (stage : Stage)

/-- The files a call to `seal_boundary` leaves when it is killed after some of its writes. -/
def crashedTree (tree : Tree) (machine : Machine) (writes : Option ℕ) : Tree :=
  ((Session.fresh tree writes).sealBoundary hashing stage machine).2.tree

/-- A fresh process on a machine seals the stage, and its reader accepts the seal. -/
def Finishes (tree : Tree) (machine : Machine) : Prop :=
  (∃ result, ((Session.fresh tree none).sealBoundary hashing stage machine).1 = .ok result) ∧
    ∀ reader role, verifyStageSeal hashing
      ((Session.fresh tree none).sealBoundary hashing stage machine).2.tree stage reader role none =
        .ok ()

/-- The crash points and pairs of machines after which an interrupted seal can be finished. -/
def Finishable (tree : Tree) (witnessed : List Inventory) (first : Machine) (writes : Option ℕ)
    (second : Machine) : Prop :=
  witnessed.getLast? = some (inventory hashing stage tree) ∨
    match leftEnvironment hashing stage tree witnessed with
    | none => writes = some 1 → decodeEnvironment stage first = decodeEnvironment stage second
    | some left => left = nextEnvironment hashing stage tree witnessed second ∨
      left = nextEnvironment hashing stage tree witnessed first ∧ writes ≠ some 0

end Statement

section Proof

variable {hashing : Hashing} {stage : Stage}

/-- A stage is sealed and verified exactly by the processes that can publish the next seal. -/
theorem Sound.finishes_iff (injective : hashing.Injective) {tree : Tree}
    {witnessed : List Inventory} (sound : Sound hashing stage tree witnessed) (machine : Machine) :
    Finishes hashing stage tree machine ↔ Resumable hashing stage tree witnessed machine := by
  by_cases standing : witnessed.getLast? = some (inventory hashing stage tree)
  · refine iff_of_true ?_ (.inl standing)
    obtain ⟨last, _, _, reused⟩ := sound.sealBoundary_unchanged injective standing machine none
    rw [Finishes, reused]
    refine ⟨⟨_, rfl⟩, fun reader role => ?_⟩
    exact (sound.verifyStageSeal injective sound.readable (.refl tree) reader role (by simp)).mpr
      standing
  · rw [Resumable, or_iff_right standing]
    constructor
    · rintro ⟨⟨result, completed⟩, _⟩ environment left
      by_contra differs
      obtain ⟨⟨message, halted⟩, _⟩ := sound.sealBoundary_stuck injective standing none left differs
      rw [completed] at halted
      cases halted
    · intro alike
      obtain ⟨grown, soundGrown, _, left, _, completed, files⟩ :=
        sound.sealBoundary_published injective standing alike
      have sealed := (soundGrown.addSeal injective left rfl).1
      refine ⟨⟨_, completed⟩, fun reader role => ?_⟩
      rw [files]
      apply (sealed.verifyStageSeal injective sealed.readable (.refl _) reader role (by simp)).mpr
      rw [List.getLast?_concat]

/-- A decode environment left for the next seal changes nothing a seal answers for. -/
theorem Sound.inventory_addEnvironment (injective : hashing.Injective) {tree : Tree}
    {witnessed : List Inventory} (sound : Sound hashing stage tree witnessed) (machine : Machine)
    (none : leftEnvironment hashing stage tree witnessed = none) :
    inventory hashing stage (tree.addArtifact
      (nextEnvironment hashing stage tree witnessed machine)) = inventory hashing stage tree := by
  have grown : Sound hashing stage (tree.addArtifact
      (nextEnvironment hashing stage tree witnessed machine)) witnessed :=
    sound.addEnvironment injective machine _ none
  have published : Publishable hashing tree (nextEnvironment hashing stage tree witnessed machine) :=
    environmentAt_publishable tree machine _
  rw [inventory, inventory, grown.length, sound.length]
  apply Inventory.ext
  · ext envelope
    change (_ ∈ _ ∧ _) ↔ (_ ∈ _ ∧ _)
    rw [mem_ownArtifacts_addArtifact sound.readable published none]
    constructor
    · rintro ⟨earlier | ⟨rfl, _⟩, ordinary⟩
      · exact ⟨earlier, ordinary⟩
      · exact absurd (List.mem_cons_of_mem _ List.mem_cons_self) ordinary
    · rintro ⟨earlier, ordinary⟩
      exact ⟨.inl earlier, ordinary⟩
  · rfl
  · rfl
  · rfl
  · refine (Mapping.get?_set _ _ _ _).trans (if_neg fun same => ?_)
    have ordinals := (boundaryKey_injective injective same).2
    omega

/-- Two machines publish one environment exactly when they observe the same decoders. -/
theorem nextEnvironment_eq_iff {tree other : Tree} (sameRun : other.run = tree.run)
    {witnessed : List Inventory} {first second : Machine} :
    nextEnvironment hashing stage tree witnessed first =
      nextEnvironment hashing stage other witnessed second ↔
        decodeEnvironment stage first = decodeEnvironment stage second := by
  constructor
  · intro same
    exact Payload.environment.inj (congrArg Envelope.payload same)
  · intro same
    rw [nextEnvironment, nextEnvironment, sameRun, environmentAt, environmentAt, same]

/-- A seal killed at any of its writes is finished exactly by the finishable resumptions. -/
theorem Sound.crashed_finishes_iff (injective : hashing.Injective) {tree : Tree}
    {witnessed : List Inventory} (sound : Sound hashing stage tree witnessed) (first : Machine)
    (writes : Option ℕ) (second : Machine) :
    Finishes hashing stage (crashedTree hashing stage tree first writes) second ↔
      Finishable hashing stage tree witnessed first writes second := by
  by_cases standing : witnessed.getLast? = some (inventory hashing stage tree)
  · obtain ⟨last, _, _, reused⟩ := sound.sealBoundary_unchanged injective standing first writes
    rw [crashedTree, reused]
    exact iff_of_true ((sound.finishes_iff injective second).mpr (.inl standing)) (.inl standing)
  · rw [Finishable, or_iff_right standing]
    have outcome := sound.sealBoundary_changed injective standing first writes
    -- A seal published over a tree that holds the environment stands for any later process.
    have published : ∀ {grown : Tree} {minted}, Sound hashing stage grown witnessed →
        leftEnvironment hashing stage grown witnessed =
          some (nextEnvironment hashing stage tree witnessed first) →
        minted = sealOver hashing stage grown (witnessed.length + 1)
          (nextEnvironment hashing stage tree witnessed first) →
        crashedTree hashing stage tree first writes = grown.addArtifact minted →
        Finishes hashing stage (crashedTree hashing stage tree first writes) second := by
      intro grown minted soundGrown left given files
      have sealed := (soundGrown.addSeal injective left given).1
      rw [files]
      apply (sealed.finishes_iff injective second).mpr
      exact .inl (List.getLast?_concat ..)
    cases left : leftEnvironment hashing stage tree witnessed with
    | some environment =>
        have unsealed : crashedTree hashing stage tree first writes = tree →
            (Finishes hashing stage (crashedTree hashing stage tree first writes) second ↔
              environment = nextEnvironment hashing stage tree witnessed second) := by
          intro same
          rw [same, sound.finishes_iff injective, Resumable, or_iff_right standing, left]
          simp
        simp only [left] at outcome ⊢
        split_ifs at outcome with same stop
        · rw [unsealed outcome.2]
          simp [stop]
        · refine iff_of_true ?_ (.inr ⟨same, stop⟩)
          exact published sound (left.trans (congrArg some same)) rfl outcome.2
        · rw [unsealed outcome.2]
          simp [same]
    | none =>
        have grown : Sound hashing stage (tree.addArtifact
            (nextEnvironment hashing stage tree witnessed first)) witnessed :=
          sound.addEnvironment injective first _ left
        simp only [left] at outcome ⊢
        split_ifs at outcome with stop last
        · have same : crashedTree hashing stage tree first writes = tree := outcome.2
          rw [same, sound.finishes_iff injective, Resumable, or_iff_right standing, left]
          simp [stop]
        · have files : crashedTree hashing stage tree first writes =
              tree.addArtifact (nextEnvironment hashing stage tree witnessed first) := outcome.2
          have changed : witnessed.getLast? ≠ some (inventory hashing stage
              (tree.addArtifact (nextEnvironment hashing stage tree witnessed first))) := by
            rw [sound.inventory_addEnvironment injective first left]
            exact standing
          have stored : leftEnvironment hashing stage
              (tree.addArtifact (nextEnvironment hashing stage tree witnessed first)) witnessed =
              some (nextEnvironment hashing stage tree witnessed first) :=
            (Mapping.get?_set _ _ _ _).trans (if_pos rfl)
          have observed : nextEnvironment hashing stage tree witnessed first =
              nextEnvironment hashing stage (tree.addArtifact
                (nextEnvironment hashing stage tree witnessed first)) witnessed second ↔
              decodeEnvironment stage first = decodeEnvironment stage second :=
            nextEnvironment_eq_iff rfl
          rw [files, grown.finishes_iff injective, Resumable, or_iff_right changed, stored,
            ← observed]
          simp [last]
        · refine iff_of_true ?_ (fun one => absurd one last)
          exact published grown ((Mapping.get?_set _ _ _ _).trans (if_pos rfl)) rfl outcome.2

end Proof

end Verbatus.StageSeal
