import Verbatus.StageSeal.Attempts

namespace Verbatus.StageSeal

open Library Library.Checked Refusal RunTree

variable {hashing : Hashing} {stage : Stage}

section Growth

/-- A file once there has the same bytes in a tree with one more artifact. -/
theorem readDigest_addArtifact {tree : Tree} {envelope : Envelope}
    (absent : tree.artifacts.get? envelope.key = none) {path : RelativePath} {digest : String}
    (read : tree.readDigest hashing path = some digest) :
    (tree.addArtifact envelope).readDigest hashing path = some digest := by
  cases path with
  | artifact key =>
      change ((tree.artifacts.set envelope.key envelope).get? key).map _ = _
      rw [Mapping.get?_set]
      have other : key ≠ envelope.key := by
        rintro rfl
        rw [Tree.readDigest, absent] at read
        cases read
      rw [if_neg other]
      exact read
  | blob key => exact read
  | other path => exact read

theorem readDigest_addBlob {tree : Tree} {key : BlobKey} {data : List UInt8}
    (absent : tree.blobs.get? key = none) {path : RelativePath} {digest : String}
    (read : tree.readDigest hashing path = some digest) :
    (tree.addBlob key data).readDigest hashing path = some digest := by
  cases path with
  | artifact key => exact read
  | blob other =>
      change ((tree.blobs.set key data).get? other).map _ = _
      rw [Mapping.get?_set]
      have apart : other ≠ key := by
        rintro rfl
        rw [Tree.readDigest, absent] at read
        cases read
      rw [if_neg apart]
      exact read
  | other path => exact read

/-- What a tree of the same run would publish, one that keeps its files would. -/
theorem Publishable.grown {tree later : Tree} {envelope : Envelope} (sameRun : later.run = tree.run)
    (kept : ∀ path digest, tree.readDigest hashing path = some digest →
      later.readDigest hashing path = some digest)
    (published : Publishable hashing tree envelope) : Publishable hashing later envelope := by
  refine ⟨published.valid, ?_, ?_⟩
  · have checked := published.run
    unfold Tree.verifyArtifactRun Tree.holdsRunId at checked ⊢
    rw [sameRun]
    exact checked
  · apply forM_ok_of_forall
    intro reference listed
    have checked := forM_eq_ok.mp published.inputs reference listed
    unfold Tree.readVerified at checked ⊢
    cases read : tree.readDigest hashing reference.relativePath with
    | none =>
        rw [read] at checked
        cases checked
    | some digest =>
        rw [read] at checked
        rw [kept _ _ read]
        exact checked

theorem Readable.addArtifact {tree : Tree} {envelope : Envelope}
    (readable : Readable hashing stage tree) (published : Publishable hashing tree envelope)
    (absent : tree.artifacts.get? envelope.key = none) :
    Readable hashing stage (tree.addArtifact envelope) := by
  have sameRun : (tree.addArtifact envelope).run = tree.run := rfl
  have grown : ∀ {other}, Publishable hashing tree other →
      Publishable hashing (tree.addArtifact envelope) other :=
    fun earlier => earlier.grown sameRun fun _ _ => readDigest_addArtifact absent
  refine ⟨?_, readable.blobs⟩
  intro key other found inside
  change (tree.artifacts.set envelope.key envelope).get? key = some other at found
  rw [Mapping.get?_set] at found
  split_ifs at found with same
  · cases found
    exact ⟨same, grown published⟩
  · obtain ⟨place, earlier⟩ := readable.artifacts key other found inside
    exact ⟨place, grown earlier⟩

theorem Readable.addBlob {tree : Tree} {key : BlobKey} {data : List UInt8}
    (readable : Readable hashing stage tree) (named : hashing.bytes data = key.name)
    (absent : tree.blobs.get? key = none) : Readable hashing stage (tree.addBlob key data) := by
  have sameRun : (tree.addBlob key data).run = tree.run := rfl
  constructor
  · intro place other found inside
    obtain ⟨same, earlier⟩ := readable.artifacts place other found inside
    exact ⟨same, earlier.grown sameRun fun _ _ => readDigest_addBlob absent⟩
  · intro place content found inside
    change (tree.blobs.set key data).get? place = some content at found
    rw [Mapping.get?_set] at found
    split_ifs at found with same
    · cases found
      exact same ▸ named
    · exact readable.blobs place content found inside

/-- A new artifact is listed beside the earlier ones. -/
theorem mem_ownArtifacts_addArtifact {tree : Tree} {envelope other : Envelope}
    (readable : Readable hashing stage tree) (published : Publishable hashing tree envelope)
    (absent : tree.artifacts.get? envelope.key = none) :
    other ∈ ownArtifacts stage (tree.addArtifact envelope) ↔
      other ∈ ownArtifacts stage tree ∨ other = envelope ∧ envelope.stage = stage := by
  rw [mem_ownArtifacts hashing stage readable,
    mem_ownArtifacts hashing stage (readable.addArtifact published absent)]
  change _ ∧ (tree.artifacts.set envelope.key envelope).get? other.key = some other ↔ _
  rw [Mapping.get?_set]
  constructor
  · rintro ⟨own, found⟩
    split_ifs at found with same
    · cases found
      exact .inr ⟨rfl, own⟩
    · exact .inl ⟨own, found⟩
  · rintro (⟨own, found⟩ | ⟨rfl, own⟩)
    · refine ⟨own, ?_⟩
      rw [if_neg]
      · exact found
      · intro same
        rw [same, absent] at found
        cases found
    · exact ⟨own, if_pos rfl⟩

theorem mem_sealsOf_iff {tree : Tree} {envelope : Envelope} :
    envelope ∈ sealsOf stage tree ↔ envelope ∈ ownArtifacts stage tree ∧
      envelope.kind = "stage-seal" := by
  rw [sealsOf, List.mem_filter, sortedArtifacts, mem_sortBy, decide_eq_true_eq]

/-- The file at a boundary path is the stage's own artifact of that kind and attempt. -/
theorem boundary_file (injective : hashing.Injective) {tree : Tree}
    (readable : Readable hashing stage tree) {kind : String} {ordinal : ℤ} {envelope : Envelope}
    (found : tree.artifacts.get? (boundaryKey hashing stage kind ordinal) = some envelope) :
    envelope ∈ ownArtifacts stage tree ∧ envelope.kind = kind ∧ envelope.artifactId =
      hashing.artifactId stage kind stage.name (some (sealAttempt hashing stage ordinal)) ∧
      envelope.attemptId = some (sealAttempt hashing stage ordinal) := by
  obtain ⟨place, published⟩ := readable.artifacts _ _ found rfl
  have valid := validateEnvelope_artifactId hashing published.valid
  have derived : hashing.artifactId stage kind stage.name
      (some (sealAttempt hashing stage ordinal)) = envelope.artifactId :=
    congrArg ArtifactKey.artifactId place
  have binding : (stage, kind, stage.name, some (sealAttempt hashing stage ordinal)) =
      (envelope.stage, envelope.kind, envelope.subjectId, envelope.attemptId) :=
    injective.artifactId (derived.trans valid)
  simp only [Prod.mk.injEq] at binding
  obtain ⟨here, same, _, attempt⟩ := binding
  refine ⟨?_, same.symm, derived.symm, attempt.symm⟩
  exact (mem_ownArtifacts hashing stage readable).mpr ⟨here.symm, place ▸ found⟩

theorem readArtifact_found {tree : Tree} {kind artifactId : String} {envelope : Envelope}
    (read : tree.readArtifact hashing stage kind artifactId = .ok envelope) :
    tree.artifacts.get? (artifactKey stage kind artifactId) = some envelope ∧
      envelope.stage = stage ∧ envelope.kind = kind ∧ envelope.artifactId = artifactId := by
  unfold Tree.readArtifact at read
  cases found : tree.artifacts.get? (artifactKey stage kind artifactId) with
  | none =>
      simp only [found] at read
      cases read
  | some other =>
      simp only [found] at read
      obtain ⟨_, _, read⟩ := bind_eq_ok.mp read
      obtain ⟨_, _, read⟩ := bind_eq_ok.mp read
      obtain ⟨asked, read⟩ := require_bind_eq_ok.mp read
      obtain ⟨_, _, read⟩ := bind_eq_ok.mp read
      obtain ⟨_, _, read⟩ := bind_eq_ok.mp read
      rw [pure_eq_ok] at read
      subst read
      exact ⟨rfl, asked⟩

end Growth

section Publications

/-- A write is made, or the process is killed before it. -/
theorem Session.write_cases (session : Session) (update : Tree → Tree) :
    session.write update = (.error .killed, session) ∧ session.writesLeft = some 0 ∨
      ∃ left, session.writesLeft ≠ some 0 ∧ session.write update =
        (.ok (), { session with tree := update session.tree, writesLeft := left }) := by
  unfold Session.write
  cases limit : session.writesLeft with
  | none => exact .inr ⟨none, by simp, rfl⟩
  | some left =>
      cases left with
      | zero => exact .inl ⟨rfl, rfl⟩
      | succ left => exact .inr ⟨some left, by simp, rfl⟩

/-- A publication leaves the tree as it was or adds one new publishable artifact. -/
theorem Session.publishArtifact_tree (session : Session) (envelope : Envelope) :
    (session.publishArtifact hashing envelope).2.tree = session.tree ∨
      Publishable hashing session.tree envelope ∧
        session.tree.artifacts.get? envelope.key = none ∧
        (session.publishArtifact hashing envelope).2.tree = session.tree.addArtifact envelope := by
  rw [Session.publishArtifact]
  split
  · exact .inl rfl
  · next checked =>
    split
    · split_ifs <;> exact .inl rfl
    · next absent =>
      obtain ⟨⟨⟩, valid, rest⟩ := bind_eq_ok.mp checked
      obtain ⟨⟨⟩, run, inputs⟩ := bind_eq_ok.mp rest
      rcases session.write_cases (·.addArtifact envelope) with ⟨same, _⟩ | ⟨left, _, same⟩
      · rw [same]
        exact .inl rfl
      · rw [same]
        exact .inr ⟨⟨valid, run, inputs⟩, absent, rfl⟩

theorem Session.publish_tree (session : Session) (draft : Draft) :
    (session.publish hashing stage draft).2.tree = session.tree ∨
      ∃ envelope, envelope = draft.envelope hashing stage session.tree ∧
        Publishable hashing session.tree envelope ∧
        session.tree.artifacts.get? envelope.key = none ∧
        (session.publish hashing stage draft).2.tree = session.tree.addArtifact envelope := by
  rw [Session.publish]
  split_ifs
  · exact .inl rfl
  · exact .inl rfl
  · rcases session.publishArtifact_tree (draft.envelope hashing stage session.tree) with
      same | grown
    · exact .inl same
    · exact .inr ⟨_, rfl, grown⟩

theorem Session.retain_tree (session : Session) (data : List UInt8) :
    (session.retain hashing stage data).2.tree = session.tree ∨
      session.tree.blobs.get? ⟨stage.writingDirectory, hashing.bytes data⟩ = none ∧
      (session.retain hashing stage data).2.tree =
        session.tree.addBlob ⟨stage.writingDirectory, hashing.bytes data⟩ data := by
  rw [Session.retain]
  split_ifs
  · exact .inl rfl
  · split
    · split_ifs <;> exact .inl rfl
    · next absent =>
      rcases session.write_cases
        (·.addBlob ⟨stage.writingDirectory, hashing.bytes data⟩ data) with ⟨same, _⟩ | ⟨left, _, same⟩
      · rw [same]
        exact .inl rfl
      · rw [same]
        exact .inr ⟨absent, rfl⟩

theorem Session.finish_tree (session : Session) :
    (session.finish hashing stage).2.tree = session.tree ∨
      ∃ manifest, session.tree.buildManifest hashing stage true = .ok manifest ∧
        (session.finish hashing stage).2.tree = session.tree.storeManifest stage manifest := by
  rw [Session.finish]
  split
  · exact .inl rfl
  · next manifest built =>
    rcases session.write_cases (·.storeManifest stage manifest) with ⟨same, _⟩ | ⟨left, _, same⟩
    · rw [same]
      exact .inl rfl
    · rw [same]
      exact .inr ⟨manifest, built, rfl⟩

/-- An envelope the store accepts is published unless other bytes are at its path. -/
theorem Session.publishArtifact_of_publishable {session : Session} {envelope : Envelope}
    (published : Publishable hashing session.tree envelope) :
    (session.tree.artifacts.get? envelope.key = some envelope ∧
      session.publishArtifact hashing envelope =
        (.ok ⟨.artifact envelope.key, true⟩, session)) ∨
    ((∃ existing, session.tree.artifacts.get? envelope.key = some existing ∧
        existing ≠ envelope) ∧
      ∃ message, session.publishArtifact hashing envelope =
        (.error (.incompatibleReuse message), session)) ∨
    (session.tree.artifacts.get? envelope.key = none ∧ session.writesLeft = some 0 ∧
      session.publishArtifact hashing envelope = (.error .killed, session)) ∨
    (session.tree.artifacts.get? envelope.key = none ∧ session.writesLeft ≠ some 0 ∧ ∃ left,
      session.publishArtifact hashing envelope = (.ok ⟨.artifact envelope.key, false⟩,
        { session with tree := session.tree.addArtifact envelope, writesLeft := left }) ∧
      session.writesLeft = left.map (· + 1)) := by
  rw [Session.publishArtifact, published.valid, ok_bind, published.run, ok_bind, published.inputs]
  cases there : session.tree.artifacts.get? envelope.key with
  | some existing =>
      by_cases same : existing = envelope
      · subst same
        exact .inl ⟨rfl, by simp⟩
      · exact .inr (.inl ⟨⟨existing, rfl, same⟩, _, if_neg same⟩)
  | none =>
      cases limit : session.writesLeft with
      | none => exact .inr (.inr (.inr ⟨rfl, by simp, none, by simp [Session.write, limit], rfl⟩))
      | some left =>
          cases left with
          | zero => exact .inr (.inr (.inl ⟨rfl, rfl, by simp [Session.write, limit]⟩))
          | succ left =>
              refine .inr (.inr (.inr ⟨rfl, by simp, some left, ?_, rfl⟩))
              simp [Session.write, limit]

end Publications

end Verbatus.StageSeal
