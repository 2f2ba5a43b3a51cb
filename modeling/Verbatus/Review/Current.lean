import Mathlib.Tactic
import Verbatus.Review.Apply

namespace Verbatus.Review

open Library Library.Checked Refusal Contracts

section Agreed

variable {α β : Type} [DecidableEq α] [DecidableEq β]

theorem agreed_eq_none {decided : List (ReviewDecision × α)} :
    agreed decided = none ↔ decided = [] := by
  unfold agreed
  constructor
  · intro nothing
    rw [← List.dedup_eq_nil]
    split at nothing <;> simp_all
  · rintro rfl
    rfl

/-- Decisions agree when there are some and all are the same. -/
theorem agreed_eq_one {decided : List (ReviewDecision × α)} {decision : ReviewDecision} :
    agreed decided = some (.one decision) ↔
      ∃ said, decided ≠ [] ∧ ∀ one ∈ decided, one = (decision, said) := by
  unfold agreed
  constructor
  · intro one
    split at one
    · cases one
    · next decision' said single =>
        cases one
        refine ⟨said, ?_, fun other member => ?_⟩
        · rintro rfl
          cases single
        · rw [← List.mem_dedup, single] at member
          exact List.mem_singleton.mp member
    · cases one
  · rintro ⟨said, some_made, same⟩
    have single : decided.dedup = [(decision, said)] := by
      have each : ∀ one ∈ decided.dedup, one = (decision, said) := fun one member =>
        same one (List.mem_dedup.mp member)
      have present : decided.dedup ≠ [] := mt (List.dedup_eq_nil _).mp some_made
      match shape : decided.dedup with
      | [] => exact absurd shape present
      | [one] => rw [each one (by rw [shape]; exact .head _)]
      | first :: second :: rest =>
          have apart := List.nodup_dedup decided
          rw [shape] at apart each
          have alike := (each first (.head _)).trans (each second (.tail _ (.head _))).symm
          exact absurd (alike ▸ List.mem_cons_self) (List.nodup_cons.mp apart).1
    rw [single]

/-- Decisions conflict when two of them differ. -/
theorem agreed_eq_conflict {decided : List (ReviewDecision × α)} :
    agreed decided = some .conflict ↔ ∃ one ∈ decided, ∃ other ∈ decided, one ≠ other := by
  constructor
  · intro conflict
    by_contra alike
    push Not at alike
    match decided, alike, conflict with
    | [], _, conflict => cases conflict
    | (decision, said) :: rest, alike, conflict =>
        have one : agreed ((decision, said) :: rest) = some (.one decision) :=
          agreed_eq_one.mpr ⟨said, List.cons_ne_nil _ _, fun other member =>
            (alike _ (.head _) other member).symm⟩
        rw [one] at conflict
        cases conflict
  · rintro ⟨one, member, other, also, apart⟩
    cases made : agreed decided with
    | none => exact absurd member (agreed_eq_none.mp made ▸ List.not_mem_nil)
    | some kind =>
        cases kind with
        | conflict => rfl
        | one decision =>
            obtain ⟨said, -, same⟩ := agreed_eq_one.mp made
            exact absurd ((same one member).trans (same other also).symm) apart

/-- Only which decisions there are matters, not their order or their number. -/
theorem agreed_congr {decided others : List (ReviewDecision × α)}
    (same : ∀ one, one ∈ decided ↔ one ∈ others) : agreed decided = agreed others := by
  cases made : agreed others with
  | none =>
      rw [agreed_eq_none] at made ⊢
      subst made
      exact List.eq_nil_iff_forall_not_mem.mpr fun one member => List.not_mem_nil ((same one).mp member)
  | some kind =>
      cases kind with
      | one decision =>
          obtain ⟨said, present, each⟩ := agreed_eq_one.mp made
          refine agreed_eq_one.mpr ⟨said, ?_, fun one member => each one ((same one).mp member)⟩
          obtain ⟨one, member⟩ := List.exists_mem_of_ne_nil _ present
          exact List.ne_nil_of_mem ((same one).mpr member)
      | conflict =>
          obtain ⟨one, member, other, also, apart⟩ := agreed_eq_conflict.mp made
          exact agreed_eq_conflict.mpr
            ⟨one, (same one).mpr member, other, (same other).mpr also, apart⟩

/-- A rendering that tells the decisions at hand apart keeps what they come to. -/
theorem agreed_map {decided : List (ReviewDecision × α)} (render : α → β)
    (apart : ∀ one ∈ decided, ∀ other ∈ decided, render one.2 = render other.2 → one.2 = other.2) :
    agreed (decided.map fun one => (one.1, render one.2)) = agreed decided := by
  cases made : agreed decided with
  | none =>
      rw [agreed_eq_none] at made ⊢
      rw [made, List.map_nil]
  | some kind =>
      cases kind with
      | one decision =>
          obtain ⟨said, present, each⟩ := agreed_eq_one.mp made
          refine agreed_eq_one.mpr ⟨render said, by simpa using present, ?_⟩
          intro one member
          obtain ⟨source, listed, rfl⟩ := List.mem_map.mp member
          rw [each source listed]
      | conflict =>
          obtain ⟨one, member, other, also, differ⟩ := agreed_eq_conflict.mp made
          refine agreed_eq_conflict.mpr ⟨_, List.mem_map_of_mem member, _, List.mem_map_of_mem also,
            fun alike => differ ?_⟩
          rw [Prod.mk.injEq] at alike
          exact Prod.ext alike.1 (apart one member other also alike.2)

end Agreed

variable {Digest : Type} [LinearOrder Digest]

/-- The digest a subject of the review has now. -/
def subjectDigest (basis : Basis Digest) : ReviewScope → String → Option Digest
  | .unit, subject => (basis.units.lookup subject).map UnitEntry.basisDigest
  | .page, subject => (basis.pages.lookup subject).map PageEntry.basisDigest

/-- The review block of a record that is about one subject. -/
def reviewOf (record : ApprovalRecord Digest) (scope : ReviewScope) (subject : String) :
    Option ReviewBlock :=
  record.review.filter fun review => review.scope = scope ∧ record.subjectIds = [subject]

/-- What each decision bound to its subject as it is now decides, and what an edit says. -/
def currentDecisions (basis : Basis Digest) (decisions : List (ApprovalRecord Digest))
    (scope : ReviewScope) (subject : String) : List (ReviewDecision × Option Correction) :=
  (decisions.filter fun record =>
    subjectDigest basis scope subject = some record.targetVersionHash).filterMap fun record =>
      (reviewOf record scope subject).map fun review => (review.decision, review.correction)

/-- What each decision bound to its subject as it no longer is decides. -/
def staleDecisions (basis : Basis Digest) (decisions : List (ApprovalRecord Digest))
    (scope : ReviewScope) (subject : String) : List ReviewDecision :=
  (decisions.filter fun record =>
    subjectDigest basis scope subject ≠ some record.targetVersionHash).filterMap fun record =>
      (reviewOf record scope subject).map ReviewBlock.decision

/-- The hold codes stale decisions carry onto a subject no current decision is about. -/
def carriedCodes (basis : Basis Digest) (decisions : List (ApprovalRecord Digest))
    (scope : ReviewScope) (subject : String) : List String :=
  if currentDecisions basis decisions scope subject = [] then
    (staleDecisions basis decisions scope subject).filterMap (carriedCode scope)
  else []

/-- No two of the decisions at hand share a self-hash, and no two of their edits a digest. -/
structure Distinguishes (hashing : Hashing Digest) (decisions : List (ApprovalRecord Digest)) :
    Prop where
  body : ∀ one ∈ decisions, ∀ other ∈ decisions,
    hashing.selfHash one.toApprovalBody = hashing.selfHash other.toApprovalBody →
      one.toApprovalBody = other.toApprovalBody
  correction : ∀ one ∈ decisions, ∀ other ∈ decisions,
    ∀ first ∈ one.review.bind ReviewBlock.correction,
      ∀ second ∈ other.review.bind ReviewBlock.correction,
        hashing.correction first = hashing.correction second → first = second

variable {hashing : Hashing Digest} {basis : Basis Digest}

/-- What a checked decision's summary says of its record and its subject. -/
structure Checks (hashing : Hashing Digest) (basis : Basis Digest) (record : ApprovalRecord Digest)
    (review : ReviewBlock) (subject : String) (summary : Summary Digest) : Prop where
  sound : SoundReview hashing.toApprovalHashing record review
  names : record.subjectIds = [subject]
  run : review.runId = basis.runId
  kept : summary = { summaryOf hashing record review subject with
    state := summary.state, staleBecause := summary.staleBecause }
  settled : summary.state ≠ .conflicting
  bound : summary.state = .current ↔
    subjectDigest basis review.scope subject = some record.targetVersionHash
  onPage : review.scope = .unit → ∀ entry ∈ basis.units.lookup subject,
    entry.pageId = review.pageId

theorem boundToUnit_eq_ok {summary bound : Summary Digest} {found : Option (UnitEntry Digest)}
    (fresh : summary.state = .current) (checked : boundToUnit summary found = .ok bound) :
    bound = { summary with state := bound.state, staleBecause := bound.staleBecause } ∧
      bound.state ≠ .conflicting ∧
      (bound.state = .current ↔ found.map UnitEntry.basisDigest = some summary.basisDigest) ∧
      ∀ entry ∈ found, entry.pageId = summary.pageId := by
  cases found with
  | none =>
      cases checked
      exact ⟨rfl, nofun, by simp [Summary.staled], nofun⟩
  | some entry =>
      obtain ⟨page, checked⟩ := require_bind_eq_ok.mp checked
      split_ifs at checked with changed
      · cases checked
        exact ⟨rfl, nofun, by simp [Summary.staled, changed], fun _ same => by cases same; exact page⟩
      · obtain ⟨_, -, same⟩ := bind_eq_ok.mp checked
        cases same
        exact ⟨rfl, by rw [fresh]; nofun, by simp [fresh, not_ne_iff.mp changed],
          fun _ same => by cases same; exact page⟩

theorem boundToPage_eq_ok {summary bound : Summary Digest} {found : Option (PageEntry Digest)}
    (fresh : summary.state = .current) (checked : boundToPage summary found = .ok bound) :
    bound = { summary with state := bound.state, staleBecause := bound.staleBecause } ∧
      bound.state ≠ .conflicting ∧
      (bound.state = .current ↔ found.map PageEntry.basisDigest = some summary.basisDigest) := by
  cases found with
  | none =>
      cases checked
      exact ⟨rfl, nofun, by simp [Summary.staled]⟩
  | some entry =>
      simp only [boundToPage] at checked
      split_ifs at checked with changed
      · cases checked
        exact ⟨rfl, nofun, by simp [Summary.staled, changed]⟩
      · obtain ⟨_, -, same⟩ := bind_eq_ok.mp checked
        cases same
        exact ⟨rfl, by rw [fresh]; nofun, by simp [fresh, not_ne_iff.mp changed]⟩

theorem reviewDecision_checks {record : ApprovalRecord Digest} {summary : Summary Digest}
    (checked : reviewDecision hashing basis record = .ok summary) :
    ∃ review subject, Checks hashing basis record review subject summary := by
  obtain ⟨⟨⟩, valid, checked⟩ := bind_eq_ok.mp checked
  cases present : record.review with
  | none => simp [present] at checked
  | some review =>
      have sound := validateApprovalRecord_sound valid present
      obtain ⟨subject, single⟩ := sound.subject
      rw [present, single] at checked
      obtain ⟨run, checked⟩ := require_bind_eq_ok.mp checked
      refine ⟨review, subject, ?_⟩
      cases scope : review.scope with
      | unit =>
          rw [scope] at checked
          obtain ⟨kept, settled, bound, onPage⟩ := boundToUnit_eq_ok rfl checked
          exact ⟨sound, single, run, kept, settled, by rw [scope]; exact bound, fun _ => onPage⟩
      | page =>
          rw [scope] at checked
          obtain ⟨kept, settled, bound⟩ := boundToPage_eq_ok rfl checked
          exact ⟨sound, single, run, kept, settled, by rw [scope]; exact bound,
            fun unit => by cases scope.symm.trans unit⟩

section WithConflict

variable {Digest : Type} (kinds : Kinds) (summary : Summary Digest)

/-- Marking a conflict changes nothing but a current decision's state. -/
theorem withConflict_eq : withConflict kinds summary =
    { summary with state := (withConflict kinds summary).state } := by
  unfold withConflict
  split_ifs <;> rfl

@[simp] theorem withConflict_scope : (withConflict kinds summary).scope = summary.scope := by
  rw [withConflict_eq]

@[simp] theorem withConflict_subjectId :
    (withConflict kinds summary).subjectId = summary.subjectId := by
  rw [withConflict_eq]

@[simp] theorem withConflict_pageId : (withConflict kinds summary).pageId = summary.pageId := by
  rw [withConflict_eq]

@[simp] theorem withConflict_decision :
    (withConflict kinds summary).decision = summary.decision := by
  rw [withConflict_eq]

@[simp] theorem withConflict_stale :
    (withConflict kinds summary).state = .stale ↔ summary.state = .stale := by
  unfold withConflict
  split_ifs with conflicting
  · simp [conflicting.1]
  · rfl

end WithConflict

section ByHash

variable {summaries : List (Summary Digest)}

/-- A later summary of the same hash replaces nothing when hashes tell summaries apart. -/
theorem mem_insertByHash {kept : List (Summary Digest)} {summary : Summary Digest}
    (apart : ∀ other ∈ kept, other.decisionHash = summary.decisionHash → other = summary)
    {one : Summary Digest} : one ∈ insertByHash kept summary ↔ one ∈ kept ∨ one = summary := by
  unfold insertByHash
  split_ifs with present
  · obtain ⟨other, member, same⟩ := List.mem_map.mp present
    have already : summary ∈ kept := apart other member same ▸ member
    have unchanged : (kept.map fun other =>
        if other.decisionHash = summary.decisionHash then summary else other) = kept := by
      rw [List.map_congr_left (g := id), List.map_id]
      intro other member
      split_ifs with same
      · exact (apart other member same).symm
      · rfl
    rw [unchanged]
    exact ⟨.inl, fun either => either.elim id fun same => same ▸ already⟩
  · rw [List.mem_append, List.mem_singleton]

theorem mem_byHash (apart : ∀ one ∈ summaries, ∀ other ∈ summaries,
      one.decisionHash = other.decisionHash → one = other) {summary : Summary Digest} :
    summary ∈ byHash summaries ↔ summary ∈ summaries := by
  suffices fold : ∀ kept : List (Summary Digest), (∀ one ∈ kept, one ∈ summaries) →
      ∀ later : List (Summary Digest), (∀ one ∈ later, one ∈ summaries) →
      (summary ∈ later.foldl insertByHash kept ↔ summary ∈ kept ∨ summary ∈ later) by
    have whole := fold [] (fun _ member => absurd member List.not_mem_nil) summaries fun _ => id
    simpa [byHash] using whole
  intro kept within later
  induction later generalizing kept with
  | nil => simp
  | cons next later ih =>
      intro listed
      have step : ∀ one, one ∈ insertByHash kept next ↔ one ∈ kept ∨ one = next := fun one =>
        mem_insertByHash fun other member same =>
          apart other (within other member) next (listed next (.head _)) same
      rw [List.foldl_cons, ih, step, List.mem_cons, or_assoc]
      · intro one member
        rcases (step one).mp member with member | rfl
        · exact within one member
        · exact listed one (.head _)
      · exact fun one member => listed one (.tail _ member)

end ByHash

section Checked

variable {decisions : List (ApprovalRecord Digest)} {checked : List (Summary Digest)}

/-- Each record's summary, checked against the basis. -/
theorem checked_of_record (checks : decisions.mapM (reviewDecision hashing basis) = .ok checked)
    {record : ApprovalRecord Digest} (member : record ∈ decisions) :
    ∃ summary ∈ checked, ∃ review subject, Checks hashing basis record review subject summary := by
  obtain ⟨summary, listed, made⟩ := mapM_mem_left checks member
  exact ⟨summary, listed, reviewDecision_checks made⟩

theorem record_of_checked (checks : decisions.mapM (reviewDecision hashing basis) = .ok checked)
    {summary : Summary Digest} (member : summary ∈ checked) :
    ∃ record ∈ decisions, ∃ review subject, Checks hashing basis record review subject summary := by
  obtain ⟨record, listed, made⟩ := mapM_mem_right checks member
  exact ⟨record, listed, reviewDecision_checks made⟩

omit [LinearOrder Digest] in
theorem reviewOf_eq_some {record : ApprovalRecord Digest} {scope : ReviewScope} {subject : String}
    {review : ReviewBlock} : reviewOf record scope subject = some review ↔
      record.review = some review ∧ review.scope = scope ∧ record.subjectIds = [subject] := by
  rw [reviewOf, Option.filter_eq_some_iff, decide_eq_true_eq]

theorem mem_currentDecisions {scope : ReviewScope} {subject : String}
    {one : ReviewDecision × Option Correction} :
    one ∈ currentDecisions basis decisions scope subject ↔
      ∃ record ∈ decisions, ∃ review, reviewOf record scope subject = some review ∧
        subjectDigest basis scope subject = some record.targetVersionHash ∧
        (review.decision, review.correction) = one := by
  simp only [currentDecisions, List.mem_filterMap, List.mem_filter, decide_eq_true_eq,
    Option.map_eq_some_iff]
  constructor
  · rintro ⟨record, ⟨member, bound⟩, review, about, same⟩
    exact ⟨record, member, review, about, bound, same⟩
  · rintro ⟨record, member, review, about, bound, same⟩
    exact ⟨record, ⟨member, bound⟩, review, about, same⟩

theorem mem_staleDecisions {scope : ReviewScope} {subject : String} {decision : ReviewDecision} :
    decision ∈ staleDecisions basis decisions scope subject ↔
      ∃ record ∈ decisions, ∃ review, reviewOf record scope subject = some review ∧
        subjectDigest basis scope subject ≠ some record.targetVersionHash ∧
        review.decision = decision := by
  simp only [staleDecisions, List.mem_filterMap, List.mem_filter, decide_eq_true_eq,
    Option.map_eq_some_iff]
  constructor
  · rintro ⟨record, ⟨member, bound⟩, review, about, same⟩
    exact ⟨record, member, review, about, bound, same⟩
  · rintro ⟨record, member, review, about, bound, same⟩
    exact ⟨record, ⟨member, bound⟩, review, about, same⟩

omit [LinearOrder Digest] in
theorem Checks.reviewOf_iff {record : ApprovalRecord Digest} {review : ReviewBlock}
    {subject : String} {summary : Summary Digest}
    (checks : Checks hashing basis record review subject summary) {scope : ReviewScope}
    {other : String} {block : ReviewBlock} :
    reviewOf record scope other = some block ↔
      block = review ∧ summary.scope = scope ∧ summary.subjectId = other := by
  rw [reviewOf_eq_some, checks.sound.block, checks.names, checks.kept, Option.some_inj]
  constructor
  · rintro ⟨rfl, rfl, same⟩
    cases same
    exact ⟨rfl, rfl, rfl⟩
  · rintro ⟨rfl, rfl, rfl⟩
    exact ⟨rfl, rfl, rfl⟩

/-- What the summaries say is decided now is what the records say, each edit by its digest. -/
theorem mem_decided (checks : decisions.mapM (reviewDecision hashing basis) = .ok checked)
    {scope : ReviewScope} {subject : String} {one : ReviewDecision × Option Digest} :
    one ∈ decided checked scope subject ↔
      one ∈ (currentDecisions basis decisions scope subject).map fun said =>
        (said.1, said.2.map hashing.correction) := by
  simp only [decided, List.mem_map, List.mem_filter, decide_eq_true_eq, mem_currentDecisions]
  constructor
  · rintro ⟨summary, ⟨member, current, about, named⟩, rfl⟩
    obtain ⟨record, listed, review, other, sound⟩ := record_of_checked checks member
    have block := sound.reviewOf_iff.mpr ⟨rfl, about, named⟩
    obtain ⟨-, rfl, names⟩ := reviewOf_eq_some.mp block
    cases sound.names.symm.trans names
    refine ⟨_, ⟨record, listed, review, block, sound.bound.mp current, rfl⟩, ?_⟩
    rw [sound.kept]
    rfl
  · rintro ⟨said, ⟨record, listed, review, block, bound, rfl⟩, rfl⟩
    obtain ⟨summary, member, other, named, sound⟩ := checked_of_record checks listed
    obtain ⟨rfl, about, same⟩ := sound.reviewOf_iff.mp block
    obtain ⟨-, rfl, names⟩ := reviewOf_eq_some.mp block
    cases sound.names.symm.trans names
    refine ⟨summary, ⟨member, sound.bound.mpr bound, about, same⟩, ?_⟩
    rw [sound.kept]
    rfl

/-- The digest of a correction tells the edits at hand apart. -/
theorem currentDecisions_apart (apart : Distinguishes hashing decisions) {scope : ReviewScope}
    {subject : String} : ∀ one ∈ currentDecisions basis decisions scope subject,
      ∀ other ∈ currentDecisions basis decisions scope subject,
        one.2.map hashing.correction = other.2.map hashing.correction → one.2 = other.2 := by
  intro one member other also same
  obtain ⟨first, listed, review, block, -, rfl⟩ := mem_currentDecisions.mp member
  obtain ⟨second, alsoListed, review', block', -, rfl⟩ := mem_currentDecisions.mp also
  have present := (reviewOf_eq_some.mp block).1
  have present' := (reviewOf_eq_some.mp block').1
  dsimp only at same ⊢
  cases said : review.correction with
  | none =>
      rw [said] at same
      exact (Option.map_eq_none_iff.mp same.symm).symm
  | some correction =>
      rw [said, Option.map_some] at same
      obtain ⟨correction', said', digest⟩ := Option.map_eq_some_iff.mp same.symm
      rw [said', apart.correction first listed second alsoListed correction
        (by rw [present]; exact said) correction' (by rw [present']; exact said') digest.symm]

variable (apart : Distinguishes hashing decisions)
  (checks : decisions.mapM (reviewDecision hashing basis) = .ok checked)

include apart checks

theorem checked_apart : ∀ one ∈ checked, ∀ other ∈ checked,
    one.decisionHash = other.decisionHash → one = other := by
  intro one member other also same
  obtain ⟨first, listed, made⟩ := mapM_mem_right checks member
  obtain ⟨second, alsoListed, alsoMade⟩ := mapM_mem_right checks also
  obtain ⟨review, subject, sound⟩ := reviewDecision_checks made
  obtain ⟨review', subject', sound'⟩ := reviewDecision_checks alsoMade
  have hashes : first.selfHash = second.selfHash := by
    rw [sound.kept, sound'.kept] at same
    exact same
  have bodies : first.toApprovalBody = second.toApprovalBody := by
    apply apart.body first listed second alsoListed
    rw [← sound.sound.sealed, ← sound'.sound.sealed, hashes]
  have records : first = second := by
    cases first
    cases second
    rw [ApprovalRecord.mk.injEq]
    exact ⟨bodies, hashes⟩
  rw [records, alsoMade] at made
  exact (Except.ok.inj made).symm

/-- The kinds an application works with are what the records at hand come to. -/
theorem kindsOf_eq (scope : ReviewScope) (subject : String) :
    kindsOf checked scope subject = agreed (currentDecisions basis decisions scope subject) := by
  have distinct := checked_apart apart checks
  rw [kindsOf, currentKindBySubject]
  rw [← agreed_map (Option.map hashing.correction)]
  · apply agreed_congr
    intro one
    rw [← mem_decided checks, decided, decided, List.mem_map, List.mem_map]
    simp only [List.mem_filter, mem_byHash distinct]
  · exact currentDecisions_apart apart

omit checks in
theorem mem_summariesOf (checks : decisions.mapM (reviewDecision hashing basis) = .ok checked)
    {summary : Summary Digest} : summary ∈ summariesOf checked ↔
      ∃ source ∈ checked, withConflict (kindsOf checked) source = summary := by
  rw [summariesOf, sortSummaries, List.mem_insertionSort, List.mem_map]
  simp only [mem_byHash (checked_apart apart checks)]

/-- What an application carries onto a subject is what the records' stale holds carry. -/
theorem mem_carriedOnto {scope : ReviewScope} {subject code : String} :
    code ∈ carriedOnto scope subject (summariesOf checked) (kindsOf checked) ↔
      code ∈ carriedCodes basis decisions scope subject := by
  rw [carriedOnto, carriedCodes, kindsOf_eq apart checks]
  by_cases undecided : currentDecisions basis decisions scope subject = []
  · rw [agreed_eq_none.mpr undecided, if_pos undecided, if_neg (by simp)]
    simp only [mem_sortedSet, List.mem_filterMap, List.mem_filter, decide_eq_true_eq,
      mem_staleDecisions, mem_summariesOf apart checks]
    constructor
    · rintro ⟨summary, ⟨⟨source, member, rfl⟩, stale, about, named⟩, carried⟩
      rw [withConflict_stale] at stale
      rw [withConflict_scope] at about
      rw [withConflict_subjectId] at named
      rw [withConflict_decision] at carried
      obtain ⟨record, listed, review, other, sound⟩ := record_of_checked checks member
      have block := sound.reviewOf_iff.mpr ⟨rfl, about, named⟩
      obtain ⟨-, rfl, names⟩ := reviewOf_eq_some.mp block
      cases sound.names.symm.trans names
      refine ⟨_, ⟨record, listed, review, block, ?_, rfl⟩, ?_⟩
      · rw [Ne, ← sound.bound, stale]
        simp
      · rw [sound.kept] at carried
        exact carried
    · rintro ⟨decision, ⟨record, listed, review, block, unbound, rfl⟩, carried⟩
      obtain ⟨summary, member, other, named, sound⟩ := checked_of_record checks listed
      obtain ⟨rfl, about, same⟩ := sound.reviewOf_iff.mp block
      obtain ⟨-, rfl, names⟩ := reviewOf_eq_some.mp block
      cases sound.names.symm.trans names
      have stale : summary.state = .stale := by
        have unbound := mt sound.bound.mp unbound
        have settled := sound.settled
        cases state : summary.state with
        | current => exact absurd state unbound
        | stale => rfl
        | conflicting => exact absurd state settled
      refine ⟨_, ⟨⟨summary, member, rfl⟩, ?_, ?_, ?_⟩, ?_⟩
      · rwa [withConflict_stale]
      · rwa [withConflict_scope]
      · rwa [withConflict_subjectId]
      · rw [withConflict_decision, sound.kept]
        exact carried
  · have decided := mt agreed_eq_none.mp undecided
    rw [if_neg undecided, if_pos (Option.isSome_iff_ne_none.mpr decided)]

end Checked

section Excluded

variable {decisions : List (ApprovalRecord Digest)}

/-- Whether every current decision about a unit, and there is one, excludes it. -/
def excludedNow (basis : Basis Digest) (decisions : List (ApprovalRecord Digest))
    (subject : String) : Bool :=
  agreed (currentDecisions basis decisions .unit subject) = some (.one .exclude)

theorem unitSummary_eq_ok {record : ApprovalRecord Digest} {found : Option (Summary Digest)}
    (made : unitSummary hashing basis record = .ok found) :
    match found with
    | some summary => ∃ review subject, Checks hashing basis record review subject summary ∧
        review.scope = .unit
    | none => ∀ review ∈ record.review, review.scope ≠ .unit := by
  obtain ⟨⟨⟩, valid, made⟩ := bind_eq_ok.mp made
  split_ifs at made with about
  · cases checked : reviewDecision hashing basis record with
    | error refusal => simp [checked, Except.map] at made
    | ok summary =>
        rw [checked] at made
        cases made
        obtain ⟨review, subject, sound⟩ := reviewDecision_checks checked
        have scope := about.2
        rw [sound.sound.block] at scope
        exact ⟨review, subject, sound, Option.some_inj.mp scope⟩
  · cases made
    intro review present unit
    refine about ⟨(validateApprovalRecord_reviewed valid).mpr ?_, ?_⟩
    · exact Option.isSome_iff_exists.mpr ⟨review, present⟩
    · rw [present, Option.map_some, unit]

/-- The units excluded are those whose current decisions all exclude them. -/
theorem excludedUnits_eq (apart : Distinguishes hashing decisions) {excluded : String → Bool}
    (made : excludedUnits hashing decisions basis = .ok excluded) :
    excluded = excludedNow basis decisions := by
  obtain ⟨found, each, made⟩ := bind_eq_ok.mp made
  rw [pure_eq_ok] at made
  subst made
  funext subject
  rw [excludedNow, currentKindBySubject, ← agreed_map (Option.map hashing.correction)]
  · congr 2
    apply agreed_congr
    intro one
    simp only [decided, List.mem_map, List.mem_filter, decide_eq_true_eq, List.mem_filterMap, id,
      exists_eq_right, mem_currentDecisions]
    constructor
    · rintro ⟨summary, ⟨member, current, about, named⟩, rfl⟩
      obtain ⟨record, listed, made⟩ := mapM_mem_right each member
      obtain ⟨review, other, sound, scope⟩ := unitSummary_eq_ok made
      have block := sound.reviewOf_iff.mpr ⟨rfl, about, named⟩
      obtain ⟨-, unit, names⟩ := reviewOf_eq_some.mp block
      cases sound.names.symm.trans names
      have bound := sound.bound.mp current
      rw [unit] at bound
      refine ⟨_, ⟨record, listed, review, block, bound, rfl⟩, ?_⟩
      rw [sound.kept]
      rfl
    · rintro ⟨said, ⟨record, listed, review, block, bound, rfl⟩, rfl⟩
      obtain ⟨result, member, made⟩ := mapM_mem_left each listed
      obtain ⟨present, unit, names⟩ := reviewOf_eq_some.mp block
      cases result with
      | none => exact absurd unit (unitSummary_eq_ok made review present)
      | some summary =>
          obtain ⟨review', other, sound, -⟩ := unitSummary_eq_ok made
          obtain ⟨rfl, about, same⟩ := sound.reviewOf_iff.mp block
          cases sound.names.symm.trans names
          refine ⟨summary, ⟨member, sound.bound.mpr (by rw [unit]; exact bound), about, same⟩, ?_⟩
          rw [sound.kept]
          rfl
  · exact currentDecisions_apart apart

/-- The pages of the basis are made of its units, with the acts excluded now. -/
theorem currentBasis_lookup_pages {derived : DerivedReview Digest}
    (apart : Distinguishes hashing decisions)
    (built : currentBasis hashing derived decisions = .ok basis) (pageId : String) :
    basis.pages.lookup pageId = (unitsOfPage basis.units pageId).head?.map fun first =>
      pageEntry hashing basis.units (excludedNow basis decisions) pageId first.2.pageOrdinal
        first.2.pageHolds := by
  obtain ⟨-, entries, -, entered⟩ := currentBasis_eq_ok.mp built
  obtain ⟨-, -, excluded, made, rfl⟩ := basisOver_eq_ok.mp entered
  rw [lookup_pagesOf, excludedUnits_eq apart made]
  rfl

theorem currentBasis_page {derived : DerivedReview Digest} (apart : Distinguishes hashing decisions)
    (built : currentBasis hashing derived decisions = .ok basis) {pageId : String}
    {page : PageEntry Digest} (found : basis.pages.lookup pageId = some page) :
    ∃ ordinal holds, page = pageEntry hashing basis.units (excludedNow basis decisions) pageId
      ordinal holds := by
  rw [currentBasis_lookup_pages apart built] at found
  obtain ⟨first, -, rfl⟩ := Option.map_eq_some_iff.mp found
  exact ⟨_, _, rfl⟩

end Excluded

end Verbatus.Review
