import Verbatus.Receipt.Complete

namespace Verbatus.Receipt

open Library Library.Checked Refusal Python CodePoint Canonical Outcomes
open Identities (str)

variable {rules : ReceiptRules}

section Links

theorem subjectPart_int {subject part : Str} {number : ℤ}
    (read : subjectPart rules subject part = .ok number) :
    toInt rules part = .ok number ∧ intText number = part := by
  obtain ⟨-, read⟩ := require_bind_eq_ok.mp read
  obtain ⟨found, parsed, read⟩ := bind_eq_ok.mp read
  obtain ⟨plain, read⟩ := require_bind_eq_ok.mp read
  cases read
  exact ⟨parsed, plain⟩

/-- A subject is the mark of a page break and the pages it names. -/
theorem subjectPages_split {subject : Str} {order : List ℤ}
    (read : subjectPages rules subject = .ok order) :
    subject.splitOn (scalar ':') = str "page-break" :: order.map intText ∧
      subjectOrder rules subject = .ok order := by
  unfold subjectPages at read
  split at read
  case h_2 => cases read
  case h_1 mark first second parts =>
    obtain ⟨marked, read⟩ := require_bind_eq_ok.mp read
    obtain ⟨head, headRead, read⟩ := bind_eq_ok.mp read
    obtain ⟨tail, tailRead, read⟩ := bind_eq_ok.mp read
    obtain ⟨-, read⟩ := require_bind_eq_ok.mp read
    cases read
    obtain ⟨headInt, rfl⟩ := subjectPart_int headRead
    obtain ⟨tailInt, rfl⟩ := subjectPart_int tailRead
    refine ⟨by rw [parts, marked]; rfl, ?_⟩
    rw [subjectOrder, parts]
    exact mapM_eq_ok.mpr (.cons headInt (.cons tailInt .nil))

theorem validateLink_pages {row : JsonValue} {link : Link}
    (accepted : validateLink rules row = .ok link) :
    linkOrder rules row = .ok link.order ∧ subjectPages rules link.subject = .ok link.order := by
  cases row with
  | object fields =>
      obtain ⟨-, accepted⟩ := require_bind_eq_ok.mp accepted
      cases named : fieldOf "subject_id" fields with
      | str subject =>
          rw [named] at accepted
          obtain ⟨order, pages, accepted⟩ := bind_eq_ok.mp accepted
          have order_eq : link.order = order ∧ link.subject = subject := by
            split at accepted
            · obtain ⟨-, accepted⟩ := require_bind_eq_ok.mp accepted
              obtain ⟨reference, -, accepted⟩ := bind_eq_ok.mp accepted
              cases accepted
              exact ⟨rfl, rfl⟩
            · cases accepted
          obtain ⟨rfl, rfl⟩ := order_eq
          refine ⟨?_, pages⟩
          cases found : field? "subject_id" fields with
          | none =>
              rw [fieldOf, found] at named
              cases named
          | some value =>
              rw [fieldOf, found] at named
              cases named
              rw [linkOrder, entry, found]
              exact (subjectPages_split pages).2
      | null | bool | int | float | list | object =>
          rw [named] at accepted
          cases accepted
  | null | bool | int | float | str | list => cases accepted

/-- Two links with the same pages are of the same page break. -/
theorem subject_eq_of_order {first second : Link}
    (firstPages : subjectPages rules first.subject = .ok first.order)
    (secondPages : subjectPages rules second.subject = .ok second.order)
    (same : first.order = second.order) : first.subject = second.subject := by
  have firstParts := (subjectPages_split firstPages).1
  have secondParts := (subjectPages_split secondPages).1
  rw [same, ← secondParts] at firstParts
  have joined (subject : Str) : [scalar ':'].intercalate (subject.splitOn (scalar ':')) = subject :=
    List.intercalate_splitOn (scalar ':')
  rw [← joined first.subject, firstParts, joined]

end Links

section Rows

/-- What a row is checked for is kept beside it. -/
theorem beside_mapM {α : Type} {check : JsonValue → Except Refusal α} {rows : List JsonValue}
    {pairs : List (JsonValue × α)} (traversed : rows.mapM (beside check) = .ok pairs) :
    pairs.map Prod.fst = rows ∧ ∀ pair ∈ pairs, check pair.1 = .ok pair.2 := by
  constructor
  · have kept : ∀ row pair, beside check row = .ok pair → pair.1 = row := by
      intro row pair made
      obtain ⟨found, -, rfl⟩ := map_eq_ok.mp made
      rfl
    exact (mapM_map_eq traversed kept).trans (List.map_id' _)
  · intro pair member
    obtain ⟨row, -, made⟩ := mapM_mem_right traversed member
    obtain ⟨found, checked, rfl⟩ := map_eq_ok.mp made
    exact checked

theorem orderedItems_perm {items others : List JsonValue} {checked : List (JsonValue × Item)}
    (ordered : orderedItems items = .ok checked) (same : items.Perm others)
    (distinct : (checked.map fun pair => pair.2.actId).Nodup) : orderedItems others = .ok checked := by
  obtain ⟨copies, copied, ordered⟩ := bind_eq_ok.mp ordered
  obtain ⟨pairs, traversed, ordered⟩ := bind_eq_ok.mp ordered
  cases ordered
  obtain ⟨otherCopies, otherCopied, copiesSame⟩ := mapM_perm copied same
  obtain ⟨otherPairs, otherTraversed, pairsSame⟩ := mapM_perm traversed copiesSame
  have apart : (pairs.map fun pair => pair.2.actId).Nodup := by
    rwa [← ((sortBy_perm (fun pair => pair.2.actId) pairs).map fun pair => pair.2.actId).nodup_iff]
  have sorted : sortBy (fun pair => pair.2.actId) pairs =
      sortBy (fun pair => pair.2.actId) otherPairs :=
    sortBy_eq_of_perm pairsSame fun first inside second also equal =>
      List.inj_on_of_nodup_map apart inside also equal
  rw [orderedItems, otherCopied, ok_bind, otherTraversed, ok_bind, sorted]

/-- Links told apart by their subjects are told apart by their pages. -/
theorem orders_nodup {pairs : List (JsonValue × Link)}
    (pages : ∀ pair ∈ pairs, subjectPages rules pair.2.subject = .ok pair.2.order)
    (distinct : (pairs.map fun pair => pair.2.subject).Nodup) :
    (pairs.map fun pair => pair.2.order).Nodup := by
  refine List.Nodup.map_on ?_ (List.Nodup.of_map _ distinct)
  intro first inside second also equal
  have subjects := subject_eq_of_order (pages first inside) (pages second also) equal
  exact List.inj_on_of_nodup_map distinct inside also subjects

theorem orderedLinks_perm {links others : List JsonValue} {checked : List (JsonValue × Link)}
    (ordered : orderedLinks rules links = .ok checked) (same : links.Perm others)
    (distinct : (checked.map fun pair => pair.2.subject).Nodup) :
    orderedLinks rules others = .ok checked := by
  obtain ⟨copies, copied, ordered⟩ := bind_eq_ok.mp ordered
  obtain ⟨keyed, traversed, ordered⟩ := bind_eq_ok.mp ordered
  obtain ⟨otherCopies, otherCopied, copiesSame⟩ := mapM_perm copied same
  obtain ⟨otherKeyed, otherTraversed, keyedSame⟩ := mapM_perm traversed copiesSame
  obtain ⟨rows, accepted⟩ := beside_mapM ordered
  have pages := fun pair member => validateLink_pages (accepted pair member)
  have inOrder : (sortBy Prod.snd keyed).map Prod.snd = checked.map fun pair => pair.2.order := by
    have keys := (beside_mapM traversed).2
    have each : List.Forall₂ (fun first second => first = second)
        ((sortBy Prod.snd keyed).map Prod.snd) (checked.map fun pair => pair.2.order) := by
      rw [List.forall₂_map_left_iff, List.forall₂_map_right_iff]
      have matched := mapM_eq_ok.mp ordered
      rw [List.forall₂_map_left_iff] at matched
      refine forall₂_imp_of_mem matched fun pair member result listed made => ?_
      obtain ⟨link, valid, rfl⟩ := map_eq_ok.mp made
      have fromKey := keys pair ((mem_sortBy Prod.snd).mp member)
      rw [(pages _ listed).1] at fromKey
      exact (Except.ok.inj fromKey).symm
    exact List.forall₂_eq_eq_eq ▸ each
  have apart : (keyed.map Prod.snd).Nodup := by
    rw [← ((sortBy_perm Prod.snd keyed).map Prod.snd).nodup_iff, inOrder]
    exact orders_nodup (fun pair member => (pages pair member).2) distinct
  have sorted : sortBy Prod.snd keyed = sortBy Prod.snd otherKeyed :=
    sortBy_eq_of_perm keyedSame fun first inside second also equal =>
      List.inj_on_of_nodup_map apart inside also equal
  rw [orderedLinks, otherCopied, ok_bind, otherTraversed, ok_bind, ← sorted, ordered]

end Rows

section Built

/-- The fields a built receipt names its rows under. -/
theorem fieldOf_sealed {fields : List (String × JsonValue)} {whole : List (Str × JsonValue)}
    (made : sealRecord rules.sha256 (named fields) = .ok whole)
    (distinct : ((fields.map Prod.fst) ++ ["self_hash"]).Nodup) {name : String} {value : JsonValue}
    (member : (name, value) ∈ fields) : fieldOf name whole = value := by
  obtain ⟨hash, -, made⟩ := bind_eq_ok.mp made
  cases made
  have joined : named fields ++ [(str "self_hash", JsonValue.str hash)] =
      named (fields ++ [("self_hash", .str hash)]) := by
    rw [named, named, List.map_append]
    rfl
  rw [joined]
  refine fieldOf_named ?_ (List.mem_append_left _ member)
  rwa [List.map_append]

variable {runId configDigest : JsonValue} {pages items links holds : List JsonValue}
  {record : JsonValue}

/-- What a receipt is built from: rows in order, each beside what it was checked for. -/
theorem build_cases
    (built : buildRecensorReadingReceipt rules runId configDigest pages items links holds = .ok record) :
    ∃ checkedItems checkedLinks receipt fields, orderedItems items = .ok checkedItems ∧
      orderedLinks rules links = .ok checkedLinks ∧ record = .object fields ∧
      validateRecensorPartitionReceipt rules record = .ok receipt ∧
      fieldOf "items" fields = .list (checkedItems.map Prod.fst) ∧
      fieldOf "continuation_links" fields = .list (checkedLinks.map Prod.fst) := by
  obtain ⟨checkedItems, itemsOrdered, built⟩ := bind_eq_ok.mp built
  obtain ⟨checkedLinks, linksOrdered, built⟩ := bind_eq_ok.mp built
  obtain ⟨checkedHolds, -, built⟩ := bind_eq_ok.mp built
  obtain ⟨copiedPages, -, built⟩ := bind_eq_ok.mp built
  obtain ⟨fields, made, built⟩ := bind_eq_ok.mp built
  obtain ⟨receipt, accepted, built⟩ := bind_eq_ok.mp built
  cases built
  exact ⟨checkedItems, checkedLinks, receipt, fields, itemsOrdered, linksOrdered, rfl, accepted,
    fieldOf_sealed made (by simp) (by simp), fieldOf_sealed made (by simp) (by simp)⟩

/-- Rows checked one by one are what a reader of them takes. -/
theorem mapM_checked {α : Type} {check : JsonValue → Except Refusal α}
    {pairs : List (JsonValue × α)} (checked : ∀ pair ∈ pairs, check pair.1 = .ok pair.2) :
    (pairs.map Prod.fst).mapM check = .ok (pairs.map Prod.snd) := by
  rw [mapM_eq_ok, List.forall₂_map_left_iff, List.forall₂_map_right_iff, List.forall₂_same]
  exact checked

theorem orderedItems_checked {checked : List (JsonValue × Item)}
    (ordered : orderedItems items = .ok checked) :
    ∀ pair ∈ checked, validateItem pair.1 = .ok pair.2 := by
  obtain ⟨copies, -, ordered⟩ := bind_eq_ok.mp ordered
  obtain ⟨pairs, traversed, ordered⟩ := bind_eq_ok.mp ordered
  cases ordered
  intro pair member
  exact (beside_mapM traversed).2 pair ((mem_sortBy _).mp member)

theorem orderedLinks_checked {checked : List (JsonValue × Link)}
    (ordered : orderedLinks rules links = .ok checked) :
    ∀ pair ∈ checked, validateLink rules pair.1 = .ok pair.2 := by
  obtain ⟨copies, -, ordered⟩ := bind_eq_ok.mp ordered
  obtain ⟨keyed, -, ordered⟩ := bind_eq_ok.mp ordered
  exact (beside_mapM ordered).2

/-- The order items and links are given in does not reach the receipt. -/
theorem build_perm {otherItems otherLinks : List JsonValue}
    (built : buildRecensorReadingReceipt rules runId configDigest pages items links holds = .ok record)
    (itemsSame : items.Perm otherItems) (linksSame : links.Perm otherLinks) :
    buildRecensorReadingReceipt rules runId configDigest pages otherItems otherLinks holds =
      .ok record := by
  obtain ⟨checkedItems, checkedLinks, receipt, fields, itemsOrdered, linksOrdered, rfl, accepted,
    itemRows, linkRows⟩ := build_cases built
  obtain ⟨held, accounted⟩ := validate_accounted accepted
  have itemsTaken : receipt.items = checkedItems.map Prod.snd := by
    obtain ⟨rows, listed, traversed⟩ := held.items
    rw [itemRows, JsonValue.list.injEq] at listed
    rw [← listed, mapM_checked (orderedItems_checked itemsOrdered)] at traversed
    exact (Except.ok.inj traversed).symm
  have linksTaken : receipt.links = checkedLinks.map Prod.snd := by
    obtain ⟨rows, listed, traversed⟩ := held.links
    rw [linkRows, JsonValue.list.injEq] at listed
    rw [← listed, mapM_checked (orderedLinks_checked linksOrdered)] at traversed
    exact (Except.ok.inj traversed).symm
  have actIds := accounted.actIds
  rw [itemsTaken, List.map_map] at actIds
  have subjects := accounted.subjects
  rw [linksTaken, List.map_map] at subjects
  rw [buildRecensorReadingReceipt, itemsOrdered, ok_bind, linksOrdered, ok_bind] at built
  rw [buildRecensorReadingReceipt, orderedItems_perm itemsOrdered itemsSame actIds, ok_bind,
    orderedLinks_perm linksOrdered linksSame subjects, ok_bind, built]

end Built

section Honest

/-- A built receipt is accepted and does not depend on the order of its items and links; an
accepted one accounts for its rows and is complete exactly when nothing in them is open. -/
theorem partitionReceipt_honest (rules : ReceiptRules) :
    (∀ runId configDigest pages items links holds record,
      buildRecensorReadingReceipt rules runId configDigest pages items links holds = .ok record →
        (∃ receipt, validateRecensorPartitionReceipt rules record = .ok receipt) ∧
        ∀ otherItems otherLinks, items.Perm otherItems → links.Perm otherLinks →
          buildRecensorReadingReceipt rules runId configDigest pages otherItems otherLinks holds =
            .ok record) ∧
      ∀ fields receipt, validateRecensorPartitionReceipt rules (.object fields) = .ok receipt →
        Holds rules fields receipt ∧ receipt.Accounted rules ∧
        (fieldOf "recensor_status" fields = .str (str "complete") ↔
          (∀ item ∈ receipt.items, classIn recensorVocabulary item.reviewOutcome = some .completed ∧
            item.coverage.floor ≤ witnessedCount item.coverage.byOutcome item.coverage.truncated ∧
            item.coverage.unresolvedChairs = 0) ∧
          (∀ link ∈ receipt.links, link.outcome = str "accepted") ∧ receipt.pageHolds = []) := by
  constructor
  · intro runId configDigest pages items links holds record built
    obtain ⟨-, -, receipt, -, -, -, -, accepted, -, -⟩ := build_cases built
    exact ⟨⟨receipt, accepted⟩, fun otherItems otherLinks => build_perm built⟩
  · intro fields receipt accepted
    obtain ⟨held, accounted⟩ := validate_accounted accepted
    exact ⟨held, accounted, complete_iff accepted⟩

end Honest

section Sample

def zeros : Str := List.replicate 64 (scalar '0')

/-- A host under which every digest is the same. -/
def sampleRules : ReceiptRules := ⟨fun _ => zeros, fun text => text.all isDigit,
  fun _ => .error (.valueError "invalid literal for int() with base 10"), 4300⟩

def sampleReference (path : String) : JsonValue :=
  .object (named [("relative_path", .str (str path)), ("sha256", .str zeros)])

/-- One chair that read a page, its reading truncated or not, against a floor of one. -/
def sampleCoverage (truncated : Bool) : JsonValue :=
  .object (named [("configured", .int 1), ("floor", .int 1),
    ("by_outcome", .object (named [("read", .int 1)])),
    ("by_class", .object (named [("completed", .int 1), ("unresolved", .int 0), ("failed", .int 0)])),
    ("under_witnessed", .bool truncated), ("unresolved_chairs", .int 0),
    ("health_unrecorded", .int 0),
    ("shortfalls", .object (named [("failed", .int 0), ("truncated", .int truncated.toNat),
      ("unaligned", .int 0)]))])

def sampleItem (truncated : Bool) : JsonValue :=
  .object (named [("act_id", .str (str "a")), ("act_key", .str (str "p1:1")),
    ("review_ref", sampleReference "review.json"), ("review_outcome", .str (str "accepted")),
    ("partition_class", .str (str "completed")), ("coverage", sampleCoverage truncated),
    ("page_disposition", .str (str "read")), ("release_reason", .null)])

def sampleReasons (truncated : Bool) : List Str :=
  if truncated then [str "unit a is under-witnessed (0 page reads of a floor of 1)"] else []

def sampleFields (truncated : Bool) : List (Str × JsonValue) :=
  named [("schema", .str (str schemaName)), ("run_id", .str (str "run")),
    ("config_digest", .str zeros), ("scope", .str (str scopeName)),
    ("pages", .list [.object (named [("page_ordinal", .int 1),
      ("reading_ref", sampleReference "reading.json"), ("reask_ref", .null),
      ("accounting_ref", sampleReference "accounting.json"), ("reask", .null)])]),
    ("expected_unit_count", .int 1), ("continuation_links", .list []), ("page_holds", .list []),
    ("items", .list [sampleItem truncated]),
    ("by_partition_class",
      .object (named [("completed", .int 1), ("unresolved", .int 0), ("failed", .int 0)])),
    ("recensor_status", .str (statusOf (sampleReasons truncated))),
    ("reasons", .list ((sampleReasons truncated).map .str)), ("self_hash", .str zeros)]

theorem sample_verifies (truncated : Bool) :
    recordVerifies sampleRules.sha256 (sampleFields truncated) = true := by
  have writes : ∃ data, recordBytes (.object (withoutKey "self_hash" (sampleFields truncated))) =
      .ok data := by
    cases truncated
    · exact exists_recordBytes_of (by decide +kernel)
    · exact exists_recordBytes_of (by decide +kernel)
  obtain ⟨data, written⟩ := writes
  have stored : field? "self_hash" (sampleFields truncated) = some (.str zeros) := by
    cases truncated <;> decide +kernel
  rw [recordVerifies, stored, recordHash, written]
  exact decide_eq_true rfl

theorem sample_accepted (truncated : Bool) : ∃ receipt,
    validateRecensorPartitionReceipt sampleRules (.object (sampleFields truncated)) = .ok receipt ∧
      receipt.items.map (fun item => (item.coverage.byOutcome, item.coverage.floor,
        item.coverage.truncated, item.coverage.underWitnessed)) =
        [([(str "read", 1)], 1, (truncated.toNat : ℤ), truncated)] := by
  rw [validateRecensorPartitionReceipt, require_bind_of (by cases truncated <;> decide +kernel),
    require_bind_of (sample_verifies truncated)]
  refine (exists_ok_of_any _ (fun receipt : PartitionReceipt =>
    decide (receipt.items.map (fun item => (item.coverage.byOutcome, item.coverage.floor,
        item.coverage.truncated, item.coverage.underWitnessed)) =
        [([(str "read", 1)], 1, (truncated.toNat : ℤ), truncated)])) ?_).imp
    fun receipt found => ⟨found.1, of_decide_eq_true found.2⟩
  cases truncated <;> decide +kernel

/-- The counts per outcome and the floor of an item do not give its truncations and its flag. -/
theorem shortfalls_notDerived : ¬ ∃ derive : List (Str × ℤ) → ℤ → ℤ × Bool,
    ∀ rules fields receipt,
      validateRecensorPartitionReceipt rules (.object fields) = .ok receipt →
        ∀ item ∈ receipt.items, (item.coverage.truncated, item.coverage.underWitnessed) =
          derive item.coverage.byOutcome item.coverage.floor := by
  rintro ⟨derive, derived⟩
  have given (truncated : Bool) : ((truncated.toNat : ℤ), truncated) = derive [(str "read", 1)] 1 := by
    obtain ⟨receipt, accepted, seen⟩ := sample_accepted truncated
    obtain ⟨item, only, same⟩ := List.map_eq_singleton_iff.mp seen
    simp only [Prod.mk.injEq] at same
    obtain ⟨outcomes, floor, cut, flag⟩ := same
    have one := derived sampleRules _ receipt accepted item (only ▸ List.mem_singleton_self item)
    rwa [outcomes, floor, cut, flag] at one
  have differ := (given true).trans (given false).symm
  cases differ

end Sample

end Verbatus.Receipt
