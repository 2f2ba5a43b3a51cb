import Verbatus.Receipt.Accepted

namespace Verbatus.Receipt

open Library Library.Checked Refusal Python CodePoint Canonical Outcomes
open Identities (str)

variable {rules : ReceiptRules}

section Accepted

/-- What holds of the rows of every accepted receipt. -/
structure PartitionReceipt.Accounted (rules : ReceiptRules) (receipt : PartitionReceipt) : Prop where
  items : ∀ item ∈ receipt.items, item.Derived
  actIds : (receipt.items.map Item.actId).Nodup
  subjects : (receipt.links.map Link.subject).Nodup
  actKeys : (receipt.items.map Item.actKey).Nodup
  pages : (receipt.pages.map PageRow.ordinal).Nodup
  read : ∀ page ∈ receipt.pages, ∃ item ∈ receipt.items, keyPage rules item = .ok page.ordinal
  sealed : ∀ item ∈ receipt.items, ∃ page ∈ receipt.pages, keyPage rules item = .ok page.ordinal
  reasked : ∀ page ∈ receipt.pages, ∀ asked reask, page.reask = some (asked, reask) → reask.Splits

/-- The rows a receipt's record holds, as its reader takes them. -/
structure Holds (rules : ReceiptRules) (fields : List (Str × JsonValue))
    (receipt : PartitionReceipt) : Prop where
  items : ∃ rows, fieldOf "items" fields = .list rows ∧ rows.mapM validateItem = .ok receipt.items
  links : ∃ rows, fieldOf "continuation_links" fields = .list rows ∧
    rows.mapM (validateLink rules) = .ok receipt.links
  pages : ∃ rows, fieldOf "pages" fields = .list rows ∧ rows.mapM validatePage = .ok receipt.pages
  pageHolds : ∃ rows, fieldOf "page_holds" fields = .list rows ∧
    rows.mapM (validateHold (receipt.pages.map PageRow.ordinal)) = .ok receipt.pageHolds
  status : fieldOf "recensor_status" fields = .str (statusOf receipt.reasons)
  reasons : fieldOf "reasons" fields = .list (receipt.reasons.map .str) ∧
    receipt.reasons = reasonsOf receipt.items receipt.links receipt.pageHolds

theorem listOf_eq_ok {value : JsonValue} {message : String} {items : List JsonValue}
    (read : listOf value message = .ok items) : value = .list items := by
  cases value with
  | list given =>
      cases read
      rfl
  | null | bool | int | float | str | object => cases read

theorem readDenominator_items {fields : List (Str × JsonValue)} {runId : Str}
    {rows : List JsonValue} (read : readDenominator fields = .ok (runId, rows)) :
    fieldOf "items" fields = .list rows := by
  obtain ⟨run, -, read⟩ := bind_eq_ok.mp read
  obtain ⟨-, read⟩ := require_bind_eq_ok.mp read
  obtain ⟨items, listed, read⟩ := bind_eq_ok.mp read
  obtain ⟨-, read⟩ := require_bind_eq_ok.mp read
  cases read
  exact listOf_eq_ok listed

theorem readLinks_rows {value : JsonValue} {links : List Link}
    (read : readLinks rules value = .ok links) :
    ∃ rows, value = .list rows ∧ rows.mapM (validateLink rules) = .ok links := by
  obtain ⟨rows, listed, read⟩ := bind_eq_ok.mp read
  obtain ⟨found, checked, read⟩ := bind_eq_ok.mp read
  obtain ⟨ordered, -, read⟩ := bind_eq_ok.mp read
  obtain ⟨-, read⟩ := require_bind_eq_ok.mp read
  cases read
  exact ⟨rows, listOf_eq_ok listed, checked⟩

theorem readItems_ordered {rows : List JsonValue} {items : List Item}
    (read : readItems rows = .ok items) :
    rows.mapM validateItem = .ok items ∧ (items.map Item.actId).Pairwise (· < ·) := by
  obtain ⟨found, checked, read⟩ := bind_eq_ok.mp read
  obtain ⟨ordered, read⟩ := require_bind_eq_ok.mp read
  cases read
  exact ⟨checked, ordered⟩

theorem readHolds_rows {value : JsonValue} {ordinals : List ℤ} {holds : List PageHold}
    (read : readHolds value ordinals = .ok holds) :
    ∃ rows, value = .list rows ∧ rows.mapM (validateHold ordinals) = .ok holds := by
  cases value with
  | list rows =>
      obtain ⟨found, checked, read⟩ := bind_eq_ok.mp read
      obtain ⟨-, read⟩ := require_bind_eq_ok.mp read
      cases read
      exact ⟨rows, rfl, checked⟩
  | null | bool | int | float | str | object => cases read

/-- The pages of a receipt are its items' pages, each named once. -/
theorem readPages_covered {value : JsonValue} {items : List Item} {pages : List PageRow}
    (read : readPages rules value items = .ok pages) :
    (∃ rows, value = .list rows ∧ rows.mapM validatePage = .ok pages) ∧
      (pages.map PageRow.ordinal).Nodup ∧ (items.map Item.actKey).Nodup ∧
      (∀ page ∈ pages, ∃ item ∈ items, keyPage rules item = .ok page.ordinal) ∧
      ∀ item ∈ items, ∃ page ∈ pages, keyPage rules item = .ok page.ordinal := by
  obtain ⟨rows, listed, read⟩ := bind_eq_ok.mp read
  obtain ⟨-, read⟩ := require_bind_eq_ok.mp read
  obtain ⟨found, checked, read⟩ := bind_eq_ok.mp read
  obtain ⟨increasing, read⟩ := require_bind_eq_ok.mp read
  obtain ⟨-, read⟩ := require_bind_eq_ok.mp read
  obtain ⟨keys, read⟩ := require_bind_eq_ok.mp read
  obtain ⟨counted, numbered, read⟩ := bind_eq_ok.mp read
  obtain ⟨unread, read⟩ := require_bind_eq_ok.mp read
  obtain ⟨stray, read⟩ := require_bind_eq_ok.mp read
  cases read
  refine ⟨⟨rows, listOf_eq_ok listed, checked⟩, nodup_sortedSet increasing, keys, ?_, ?_⟩
  · intro page member
    exact mapM_mem_right numbered (unread _ (List.mem_map_of_mem member))
  · intro item member
    obtain ⟨number, inCounted, named⟩ := mapM_mem_left numbered member
    obtain ⟨page, listed, same⟩ := List.mem_map.mp (stray number inCounted)
    exact ⟨page, listed, same ▸ named⟩

/-- The links of a receipt are one per page break. -/
theorem readLinks_nodup {value : JsonValue} {links : List Link}
    (read : readLinks rules value = .ok links) : (links.map Link.subject).Nodup := by
  obtain ⟨rows, -, read⟩ := bind_eq_ok.mp read
  obtain ⟨found, -, read⟩ := bind_eq_ok.mp read
  obtain ⟨ordered, numbered, read⟩ := bind_eq_ok.mp read
  obtain ⟨inOrder, read⟩ := require_bind_eq_ok.mp read
  cases read
  have subjects : ordered.map Prod.snd = (links.map Link.subject).dedup := by
    have kept : ∀ subject pair, (subjectOrder rules subject).map (fun order => (order, subject)) =
        .ok pair → pair.2 = subject := by
      intro subject pair made
      obtain ⟨order, -, rfl⟩ := map_eq_ok.mp made
      rfl
    exact (mapM_map_eq numbered kept).trans (List.map_id' _)
  rw [inOrder, ((sortBy_perm Prod.fst ordered).map Prod.snd).nodup_iff, subjects]
  exact List.nodup_dedup _

/-- An accepted receipt holds the rows its reader takes, and accounts for each of them. -/
theorem validate_accounted {fields : List (Str × JsonValue)} {receipt : PartitionReceipt}
    (accepted : validateRecensorPartitionReceipt rules (.object fields) = .ok receipt) :
    Holds rules fields receipt ∧ receipt.Accounted rules := by
  obtain ⟨-, accepted⟩ := require_bind_eq_ok.mp accepted
  obtain ⟨-, accepted⟩ := require_bind_eq_ok.mp accepted
  obtain ⟨⟨runId, rows⟩, denominator, accepted⟩ := bind_eq_ok.mp accepted
  obtain ⟨links, linksRead, accepted⟩ := bind_eq_ok.mp accepted
  obtain ⟨items, itemsRead, accepted⟩ := bind_eq_ok.mp accepted
  obtain ⟨pages, pagesRead, accepted⟩ := bind_eq_ok.mp accepted
  obtain ⟨holds, holdsRead, accepted⟩ := bind_eq_ok.mp accepted
  obtain ⟨⟨⟩, summary, accepted⟩ := bind_eq_ok.mp accepted
  cases accepted
  obtain ⟨-, summary⟩ := require_bind_eq_ok.mp summary
  obtain ⟨reasons, status⟩ := require_eq_ok.mp summary
  obtain ⟨checked, increasing⟩ := readItems_ordered itemsRead
  obtain ⟨pageRows, once, keys, covered, inside⟩ := readPages_covered pagesRead
  refine ⟨⟨⟨rows, readDenominator_items denominator, checked⟩, readLinks_rows linksRead, pageRows,
    readHolds_rows holdsRead, status, reasons, rfl⟩, ?_, ?_, readLinks_nodup linksRead, keys, once,
    covered, inside, ?_⟩
  · intro item member
    obtain ⟨row, -, made⟩ := mapM_mem_right checked member
    exact validateItem_derived made
  · exact increasing.imp ne_of_lt
  · intro page member asked reask named
    obtain ⟨found, -, traversed⟩ := pageRows
    obtain ⟨row, -, made⟩ := mapM_mem_right traversed member
    exact validatePage_splits made named

/-- A receipt is complete exactly when nothing in its rows stands against it. -/
theorem complete_iff {fields : List (Str × JsonValue)} {receipt : PartitionReceipt}
    (accepted : validateRecensorPartitionReceipt rules (.object fields) = .ok receipt) :
    fieldOf "recensor_status" fields = .str (str "complete") ↔
      (∀ item ∈ receipt.items, classIn recensorVocabulary item.reviewOutcome = some .completed ∧
        item.coverage.floor ≤ witnessedCount item.coverage.byOutcome item.coverage.truncated ∧
        item.coverage.unresolvedChairs = 0) ∧
      (∀ link ∈ receipt.links, link.outcome = str "accepted") ∧ receipt.pageHolds = [] := by
  obtain ⟨held, accounted⟩ := validate_accounted accepted
  rw [held.status, JsonValue.str.injEq, statusOf_complete, held.reasons.2, reasonsOf_eq_nil]
  refine and_congr (forall₂_congr fun item member => ?_) (and_congr (forall₂_congr fun link _ => ?_)
    Iff.rfl)
  · have derived := accounted.items item member
    rw [itemReasons_eq_nil, derived.classified, Option.some.injEq, derived.coverage.flag,
      decide_eq_false_iff_not, not_lt]
  · exact linkReasons_eq_nil

end Accepted

end Verbatus.Receipt
