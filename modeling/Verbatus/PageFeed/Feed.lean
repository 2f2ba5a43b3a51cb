import Verbatus.PageFeed.Blinded
import Verbatus.PageFeed.Citable

namespace Verbatus.PageFeed

open Library Library.Checked Refusal Python CodePoint Canonical Ink PageAccounting
open Identities (str)

section Feed

/-- What every assembled feed shows, whatever order its inputs came in and whatever the chairs of
its witnesses are called. -/
structure Faithful (rules : FeedRules) (arguments : Arguments) (shown : List Str)
    (result : SealedFeed) : Prop where
  rearranged : ∀ other, Rearranged arguments other → assemblePageFeed rules other = .ok result
  hidden : ∀ other, HiddenChanged shown arguments other → assemblePageFeed rules other = .ok result
  renamed : arguments.regime = .blinded → ∀ rename : Str → Str, Function.Injective rename →
    (∀ chair ∈ arguments.roster, isBlank (rename chair) = false) →
    (∀ witness ∈ arguments.witnesses, witness.label ≠ rename witness.chair) →
    assemblePageFeed rules (arguments.renamed rename) =
      (digestOf rules (.object (named (feedFields (result.feed.renamed rename) result.prompt)))).map
        fun digest => ⟨result.feed.renamed rename, result.prompt, digest⟩
  ids : result.feed.ids.Nodup
  apart : ∀ row ∈ result.feed.witnesses, ∀ unit ∈ row.units, isDetectionId unit.id = false
  rows : result.feed.witnesses.map (fun row => (row.label, row.outcome)) =
    (orderedWitnesses arguments.witnesses shown).map fun witness => (witness.label, witness.outcome)
  silent : ∀ row ∈ result.feed.witnesses, row.outcome ≠ readOutcome → row.units = []
  citable : ∀ unicode policy, ∃ candidates,
    feedCandidates unicode policy (accountingFeed result.feed) = .ok candidates ∧
      ∀ id, id ∈ candidates ↔ id ∈ result.feed.ids

theorem unit_notDetection {feed : FeedRecord} (numbered : feed.Numbered) :
    ∀ row ∈ feed.witnesses, ∀ unit ∈ row.units, isDetectionId unit.id = false := by
  have letters : ∀ letter ∈ witnessLetters, letter ∉ PageAccounting.detectionLetters :=
    fun letter member => of_decide_eq_true (List.mem_filter.mp member).2
  intro row member unit inside
  have listed : unit.id ∈ row.units.map ShownUnit.id := List.mem_map_of_mem inside
  rw [(numbered.rows row member).ids] at listed
  obtain ⟨number, -, same⟩ := List.mem_map.mp listed
  rw [← same, isDetectionId, idOf_toList]
  exact decide_eq_false (letters _ (numbered.allowed row member))

/-- A feed shows the page: no order of its inputs, no hidden reading and, under the blinded regime,
no chair's name reaches what is shown, and its ids are the accounting's candidates. -/
theorem assemblePageFeed_faithful (rules : FeedRules) (arguments : Arguments) (result : SealedFeed)
    (assembled : assemblePageFeed rules arguments = .ok result) :
    ∃ switches shown, validateFeedTable arguments.feedSwitches = .ok switches ∧
      shownChairs switches.witnesses arguments.roster = .ok shown ∧
      Faithful rules arguments shown result := by
  obtain ⟨switches, shown, rows, surya, steps⟩ := assemble_cases assembled
  have numbered := steps.numbered assembled
  refine ⟨switches, shown, steps.table, steps.chairs, ?_⟩
  exact {
    rearranged := fun other moved => assemble_rearranged moved assembled
    hidden := fun other changed => assemble_hidden steps.table steps.chairs changed assembled
    renamed := fun blinded rename injective named masked =>
      assemble_renamed injective blinded named masked assembled
    ids := numbered.ids_eq ▸ numberedIds_nodup numbered.groups_nodup
    apart := unit_notDetection numbered
    rows := by
      rw [steps.eq] at assembled
      obtain ⟨overlay, same⟩ := sealFeed_feed assembled
      have made : rows.map (fun row => (row.label, row.outcome)) =
          (witnessLetters.zip (orderedWitnesses arguments.witnesses shown)).map
            fun entry => (entry.2.label, entry.2.outcome) :=
        mapM_map_eq steps.rowsMade fun entry row one => by
          rw [(witnessRow_numbered one).2.1, (witnessRow_numbered one).2.2.1]
      have second : (witnessLetters.zip (orderedWitnesses arguments.witnesses shown)).map Prod.snd =
          orderedWitnesses arguments.witnesses shown := List.map_snd_zip steps.few
      have split := List.map_map (f := Prod.snd)
        (g := fun witness : Witness => (witness.label, witness.outcome))
        (l := witnessLetters.zip (orderedWitnesses arguments.witnesses shown))
      rw [second] at split
      rw [same, split]
      exact made
    silent := fun row member => (numbered.rows row member).silent
    citable := by
      intro unicode policy
      obtain ⟨candidates, found, keys⟩ := feedCandidates_ok unicode policy numbered
      refine ⟨candidates, found, fun id => ?_⟩
      rw [Mapping.mem_def, keys] }

end Feed

section Sample

def sampleDigest : Str := List.replicate 64 (scalar '0')

/-- The codes of some bytes, as a digest that tells any two texts apart. -/
def byteCodes (data : ByteArray) : Str := data.data.toList.map fun byte => ofCode byte.toNat

def sampleRules : FeedRules := ⟨byteCodes, [], [], fun data _ => .ok data⟩

def sampleUnit : JsonValue :=
  .object (named [("ordinal", .int 1), ("box_px", .null), ("label", .null), ("text", .str (str "x"))])

def sampleReference : JsonValue :=
  .object (named [("relative_path", .str (str "t.json")), ("sha256", .str sampleDigest)])

def sampleWitness : Witness where
  chair := str "a"
  label := str "w"
  adapter := str "churro.v1"
  outcome := readOutcome
  testimoniumRef := sampleReference
  units := .list [sampleUnit]
  findings := .list []
  answerHealth := noAnswerHealth
  sized := by
    intro items same
    cases same
    decide

def sampleTable : JsonValue :=
  .object (named [("page_image", .str (str "off")), ("witnesses", .list [.str (str "a")]),
    ("witness_units", .str (str "own")), ("witness_coordinates", .bool false),
    ("surya_lines", .bool false), ("surya_blocks", .bool false), ("page_overlay", .str (str "off")),
    ("page_types", .str (str "named"))])

/-- A page with one shown witness under the blinded regime. -/
def sampleArguments : Arguments where
  pageId := str "p"
  pageOrdinal := 1
  pageSize := ⟨10, 10⟩
  feedSwitches := sampleTable
  regime := .blinded
  roster := [str "a"]
  witnesses := [sampleWitness]
  surya := .missing
  pageRender := .null
  servingRecipe := none
  renderBytes := none
  noTestimony := false

def sampleSwitches : Switches := ⟨.off, some [str "a"], false, false, false, false, false⟩

def sampleRow : Row where
  letter := 'A'
  label := str "w"
  chair := none
  unitKind := "line"
  outcome := readOutcome
  testimoniumRef := ⟨str "t.json", sampleDigest⟩
  findings := []
  answerHealth := noAnswerHealth
  units := [⟨"A1", some 1, none, none, none, str "x"⟩]

theorem sample_steps : Assembled sampleRules sampleArguments sampleSwitches [str "a"] [sampleRow]
    none where
  table := by rfl
  size := by decide
  roster := by rfl
  witnesses := by
    rw [checkedWitnesses_eq_ok, if_neg (by decide)]
    have read : digestRef sampleReference "a page Testimonium reference" =
        .ok ⟨str "t.json", sampleDigest⟩ := by rfl
    have writes : ∃ data, recordBytes
        (Reference.json ⟨str "t.json", sampleDigest⟩) = .ok data :=
      exists_recordBytes_of (by decide +kernel)
    obtain ⟨data, written⟩ := writes
    have one : referenceDigest sampleRules sampleWitness = .ok (sampleRules.sha256 data) := by
      rw [referenceDigest]
      change digestRef sampleReference _ >>= _ = _
      rw [read, ok_bind, digestOf, written]
      rfl
    refine ⟨?_, List.nodup_singleton _, List.nodup_singleton _, ⟨[sampleRules.sha256 data], ?_,
      List.nodup_singleton _⟩, by simp [sampleArguments, sampleWitness],
      by simp [sampleArguments, sampleWitness]⟩
    · rintro witness member
      rw [List.mem_singleton.mp member]
      rfl
    · exact mapM_eq_ok.mpr (.cons one .nil)
  chairs := by rfl
  few := by decide
  rowsMade := by rfl
  render := by rfl
  suryaMade := by rfl

theorem byteCodes_injective : Function.Injective byteCodes := by
  have codes : ∀ number : Fin 256, (ofCode number).code = number := by decide +kernel
  have bytes : Function.Injective fun byte : UInt8 => ofCode byte.toNat := by
    intro first second same
    have read := congrArg code same
    have firstCode := codes ⟨first.toNat, first.toNat_lt⟩
    have secondCode := codes ⟨second.toNat, second.toNat_lt⟩
    exact UInt8.toNat_inj.mp (firstCode.symm.trans (read.trans secondCode))
  intro first second same
  have lists := List.map_injective_iff.mpr bytes same
  exact ByteArray.ext (Array.toList_inj.mp lists)

/-- The feed of the sample call, its witness shown under the given name. -/
def sampleFeed (name : Str) : FeedRecord :=
  plainFeed sampleArguments { sampleSwitches with witnesses := some [name] } [sampleRow] none

def sampleRecord (name : Str) : JsonValue := .object (named (feedFields (sampleFeed name) .null))

def sampleName : Str → Str := fun name => name ++ [scalar 'b']

theorem sample_writes : (∃ data, recordBytes (sampleRecord (str "a")) = .ok data) ∧
    ∃ data, recordBytes (sampleRecord (sampleName (str "a"))) = .ok data :=
  ⟨exists_recordBytes_of (by decide +kernel), exists_recordBytes_of (by decide +kernel)⟩

/-- A feed with no overlay and no recipe has its digest and nothing else. -/
theorem sealFeed_bare {rules : FeedRules} {renderBytes : Option ByteArray} {feed : FeedRecord}
    {digest : Str} (off : feed.switches.pageOverlay = false) (bare : feed.overlay = none)
    (digested : digestOf rules (.object (named (feedFields feed .null))) = .ok digest) :
    sealFeed rules renderBytes none feed = .ok ⟨feed, .null, digest⟩ := by
  have same : { feed with overlay := none } = feed := by
    rw [← bare]
  have undrawn : overlayOf rules renderBytes feed = .ok none := by
    unfold overlayOf
    exact if_pos off
  rw [sealFeed, undrawn, ok_bind]
  dsimp only
  rw [same, promptOf, ok_bind, digested, ok_bind]

theorem sample_assembled {data : ByteArray} (written : recordBytes (sampleRecord (str "a")) = .ok data) :
    assemblePageFeed sampleRules sampleArguments =
      .ok ⟨sampleFeed (str "a"), .null, byteCodes data⟩ := by
  have digested : digestOf sampleRules (sampleRecord (str "a")) = .ok (byteCodes data) := by
    rw [digestOf, written]
    rfl
  have made := @sealFeed_bare sampleRules none (sampleFeed (str "a")) _ rfl rfl digested
  exact sample_steps.eq.trans made

/-- The sample call is assembled, and its feed shows its page. -/
theorem sample_faithful : ∃ result, assemblePageFeed sampleRules sampleArguments = .ok result ∧
    ∃ switches shown, validateFeedTable sampleTable = .ok switches ∧
      shownChairs switches.witnesses [str "a"] = .ok shown ∧
      Faithful sampleRules sampleArguments shown result := by
  obtain ⟨data, written⟩ := sample_writes.1
  exact ⟨_, sample_assembled written,
    assemblePageFeed_faithful sampleRules sampleArguments _ (sample_assembled written)⟩

/-- New names for the chairs change the digest of the feed beside the recorded switch. -/
theorem feedDigest_renamed : ¬ ∀ rules arguments result other (rename : Str → Str),
    arguments.regime = .blinded → Function.Injective rename →
      assemblePageFeed rules arguments = .ok result →
      assemblePageFeed rules (arguments.renamed rename) = .ok other →
        other = { result with feed := result.feed.renamed rename } := by
  intro unchanged
  obtain ⟨⟨data, written⟩, ⟨others, rewritten⟩⟩ := sample_writes
  have assembled := sample_assembled written
  have injective : Function.Injective sampleName := fun first second same =>
    List.append_cancel_right same
  have renamed := assemble_renamed injective rfl (by decide) (by decide) assembled
  have digested : digestOf sampleRules (sampleRecord (sampleName (str "a"))) =
      .ok (byteCodes others) := by
    rw [digestOf, rewritten]
    rfl
  change assemblePageFeed sampleRules (sampleArguments.renamed sampleName) =
    (digestOf sampleRules (sampleRecord (sampleName (str "a")))).map _ at renamed
  rw [digested] at renamed
  have same := unchanged sampleRules sampleArguments _ _ sampleName rfl injective assembled renamed
  have digests : byteCodes others = byteCodes data := congrArg SealedFeed.digest same
  rw [byteCodes_injective digests] at rewritten
  have keyed : Keyed (sampleRecord (str "a")) ∧ Keyed (sampleRecord (sampleName (str "a"))) := by
    constructor <;> decide +kernel
  have first := loadsBytes_recordBytes (le_refl 640) keyed.1 written
  have second := loadsBytes_recordBytes (le_refl 640) keyed.2 rewritten
  have records := Option.some.inj (first.symm.trans second)
  exact absurd records (by decide +kernel)

end Sample

end Verbatus.PageFeed
