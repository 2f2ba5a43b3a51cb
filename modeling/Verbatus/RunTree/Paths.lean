import Verbatus.RunTree.Store

namespace Verbatus.RunTree

open Library Library.Checked Refusal

def stages : List Stage := [.door, .exemplar, .inkMap, .designator, .attestatores, .perlector,
  .coniector, .recensor, .archetypus, .armarium]

def runFile : String := "run.json"

def manifestFile : String := "manifest.json"

def doorManifestFile : String := "manifest-door.json"

def indexFile : String := "index.json"

def receiptsDir : String := "receipts/sha256"

/-- `_refuse_path_component` -/
def refusePathComponent (value what : String) : Except Refusal Unit := do
  require (value ≠ "") (.schemaRefusal (what ++ " is empty"))
  require ('/' ∉ value.toList ∧ '\\' ∉ value.toList ∧ value.toList.head? ≠ some '.')
    (.schemaRefusal (s!"{what} {quote value} is not a single plain path component; a stage that " ++
      "can name a directory can write outside its own"))

def isLowerHexDigit (character : Char) : Bool :=
  character.isDigit || ('a' ≤ character && character ≤ 'f')

def isSha256 (value : String) : Bool := value.length = 64 && value.toList.all isLowerHexDigit

section Paths

def artifactPath (stage : Stage) (kind artifactId : String) : Except Refusal String := do
  refusePathComponent kind "kind"
  refusePathComponent artifactId "artifact id"
  .ok s!"{stage.writingDirectory}/artifacts/{kind}/{artifactId}.json"

def blobPath (stage : Stage) (digest : String) : Except Refusal String := do
  refusePathComponent digest "blob digest"
  .ok s!"{stage.writingDirectory}/blobs/sha256/{digest}"

def manifestPath (stage : Stage) : String :=
  stage.writingDirectory ++ "/" ++ if stage = .door then doorManifestFile else manifestFile

def indexPath (stage : Stage) : String := stage.writingDirectory ++ "/" ++ indexFile

/-- The note of a launch audit, named by the audit blob's digest. -/
def auditNotePath (stage : Stage) (digest : String) : Except Refusal String := do
  refusePathComponent digest "blob digest"
  .ok s!"{stage.writingDirectory}/serving-logs/launch-audit-{digest}"

def receiptPath (digest : String) : Except Refusal String := do
  require (isSha256 digest)
    (.schemaRefusal s!"receipt digest {quote digest} is not a lowercase sha256")
  .ok s!"{receiptsDir}/{digest}.json"

def partitionReceiptFile : String := "run-health/recensor-partition-receipt.json"

def reviewSummaryFile : String := "run-health/recensor-review-summary.json"

def routingSummaryFile : String := "run-health/witness-routing.json"

/-- Every path prefix the store is able to write. -/
def inventoryScope : List String :=
  [runFile, receiptsDir ++ "/", partitionReceiptFile, reviewSummaryFile, routingSummaryFile] ++
    (stages.map Stage.writingDirectory).eraseDups.flatMap (fun directory =>
      [directory ++ "/artifacts/", directory ++ "/blobs/sha256/", directory ++ "/" ++ manifestFile,
        directory ++ "/" ++ indexFile, directory ++ "/serving-logs/"]) ++
    [Stage.door.writingDirectory ++ "/" ++ doorManifestFile]

/-- `_require_inventory_path` -/
def requireInventoryPath (relative : String) : Except Refusal Unit :=
  require (inventoryScope.any fun scope =>
      if scope.endsWith "/" then scope.toList.isPrefixOf relative.toList else relative = scope)
    (.schemaRefusal s!"{quote relative} is outside this run tree's inventory scope")

end Paths

/-- A path whose file is published once and never replaced. -/
inductive ImmutablePath : String → Prop where
  | run : ImmutablePath runFile
  | artifact {stage kind artifactId path} (derived : artifactPath stage kind artifactId = .ok path) :
      ImmutablePath path
  | blob {stage digest path} (derived : blobPath stage digest = .ok path) : ImmutablePath path
  | auditNote {stage digest path} (derived : auditNotePath stage digest = .ok path) :
      ImmutablePath path
  | receipt {digest path} (derived : receiptPath digest = .ok path) : ImmutablePath path

/-- A file rebuilt from the tree and replaced in place. -/
inductive Derived where
  | manifest (stage : Stage)
  | index (stage : Stage)
  | partitionReceipt
  | reviewSummary
  | routingSummary
  deriving DecidableEq

def Derived.path : Derived → String
  | manifest stage => manifestPath stage
  | index stage => indexPath stage
  | partitionReceipt => partitionReceiptFile
  | reviewSummary => reviewSummaryFile
  | routingSummary => routingSummaryFile

section Disjoint

/-- How many directories a path goes down. -/
def slashes (path : String) : ℕ := path.toList.count '/'

@[simp] theorem slashes_append (first second : String) :
    slashes (first ++ second) = slashes first + slashes second := by
  rw [slashes, String.toList_append, List.count_append, slashes, slashes]

theorem slashes_ofList (characters : List Char) :
    slashes (String.ofList characters) = characters.count '/' := by
  rw [slashes, String.toList_ofList]

theorem slashes_of_component {value what : String} (plain : refusePathComponent value what = .ok ()) :
    slashes value = 0 := by
  obtain ⟨-, plain⟩ := require_bind_eq_ok.mp plain
  exact List.count_eq_zero.mpr (require_eq_ok.mp plain).1

theorem slashes_writingDirectory (stage : Stage) : slashes stage.writingDirectory = 0 := by
  cases stage <;> exact slashes_ofList _

theorem slashes_of_isSha256 {value : String} (digest : isSha256 value = true) : slashes value = 0 := by
  rw [isSha256, Bool.and_eq_true, List.all_eq_true] at digest
  exact List.count_eq_zero.mpr fun member => absurd (digest.2 _ member) (by decide)

theorem Derived.slashes_path (derived : Derived) : slashes derived.path = 1 := by
  have one : slashes "/" = 1 := slashes_ofList _
  have manifest : slashes manifestFile = 0 := slashes_ofList _
  have doorManifest : slashes doorManifestFile = 0 := slashes_ofList _
  have index : slashes indexFile = 0 := slashes_ofList _
  cases derived with
  | manifest stage =>
      rw [Derived.path, manifestPath, slashes_append, slashes_append, slashes_writingDirectory, one]
      split
      · rw [doorManifest]
      · rw [manifest]
  | index stage =>
      rw [Derived.path, indexPath, slashes_append, slashes_append, slashes_writingDirectory, one, index]
  | partitionReceipt | reviewSummary | routingSummary => exact slashes_ofList _

theorem artifactPath_slashes {stage : Stage} {kind artifactId path : String}
    (derived : artifactPath stage kind artifactId = .ok path) : slashes path = 3 := by
  obtain ⟨⟨⟩, kindPlain, derived⟩ := bind_eq_ok.mp derived
  obtain ⟨⟨⟩, idPlain, derived⟩ := bind_eq_ok.mp derived
  cases derived
  have middle : slashes "/artifacts/" = 2 := slashes_ofList _
  have one : slashes "/" = 1 := slashes_ofList _
  have ending : slashes ".json" = 0 := slashes_ofList _
  simp only [slashes_append, toString, slashes_of_component kindPlain,
    slashes_of_component idPlain, slashes_writingDirectory, middle, one, ending]

theorem blobPath_slashes {stage : Stage} {digest path : String}
    (derived : blobPath stage digest = .ok path) : slashes path = 3 := by
  obtain ⟨⟨⟩, plain, derived⟩ := bind_eq_ok.mp derived
  cases derived
  have middle : slashes "/blobs/sha256/" = 3 := slashes_ofList _
  simp only [slashes_append, toString, slashes_of_component plain, slashes_writingDirectory, middle]

theorem auditNotePath_slashes {stage : Stage} {digest path : String}
    (derived : auditNotePath stage digest = .ok path) : slashes path = 2 := by
  obtain ⟨⟨⟩, plain, derived⟩ := bind_eq_ok.mp derived
  cases derived
  have middle : slashes "/serving-logs/launch-audit-" = 2 := slashes_ofList _
  simp only [slashes_append, toString, slashes_of_component plain, slashes_writingDirectory, middle]

theorem receiptPath_slashes {digest path : String} (derived : receiptPath digest = .ok path) :
    slashes path = 2 := by
  obtain ⟨shape, derived⟩ := require_bind_eq_ok.mp derived
  cases derived
  have start : slashes receiptsDir = 1 := slashes_ofList _
  have one : slashes "/" = 1 := slashes_ofList _
  have ending : slashes ".json" = 0 := slashes_ofList _
  simp only [slashes_append, toString, slashes_of_isSha256 shape, start, one, ending]

theorem ImmutablePath.slashes_ne {path : String} (immutable : ImmutablePath path) :
    slashes path ≠ 1 := by
  cases immutable with
  | run =>
      have flat : slashes runFile = 0 := slashes_ofList _
      rw [flat]
      decide
  | artifact derived => simp [artifactPath_slashes derived]
  | blob derived => simp [blobPath_slashes derived]
  | auditNote derived => simp [auditNotePath_slashes derived]
  | receipt derived => simp [receiptPath_slashes derived]

/-- No file that is replaced in place stands where an immutable one does. -/
theorem ImmutablePath.not_derived {path : String} (immutable : ImmutablePath path)
    (derived : Derived) : derived.path ≠ path := by
  rintro rfl
  exact immutable.slashes_ne derived.slashes_path

end Disjoint

end Verbatus.RunTree
