import Mathlib.Tactic.DeriveEncodable
import Verbatus.RunTree.Store

namespace Verbatus.RunTree

instance encodableByte : Encodable UInt8 :=
  Encodable.ofLeftInjection UInt8.toNat (some ∘ UInt8.ofNat) fun byte => by simp

instance encodableChar : Encodable Char :=
  Encodable.ofLeftInjection Char.toNat (some ∘ Char.ofNat) fun character => by simp

instance encodableString : Encodable String :=
  Encodable.ofLeftInjection String.toList (some ∘ String.ofList) fun text => by simp

deriving instance Encodable for ArtifactKey, BlobKey, RelativePath, InputRef, Stage, CensusRow,
  SealPayload, Decoder, DecodeEnvironment, Payload, Envelope, ManifestEntry, BlobEntry

/-- A name no other value of the type has: its code, written out in strokes. -/
def strokes {α : Type} [Encodable α] (value : α) : String :=
  String.ofList (List.replicate (Encodable.encode value) 'x')

theorem strokes_injective {α : Type} [Encodable α] : Function.Injective (strokes : α → String) := by
  intro first second same
  have lengths := congrArg (fun text : String => text.toList.length) same
  simpa [strokes] using lengths

/-- A hashing without collisions. -/
def numbered : Hashing where
  bytes := strokes
  envelope := strokes
  artifacts := strokes
  blobs := strokes
  attemptId subject operation ordinal := strokes (subject, operation, ordinal)
  artifactId stage kind subject attempt := strokes (stage, kind, subject, attempt)

theorem numbered_injective : numbered.Injective where
  bytes := strokes_injective
  envelope := strokes_injective
  artifacts := strokes_injective
  blobs := strokes_injective
  attemptId subject operation first second same := by
    have equal := strokes_injective same
    simpa using equal
  artifactId first second same := strokes_injective same

end Verbatus.RunTree
