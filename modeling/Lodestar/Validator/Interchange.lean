import Mathlib.Data.List.TakeWhile
import Lodestar.Lib.Fallible
import Lodestar.Lib.Numerals
import Lodestar.Validator.SlashingProtection
/-!
# Interchange — the slashing protection data as a file, out and in

The two formats write the same fields, numbers as decimal text and bytes as hexadecimal text, and a root that is zero not at
all.  Hexadecimal text is another package's: `HexCodec` is what it does, and that it reads back what it wrote.

`exportInterchange` and `importInterchange` are the database side; `parseInterchange_serializeInterchange` is the round trip of
the text.
-/
namespace Lodestar.Validator

open Async Lib

/-! ## The data -/

structure ValidatorRecords where
  pubkey : BLSPubkey
  signedBlocks : List SlashingProtectionBlock
  signedAttestations : List SlashingProtectionAttestation
deriving DecidableEq

structure IInterchangeLodestar where
  genesisValidatorsRoot : Root
  data : List ValidatorRecords
deriving DecidableEq

structure InterchangeBlock where
  slot : String
  signingRoot : Option String
deriving DecidableEq

structure InterchangeAttestation where
  sourceEpoch : String
  targetEpoch : String
  signingRoot : Option String
deriving DecidableEq

structure InterchangeValidator where
  pubkey : String
  signedBlocks : List InterchangeBlock
  signedAttestations : List InterchangeAttestation
deriving DecidableEq

structure Interchange where
  interchangeFormat : Option String
  interchangeFormatVersion : String
  genesisValidatorsRoot : String
  data : List InterchangeValidator
deriving DecidableEq

structure InterchangeFormatVersion where
  format : Option String
  version : String
deriving DecidableEq

inductive InterchangeErrorErrorType
  | UNSUPPORTED_FORMAT (format : String)
  | UNSUPPORTED_VERSION (version : String)
  | GENESIS_VALIDATOR_MISMATCH (root extectedRoot : Root)
deriving DecidableEq

/-- What parsing throws.  `number` is a text that is no number: the source goes on with `NaN`, and throws when the record is
stored. -/
inductive InterchangeThrown
  | interchange (err : InterchangeErrorErrorType)
  | hex (err : String)
  | number (text : String)
deriving DecidableEq

/-! ## Text -/

/-- `parseInt(text, 10)`, `none` for `NaN`; a negative number is no slot or epoch. -/
def parseInt (text : String) : Option Nat :=
  let text := text.toList.dropWhile Char.isWhitespace
  let unsigned := match text with
    | '+' :: rest => rest
    | text => text
  let digits := unsigned.takeWhile Char.isDigit
  if digits.isEmpty then none else some (Nat.ofDigitChars 10 digits 0)

def numToString (num : Nat) : String := Nat.repr num

def isFalsy (text : Option String) : Bool := text.all (· == "")

section Codec

variable (codec : HexCodec)

def fromHex (n : Nat) (hex : String) : Except InterchangeThrown (Vector UInt8 n) := (codec.fromHexString n hex).mapError .hex

def fromOptionalHexString (hex : Option String) : Except InterchangeThrown Root :=
  if isFalsy hex then .ok zeroRoot else fromHex codec 32 (hex.getD "")

def toOptionalHexString (root : Root) : Option String :=
  if root = zeroRoot then none else some (codec.toHexString root.toList)

def parseNumber (text : String) : Except InterchangeThrown Nat := (parseInt text).elim (.error (.number text)) .ok

/-! ## The formats -/

def serializeBlock (block : SlashingProtectionBlock) : InterchangeBlock :=
  { slot := numToString block.slot, signingRoot := toOptionalHexString codec block.signingRoot }

def serializeAttestation (att : SlashingProtectionAttestation) : InterchangeAttestation :=
  { sourceEpoch := numToString att.sourceEpoch
    targetEpoch := numToString att.targetEpoch
    signingRoot := toOptionalHexString codec att.signingRoot }

def serializeValidator (validator : ValidatorRecords) : InterchangeValidator :=
  { pubkey := codec.toHexString validator.pubkey.toList
    signedBlocks := validator.signedBlocks.map (serializeBlock codec)
    signedAttestations := validator.signedAttestations.map (serializeAttestation codec) }

def serializeWith (format : Option String) (version : String) (interchange : IInterchangeLodestar) : Interchange :=
  { interchangeFormat := format
    interchangeFormatVersion := version
    genesisValidatorsRoot := codec.toHexString interchange.genesisValidatorsRoot.toList
    data := interchange.data.map (serializeValidator codec) }

def serializeInterchangeCompleteV4 : IInterchangeLodestar → Interchange := serializeWith codec (some "complete") "4"

def serializeInterchangeV5 : IInterchangeLodestar → Interchange := serializeWith codec none "5"

def parseBlock (block : InterchangeBlock) : Except InterchangeThrown SlashingProtectionBlock := do
  let slot ← parseNumber block.slot
  let signingRoot ← fromOptionalHexString codec block.signingRoot
  pure { slot, signingRoot }

def parseAttestation (att : InterchangeAttestation) : Except InterchangeThrown SlashingProtectionAttestation := do
  let sourceEpoch ← parseNumber att.sourceEpoch
  let targetEpoch ← parseNumber att.targetEpoch
  let signingRoot ← fromOptionalHexString codec att.signingRoot
  pure { sourceEpoch, targetEpoch, signingRoot }

def parseValidator (validator : InterchangeValidator) : Except InterchangeThrown ValidatorRecords := do
  let pubkey ← fromHex codec 48 validator.pubkey
  let signedBlocks ← validator.signedBlocks.mapM (parseBlock codec)
  let signedAttestations ← validator.signedAttestations.mapM (parseAttestation codec)
  pure { pubkey, signedBlocks, signedAttestations }

def parseWith (interchange : Interchange) : Except InterchangeThrown IInterchangeLodestar := do
  let genesisValidatorsRoot ← fromHex codec 32 interchange.genesisValidatorsRoot
  let data ← interchange.data.mapM (parseValidator codec)
  pure { genesisValidatorsRoot, data }

def parseInterchangeCompleteV4 : Interchange → Except InterchangeThrown IInterchangeLodestar := parseWith codec

def parseInterchangeV5 : Interchange → Except InterchangeThrown IInterchangeLodestar := parseWith codec

def checkGenesisValidatorsRoot (interchangeLodestar : IInterchangeLodestar) (expectedGenesisValidatorsRoot : Root) :
    Except InterchangeThrown IInterchangeLodestar :=
  if interchangeLodestar.genesisValidatorsRoot ≠ expectedGenesisValidatorsRoot then
    .error (.interchange (.GENESIS_VALIDATOR_MISMATCH interchangeLodestar.genesisValidatorsRoot expectedGenesisValidatorsRoot))
  else .ok interchangeLodestar

def parseInterchange (interchange : Interchange) (expectedGenesisValidatorsRoot : Root) :
    Except InterchangeThrown IInterchangeLodestar :=
  let format := interchange.interchangeFormat
  let version := interchange.interchangeFormatVersion
  if isFalsy format then
    -- version >= v5.0.0
    if version = "5" then do
      let interchangeLodestar ← parseInterchangeV5 codec interchange
      checkGenesisValidatorsRoot interchangeLodestar expectedGenesisValidatorsRoot
    else .error (.interchange (.UNSUPPORTED_VERSION version))
  else if format = some "complete" then
    if version = "4" then do
      let interchangeLodestar ← parseInterchangeCompleteV4 codec interchange
      checkGenesisValidatorsRoot interchangeLodestar expectedGenesisValidatorsRoot
    else .error (.interchange (.UNSUPPORTED_VERSION version))
  else .error (.interchange (.UNSUPPORTED_FORMAT (format.getD "")))

def serializeInterchange (interchangeLodestar : IInterchangeLodestar) (formatVersion : InterchangeFormatVersion) :
    Except InterchangeErrorErrorType Interchange :=
  if isFalsy formatVersion.format then
    if formatVersion.version = "5" then .ok (serializeInterchangeV5 codec interchangeLodestar)
    else .error (.UNSUPPORTED_VERSION formatVersion.version)
  else if formatVersion.format = some "complete" then
    if formatVersion.version = "4" then .ok (serializeInterchangeCompleteV4 codec interchangeLodestar)
    else .error (.UNSUPPORTED_VERSION formatVersion.version)
  else .error (.UNSUPPORTED_FORMAT (formatVersion.format.getD ""))

/-! ## The database side -/

def exportBlocks (pubkey : BLSPubkey) : SP (List SlashingProtectionBlock) := Prog.call (DbOp.blockGetAll pubkey none)

def exportAttestations (pubkey : BLSPubkey) : SP (List SlashingProtectionAttestation) :=
  Prog.call (DbOp.attestationGetAll pubkey none)

def exportData : List BLSPubkey → SP (List ValidatorRecords)
  | [] => pure []
  | pubkey :: pubkeys => do
    let signedBlocks ← exportBlocks pubkey
    let signedAttestations ← exportAttestations pubkey
    let validatorData ← exportData pubkeys
    pure ({ pubkey, signedBlocks, signedAttestations } :: validatorData)

def exportInterchange (genesisValidatorsRoot : Root) (pubkeys : List BLSPubkey) (formatVersion : InterchangeFormatVersion) :
    SP (Except InterchangeErrorErrorType Interchange) := do
  let data ← exportData pubkeys
  pure (serializeInterchange codec { genesisValidatorsRoot, data } formatVersion)

def importData : List ValidatorRecords → SP Unit
  | [] => pure ()
  | validator :: data => do
    importBlocks validator.pubkey validator.signedBlocks
    importAttestations {} validator.pubkey validator.signedAttestations
    importData data

def importInterchange (interchange : Interchange) (genesisValidatorsRoot : Root) : Except InterchangeThrown (SP Unit) :=
  (parseInterchange codec interchange genesisValidatorsRoot).map fun parsed => importData parsed.data

end Codec

def writeBlocks (db : Db) (pubkey : BLSPubkey) (blocks : List SlashingProtectionBlock) : Db :=
  { db with blockBySlot := Function.update db.blockBySlot pubkey ((db.blockBySlot pubkey).insertMany blocks) }

theorem importBlocks_run (pubkey : BLSPubkey) (blocks : List SlashingProtectionBlock) (db : Db) :
    (importBlocks pubkey blocks).on db = (.ok (), writeBlocks db pubkey blocks) := rfl

/-! ## The round trip of the text -/

theorem parseInt_numToString (num : Nat) : parseInt (numToString num) = some num := by
  have hdigits : ∀ c ∈ Nat.toDigits 10 num, c.isDigit = true := fun c hc =>
    Nat.isDigit_of_mem_toDigits (by decide) (by decide) hc
  obtain ⟨c, cs, heq⟩ := List.exists_cons_of_ne_nil (Nat.toDigits_ne_nil (n := num) (b := 10))
  have hc : c.isDigit = true := hdigits c (heq ▸ List.mem_cons_self)
  have hspace : c.isWhitespace = false := by
    by_contra hspace
    rw [Bool.not_eq_false] at hspace
    unfold Char.isWhitespace at hspace
    simp only [Bool.or_eq_true, decide_eq_true_eq] at hspace
    rcases hspace with ((rfl | rfl) | rfl) | rfl
    · exact absurd hc (by decide)
    · exact absurd hc (by decide)
    · exact absurd hc (by decide)
    · exact absurd hc (by decide)
  have hplus : c ≠ '+' := by
    rintro rfl
    exact absurd hc (by decide)
  have htake : (c :: cs).takeWhile Char.isDigit = c :: cs := by
    rw [List.takeWhile_eq_self_iff, ← heq]
    exact hdigits
  have hdrop : (c :: cs).dropWhile Char.isWhitespace = c :: cs := by
    rw [List.dropWhile_cons, hspace, if_neg Bool.false_ne_true]
  unfold parseInt numToString
  rw [Nat.toList_repr, heq, hdrop]
  dsimp only
  split
  · rename_i hcons
    cases hcons
    exact absurd rfl hplus
  · rw [htake, ← heq, Nat.ofDigitChars_ten_toDigits, heq]
    rfl

section RoundTrip

variable {codec : HexCodec}

theorem parseNumber_numToString (num : Nat) : parseNumber (numToString num) = .ok num := by
  unfold parseNumber
  rw [parseInt_numToString]
  rfl

theorem fromHex_toHexString {n : Nat} (bytes : Vector UInt8 n) :
    fromHex codec n (codec.toHexString bytes.toList) = .ok bytes := by
  unfold fromHex
  rw [codec.fromHexString_toHexString]
  rfl

theorem fromOptionalHexString_toOptionalHexString (root : Root) :
    fromOptionalHexString codec (toOptionalHexString codec root) = .ok root := by
  unfold toOptionalHexString
  split
  · rename_i hzero
    rw [hzero]
    rfl
  · have hne : isFalsy (some (codec.toHexString root.toList)) = false := by
      simp [isFalsy, codec.toHexString_ne_empty root.toList]
    unfold fromOptionalHexString
    rw [hne, if_neg Bool.false_ne_true]
    exact fromHex_toHexString root

theorem parseBlock_serializeBlock (block : SlashingProtectionBlock) :
    parseBlock codec (serializeBlock codec block) = .ok block := by
  unfold parseBlock serializeBlock
  rw [parseNumber_numToString, fromOptionalHexString_toOptionalHexString]
  rfl

theorem parseAttestation_serializeAttestation (att : SlashingProtectionAttestation) :
    parseAttestation codec (serializeAttestation codec att) = .ok att := by
  unfold parseAttestation serializeAttestation
  rw [parseNumber_numToString, parseNumber_numToString, fromOptionalHexString_toOptionalHexString]
  rfl

theorem parseValidator_serializeValidator (validator : ValidatorRecords) :
    parseValidator codec (serializeValidator codec validator) = .ok validator := by
  unfold parseValidator serializeValidator
  rw [fromHex_toHexString, mapM_map _ fun block _ => parseBlock_serializeBlock block,
    mapM_map _ fun att _ => parseAttestation_serializeAttestation att]
  rfl

theorem parseWith_serializeWith (format : Option String) (version : String) (x : IInterchangeLodestar) :
    parseWith codec (serializeWith codec format version x) = .ok x := by
  unfold parseWith serializeWith
  rw [fromHex_toHexString, mapM_map _ fun validator _ => parseValidator_serializeValidator validator]
  rfl

def completeV4 : InterchangeFormatVersion := { format := some "complete", version := "4" }

def v5 : InterchangeFormatVersion := { format := none, version := "5" }

theorem parseInterchange_serializeInterchange {formatVersion : InterchangeFormatVersion}
    (h : formatVersion = completeV4 ∨ formatVersion = v5) (x : IInterchangeLodestar) :
    ∃ interchange, serializeInterchange codec x formatVersion = .ok interchange ∧
      parseInterchange codec interchange x.genesisValidatorsRoot = .ok x := by
  have hroot : checkGenesisValidatorsRoot x x.genesisValidatorsRoot = .ok x := if_neg (not_not.2 rfl)
  rcases h with rfl | rfl
  · refine ⟨serializeInterchangeCompleteV4 codec x, rfl, ?_⟩
    show (parseWith codec (serializeWith codec (some "complete") "4" x) >>= fun parsed =>
      checkGenesisValidatorsRoot parsed x.genesisValidatorsRoot) = _
    rw [parseWith_serializeWith]
    exact hroot
  · refine ⟨serializeInterchangeV5 codec x, rfl, ?_⟩
    show (parseWith codec (serializeWith codec none "5" x) >>= fun parsed =>
      checkGenesisValidatorsRoot parsed x.genesisValidatorsRoot) = _
    rw [parseWith_serializeWith]
    exact hroot

end RoundTrip

end Lodestar.Validator
