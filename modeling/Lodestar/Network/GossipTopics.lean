import Lodestar.Network.Network
import Lodestar.ReqResp.RoundTrip
import Lodestar.Util.Number
/-!
# GossipTopics — the texts of gossip topics

A topic is written `/eth2/$FORK_DIGEST/$GOSSIP_TYPE/$ENCODING`, the number of a subnet behind the name of its type.  The reader is
an expression that does not mind what follows, a look at the front of the type, and `parseInt`.

The reader takes more texts than are written, so a text that is read need not be written again: `stringifyGossipTopic_parse_iff`.
-/
namespace Lodestar.Network.Gossip

open Lib StateTransition ReqResp Util

/-! ## Topics -/

inductive GossipEncoding
  | ssz_snappy
deriving DecidableEq, Repr

def DEFAULT_ENCODING : GossipEncoding := .ssz_snappy

inductive SubnetType
  | beacon_attestation
  | sync_committee
deriving DecidableEq, Repr

def encodingText : GossipEncoding → List Char
  | .ssz_snappy => "ssz_snappy".toList

def coreText : CoreType → List Char
  | .beacon_block => "beacon_block".toList
  | .beacon_aggregate_and_proof => "beacon_aggregate_and_proof".toList
  | .voluntary_exit => "voluntary_exit".toList
  | .proposer_slashing => "proposer_slashing".toList
  | .attester_slashing => "attester_slashing".toList
  | .sync_committee_contribution_and_proof => "sync_committee_contribution_and_proof".toList

def subnetText : SubnetType → List Char
  | .beacon_attestation => "beacon_attestation".toList
  | .sync_committee => "sync_committee".toList

/-- `GossipTopicTypeMap`. -/
inductive TopicType
  | core (type : CoreType)
  | subnet (type : SubnetType) (subnet : Number)
deriving DecidableEq

structure GossipTopic where
  type : TopicType
  fork : ForkName
  encoding : Option GossipEncoding
deriving DecidableEq

/-! ## Writing -/

def toHexStringNoPrefix (forkDigest : ForkDigest) : List Char := (Hex.ofBytes forkDigest.toList).toList.drop 2

def stringifyGossipTopicType : TopicType → List Char
  | .core type => coreText type
  | .subnet type subnet => subnetText type ++ '_' :: subnet.text

section

variable (context : ForkDigestContext)

def stringifyGossipTopic (topic : GossipTopic) : Except Failure String := do
  let forkDigest ← forkName2ForkDigest context topic.fork
  let topicType := stringifyGossipTopicType topic.type
  let encoding := encodingText (topic.encoding.getD DEFAULT_ENCODING)
  return String.ofList ("/eth2/".toList ++ toHexStringNoPrefix forkDigest ++ '/' :: topicType ++ '/' :: encoding)

/-! ## Reading -/

def isWord (c : Char) : Bool := c.isAlphanum || c == '_'

/-- `(\w+)/`: the run of word characters, if it is not empty and a slash follows, and what is behind. -/
def wordSlash (chars : List Char) : Option (List Char × List Char) :=
  match chars.takeWhile isWord, chars.dropWhile isWord with
  | c :: word, '/' :: rest => some (c :: word, rest)
  | _, _ => none

/-- What the expression captures, and what it does not look at. -/
structure TopicMatch where
  forkDigestHexNoPrefix : List Char
  gossipTypeStr : List Char
  encodingStr : List Char
  rest : List Char

/-- `topicStr.match(gossipTopicRegex)`. -/
def matchTopic : List Char → Option TopicMatch
  | '/' :: 'e' :: 't' :: 'h' :: '2' :: '/' :: chars => do
    let (forkDigestHexNoPrefix, chars) ← wordSlash chars
    let (gossipTypeStr, chars) ← wordSlash chars
    let encodingStr := chars.takeWhile isWord
    if encodingStr.isEmpty then none else some ⟨forkDigestHexNoPrefix, gossipTypeStr, encodingStr, chars.dropWhile isWord⟩
  | _ => none

def strip0xPrefix : List Char → List Char
  | '0' :: 'x' :: hex => hex
  | hex => hex

def forkDigestHex2ForkName (forkDigest : List Char) : Except String ForkName :=
  let forkDigestHex := strip0xPrefix forkDigest
  match context.forkNameByForkDigest.entries.find? fun entry => decide (toHexStringNoPrefix entry.1 = forkDigestHex) with
  | some entry => .ok entry.2
  | none => .error ("Unknwon forkDigest " ++ String.ofList forkDigestHex)

def parseEncodingStr (encodingStr : List Char) : Except String GossipEncoding :=
  if encodingStr = encodingText .ssz_snappy then .ok .ssz_snappy
  else .error ("Unknown encoding " ++ String.ofList encodingStr)

def coreTypesInOrder : List CoreType :=
  [.beacon_block, .beacon_aggregate_and_proof, .voluntary_exit, .proposer_slashing, .attester_slashing,
    .sync_committee_contribution_and_proof]

/-- The type: one of the names alone, or one that starts with the name of a type with a subnet. -/
def parseGossipTopicType (gossipTypeStr : List Char) : Except String TopicType :=
  match coreTypesInOrder.find? fun type => decide (coreText type = gossipTypeStr) with
  | some type => .ok (.core type)
  | none =>
    match [SubnetType.beacon_attestation, .sync_committee].find? fun type => (subnetText type).isPrefixOf gossipTypeStr with
    | some type =>
      -- one more for the underscore between the name and the subnet
      let subnetStr := gossipTypeStr.drop ((subnetText type).length + 1)
      match parseInt subnetStr with
      | none => .error ("Subnet " ++ String.ofList subnetStr ++ " is not a number")
      | some subnet => .ok (.subnet type subnet)
    | none => .error ("Unknown gossip type " ++ String.ofList gossipTypeStr)

def parseGossipTopic (topicStr : String) : Except String GossipTopic :=
  let parsed : Except String GossipTopic := do
    match matchTopic topicStr.toList with
    | none => .error "Must match regex /^\\/eth2\\/(\\w+)\\/(\\w+)\\/(\\w+)/"
    | some found =>
      let fork ← forkDigestHex2ForkName context found.forkDigestHexNoPrefix
      let encoding ← parseEncodingStr found.encodingStr
      let type ← parseGossipTopicType found.gossipTypeStr
      return { type, fork, encoding := some encoding }
  parsed.mapError fun message => "Invalid gossip topic " ++ topicStr ++ ": " ++ message

end

/-! ## Words and slashes -/

def Word (text : List Char) : Prop := text ≠ [] ∧ ∀ c ∈ text, isWord c = true

variable {word : List Char}

theorem slash_notMem (h : Word word) : '/' ∉ word := fun hmem => absurd (h.2 _ hmem) (by decide)

theorem takeWhile_word (h : Word word) (rest : List Char) :
    (word ++ rest).takeWhile isWord = word ++ rest.takeWhile isWord :=
  List.takeWhile_append_of_pos h.2

theorem dropWhile_word (h : Word word) (rest : List Char) : (word ++ rest).dropWhile isWord = rest.dropWhile isWord :=
  List.dropWhile_append_of_pos h.2

variable {chars : List Char}

theorem word_takeWhile (h : chars.takeWhile isWord ≠ []) : Word (chars.takeWhile isWord) :=
  ⟨h, fun _ hc => List.mem_takeWhile_imp hc⟩

theorem wordSlash_append (h : Word word) (rest : List Char) :
    wordSlash (word ++ '/' :: rest) = some (word, rest) := by
  have hstop : isWord '/' = false := by decide
  unfold wordSlash
  rw [takeWhile_word h, dropWhile_word h, List.takeWhile_cons_of_neg (by simp [hstop]), List.append_nil,
    List.dropWhile_cons_of_neg (by simp [hstop])]
  cases word with
  | nil => exact absurd rfl h.1
  | cons c word => rfl

theorem wordSlash_eq_some {chars word rest : List Char} (h : wordSlash chars = some (word, rest)) :
    Word word ∧ chars = word ++ '/' :: rest := by
  unfold wordSlash at h
  split at h
  · rename_i c text behind htake hdrop
    cases h
    refine ⟨?_, ?_⟩
    · rw [← htake]
      exact word_takeWhile (by rw [htake]; exact List.cons_ne_nil _ _)
    · rw [← htake, ← hdrop, List.takeWhile_append_dropWhile]
  · cases h

def TopicMatch.text (found : TopicMatch) : List Char :=
  "/eth2/".toList ++ found.forkDigestHexNoPrefix ++ '/' :: found.gossipTypeStr ++ '/' :: found.encodingStr ++ found.rest

variable {found : TopicMatch}

theorem matchTopic_text (hdigest : Word found.forkDigestHexNoPrefix) (htype : Word found.gossipTypeStr)
    (hencoding : Word found.encodingStr) (hrest : found.rest.takeWhile isWord = []) : matchTopic found.text = some found := by
  have htake := takeWhile_word hencoding found.rest
  have hdrop := dropWhile_word hencoding found.rest
  rw [hrest, List.append_nil] at htake
  rw [← List.nil_append (found.rest.dropWhile isWord), ← hrest, List.takeWhile_append_dropWhile] at hdrop
  have htext : found.text = '/' :: 'e' :: 't' :: 'h' :: '2' :: '/' :: (found.forkDigestHexNoPrefix ++
      '/' :: (found.gossipTypeStr ++ '/' :: (found.encodingStr ++ found.rest))) := by
    unfold TopicMatch.text
    simp
  rw [htext]
  unfold matchTopic
  simp only [wordSlash_append hdigest, wordSlash_append htype, Option.bind_eq_bind, Option.bind_some, htake, hdrop]
  rw [if_neg (by simpa using hencoding.1)]

theorem matchTopic_eq_some (h : matchTopic chars = some found) :
    Word found.forkDigestHexNoPrefix ∧ Word found.gossipTypeStr ∧ Word found.encodingStr ∧ chars = found.text := by
  unfold matchTopic at h
  split at h
  · obtain ⟨⟨digest, chars'⟩, hdigest, htail⟩ := Option.bind_eq_some_iff.1 h
    obtain ⟨⟨type, chars''⟩, htype, hencoding⟩ := Option.bind_eq_some_iff.1 htail
    obtain ⟨hdigestWord, rfl⟩ := wordSlash_eq_some hdigest
    obtain ⟨htypeWord, rfl⟩ := wordSlash_eq_some htype
    dsimp only at hencoding
    split at hencoding
    · cases hencoding
    · rename_i hne
      cases hencoding
      refine ⟨hdigestWord, htypeWord, word_takeWhile (by simpa using hne), ?_⟩
      unfold TopicMatch.text
      simp
  · cases h

/-! ## Digests -/

theorem toHexStringNoPrefix_eq (forkDigest : ForkDigest) : toHexStringNoPrefix forkDigest = forkDigest.toList.flatMap Hex.ofByte := by
  unfold toHexStringNoPrefix Hex.ofBytes
  rw [String.toList_ofList]
  rfl

variable {forkDigest forkDigest' : ForkDigest}

theorem toHexStringNoPrefix_inj (h : toHexStringNoPrefix forkDigest = toHexStringNoPrefix forkDigest')
    : forkDigest = forkDigest' := by
  rw [toHexStringNoPrefix_eq, toHexStringNoPrefix_eq] at h
  refine Vector.toList_inj.1 (Hex.ofBytes_inj ?_)
  unfold Hex.ofBytes
  rw [h]

theorem length_toHexStringNoPrefix (forkDigest : ForkDigest) : (toHexStringNoPrefix forkDigest).length = 8 := by
  unfold toHexStringNoPrefix
  rw [List.length_drop, Hex.length_ofBytes, Vector.length_toList]

theorem digit_isWord {n : Nat} (h : n < 16) : isWord (Hex.digit n) = true ∧ Hex.digit n ≠ 'x' := by
  interval_cases n <;> decide

theorem mem_toHexStringNoPrefix {c : Char} (h : c ∈ toHexStringNoPrefix forkDigest) :
    isWord c = true ∧ c ≠ 'x' := by
  rw [toHexStringNoPrefix_eq] at h
  obtain ⟨byte, -, hc⟩ := List.mem_flatMap.1 h
  have hbyte : byte.toNat < 256 := byte.toNat_lt
  rcases List.mem_pair.1 hc with rfl | rfl
  · exact digit_isWord (by omega)
  · exact digit_isWord (by omega)

theorem word_toHexStringNoPrefix (forkDigest : ForkDigest) : Word (toHexStringNoPrefix forkDigest) := by
  refine ⟨?_, fun c hc => (mem_toHexStringNoPrefix hc).1⟩
  rw [← List.length_pos_iff, length_toHexStringNoPrefix]
  decide

theorem strip0xPrefix_eq_self {hex : List Char} (h : 'x' ∉ hex) : strip0xPrefix hex = hex := by
  unfold strip0xPrefix
  split
  · exact absurd (List.mem_cons_of_mem _ List.mem_cons_self) h
  · rfl

variable {context : ForkDigestContext} {text : List Char}

theorem forkDigestHex2ForkName_eq_ok {fork : ForkName} :
    forkDigestHex2ForkName context text = .ok fork ↔
      ∃ forkDigest, strip0xPrefix text = toHexStringNoPrefix forkDigest ∧
        context.forkNameByForkDigest.get? forkDigest = some fork := by
  unfold forkDigestHex2ForkName
  dsimp only
  constructor
  · intro h
    split at h
    · rename_i entry hfind
      cases h
      exact ⟨entry.1, (by simpa using List.find?_some hfind : toHexStringNoPrefix entry.1 = _).symm,
        OrderedMap.get?_eq_some_iff.2 (List.mem_of_find?_eq_some hfind)⟩
    · cases h
  · rintro ⟨forkDigest, htext, hget⟩
    have hmem := OrderedMap.get?_eq_some_iff.1 hget
    split
    · rename_i entry hfind
      have hhex : toHexStringNoPrefix entry.1 = strip0xPrefix text := by simpa using List.find?_some hfind
      have hdigest : entry.1 = forkDigest := toHexStringNoPrefix_inj (hhex.trans htext)
      have hentry := OrderedMap.get?_eq_some_iff.2 (List.mem_of_find?_eq_some hfind)
      rw [hdigest, hget, Option.some.injEq] at hentry
      rw [hentry]
    · rename_i hnone
      exact absurd (List.find?_eq_none.1 hnone _ hmem) (by simp [htext])

section Context
variable {computeForkDigest : Version → Root → ForkDigest} {config : ChainConfig} {genesisForkVersion : Version} {root : Root}

variable {forkDigest : ForkDigest} {fork : ForkName}

theorem forkName2ForkDigest_of_get?
    (h : (contextOf computeForkDigest config genesisForkVersion root).forkNameByForkDigest.get? forkDigest = some fork) :
    forkName2ForkDigest (contextOf computeForkDigest config genesisForkVersion root) fork = .ok forkDigest := by
  rw [forkName2ForkDigest_contextOf]
  simp only [contextOf, ForkDigestContext.new, configForks, List.foldl_cons, List.foldl_nil, OrderedMap.get?_set] at h
  split at h
  · rename_i heq
    cases h
    rw [heq]
  · split at h
    · rename_i heq
      cases h
      rw [heq]
    · cases h

theorem get?_of_forkName2ForkDigest (hdiffer : DigestsDiffer computeForkDigest config genesisForkVersion root)
    (h : forkName2ForkDigest (contextOf computeForkDigest config genesisForkVersion root) fork = .ok forkDigest) :
    (contextOf computeForkDigest config genesisForkVersion root).forkNameByForkDigest.get? forkDigest = some fork := by
  unfold DigestsDiffer at hdiffer
  cases fork with
  | phase0 =>
    cases h
    simp [contextOf, ForkDigestContext.new, configForks, OrderedMap.get?_set, hdiffer]
  | altair =>
    cases h
    simp [contextOf, ForkDigestContext.new, configForks, OrderedMap.get?_set]

end Context

/-! ## Types -/

theorem word_of_all (hne : text ≠ []) (hall : text.all isWord = true) : Word text :=
  ⟨hne, List.all_eq_true.1 hall⟩

theorem word_coreText (type : CoreType) : Word (coreText type) := by
  cases type <;> exact word_of_all (by decide) (by decide)

theorem isDigit_of_mem_coreText {type : CoreType} {c : Char} (h : c ∈ coreText type) : c.isDigit = false := by
  have hall : (coreText type).all (fun c => !c.isDigit) = true := by cases type <;> decide
  simpa using List.all_eq_true.1 hall c h

theorem word_subnetText (type : SubnetType) : Word (subnetText type) := by
  cases type <;> exact word_of_all (by decide) (by decide)

theorem word_encodingText (encoding : GossipEncoding) : Word (encodingText encoding) := by
  cases encoding
  exact word_of_all (by decide) (by decide)

theorem find?_core_eq_some {type : CoreType} :
    coreTypesInOrder.find? (fun type => decide (coreText type = text)) = some type ↔ coreText type = text := by
  constructor
  · intro h
    simpa using List.find?_some h
  · rintro rfl
    cases type <;> decide

theorem find?_core_eq_none :
    coreTypesInOrder.find? (fun type => decide (coreText type = text)) = none ↔ ∀ type, coreText type ≠ text := by
  constructor
  · intro h type htext
    rw [find?_core_eq_some.2 htext] at h
    cases h
  · intro h
    exact List.find?_eq_none.2 fun type _ => by simpa using h type

theorem find?_subnet_eq_some {type : SubnetType} :
    [SubnetType.beacon_attestation, .sync_committee].find? (fun type => (subnetText type).isPrefixOf text) = some type ↔
      subnetText type <+: text := by
  constructor
  · intro h
    exact List.isPrefixOf_iff_prefix.1 (by simpa using List.find?_some h)
  · rintro ⟨tail, rfl⟩
    cases type
    · rfl
    · rfl

variable {type : TopicType}

theorem parseGossipTopicType_eq_ok :
    parseGossipTopicType text = .ok type ↔
      (∃ core, text = coreText core ∧ type = .core core) ∨
      (∀ core, coreText core ≠ text) ∧ ∃ subnetType subnet, subnetText subnetType <+: text ∧
        parseInt (text.drop ((subnetText subnetType).length + 1)) = some subnet ∧ type = .subnet subnetType subnet := by
  unfold parseGossipTopicType
  constructor
  · intro h
    split at h
    · rename_i core hfind
      cases h
      exact .inl ⟨core, (find?_core_eq_some.1 hfind).symm, rfl⟩
    · rename_i hnone
      refine .inr ⟨find?_core_eq_none.1 hnone, ?_⟩
      split at h
      · rename_i subnetType hfind
        dsimp only at h
        split at h
        · cases h
        · rename_i subnet hsubnet
          cases h
          exact ⟨subnetType, subnet, find?_subnet_eq_some.1 hfind, hsubnet, rfl⟩
      · cases h
  · rintro (⟨core, rfl, rfl⟩ | ⟨hnone, subnetType, subnet, hprefix, hsubnet, rfl⟩)
    · rw [find?_core_eq_some.2 rfl]
    · rw [find?_core_eq_none.2 hnone]
      rw [find?_subnet_eq_some.2 hprefix]
      dsimp only
      rw [hsubnet]

def TopicType.Plain : TopicType → Prop
  | .core _ => True
  | .subnet _ number => number.Plain

theorem drop_subnetText (type : SubnetType) (c : Char) (tail : List Char) :
    (subnetText type ++ c :: tail).drop ((subnetText type).length + 1) = tail := by
  rw [List.drop_append, List.drop_eq_nil_of_le (Nat.le_succ _), Nat.add_sub_cancel_left]
  rfl

theorem parseGossipTopicType_stringify (h : type.Plain) :
    parseGossipTopicType (stringifyGossipTopicType type) = .ok type := by
  rw [parseGossipTopicType_eq_ok]
  cases type with
  | core core => exact .inl ⟨core, rfl, rfl⟩
  | subnet type subnet =>
    refine .inr ⟨fun core heq => ?_, type, subnet, List.prefix_append _ _, ?_, rfl⟩
    · -- no name has a digit
      have hsubnet : subnet.Plain := h
      obtain ⟨c, hc⟩ := List.exists_mem_of_ne_nil _ (text_ne_nil hsubnet)
      have hmem : c ∈ coreText core := by
        rw [heq]
        exact List.mem_append_right _ (List.mem_cons_of_mem _ hc)
      exact absurd (isDigit_of_mem_text hsubnet hc) (by simp [isDigit_of_mem_coreText hmem])
    · show parseInt ((subnetText type ++ '_' :: subnet.text).drop _) = _
      rw [drop_subnetText, parseInt_text (show subnet.Plain from h)]

theorem word_stringifyGossipTopicType (h : type.Plain) : Word (stringifyGossipTopicType type) := by
  cases type with
  | core core => exact word_coreText core
  | subnet type subnet =>
    refine ⟨by simp [stringifyGossipTopicType], fun c hc => ?_⟩
    rcases List.mem_append.1 hc with hc | hc
    · exact (word_subnetText type).2 c hc
    · rcases List.mem_cons.1 hc with rfl | hc
      · decide
      · have hsubnet : subnet.Plain := h
        have hdigit : c.isDigit = true := isDigit_of_mem_text hsubnet hc
        simp [isWord, Char.isAlphanum, hdigit]

/-! ## Topics -/

def GossipTopic.withEncoding (topic : GossipTopic) : GossipTopic :=
  { topic with encoding := some (topic.encoding.getD DEFAULT_ENCODING) }

variable {topic : GossipTopic} {topicStr : String}

theorem stringifyGossipTopic_eq_ok :
    stringifyGossipTopic context topic = .ok topicStr ↔
      ∃ forkDigest, forkName2ForkDigest context topic.fork = .ok forkDigest ∧
        topicStr.toList = TopicMatch.text ⟨toHexStringNoPrefix forkDigest, stringifyGossipTopicType topic.type,
          encodingText (topic.encoding.getD DEFAULT_ENCODING), []⟩ := by
  unfold stringifyGossipTopic TopicMatch.text
  rw [Lib.bind_eq_ok]
  simp only [List.append_nil]
  refine exists_congr fun forkDigest => and_congr_right fun _ => ?_
  constructor
  · intro h
    rw [Lib.pure_eq_ok] at h
    rw [← h, String.toList_ofList]
  · intro h
    rw [← h, String.ofList_toList]
    rfl

theorem parseGossipTopic_eq_ok :
    parseGossipTopic context topicStr = .ok topic ↔
      ∃ found, matchTopic topicStr.toList = some found ∧
        forkDigestHex2ForkName context found.forkDigestHexNoPrefix = .ok topic.fork ∧
        found.encodingStr = encodingText .ssz_snappy ∧
        parseGossipTopicType found.gossipTypeStr = .ok topic.type ∧ topic.encoding = some .ssz_snappy := by
  unfold parseGossipTopic
  rw [Lib.mapError_eq_ok]
  cases hfound : matchTopic topicStr.toList with
  | none => simp
  | some found =>
    simp only [Option.some.injEq, exists_eq_left']
    constructor
    · intro h
      obtain ⟨fork, hfork, hrest⟩ := Lib.bind_eq_ok.1 h
      obtain ⟨encoding, hencoding, hrest⟩ := Lib.bind_eq_ok.1 hrest
      obtain ⟨type, htype, hrest⟩ := Lib.bind_eq_ok.1 hrest
      cases hrest
      unfold parseEncodingStr at hencoding
      split at hencoding
      · rename_i hssz
        cases hencoding
        exact ⟨hfork, hssz, htype, rfl⟩
      · cases hencoding
    · rintro ⟨hfork, hssz, htype, hencoding⟩
      refine Lib.bind_eq_ok.2 ⟨topic.fork, hfork, Lib.bind_eq_ok.2 ⟨.ssz_snappy, ?_, Lib.bind_eq_ok.2 ⟨topic.type, htype, ?_⟩⟩⟩
      · rw [hssz]
        rfl
      · rw [← hencoding]
        rfl

section Context
variable {computeForkDigest : Version → Root → ForkDigest} {config : ChainConfig} {genesisForkVersion : Version} {root : Root}

theorem parseGossipTopic_of_stringify (hdiffer : DigestsDiffer computeForkDigest config genesisForkVersion root)
    {topic : GossipTopic} (hplain : topic.type.Plain) {topicStr : String}
    (h : stringifyGossipTopic (contextOf computeForkDigest config genesisForkVersion root) topic = .ok topicStr) :
    parseGossipTopic (contextOf computeForkDigest config genesisForkVersion root) topicStr = .ok topic.withEncoding := by
  obtain ⟨forkDigest, hdigest, htext⟩ := stringifyGossipTopic_eq_ok.1 h
  refine parseGossipTopic_eq_ok.2 ⟨⟨toHexStringNoPrefix forkDigest, stringifyGossipTopicType topic.type,
    encodingText (topic.encoding.getD DEFAULT_ENCODING), []⟩, ?_, ?_, ?_, parseGossipTopicType_stringify hplain, ?_⟩
  · rw [htext]
    exact matchTopic_text (word_toHexStringNoPrefix forkDigest) (word_stringifyGossipTopicType hplain) (word_encodingText (topic.encoding.getD DEFAULT_ENCODING)) rfl
  · refine forkDigestHex2ForkName_eq_ok.2 ⟨forkDigest, ?_, get?_of_forkName2ForkDigest hdiffer hdigest⟩
    exact strip0xPrefix_eq_self fun hx => (mem_toHexStringNoPrefix hx).2 rfl
  · cases topic.encoding.getD DEFAULT_ENCODING
    rfl
  · show some (topic.encoding.getD DEFAULT_ENCODING) = _
    cases topic.encoding.getD DEFAULT_ENCODING
    rfl

/-- **Every topic is written, and read back with its encoding filled in**, so that two topics are written alike only if they
differ in whether the encoding is named.  A number of a subnet is well below those that are printed with an exponent. -/
theorem parseGossipTopic_stringifyGossipTopic (hdiffer : DigestsDiffer computeForkDigest config genesisForkVersion root) :
    (∀ topic : GossipTopic, topic.type.Plain →
      ∃ topicStr, stringifyGossipTopic (contextOf computeForkDigest config genesisForkVersion root) topic = .ok topicStr ∧
        parseGossipTopic (contextOf computeForkDigest config genesisForkVersion root) topicStr = .ok topic.withEncoding) ∧
    ∀ topic topic' : GossipTopic, topic.type.Plain → topic'.type.Plain →
      stringifyGossipTopic (contextOf computeForkDigest config genesisForkVersion root) topic =
        stringifyGossipTopic (contextOf computeForkDigest config genesisForkVersion root) topic' →
      topic.withEncoding = topic'.withEncoding := by
  have hwritten : ∀ topic : GossipTopic,
      ∃ topicStr, stringifyGossipTopic (contextOf computeForkDigest config genesisForkVersion root) topic = .ok topicStr :=
    fun topic => ⟨_, stringifyGossipTopic_eq_ok.2 ⟨_, forkName2ForkDigest_contextOf topic.fork, String.toList_ofList⟩⟩
  refine ⟨fun topic hplain => ?_, fun topic topic' hplain hplain' heq => ?_⟩
  · obtain ⟨topicStr, h⟩ := hwritten topic
    exact ⟨topicStr, h, parseGossipTopic_of_stringify hdiffer hplain h⟩
  · obtain ⟨topicStr, h⟩ := hwritten topic
    have hread := parseGossipTopic_of_stringify hdiffer hplain h
    rw [parseGossipTopic_of_stringify hdiffer hplain' (heq ▸ h), Except.ok.injEq] at hread
    exact hread.symm

end Context

theorem parseGossipTopic_stringifyGossipTopic_attnet :
    ∃ topicStr,
      stringifyGossipTopic plainContext ⟨.subnet .beacon_attestation (.finite 7), .altair, none⟩ = .ok topicStr ∧
      parseGossipTopic plainContext topicStr = .ok ⟨.subnet .beacon_attestation (.finite 7), .altair, some .ssz_snappy⟩ := by
  have hdiffer : DigestsDiffer (fun version _ => version) forkAtOne minimalForkVersion zeroRoot := by
    unfold DigestsDiffer
    decide
  exact (parseGossipTopic_stringifyGossipTopic hdiffer).1 ⟨.subnet .beacon_attestation (.finite 7), .altair, none⟩
    (plain_of_safe (by decide))

/-! ## The texts that a topic is written as -/

section Canonical

/-- A name alone, or one of the names with a subnet, an underscore and the digits of the subnet. -/
def CanonicalType (text : List Char) : Prop :=
  (∃ core, text = coreText core) ∨ ∃ type digits, CanonicalDigits digits ∧ text = subnetText type ++ '_' :: digits

/-- `/eth2/`, a digest without the mark, a type and the encoding, with a slash between them and nothing behind. -/
def Canonical (topicStr : String) : Prop :=
  ∃ digest type, '/' ∉ digest ∧ ¬ ['0', 'x'] <+: digest ∧ CanonicalType type ∧
    topicStr.toList = "/eth2/".toList ++ digest ++ '/' :: type ++ '/' :: encodingText .ssz_snappy

variable {text : List Char}

theorem slash_notMem_canonicalType (h : CanonicalType text) : '/' ∉ text := by
  rcases h with ⟨core, rfl⟩ | ⟨type, digits, hdigits, rfl⟩
  · exact slash_notMem (word_coreText core)
  · rw [List.mem_append, List.mem_cons, not_or, not_or]
    exact ⟨slash_notMem (word_subnetText type), by decide, fun hmem => absurd (hdigits.isDigit hmem) (by decide)⟩

theorem slash_notMem_stringify (type : TopicType) : '/' ∉ stringifyGossipTopicType type := by
  cases type with
  | core core => exact slash_notMem (word_coreText core)
  | subnet type subnet =>
    unfold stringifyGossipTopicType
    rw [List.mem_append, List.mem_cons, not_or, not_or]
    exact ⟨slash_notMem (word_subnetText type), by decide, slash_notMem_text subnet⟩

theorem stringify_parseGossipTopicType_iff {type : TopicType} (hword : Word text) (h : parseGossipTopicType text = .ok type) :
    stringifyGossipTopicType type = text ↔ CanonicalType text := by
  have hplus : '+' ∉ text := fun hmem => absurd (hword.2 _ hmem) (by decide)
  rcases parseGossipTopicType_eq_ok.1 h with ⟨core, rfl, rfl⟩ | ⟨hnone, type, subnet, hprefix, hsubnet, rfl⟩
  · exact ⟨fun _ => .inl ⟨core, rfl⟩, fun _ => rfl⟩
  · constructor
    · intro hwritten
      have htext : text = subnetText type ++ '_' :: subnet.text := hwritten.symm
      rw [htext, drop_subnetText] at hsubnet
      rw [htext, List.mem_append, List.mem_cons, not_or, not_or] at hplus
      exact .inr ⟨type, subnet.text, (text_eq_iff hsubnet hplus.2.2).1 rfl, htext⟩
    · rintro (⟨core, rfl⟩ | ⟨type', digits, hdigits, rfl⟩)
      · exact absurd rfl (hnone core)
      · have htype : some type = some type' :=
          (find?_subnet_eq_some.2 hprefix).symm.trans (find?_subnet_eq_some.2 (List.prefix_append _ _))
        obtain rfl : type = type' := Option.some.inj htype
        rw [drop_subnetText] at hsubnet
        have hplus' : '+' ∉ digits := fun hmem => absurd (hdigits.isDigit hmem) (by decide)
        show subnetText type ++ '_' :: subnet.text = _
        rw [(text_eq_iff hsubnet hplus').2 hdigits]

theorem cut_inj {α : Type} {a : α} {l l' tail tail' : List α} (hl : a ∉ l) (hl' : a ∉ l') (h : l ++ a :: tail = l' ++ a :: tail') :
    l = l' ∧ tail = tail' := by
  obtain ⟨between, rfl, h⟩ | ⟨between, rfl, h⟩ := List.append_eq_append_iff.1 h <;> cases between <;> simp_all

theorem text_inj {digest digest' type type' tail tail' : List Char} (hdigest : '/' ∉ digest) (hdigest' : '/' ∉ digest')
    (htype : '/' ∉ type) (htype' : '/' ∉ type')
    (h : "/eth2/".toList ++ digest ++ '/' :: type ++ '/' :: tail = "/eth2/".toList ++ digest' ++ '/' :: type' ++ '/' :: tail') :
    digest = digest' ∧ type = type' ∧ tail = tail' := by
  simp only [List.append_assoc, List.cons_append] at h
  obtain ⟨rfl, hrest⟩ := cut_inj hdigest hdigest' (List.append_cancel_left h)
  obtain ⟨rfl, rfl⟩ := cut_inj htype htype' hrest
  exact ⟨rfl, rfl, rfl⟩

theorem strip0xPrefix_of_not_prefix {hex : List Char} (h : ¬ ['0', 'x'] <+: hex) : strip0xPrefix hex = hex := by
  unfold strip0xPrefix
  split
  · exact absurd ⟨_, rfl⟩ h
  · rfl

theorem not_prefix_toHexStringNoPrefix (forkDigest : ForkDigest) : ¬ ['0', 'x'] <+: toHexStringNoPrefix forkDigest := fun h =>
  (mem_toHexStringNoPrefix (h.subset (List.mem_cons_of_mem _ List.mem_cons_self))).2 rfl

variable {computeForkDigest : Version → Root → ForkDigest} {config : ChainConfig} {genesisForkVersion : Version} {root : Root}

theorem stringifyGossipTopic_parse_iff {topicStr : String} {topic : GossipTopic}
    (h : parseGossipTopic (contextOf computeForkDigest config genesisForkVersion root) topicStr = .ok topic) :
    stringifyGossipTopic (contextOf computeForkDigest config genesisForkVersion root) topic = .ok topicStr ↔ Canonical topicStr := by
  obtain ⟨found, hfound, hfork, hssz, htype, hencoding⟩ := parseGossipTopic_eq_ok.1 h
  obtain ⟨hdigestWord, htypeWord, -, htext⟩ := matchTopic_eq_some hfound
  obtain ⟨forkDigest, hdigest, hget⟩ := forkDigestHex2ForkName_eq_ok.1 hfork
  have hname := forkName2ForkDigest_of_get? hget
  have hread : topicStr.toList = "/eth2/".toList ++ found.forkDigestHexNoPrefix ++ '/' :: found.gossipTypeStr ++
      '/' :: (encodingText .ssz_snappy ++ found.rest) := by
    rw [htext, ← hssz]
    unfold TopicMatch.text
    simp
  constructor
  · intro hwritten
    obtain ⟨forkDigest', hname', htext'⟩ := stringifyGossipTopic_eq_ok.1 hwritten
    obtain rfl : forkDigest = forkDigest' := Except.ok.inj (hname.symm.trans hname')
    have hcut := text_inj (slash_notMem hdigestWord) (slash_notMem (word_toHexStringNoPrefix forkDigest)) (slash_notMem htypeWord)
      (slash_notMem_stringify topic.type) (hread.symm.trans (htext'.trans (List.append_nil _)))
    refine ⟨found.forkDigestHexNoPrefix, found.gossipTypeStr, slash_notMem hdigestWord, ?_, ?_, ?_⟩
    · rw [hcut.1]
      exact not_prefix_toHexStringNoPrefix forkDigest
    · exact (stringify_parseGossipTopicType_iff htypeWord htype).1 hcut.2.1.symm
    · rw [hread, hcut.2.2]
  · rintro ⟨digest, type, hslash, hmark, hcanonical, htext'⟩
    have hcut := text_inj (slash_notMem hdigestWord) hslash (slash_notMem htypeWord) (slash_notMem_canonicalType hcanonical)
      (hread.symm.trans htext')
    refine stringifyGossipTopic_eq_ok.2 ⟨forkDigest, hname, ?_⟩
    have hhex : toHexStringNoPrefix forkDigest = digest := by
      rw [← hdigest, hcut.1, strip0xPrefix_of_not_prefix hmark]
    have hstringify : stringifyGossipTopicType topic.type = type := by
      rw [(stringify_parseGossipTopicType_iff htypeWord htype).2 (hcut.2.1 ▸ hcanonical), hcut.2.1]
    rw [hhex, hstringify, hencoding, htext']
    exact (List.append_nil _).symm

/-- **A text that is read as a topic is what the topic is written as if and only if it is canonical**, and of the canonical
texts one denotes the topic. -/
theorem stringifyGossipTopic_parseGossipTopic_iff {topicStr : String} {topic : GossipTopic}
    (h : parseGossipTopic (contextOf computeForkDigest config genesisForkVersion root) topicStr = .ok topic) :
    (stringifyGossipTopic (contextOf computeForkDigest config genesisForkVersion root) topic = .ok topicStr ↔
      Canonical topicStr) ∧
    ∀ topicStr', parseGossipTopic (contextOf computeForkDigest config genesisForkVersion root) topicStr' = .ok topic →
      Canonical topicStr → Canonical topicStr' → topicStr' = topicStr := by
  refine ⟨stringifyGossipTopic_parse_iff h, fun topicStr' h' hcanonical hcanonical' => ?_⟩
  have hwritten := (stringifyGossipTopic_parse_iff h).2 hcanonical
  rw [(stringifyGossipTopic_parse_iff h').2 hcanonical', Except.ok.injEq] at hwritten
  exact hwritten

theorem stringifyGossipTopic_parseGossipTopic_attnet :
    stringifyGossipTopic plainContext ⟨.subnet .beacon_attestation (.finite 7), .phase0, some .ssz_snappy⟩ =
      .ok "/eth2/00000001/beacon_attestation_7/ssz_snappy" := by
  refine (stringifyGossipTopic_parseGossipTopic_iff (by decide +kernel)).1.2 ?_
  exact ⟨"00000001".toList, "beacon_attestation_7".toList, by decide, by decide,
    .inr ⟨.beacon_attestation, Nat.toDigits 10 7, canonicalDigits_of_safe (by decide), by decide⟩, by decide⟩

/-- Two texts, one with another separator, zeros in front of the number and something behind the encoding, denote one topic. -/
theorem parseGossipTopic_takes_more : ¬ ∀ topicStr topic, parseGossipTopic plainContext topicStr = .ok topic →
    stringifyGossipTopic plainContext topic = .ok topicStr ∧
    ∀ topicStr', parseGossipTopic plainContext topicStr' = .ok topic → topicStr' = topicStr := by
  intro h
  have hread : parseGossipTopic plainContext "/eth2/00000001/beacon_attestationX007/ssz_snappy/more" =
      .ok ⟨.subnet .beacon_attestation (.finite 7), .phase0, some .ssz_snappy⟩ := by decide +kernel
  exact absurd (h _ _ hread).1 (by decide +kernel)

end Canonical

end Lodestar.Network.Gossip
