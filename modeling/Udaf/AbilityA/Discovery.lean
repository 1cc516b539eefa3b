import Udaf.AbilityA.Scanner
import Udaf.Crypto.NonceReuse

/-!
What a scanner makes of a frame. A frame with the right authentication code and a new
nonce registers its node; this is the case for every frame that an advertiser with the
same PSK sends.
-/

namespace Udaf

open ByteString

/-- What is relied on: HMAC-SHA256 is a function, and its values have 32 bytes. -/
def Platform.Digests {β : Type} (platform : Platform β) : Prop :=
  ∀ key message, ∃ tag, platform.macCompute key message = some tag ∧ tag.length = 32

def Authentic (platform : Platform UInt8) (psk frame : Bytes) : Prop :=
  discoveryHeaderSize ≤ frame.length ∧
    platform.macCompute (discoveryKey psk) (frameNonce frame ++ framePayload frame) =
      some (frameMac frame)

instance decidableAuthentic (platform : Platform UInt8) (psk frame : Bytes) :
    Decidable (Authentic platform psk frame) :=
  inferInstanceAs (Decidable (_ ∧ _))

theorem discoveryKey_length (psk : Bytes) : (discoveryKey psk).length = 32 := by
  unfold discoveryKey
  split
  · assumption
  · exact List.length_replicate

theorem discoveryMac {platform : Platform UInt8} (digests : platform.Digests) (psk message : Bytes) :
    ∃ tag : Mac UInt8, platform.macCompute (discoveryKey psk) message = some tag.bytes ∧
      hmacSha256 platform (discoveryKey psk) message = .ok tag.bytes := by
  obtain ⟨tag, compute, size⟩ := digests (discoveryKey psk) message
  have length := discoveryKey_length psk
  have present : (discoveryKey psk).isEmpty = false := by
    cases key : discoveryKey psk with
    | nil =>
        rw [key] at length
        cases length
    | cons byte rest => rfl
  refine ⟨⟨tag, size⟩, compute, ?_⟩
  rw [hmacSha256, present]
  simp only [compute, Bool.false_eq_true, if_false]

theorem checkHeader_ok {frame : Bytes} (headed : checkHeader frame = .ok ()) :
    discoveryHeaderSize ≤ frame.length := by
  unfold checkHeader at headed
  split at headed
  · cases headed
  · omega

theorem frameMac_length {frame : Bytes} (long : discoveryHeaderSize ≤ frame.length) :
    (frameMac frame).length = 32 := by
  rw [discoveryHeaderSize] at long
  rw [frameMac, List.length_take, List.length_drop]
  omega

theorem verify_iff {platform : Platform UInt8} (digests : platform.Digests) {psk frame : Bytes}
    (long : discoveryHeaderSize ≤ frame.length) :
    hmacSha256Verify platform (discoveryKey psk) (frameNonce frame ++ framePayload frame)
        (frameMac frame) = .ok () ↔ Authentic platform psk frame := by
  obtain ⟨tag, compute, digest⟩ := discoveryMac digests psk (frameNonce frame ++ framePayload frame)
  have verified := @hmacVerify_ok UInt8 platform _ (discoveryKey psk)
    (frameNonce frame ++ framePayload frame) ⟨frameMac frame, frameMac_length long⟩
  rw [verified, digest, Authentic, compute]
  have whole : tag.bytes.take 32 = tag.bytes := List.take_of_length_le (by simp)
  simp only [Except.ok.injEq, exists_eq_left', whole, Option.some.injEq]
  exact (and_iff_right long).symm

namespace Scanner

variable {κ : Type} {platform : Platform UInt8}

def registered (scanner : Scanner κ) (frame : Bytes) : Scanner κ :=
  { scanner with registry := scanner.registry.map fun registry =>
      (registry.registerNode (advertisedEntry (parsePayload (framePayload frame)))).2 }

theorem authenticate_eq (digests : platform.Digests) (scanner : Scanner κ) {frame : Bytes}
    (long : discoveryHeaderSize ≤ frame.length) :
    scanner.authenticate platform frame =
      if Authentic platform scanner.psk frame then
        if (parsePayload (framePayload frame)).nodeId.isEmpty then
          (.error .serializeDecodeFailed, scanner)
        else (.ok true, scanner.registered frame)
      else (.ok false, scanner) := by
  have verified := @verify_iff platform digests scanner.psk frame long
  unfold authenticate
  by_cases authentic : Authentic platform scanner.psk frame
  · rw [verified.mpr authentic, if_pos authentic]
    rfl
  · rw [if_neg authentic]
    split
    · rfl
    · rename_i accepted
      exact absurd (verified.mp accepted) authentic

end Scanner

section Frames

variable {nonce mac payloadBytes : Bytes}

theorem checkHeader_frameOf (nonceSize : nonce.length = 8) (macSize : mac.length = 32) :
    checkHeader (Advertiser.frameOf nonce mac payloadBytes) = .ok () := by
  have long : ¬ (Advertiser.frameOf nonce mac payloadBytes).length < discoveryHeaderSize := by
    simp only [Advertiser.frameOf, wordBytes, discoveryHeaderSize, List.length_append,
      List.length_cons, List.length_nil, nonceSize, macSize]
    omega
  have magic : wordAt (wordBytes discoveryMagic) 0 = discoveryMagic := by decide
  have version : wordAt (wordBytes discoveryMagic ++ wordBytes discoveryVersion) 4 =
      discoveryVersion := by decide
  rw [checkHeader, if_neg long, if_neg (fun other => other magic), if_neg (fun other => other version)]

theorem frameNonce_frameOf (nonceSize : nonce.length = 8) :
    frameNonce (Advertiser.frameOf nonce mac payloadBytes) = nonce := by
  rw [frameNonce, Advertiser.frameOf, List.append_assoc, List.append_assoc]
  exact List.take_left' nonceSize

theorem frameMac_frameOf (nonceSize : nonce.length = 8) (macSize : mac.length = 32) :
    frameMac (Advertiser.frameOf nonce mac payloadBytes) = mac := by
  rw [frameMac, Advertiser.frameOf, List.append_assoc, List.drop_left' (by simp [wordBytes, nonceSize])]
  exact List.take_left' macSize

theorem framePayload_frameOf (nonceSize : nonce.length = 8) (macSize : mac.length = 32) :
    framePayload (Advertiser.frameOf nonce mac payloadBytes) = payloadBytes :=
  List.drop_left' (by simp [wordBytes, discoveryHeaderSize, nonceSize, macSize])

theorem wordBytes_word (first second third fourth : UInt8) :
    wordBytes ((first.toUInt32 <<< 24) ||| (second.toUInt32 <<< 16) ||| (third.toUInt32 <<< 8) |||
      fourth.toUInt32) = [first, second, third, fourth] := by
  have beyond (byte : UInt8) (place : Nat) (far : 8 ≤ place) :
      byte.toBitVec.getLsbD place = false := BitVec.getLsbD_of_ge _ _ far
  simp only [wordBytes, List.cons.injEq, and_true]
  refine ⟨?_, ?_, ?_, ?_⟩ <;> apply UInt8.toBitVec_inj.mp <;> apply BitVec.eq_of_getLsbD_eq <;>
    intro place inside <;> simp
  · simp [inside, beyond second (24 + place - 16) (by omega), beyond third (24 + place - 8) (by omega),
      beyond fourth (24 + place) (by omega)]
    grind
  · simp [inside, beyond third (16 + place - 8) (by omega), beyond fourth (16 + place) (by omega)]
    grind
  · simp [inside]
    grind

theorem wordBytes_wordAt {frame : Bytes} {place : Nat} (long : place + 4 ≤ frame.length) :
    wordBytes (wordAt frame place) = (frame.drop place).take 4 := by
  have byte {index : Nat} (inside : index < frame.length) : frame.getD index 0 = frame[index] := by
    simp [List.getD, inside]
  rw [wordAt, wordBytes_word, List.drop_eq_getElem_cons (by omega),
    List.drop_eq_getElem_cons (by omega), List.drop_eq_getElem_cons (by omega),
    List.drop_eq_getElem_cons (by omega), byte (by omega), byte (by omega), byte (by omega),
    byte (by omega)]
  rfl

theorem checkHeader_frame {frame : Bytes} (headed : checkHeader frame = .ok ()) :
    frame = Advertiser.frameOf (frameNonce frame) (frameMac frame) (framePayload frame) := by
  have long := checkHeader_ok headed
  have words : wordAt frame 0 = discoveryMagic ∧ wordAt frame 4 = discoveryVersion := by
    unfold checkHeader at headed
    split_ifs at headed with short magic version
    exact ⟨not_not.mp magic, not_not.mp version⟩
  rw [discoveryHeaderSize] at long
  have magic := @wordBytes_wordAt frame 0 (by omega)
  have version := @wordBytes_wordAt frame 4 (by omega)
  rw [words.1, List.drop_zero] at magic
  rw [words.2] at version
  rw [Advertiser.frameOf, magic, version, frameNonce, frameMac, framePayload, discoveryHeaderSize]
  have parts (size start : Nat) : (frame.drop start).take size ++ frame.drop (start + size) = frame.drop start := by
    rw [← List.drop_drop, List.take_append_drop]
  simp only [List.append_assoc]
  rw [parts 32 16, parts 8 8, parts 4 4]
  exact (List.take_append_drop 4 frame).symm
end Frames

theorem registerNode_named {κ : Type} {registry : ServiceRegistry κ} {entry : RegistryEntry}
    (named : entry.nodeId ≠ []) :
    (registry.registerNode entry).2.nodes = registry.nodes.insert entry.nodeId entry := by
  rw [ServiceRegistry.registerNode, if_neg (by simpa using named)]

theorem getNode_registerNode {κ : Type} {registry : ServiceRegistry κ} {entry : RegistryEntry}
    (named : entry.nodeId ≠ []) (nodeId : Bytes) :
    (registry.registerNode entry).2.getNode nodeId =
      if nodeId = entry.nodeId then .ok entry else registry.getNode nodeId := by
  rw [ServiceRegistry.getNode, registerNode_named named, Table.lookup_set]
  by_cases same : nodeId = entry.nodeId
  · rw [if_pos same, if_pos same]
  · rw [if_neg same, if_neg same]
    rfl

namespace Scanner

variable {κ : Type} {platform : Platform UInt8} {scanner : Scanner κ} {frame : Bytes} {now : Int}

def noted (scanner : Scanner κ) (frame : Bytes) (now : Int) : Scanner κ :=
  { scanner with
    seenNonces := (scanner.recent now).insert (Hex.hexOf (frameNonce frame)) now }

theorem handleFrame_headless {code : ErrorCode} (headless : checkHeader frame = .error code) :
    scanner.handleFrame platform frame now = (.error code, scanner) := by
  rw [handleFrame, headless]

theorem handleFrame_seen (headed : checkHeader frame = .ok ())
    (seen : ((scanner.recent now).lookup (Hex.hexOf (frameNonce frame))).isSome) :
    scanner.handleFrame platform frame now =
      (.ok false, { scanner with seenNonces := scanner.recent now }) := by
  rw [handleFrame, headed]
  exact if_pos seen

theorem handleFrame_new (headed : checkHeader frame = .ok ())
    (fresh : (scanner.recent now).lookup (Hex.hexOf (frameNonce frame)) = none) :
    scanner.handleFrame platform frame now = (scanner.noted frame now).authenticate platform frame := by
  rw [handleFrame, headed]
  exact if_neg (by rw [fresh]; exact Bool.false_ne_true)

theorem handleFrame_accepts (digests : platform.Digests) (headed : checkHeader frame = .ok ())
    (fresh : (scanner.recent now).lookup (Hex.hexOf (frameNonce frame)) = none)
    (authentic : Authentic platform scanner.psk frame)
    (named : (parsePayload (framePayload frame)).nodeId ≠ []) :
    scanner.handleFrame platform frame now = (.ok true, (scanner.noted frame now).registered frame) := by
  have nonempty : ¬ (parsePayload (framePayload frame)).nodeId.isEmpty = true := by simpa using named
  rw [handleFrame_new headed fresh, authenticate_eq digests _ (checkHeader_ok headed), if_neg nonempty]
  exact if_pos authentic

theorem recent_none {key : Bytes} (now : Int) (fresh : scanner.seenNonces.lookup key = none) :
    (scanner.recent now).lookup key = none := by
  rw [recent, Table.lookup_keep, fresh]
  rfl

end Scanner

theorem broadcastOnce_frame {platform : Platform UInt8} (digests : platform.Digests)
    {inetPton : String → Option (Block UInt8 4)} {advertiser : Advertiser}
    {sock : UdpSocket UInt8} (opened : advertiser.sock = some sock) (nonce : Block UInt8 8)
    (now : Int) (accepted : SendTo) :
    ∃ frame, (advertiser.broadcastOnce platform inetPton (some nonce) now accepted).frame =
        some frame ∧ checkHeader frame = .ok () ∧ frameNonce frame = nonce.bytes ∧
      framePayload frame = serializePayload advertiser.payload ∧
      Authentic platform advertiser.psk frame := by
  obtain ⟨tag, compute, digest⟩ := discoveryMac digests advertiser.psk
    (nonce.bytes ++ serializePayload advertiser.payload)
  have headed := @checkHeader_frameOf nonce.bytes tag.bytes (serializePayload advertiser.payload)
    nonce.length_eq tag.length_eq
  have drawn := @frameNonce_frameOf nonce.bytes tag.bytes (serializePayload advertiser.payload)
    nonce.length_eq
  have payload := @framePayload_frameOf nonce.bytes tag.bytes
    (serializePayload advertiser.payload) nonce.length_eq tag.length_eq
  have code := @frameMac_frameOf nonce.bytes tag.bytes (serializePayload advertiser.payload)
    nonce.length_eq tag.length_eq
  refine ⟨_, ?_, headed, drawn, payload, checkHeader_ok headed, ?_⟩
  · simp only [Advertiser.broadcastOnce, opened, digest, tag.length_eq, ne_eq, not_true_eq_false,
      if_false]
  · rw [drawn, payload, code, compute]

theorem created_advertiser {openSocket : UInt16 → Option (UdpSocket UInt8)}
    {payload : AdvertisementPayload} {cfg : AdvertiserConfig} {psk : Bytes} {advertiser : Advertiser}
    (created : Advertiser.create openSocket payload cfg psk = some advertiser) :
    advertiser.payload = payload ∧ advertiser.psk = keptPsk psk ∧
      ∃ sock, advertiser.sock = some sock := by
  unfold Advertiser.create at created
  split at created
  · cases created
  · cases created
    exact ⟨rfl, rfl, _, rfl⟩

theorem created_scanner {κ : Type} {openSocket : UInt16 → Option (UdpSocket UInt8)}
    {registry : Option (ServiceRegistry κ)} {cfg : ScannerConfig} {psk : Bytes} {scanner : Scanner κ}
    (created : Scanner.create openSocket registry cfg psk = some scanner) :
    scanner.registry = registry ∧ scanner.psk = keptPsk psk := by
  unfold Scanner.create at created
  split at created
  · cases created
  · cases created
    exact ⟨rfl, rfl⟩

/-- What an advertiser sends is accepted and registered by a scanner with the same PSK that does not
know the nonce. -/
theorem discovery_end_to_end {κ : Type} {platform : Platform UInt8} (digests : platform.Digests)
    {payload : AdvertisementPayload} (named : payload.nodeId ≠ []) (fits : payload.Fits)
    {psk : Bytes} {openAdvertiser openScanner : UInt16 → Option (UdpSocket UInt8)}
    {advertiserCfg : AdvertiserConfig} {scannerCfg : ScannerConfig} {advertiser : Advertiser}
    {scanner : Scanner κ} {registry : ServiceRegistry κ}
    (advertises : Advertiser.create openAdvertiser payload advertiserCfg psk = some advertiser)
    (scans : Scanner.create openScanner (some registry) scannerCfg psk = some scanner)
    {inetPton : String → Option (Block UInt8 4)} {seen : Table Bytes Int} {nonce : Block UInt8 8}
    (fresh : seen.lookup (Hex.hexOf nonce.bytes) = none) (sentAt now : Int) (accepted : SendTo) :
    ∃ frame after registered,
      (advertiser.broadcastOnce platform inetPton (some nonce) sentAt accepted).frame = some frame ∧
      { scanner with seenNonces := seen }.handleFrame platform frame now = (.ok true, after) ∧
      after.registry = some registered ∧
      (∃ entry, registered.getNode payload.nodeId = .ok entry ∧
        entry.hostname = payload.hostname ∧ entry.bindAddress = payload.bindAddress ∧
        entry.bindPort = payload.bindPort ∧
        entry.services.map ServiceDescriptor.serviceName = payload.services) ∧
      ∀ other, other ≠ payload.nodeId → registered.getNode other = registry.getNode other := by
  obtain ⟨rfl, advertiserPsk, sock, opened⟩ := created_advertiser advertises
  obtain ⟨registers, scannerPsk⟩ := created_scanner scans
  obtain ⟨frame, built, headed, drawn, carried, authentic⟩ :=
    @broadcastOnce_frame platform digests inetPton advertiser sock opened nonce sentAt accepted
  have parsed : parsePayload (framePayload frame) = advertiser.payload := by
    rw [carried]
    exact parsePayload_serializePayload fits
  have accepts := @Scanner.handleFrame_accepts κ platform { scanner with seenNonces := seen } frame now
    digests headed (Scanner.recent_none now (by rw [drawn]; exact fresh))
    (by rw [scannerPsk, ← advertiserPsk]; exact authentic) (by rw [parsed]; exact named)
  have found := @getNode_registerNode κ registry (advertisedEntry advertiser.payload) named
  refine ⟨frame, _, (registry.registerNode (advertisedEntry advertiser.payload)).2, built, accepts,
    ?_, ⟨advertisedEntry advertiser.payload, ?_, rfl, rfl, rfl, ?_⟩, ?_⟩
  · rw [Scanner.registered, parsed, Scanner.noted, registers]
    rfl
  · rw [found]
    exact if_pos rfl
  · rw [advertisedEntry, List.map_map]
    exact List.map_id _
  · intro other apart
    rw [found]
    exact if_neg apart

section Sample

def samplePayload : AdvertisementPayload where
  nodeId := ascii "n1"
  hostname := ascii "h1"
  bindAddress := ascii "10.0.0.1"
  bindPort := 7000
  services := [ascii "tcp", ascii "zmq"]

def sampleCode : Bytes :=
  leBytes 32 12894896684817300446467126502757259238784943527006608500930858376562733986436

def discoveryPlatform : Platform UInt8 :=
  { samplePlatform with
    macCompute := fun key message =>
      some (if key = List.replicate 32 0 ∧
          message = (sampleCount 1 8).bytes ++ serializePayload samplePayload then sampleCode
        else List.replicate 32 0) }

theorem digests_of_one {platform : Platform UInt8} {message code : Bytes} (size : code.length = 32)
    (mac : platform.macCompute = fun key text =>
      some (if key = List.replicate 32 0 ∧ text = message then code else List.replicate 32 0)) :
    platform.Digests := by
  intro key text
  rw [mac]
  refine ⟨_, rfl, ?_⟩
  split
  · exact size
  · exact List.length_replicate

theorem discoveryPlatform_digests : discoveryPlatform.Digests :=
  digests_of_one (leBytes_length 32 _) rfl

def sampleFrame (mac : Bytes) : Bytes :=
  Advertiser.frameOf (sampleCount 1 8).bytes mac (serializePayload samplePayload)

def sampleScanner : Scanner Nat where
  registry := some {}
  sock := some sampleSocket

theorem discovery_end_to_end_sample :
    ∃ advertiser scanner frame after,
      Advertiser.create (fun _ => some sampleSocket) samplePayload {} (ascii "short") =
        some advertiser ∧
      Scanner.create (fun _ => some sampleSocket) (some ({} : ServiceRegistry Nat)) {} (ascii "short") =
        some scanner ∧
      (advertiser.broadcastOnce discoveryPlatform sampleInetPton (some (sampleCount 1 8)) 0
        (.sent 80)).frame = some frame ∧
      scanner.handleFrame discoveryPlatform frame 7 = (.ok true, after) := by
  obtain ⟨frame, after, registered, built, handled, -⟩ := @discovery_end_to_end Nat discoveryPlatform
    discoveryPlatform_digests samplePayload (by decide)
    ⟨by decide, by decide, by decide, by decide, by decide⟩ (ascii "short")
    (fun _ => some sampleSocket) (fun _ => some sampleSocket) {} {} _ _ {} rfl rfl sampleInetPton ∅
    (sampleCount 1 8) rfl 0 7 (.sent 80)
  exact ⟨_, _, frame, after, rfl, rfl, built, handled⟩

end Sample

end Udaf
