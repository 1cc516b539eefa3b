import Udaf.AbilityA.ReplayWindow

/-!
Frames without the right authentication code. They never reach the registry, but the
nonce of such a frame is put into the table before its code is looked at, and an
authentic frame with that nonce is dropped until the nonce is older than the window.
-/

namespace Udaf

open ByteString

namespace Scanner

variable {κ : Type} {platform : Platform UInt8}

def heard (platform : Platform UInt8) :
    Scanner κ → List (Bytes × Int) → List (Except ErrorCode Bool × Option (ServiceRegistry κ))
  | _, [] => []
  | scanner, call :: calls =>
      let after := scanner.hear platform call
      if Authentic platform scanner.psk call.1 then
        (scanner.answer platform call, after.registry) :: heard platform after calls
      else heard platform after calls

def genuine (platform : Platform UInt8) (psk : Bytes) (calls : List (Bytes × Int)) :
    List (Bytes × Int) :=
  calls.filter fun call => Authentic platform psk call.1

def Unseen (scanner : Scanner κ) (call : Bytes × Int) : Prop :=
  (scanner.recent call.2).lookup (nonceKey call.1) = none

def Unheeded (platform : Platform UInt8) (psk : Bytes) (window : Int) (call : Bytes × Int)
    (calls : List (Bytes × Int)) : Prop :=
  ∀ later ∈ calls, Authentic platform psk later.1 → Headed later.1 →
    frameNonce later.1 = frameNonce call.1 → window < later.2 - call.2

/-- Behind each forged frame whose nonce is put into the table, no authentic frame has its nonce
within the window. -/
def Harmless (platform : Platform UInt8) : Scanner κ → List (Bytes × Int) → Prop
  | _, [] => True
  | scanner, call :: calls =>
      (¬ Authentic platform scanner.psk call.1 → Headed call.1 → Unseen scanner call →
        Unheeded platform scanner.psk scanner.window call calls) ∧
      Harmless platform (scanner.hear platform call) calls

structure Shadows (scanner shadow : Scanner κ) (entered : List (Bytes × Int)) (clock : Int) :
    Prop where
  cfg : shadow.cfg = scanner.cfg
  psk : shadow.psk = scanner.psk
  registry : shadow.registry = scanner.registry
  marked : ∀ forged ∈ entered, clock - forged.2 ≤ scanner.window →
    (scanner.recent clock).lookup (nonceKey forged.1) = some forged.2 ∧
      (shadow.recent clock).lookup (nonceKey forged.1) = none
  alike : ∀ key, (∀ forged ∈ entered, nonceKey forged.1 = key → scanner.window < clock - forged.2) →
    (scanner.recent clock).lookup key = (shadow.recent clock).lookup key

theorem recent_later {scanner : Scanner κ} {clock later : Int} (behind : clock ≤ later) (key : Bytes) :
    (scanner.recent later).lookup key =
      ((scanner.recent clock).lookup key).filter fun stamp => decide (later - stamp ≤ scanner.window) := by
  apply Option.ext
  intro stamp
  rw [lookup_recent, Option.filter_eq_some_iff, lookup_recent, decide_eq_true_eq]
  constructor
  · rintro ⟨found, young⟩
    exact ⟨⟨found, by omega⟩, young⟩
  · rintro ⟨⟨found, -⟩, young⟩
    exact ⟨found, young⟩

section Shadow

variable {scanner shadow : Scanner κ} {entered : List (Bytes × Int)} {clock : Int}

theorem Shadows.window (shadows : Shadows scanner shadow entered clock) :
    shadow.window = scanner.window := by
  rw [Scanner.window, shadows.cfg]
  rfl

theorem Shadows.later (shadows : Shadows scanner shadow entered clock) {now : Int}
    (behind : clock ≤ now) : Shadows scanner shadow entered now := by
  have window := shadows.window
  refine ⟨shadows.cfg, shadows.psk, shadows.registry, ?_, ?_⟩
  · intro forged member young
    obtain ⟨here, there⟩ := shadows.marked forged member (by omega)
    rw [recent_later behind, recent_later behind, here, there]
    exact ⟨by rw [Option.filter_some, if_pos (decide_eq_true young)], rfl⟩
  · intro key old
    rw [recent_later behind, recent_later behind, window]
    by_cases young : ∃ forged ∈ entered, nonceKey forged.1 = key ∧ clock - forged.2 ≤ scanner.window
    · obtain ⟨forged, member, rfl, before⟩ := young
      obtain ⟨here, there⟩ := shadows.marked forged member before
      have gone := old forged member rfl
      rw [here, there]
      simp only [Option.filter]
      rw [if_neg]
      simp only [decide_eq_true_eq]
      omega
    · rw [shadows.alike key]
      intro forged member same
      by_contra before
      exact young ⟨forged, member, same, by omega⟩

theorem Shadows.initial (scanner : Scanner κ) (clock : Int) : Shadows scanner scanner [] clock where
  cfg := rfl
  psk := rfl
  registry := rfl
  marked := by
    intro forged member
    cases member
  alike := fun _ _ => rfl

theorem Shadows.replace (shadows : Shadows scanner shadow entered clock) {after after' : Scanner κ}
    (cfg : after.cfg = scanner.cfg) (psk : after.psk = scanner.psk)
    (cfg' : after'.cfg = shadow.cfg) (psk' : after'.psk = shadow.psk)
    (registry : after'.registry = after.registry)
    (same : ∀ key, (after.recent clock).lookup key = (scanner.recent clock).lookup key)
    (same' : ∀ key, (after'.recent clock).lookup key = (shadow.recent clock).lookup key) :
    Shadows after after' entered clock := by
  have window : after.window = scanner.window := by
    rw [Scanner.window, cfg]
    rfl
  refine ⟨by rw [cfg, cfg', shadows.cfg], by rw [psk, psk', shadows.psk], registry, ?_, ?_⟩
  · intro forged member young
    rw [same, same']
    exact shadows.marked forged member (window ▸ young)
  · intro key old
    rw [same, same']
    exact shadows.alike key (window ▸ old)

theorem recent_purged (scanner : Scanner κ) (clock : Int) (key : Bytes) :
    ({ scanner with seenNonces := scanner.recent clock }.recent clock).lookup key =
      (scanner.recent clock).lookup key := by
  apply Option.ext
  intro stamp
  rw [lookup_recent, lookup_recent]
  exact ⟨fun both => both.1, fun found => ⟨found, found.2⟩⟩

theorem recent_inserted {after : Scanner κ} {frame : Bytes} (cfg : after.cfg = scanner.cfg)
    (inserted : after.seenNonces = (scanner.recent clock).insert (nonceKey frame) clock)
    (key : Bytes) :
    (after.recent clock).lookup key =
      if key = nonceKey frame then if 0 ≤ scanner.window then some clock else none
      else (scanner.recent clock).lookup key := by
  have window : after.window = scanner.window := by
    rw [Scanner.window, cfg]
    rfl
  apply Option.ext
  intro stamp
  rw [lookup_recent, inserted, Table.lookup_set, window]
  by_cases same : key = nonceKey frame
  · rw [if_pos same, if_pos same]
    constructor
    · rintro ⟨found, young⟩
      cases found
      rw [if_pos (by omega)]
    · intro found
      split at found
      · cases found
        exact ⟨rfl, by omega⟩
      · cases found
  · rw [if_neg same, if_neg same, lookup_recent]
    exact ⟨fun both => both.1, fun found => ⟨found, found.2⟩⟩

theorem Shadows.unseen (shadows : Shadows scanner shadow entered clock) {frame : Bytes}
    (fresh : Unseen scanner (frame, clock)) :
    (∀ forged ∈ entered, nonceKey forged.1 = nonceKey frame → scanner.window < clock - forged.2) ∧
      Unseen shadow (frame, clock) := by
  have old : ∀ forged ∈ entered, nonceKey forged.1 = nonceKey frame →
      scanner.window < clock - forged.2 := by
    intro forged member same
    by_contra young
    have here := (shadows.marked forged member (by omega)).1
    rw [same] at here
    exact absurd (here.symm.trans fresh) (Option.some_ne_none _)
  exact ⟨old, (shadows.alike _ old).symm.trans fresh⟩

theorem Shadows.both (shadows : Shadows scanner shadow entered clock) {frame : Bytes}
    (old : ∀ forged ∈ entered, nonceKey forged.1 = nonceKey frame → scanner.window < clock - forged.2)
    {after after' : Scanner κ}
    (cfg : after.cfg = scanner.cfg) (psk : after.psk = scanner.psk)
    (cfg' : after'.cfg = shadow.cfg) (psk' : after'.psk = shadow.psk)
    (registry : after'.registry = after.registry)
    (inserted : after.seenNonces = (scanner.recent clock).insert (nonceKey frame) clock)
    (inserted' : after'.seenNonces = (shadow.recent clock).insert (nonceKey frame) clock) :
    Shadows after after' entered clock := by
  have window : after.window = scanner.window := by
    rw [Scanner.window, cfg]
    rfl
  have same := recent_inserted cfg inserted
  have same' := recent_inserted cfg' inserted'
  rw [shadows.window] at same'
  refine ⟨by rw [cfg, cfg', shadows.cfg], by rw [psk, psk', shadows.psk], registry, ?_, ?_⟩
  · intro forged member young
    have apart : nonceKey forged.1 ≠ nonceKey frame := by
      intro equal
      have gone := old forged member equal
      omega
    rw [same, same', if_neg apart, if_neg apart]
    exact shadows.marked forged member (window ▸ young)
  · intro key gone
    rw [same, same']
    by_cases equal : key = nonceKey frame
    · rw [if_pos equal, if_pos equal]
    · rw [if_neg equal, if_neg equal]
      exact shadows.alike key (window ▸ gone)

theorem Shadows.alone (shadows : Shadows scanner shadow entered clock) {frame : Bytes}
    (fresh : Unseen scanner (frame, clock)) {after : Scanner κ} (cfg : after.cfg = scanner.cfg)
    (psk : after.psk = scanner.psk) (registry : after.registry = scanner.registry)
    (inserted : after.seenNonces = (scanner.recent clock).insert (nonceKey frame) clock) :
    Shadows after shadow ((frame, clock) :: entered) clock := by
  have window : after.window = scanner.window := by
    rw [Scanner.window, cfg]
    rfl
  have same := recent_inserted cfg inserted
  obtain ⟨old, unknown⟩ := shadows.unseen fresh
  refine ⟨by rw [cfg, shadows.cfg], by rw [psk, shadows.psk], by rw [registry, shadows.registry],
    ?_, ?_⟩
  · intro forged member young
    rcases List.mem_cons.mp member with rfl | earlier
    · rw [same, if_pos rfl, if_pos (by omega)]
      exact ⟨rfl, unknown⟩
    · have apart : nonceKey forged.1 ≠ nonceKey frame := by
        intro equal
        have gone := old forged earlier equal
        omega
      rw [same, if_neg apart]
      exact shadows.marked forged earlier (window ▸ young)
  · intro key gone
    rw [same]
    by_cases equal : key = nonceKey frame
    · subst equal
      have narrow := gone (frame, clock) (List.mem_cons_self ..) rfl
      rw [if_pos rfl, if_neg (by omega)]
      exact unknown.symm
    · rw [if_neg equal]
      exact shadows.alike key fun forged member match' =>
        window ▸ gone forged (List.mem_cons_of_mem _ member) match'

end Shadow

def verdict (platform : Platform UInt8) (psk frame : Bytes) : Except ErrorCode Bool :=
  if Authentic platform psk frame then
    if (parsePayload (framePayload frame)).nodeId.isEmpty then .error .serializeDecodeFailed
    else .ok true
  else .ok false

def renewed (platform : Platform UInt8) (psk frame : Bytes) (registry : Option (ServiceRegistry κ)) :
    Option (ServiceRegistry κ) :=
  if Authentic platform psk frame then
    if (parsePayload (framePayload frame)).nodeId.isEmpty then registry
    else registry.map fun registry =>
      (registry.registerNode (advertisedEntry (parsePayload (framePayload frame)))).2
  else registry

theorem hear_new (digests : platform.Digests) {scanner : Scanner κ} {call : Bytes × Int}
    (headed : Headed call.1) (fresh : Unseen scanner call) :
    scanner.answer platform call = verdict platform scanner.psk call.1 ∧
      (scanner.hear platform call).registry =
        renewed platform scanner.psk call.1 scanner.registry ∧
      (scanner.hear platform call).seenNonces =
        (scanner.recent call.2).insert (nonceKey call.1) call.2 := by
  have handled : scanner.handleFrame platform call.1 call.2 = _ := handleFrame_new headed fresh
  have admitted := authenticate_eq digests (scanner.noted call.1 call.2) (checkHeader_ok headed)
  have psk : (scanner.noted call.1 call.2).psk = scanner.psk := rfl
  rw [answer, hear, handled, admitted, verdict, renewed, psk]
  split
  · split
    · exact ⟨rfl, rfl, rfl⟩
    · exact ⟨rfl, rfl, rfl⟩
  · exact ⟨rfl, rfl, rfl⟩

theorem verdict_authentic {psk frame : Bytes} (authentic : Authentic platform psk frame) :
    verdict platform psk frame ≠ .ok false := by
  rw [verdict, if_pos authentic]
  split <;> exact fun same => nomatch same

theorem hear_headless {scanner : Scanner κ} {call : Bytes × Int} (headless : ¬ Headed call.1) :
    scanner.hear platform call = scanner ∧
      ∃ code, checkHeader call.1 = .error code ∧ scanner.answer platform call = .error code := by
  cases header : checkHeader call.1 with
  | error code =>
      have handled := @handleFrame_headless κ platform scanner call.1 call.2 code header
      exact ⟨by rw [hear, handled], code, rfl, by rw [answer, handled]⟩
  | ok passed => exact absurd header headless

theorem hear_seen {scanner : Scanner κ} {call : Bytes × Int} (headed : Headed call.1)
    (seen : ¬ Unseen scanner call) :
    scanner.hear platform call = { scanner with seenNonces := scanner.recent call.2 } ∧
      scanner.answer platform call = .ok false := by
  have handled := @handleFrame_seen κ platform scanner call.1 call.2 headed
    (Option.isSome_iff_ne_none.mpr seen)
  exact ⟨by rw [hear, handled], by rw [answer, handled]⟩

section Cases

variable {scanner shadow : Scanner κ} {entered : List (Bytes × Int)} {call : Bytes × Int}

theorem Shadows.genuine (digests : platform.Digests)
    (shadows : Shadows scanner shadow entered call.2)
    (old : Headed call.1 → ∀ forged ∈ entered, frameNonce call.1 = frameNonce forged.1 →
      scanner.window < call.2 - forged.2) :
    scanner.answer platform call = shadow.answer platform call ∧
      (scanner.hear platform call).registry = (shadow.hear platform call).registry ∧
      Shadows (scanner.hear platform call) (shadow.hear platform call) entered call.2 := by
  obtain ⟨cfg, psk⟩ := @hear_kept κ platform scanner call
  obtain ⟨cfg', psk'⟩ := @hear_kept κ platform shadow call
  by_cases headed : Headed call.1
  · have gone : ∀ forged ∈ entered, nonceKey forged.1 = nonceKey call.1 →
        scanner.window < call.2 - forged.2 := fun forged member same =>
      old headed forged member (Hex.hexOf_injective same.symm)
    have alike := shadows.alike (nonceKey call.1) gone
    by_cases fresh : Unseen scanner call
    · have fresh' : Unseen shadow call := alike.symm.trans fresh
      obtain ⟨answered, registry, inserted⟩ := @hear_new κ platform digests scanner call headed fresh
      obtain ⟨answered', registry', inserted'⟩ :=
        @hear_new κ platform digests shadow call headed fresh'
      have same : (scanner.hear platform call).registry = (shadow.hear platform call).registry := by
        rw [registry, registry', shadows.psk, shadows.registry]
      refine ⟨by rw [answered, answered', shadows.psk], same, ?_⟩
      exact shadows.both gone cfg psk cfg' psk' same.symm inserted inserted'
    · have seen' : ¬ Unseen shadow call := fun unknown => fresh (alike.trans unknown)
      obtain ⟨heard, answered⟩ := @hear_seen κ platform scanner call headed fresh
      obtain ⟨heard', answered'⟩ := @hear_seen κ platform shadow call headed seen'
      rw [heard, heard', answered, answered']
      refine ⟨rfl, shadows.registry.symm, ?_⟩
      exact shadows.replace rfl rfl rfl rfl shadows.registry (recent_purged scanner call.2)
        (recent_purged shadow call.2)
  · obtain ⟨heard, code, header, answered⟩ := @hear_headless κ platform scanner call headed
    obtain ⟨heard', code', header', answered'⟩ := @hear_headless κ platform shadow call headed
    rw [heard, heard', answered, answered']
    rw [header] at header'
    cases header'
    exact ⟨rfl, shadows.registry.symm, shadows⟩

theorem Shadows.dropped (digests : platform.Digests)
    (shadows : Shadows scanner shadow entered call.2)
    (authentic : Authentic platform scanner.psk call.1) (headed : Headed call.1)
    {forged : Bytes × Int} (member : forged ∈ entered)
    (same : frameNonce call.1 = frameNonce forged.1)
    (young : call.2 - forged.2 ≤ scanner.window) :
    scanner.answer platform call ≠ shadow.answer platform call := by
  obtain ⟨here, there⟩ := shadows.marked forged member young
  have key : nonceKey forged.1 = nonceKey call.1 := by rw [nonceKey, nonceKey, same]
  rw [key] at here there
  have seen : ¬ Unseen scanner call := by
    intro fresh
    exact absurd (here.symm.trans fresh) (Option.some_ne_none _)
  have answered := (@hear_seen κ platform scanner call headed seen).2
  have answered' := (@hear_new κ platform digests shadow call headed there).1
  rw [answered, answered', shadows.psk]
  exact (verdict_authentic authentic).symm

theorem Shadows.forged (digests : platform.Digests)
    (shadows : Shadows scanner shadow entered call.2)
    (false' : ¬ Authentic platform scanner.psk call.1) :
    (Headed call.1 ∧ Unseen scanner call ∧
      Shadows (scanner.hear platform call) shadow (call :: entered) call.2) ∨
    (¬ (Headed call.1 ∧ Unseen scanner call) ∧
      Shadows (scanner.hear platform call) shadow entered call.2) := by
  obtain ⟨cfg, psk⟩ := @hear_kept κ platform scanner call
  by_cases headed : Headed call.1
  · by_cases fresh : Unseen scanner call
    · obtain ⟨-, registry, inserted⟩ := @hear_new κ platform digests scanner call headed fresh
      rw [renewed, if_neg false'] at registry
      exact .inl ⟨headed, fresh, shadows.alone fresh cfg psk registry inserted⟩
    · obtain ⟨heard, -⟩ := @hear_seen κ platform scanner call headed fresh
      rw [heard]
      exact .inr ⟨fun both => fresh both.2, shadows.replace rfl rfl rfl rfl shadows.registry
        (recent_purged scanner call.2) (fun key => rfl)⟩
  · obtain ⟨heard, -⟩ := @hear_headless κ platform scanner call headed
    rw [heard]
    exact .inr ⟨fun both => headed both.1, shadows⟩

end Cases

theorem unheeded_cons {psk : Bytes} {window : Int} {forged call : Bytes × Int}
    {calls : List (Bytes × Int)} :
    Unheeded platform psk window forged (call :: calls) ↔
      (Authentic platform psk call.1 → Headed call.1 → frameNonce call.1 = frameNonce forged.1 →
        window < call.2 - forged.2) ∧ Unheeded platform psk window forged calls :=
  List.forall_mem_cons

theorem heard_iff (digests : platform.Digests) {calls : List (Bytes × Int)} {scanner shadow : Scanner κ}
    {entered : List (Bytes × Int)} {clock : Int} (shadows : Shadows scanner shadow entered clock)
    (clocked : Clocked calls) (behind : ∀ call ∈ calls, clock ≤ call.2) :
    heard platform scanner calls = heard platform shadow (genuine platform scanner.psk calls) ↔
      (∀ forged ∈ entered, Unheeded platform scanner.psk scanner.window forged calls) ∧
        Harmless platform scanner calls := by
  induction calls generalizing scanner shadow entered clock with
  | nil =>
      refine iff_of_true rfl ⟨?_, trivial⟩
      intro forged _ later member
      cases member
  | cons call calls ih =>
      have now := shadows.later (behind call (List.mem_cons_self ..))
      obtain ⟨later, rest⟩ := List.pairwise_cons.mp clocked
      obtain ⟨cfg, psk⟩ := @hear_kept κ platform scanner call
      have window : (scanner.hear platform call).window = scanner.window := by
        rw [Scanner.window, cfg]
        rfl
      by_cases authentic : Authentic platform scanner.psk call.1
      · have kept : genuine platform scanner.psk (call :: calls) =
            call :: genuine platform scanner.psk calls :=
          List.filter_cons_of_pos (by simpa using authentic)
        rw [kept, heard, heard]
        simp only [if_pos authentic, shadows.psk]
        by_cases old : Headed call.1 → ∀ forged ∈ entered, frameNonce call.1 = frameNonce forged.1 →
            scanner.window < call.2 - forged.2
        · obtain ⟨answered, registry, next⟩ := now.genuine digests old
          have inner := ih next rest later
          rw [psk, window] at inner
          rw [answered, registry, List.cons.injEq, inner]
          constructor
          · rintro ⟨-, unheeded, harmless⟩
            refine ⟨fun forged member => unheeded_cons.mpr ⟨?_, unheeded forged member⟩,
              fun false' => absurd authentic false', harmless⟩
            intro _ headed same
            exact old headed forged member same
          · rintro ⟨unheeded, -, harmless⟩
            exact ⟨rfl, fun forged member => (unheeded_cons.mp (unheeded forged member)).2, harmless⟩
        · simp only [not_forall] at old
          obtain ⟨headed, forged, member, same, young⟩ := old
          refine iff_of_false ?_ ?_
          · intro equal
            exact now.dropped digests authentic headed member same (by omega)
              (Prod.ext_iff.mp (List.cons.inj equal).1).1
          · rintro ⟨unheeded, -⟩
            exact young ((unheeded_cons.mp (unheeded forged member)).1 authentic headed same)
      · have kept : genuine platform scanner.psk (call :: calls) =
            genuine platform scanner.psk calls :=
          List.filter_cons_of_neg (by simpa using authentic)
        rw [kept, heard]
        simp only [if_neg authentic]
        rcases now.forged digests authentic with ⟨headed, fresh, next⟩ | ⟨silent, next⟩
        · have inner := ih next rest later
          rw [psk, window] at inner
          rw [inner]
          constructor
          · rintro ⟨unheeded, harmless⟩
            refine ⟨fun forged member => unheeded_cons.mpr ⟨fun genuine => absurd genuine authentic,
              unheeded forged (List.mem_cons_of_mem call member)⟩, fun _ _ _ =>
                unheeded call (List.mem_cons_self ..), harmless⟩
          · rintro ⟨unheeded, unheard, harmless⟩
            refine ⟨?_, harmless⟩
            intro forged member
            rcases List.mem_cons.mp member with rfl | earlier
            · exact unheard authentic headed fresh
            · exact (unheeded_cons.mp (unheeded forged earlier)).2
        · have inner := ih next rest later
          rw [psk, window] at inner
          rw [inner]
          constructor
          · rintro ⟨unheeded, harmless⟩
            exact ⟨fun forged member => unheeded_cons.mpr ⟨fun genuine => absurd genuine authentic,
              unheeded forged member⟩, fun _ headed fresh => absurd ⟨headed, fresh⟩ silent, harmless⟩
          · rintro ⟨unheeded, -, harmless⟩
            exact ⟨fun forged member => (unheeded_cons.mp (unheeded forged member)).2, harmless⟩

end Scanner

open Scanner in
/-- Authentic frames are answered as if there were no forged ones exactly when no forged nonce comes
back in time. -/
theorem forged_frames_harmless_iff {κ : Type} {platform : Platform UInt8} (digests : platform.Digests)
    (scanner : Scanner κ) {calls : List (Bytes × Int)} (clocked : Clocked calls) :
    heard platform scanner calls = heard platform scanner (genuine platform scanner.psk calls) ↔
      Harmless platform scanner calls := by
  cases calls with
  | nil => exact iff_of_true rfl trivial
  | cons call calls =>
      have later : ∀ other ∈ call :: calls, call.2 ≤ other.2 := by
        intro other member
        rcases List.mem_cons.mp member with rfl | behind
        · exact Int.le_refl _
        · exact (List.pairwise_cons.mp clocked).1 other behind
      rw [heard_iff digests (.initial scanner call.2) clocked later]
      refine and_iff_right ?_
      intro forged member
      cases member

open Scanner in
theorem forged_frames_harmless_sample :
    let calls := [(sampleFrame (List.replicate 32 0), 0), (sampleFrame sampleCode, 300000000001)]
    heard discoveryPlatform sampleScanner calls =
      heard discoveryPlatform sampleScanner (genuine discoveryPlatform [] calls) := by
  intro calls
  have clocked : Clocked calls := by
    unfold Clocked
    decide
  refine (forged_frames_harmless_iff discoveryPlatform_digests sampleScanner clocked).mpr ⟨?_, ?_, trivial⟩
  · intro _ _ _ later member _ _ _
    rw [List.mem_singleton.mp member]
    decide
  · intro _ _ _ later member
    cases member

open Scanner in
/-- A forged frame a nanosecond before the authentic one of the same nonce. -/
theorem forged_frame_suppresses :
    let calls := [(sampleFrame (List.replicate 32 0), 0), (sampleFrame sampleCode, 1)]
    heard discoveryPlatform sampleScanner calls ≠
      heard discoveryPlatform sampleScanner (genuine discoveryPlatform [] calls) := by
  intro calls same
  have answers := congrArg (List.map Prod.fst) same
  revert answers
  decide +kernel

end Udaf
