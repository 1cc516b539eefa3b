import Udaf.AbilityA.Discovery

/-!
The table of nonces over a sequence of calls. A stamp in it is the time of a frame with
that nonce, and the stamp of an accepted frame stays until it is older than the window.
-/

namespace Udaf

open ByteString

namespace Scanner

variable {κ : Type} {platform : Platform UInt8}

def hear (platform : Platform UInt8) (scanner : Scanner κ) (call : Bytes × Int) : Scanner κ :=
  (scanner.handleFrame platform call.1 call.2).2

def answer (platform : Platform UInt8) (scanner : Scanner κ) (call : Bytes × Int) :
    Except ErrorCode Bool :=
  (scanner.handleFrame platform call.1 call.2).1

def listen (platform : Platform UInt8) (scanner : Scanner κ) (calls : List (Bytes × Int)) :
    Scanner κ :=
  calls.foldl (hear platform) scanner

theorem listen_concat (scanner : Scanner κ) (calls : List (Bytes × Int)) (call : Bytes × Int) :
    scanner.listen platform (calls ++ [call]) = (scanner.listen platform calls).hear platform call := by
  rw [listen, List.foldl_append]
  rfl

def nonceKey (frame : Bytes) : Bytes := Hex.hexOf (frameNonce frame)

def Headed (frame : Bytes) : Prop := checkHeader frame = .ok ()

theorem authenticate_kept (scanner : Scanner κ) (frame : Bytes) :
    (scanner.authenticate platform frame).2.seenNonces = scanner.seenNonces ∧
      (scanner.authenticate platform frame).2.cfg = scanner.cfg ∧
      (scanner.authenticate platform frame).2.psk = scanner.psk := by
  unfold authenticate
  split
  · exact ⟨rfl, rfl, rfl⟩
  · simp only
    split <;> exact ⟨rfl, rfl, rfl⟩

theorem hear_cases (scanner : Scanner κ) (call : Bytes × Int) :
    (¬ Headed call.1 ∧ scanner.hear platform call = scanner ∧
      ∃ code, scanner.answer platform call = .error code) ∨
    (Headed call.1 ∧ ((scanner.recent call.2).lookup (nonceKey call.1)).isSome ∧
      scanner.hear platform call = { scanner with seenNonces := scanner.recent call.2 } ∧
      scanner.answer platform call = .ok false) ∨
    (Headed call.1 ∧ (scanner.recent call.2).lookup (nonceKey call.1) = none ∧
      (scanner.hear platform call).seenNonces =
        (scanner.recent call.2).insert (nonceKey call.1) call.2) := by
  unfold hear answer
  cases header : checkHeader call.1 with
  | error code =>
      refine .inl ⟨?_, ?_, code, ?_⟩
      · rw [Headed, header]
        exact fun same => nomatch same
      · rw [handleFrame_headless header]
      · rw [handleFrame_headless header]
  | ok passed =>
      cases found : (scanner.recent call.2).lookup (nonceKey call.1) with
      | none =>
          refine .inr (.inr ⟨header, rfl, ?_⟩)
          rw [handleFrame_new header found]
          exact (authenticate_kept _ _).1
      | some stamp =>
          have seen : ((scanner.recent call.2).lookup (nonceKey call.1)).isSome := by rw [found]; rfl
          refine .inr (.inl ⟨header, rfl, ?_, ?_⟩)
          · rw [handleFrame_seen header seen]
          · rw [handleFrame_seen header seen]

theorem hear_kept (scanner : Scanner κ) (call : Bytes × Int) :
    (scanner.hear platform call).cfg = scanner.cfg ∧
      (scanner.hear platform call).psk = scanner.psk := by
  unfold hear handleFrame
  split
  · exact ⟨rfl, rfl⟩
  · simp only
    split
    · exact ⟨rfl, rfl⟩
    · exact (authenticate_kept _ _).2

theorem listen_kept (scanner : Scanner κ) (calls : List (Bytes × Int)) :
    (scanner.listen platform calls).window = scanner.window ∧
      (scanner.listen platform calls).psk = scanner.psk := by
  induction calls generalizing scanner with
  | nil => exact ⟨rfl, rfl⟩
  | cons call calls ih =>
      obtain ⟨window, psk⟩ := ih (scanner.hear platform call)
      obtain ⟨cfg, same⟩ := @hear_kept κ platform scanner call
      refine ⟨window.trans ?_, psk.trans same⟩
      rw [Scanner.window, cfg]
      rfl

theorem lookup_recent {scanner : Scanner κ} {now stamp : Int} {key : Bytes} :
    (scanner.recent now).lookup key = some stamp ↔
      scanner.seenNonces.lookup key = some stamp ∧ now - stamp ≤ scanner.window := by
  rw [recent, Table.lookup_keep, Option.filter_eq_some_iff]
  simp

theorem stamp_heard {scanner : Scanner κ} (empty : scanner.seenNonces = ∅)
    (calls : List (Bytes × Int)) {key : Bytes} {stamp : Int}
    (found : (scanner.listen platform calls).seenNonces.lookup key = some stamp) :
    ∃ earlier ∈ calls, Headed earlier.1 ∧ nonceKey earlier.1 = key ∧ earlier.2 = stamp := by
  induction calls using List.reverseRecOn with
  | nil =>
      rw [show (scanner.listen platform []).seenNonces = ∅ from empty, AList.lookup_empty] at found
      cases found
  | append_singleton calls call ih =>
      have kept : (scanner.listen platform calls).seenNonces.lookup key = some stamp →
          ∃ earlier ∈ calls ++ [call], Headed earlier.1 ∧ nonceKey earlier.1 = key ∧
            earlier.2 = stamp := by
        intro old
        obtain ⟨earlier, member, heard⟩ := ih old
        exact ⟨earlier, List.mem_append_left _ member, heard⟩
      rw [listen_concat] at found
      rcases @hear_cases κ platform (scanner.listen platform calls) call with
        ⟨-, same, -⟩ | ⟨-, -, same, -⟩ | ⟨headed, -, inserted⟩
      · rw [same] at found
        exact kept found
      · rw [same] at found
        exact kept (lookup_recent.mp found).1
      · rw [inserted, Table.lookup_set] at found
        split at found
        · rename_i key
          cases found
          exact ⟨call, List.mem_append_right _ (List.mem_singleton_self call), headed, key.symm, rfl⟩
        · exact kept (lookup_recent.mp found).1

theorem accepted_stamped {scanner : Scanner κ} {call : Bytes × Int}
    (accepted : scanner.answer platform call = .ok true) :
    (scanner.hear platform call).seenNonces.lookup (nonceKey call.1) = some call.2 := by
  rcases @hear_cases κ platform scanner call with
    ⟨-, -, code, failed⟩ | ⟨-, -, -, dropped⟩ | ⟨-, -, inserted⟩
  · rw [failed] at accepted
    cases accepted
  · rw [dropped] at accepted
    cases accepted
  · rw [inserted]
    exact AList.lookup_insert _

theorem stamp_stays {scanner : Scanner κ} {key : Bytes} {stamp : Int}
    (found : scanner.seenNonces.lookup key = some stamp) (calls : List (Bytes × Int)) :
    (scanner.listen platform calls).seenNonces.lookup key = some stamp ∨
      ∃ later ∈ calls, scanner.window < later.2 - stamp := by
  induction calls using List.reverseRecOn with
  | nil => exact .inl found
  | append_singleton calls call ih =>
      rcases ih with here | ⟨later, member, old⟩
      · by_cases old : scanner.window < call.2 - stamp
        · exact .inr ⟨call, List.mem_append_right _ (List.mem_singleton_self call), old⟩
        · have window := (@listen_kept κ platform scanner calls).1
          have young : ((scanner.listen platform calls).recent call.2).lookup key = some stamp :=
            lookup_recent.mpr ⟨here, by omega⟩
          left
          rw [listen_concat]
          rcases @hear_cases κ platform (scanner.listen platform calls) call with
            ⟨-, same, -⟩ | ⟨-, -, same, -⟩ | ⟨-, fresh, inserted⟩
          · rw [same]
            exact here
          · rw [same]
            exact young
          · rw [inserted, Table.lookup_set, if_neg]
            · exact young
            · rintro rfl
              rw [fresh] at young
              cases young
      · exact .inr ⟨later, List.mem_append_left _ member, old⟩

def Clocked (calls : List (Bytes × Int)) : Prop :=
  calls.Pairwise fun first second => first.2 ≤ second.2

theorem accepted_apart {scanner : Scanner κ} {front middle : List (Bytes × Int)}
    {first second : Bytes × Int} (clocked : Clocked (front ++ first :: (middle ++ [second])))
    (accepted : (scanner.listen platform front).answer platform first = .ok true)
    (again : (scanner.listen platform (front ++ first :: middle)).answer platform second = .ok true)
    (same : frameNonce first.1 = frameNonce second.1) : scanner.window < second.2 - first.2 := by
  have split : scanner.listen platform (front ++ first :: middle) =
      ((scanner.listen platform front).hear platform first).listen platform middle :=
    List.foldl_append
  have window := (@listen_kept κ platform scanner (front ++ first :: middle)).1
  have behind := (List.pairwise_cons.mp (List.pairwise_append.mp clocked).2.1).2
  rcases stamp_stays (accepted_stamped accepted) middle with here | ⟨later, member, old⟩
  · rw [← split] at here
    by_contra young
    have seen : ((scanner.listen platform (front ++ first :: middle)).recent second.2).lookup
        (nonceKey second.1) = some first.2 := by
      rw [nonceKey, ← same]
      exact lookup_recent.mpr ⟨here, by omega⟩
    rcases @hear_cases κ platform (scanner.listen platform (front ++ first :: middle)) second with
      ⟨-, -, code, failed⟩ | ⟨-, -, -, dropped⟩ | ⟨-, fresh, -⟩
    · rw [failed] at again
      cases again
    · rw [dropped] at again
      cases again
    · rw [fresh] at seen
      cases seen
  · have next := (List.pairwise_append.mp behind).2.2 later member second (List.mem_singleton_self _)
    have before := (@hear_kept κ platform (scanner.listen platform front) first).1
    have earlier := (@listen_kept κ platform scanner front).1
    rw [Scanner.window, before] at old
    rw [Scanner.window] at earlier
    omega

theorem new_nonce_accepted (digests : platform.Digests) {scanner : Scanner κ}
    (empty : scanner.seenNonces = ∅) {front : List (Bytes × Int)} {frame : Bytes} {now : Int}
    (headed : Headed frame) (authentic : Authentic platform scanner.psk frame)
    (named : (parsePayload (framePayload frame)).nodeId ≠ [])
    (unseen : ∀ earlier ∈ front, Headed earlier.1 → frameNonce earlier.1 = frameNonce frame →
      scanner.window < now - earlier.2) :
    (scanner.listen platform front).answer platform (frame, now) = .ok true := by
  obtain ⟨window, psk⟩ := @listen_kept κ platform scanner front
  have fresh : ((scanner.listen platform front).recent now).lookup (nonceKey frame) = none := by
    cases found : ((scanner.listen platform front).recent now).lookup (nonceKey frame) with
    | none => rfl
    | some stamp =>
        obtain ⟨listed, young⟩ := lookup_recent.mp found
        obtain ⟨earlier, member, header, key, rfl⟩ := stamp_heard empty front listed
        have old := unseen earlier member header (Hex.hexOf_injective key)
        omega
  rw [answer, handleFrame_accepts digests headed fresh (by rw [psk]; exact authentic) named]

end Scanner

open Scanner in
/-- No nonce is accepted twice in a window, and an authentic frame whose nonce is not in the window is
accepted. -/
theorem replay_window {κ : Type} {platform : Platform UInt8} (digests : platform.Digests)
    {openSocket : UInt16 → Option (UdpSocket UInt8)} {registry : Option (ServiceRegistry κ)}
    {cfg : ScannerConfig} (fits : cfg.Fits) {psk : Bytes} {scanner : Scanner κ}
    (created : Scanner.create openSocket registry cfg psk = some scanner) :
    (∀ front first middle second, Clocked (front ++ first :: (middle ++ [second])) →
      (scanner.listen platform front).answer platform first = .ok true →
      (scanner.listen platform (front ++ first :: middle)).answer platform second = .ok true →
      frameNonce first.1 = frameNonce second.1 →
      cfg.replayWindow.toInt * UdpSocket.second < second.2 - first.2) ∧
    ∀ front frame now, Headed frame → Authentic platform scanner.psk frame →
      (parsePayload (framePayload frame)).nodeId ≠ [] →
      (∀ earlier ∈ front, Headed earlier.1 → frameNonce earlier.1 = frameNonce frame →
        cfg.replayWindow.toInt * UdpSocket.second < now - earlier.2) →
      (scanner.listen platform front).answer platform (frame, now) = .ok true := by
  have fresh : scanner.seenNonces = ∅ ∧ scanner.cfg = cfg := by
    unfold Scanner.create at created
    split at created
    · cases created
    · cases created
      exact ⟨rfl, rfl⟩
  obtain ⟨empty, rfl⟩ := fresh
  rw [← window_fits fits]
  constructor
  · intro front first middle second clocked accepted again same
    exact accepted_apart clocked accepted again same
  · intro front frame now headed authentic named unseen
    exact new_nonce_accepted digests empty headed authentic named unseen

theorem replay_window_sample :
    sampleScanner.answer discoveryPlatform (sampleFrame sampleCode, 0) = .ok true ∧
      (sampleScanner.listen discoveryPlatform [(sampleFrame sampleCode, 0)]).answer discoveryPlatform
        (sampleFrame sampleCode, 300000000001) = .ok true ∧
      sampleScanner.cfg.replayWindow.toInt * UdpSocket.second < 300000000001 - 0 := by
  obtain ⟨apart, accepts⟩ := @replay_window Nat discoveryPlatform discoveryPlatform_digests
    (fun _ => some sampleSocket) (some {}) {} ⟨by decide, by decide⟩ [] sampleScanner rfl
  have authentic : Authentic discoveryPlatform sampleScanner.psk (sampleFrame sampleCode) := by
    decide +kernel
  have named : (parsePayload (framePayload (sampleFrame sampleCode))).nodeId ≠ [] := by decide +kernel
  have first := accepts [] (sampleFrame sampleCode) 0 rfl authentic named (by simp)
  have second := accepts [(sampleFrame sampleCode, 0)] (sampleFrame sampleCode) 300000000001 rfl
    authentic named fun earlier member _ _ => by rw [List.mem_singleton.mp member]; decide
  refine ⟨first, second, ?_⟩
  exact apart [] (_, 0) [] (_, 300000000001) (by unfold Scanner.Clocked; decide) first second rfl

/-- A window of 292 years and nine months is a negative number of nanoseconds, and each call throws
away the whole table. -/
theorem replay_window_wraps : ∃ scanner : Scanner Nat,
    Scanner.create (fun _ => some sampleSocket) (some {}) { replayWindow := 9223372037 } [] =
      some scanner ∧
    scanner.answer discoveryPlatform (sampleFrame sampleCode, 0) = .ok true ∧
    (scanner.listen discoveryPlatform [(sampleFrame sampleCode, 0)]).answer discoveryPlatform
      (sampleFrame sampleCode, 1) = .ok true ∧
    1 - 0 ≤ scanner.cfg.replayWindow.toInt * UdpSocket.second :=
  ⟨_, rfl, by decide +kernel, by decide +kernel, by decide +kernel⟩

end Udaf
