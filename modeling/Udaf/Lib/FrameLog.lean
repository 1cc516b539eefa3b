import Udaf.Lib.Bytes

/-!
Logs made of frames written one after the other. A codec says how one frame is
encoded and how a decoder at the front of the remaining bytes reads it back; the
lemmas say what a reader meets in a whole log, in a log with something behind
it, and in a log cut at any byte.
-/

namespace FrameLog

open ByteString

/-- `decode` reads one frame at the front of its argument and returns its length.
A frame that is there in full is read back, and a proper prefix of one is reported `torn`. -/
structure Codec (α ε : Type) where
  decode : Bytes → Except ε (α × Nat)
  encode : α → Bytes
  Valid : α → Prop
  torn : ε
  decode_bound {bytes : Bytes} {frame : α} {size : Nat} :
    decode bytes = .ok (frame, size) → 0 < size ∧ size ≤ bytes.length
  decode_encode {frame : α} (rest : Bytes) :
    Valid frame → decode (encode frame ++ rest) = .ok (frame, (encode frame).length)
  decode_torn {frame : α} {count : Nat} :
    Valid frame → count < (encode frame).length →
      decode ((encode frame).take count) = .error torn

variable {α ε : Type} (codec : Codec α ε)

def scan (bytes : Bytes) : List α × Option ε :=
  if bytes = [] then ([], none)
  else
    match _found : codec.decode bytes with
    | .error reason => ([], some reason)
    | .ok (frame, size) =>
        let tail := scan (bytes.drop size)
        (frame :: tail.1, tail.2)
termination_by bytes.length
decreasing_by
  have bound := codec.decode_bound _found
  simp only [List.length_drop]
  omega

@[simp] theorem scan_nil : scan codec [] = ([], none) := by
  rw [scan]
  simp

theorem scan_error {bytes : Bytes} {reason : ε} (nonempty : bytes ≠ [])
    (found : codec.decode bytes = .error reason) : scan codec bytes = ([], some reason) := by
  rw [scan, if_neg nonempty]
  split
  · rename_i other equal
    rw [found] at equal
    simp_all
  · rename_i frame size equal
    rw [found] at equal
    simp at equal

theorem scan_ok {bytes : Bytes} {frame : α} {size : Nat} (nonempty : bytes ≠ [])
    (found : codec.decode bytes = .ok (frame, size)) :
    scan codec bytes =
      (frame :: (scan codec (bytes.drop size)).1, (scan codec (bytes.drop size)).2) := by
  rw [scan, if_neg nonempty]
  split
  · rename_i other equal
    rw [found] at equal
    simp at equal
  · rename_i frame' size' equal
    rw [found] at equal
    simp only [Except.ok.injEq, Prod.mk.injEq] at equal
    rw [← equal.1, ← equal.2]

theorem decode_of_scan {bytes : Bytes} {frame : α} {frames : List α}
    (met : (scan codec bytes).1 = frame :: frames) :
    ∃ size, codec.decode bytes = .ok (frame, size) := by
  by_cases empty : bytes = []
  · simp [empty] at met
  · cases found : codec.decode bytes with
    | error reason => simp [scan_error codec empty found] at met
    | ok pair =>
        obtain ⟨first, size⟩ := pair
        rw [scan_ok codec empty found] at met
        exact ⟨size, by rw [(List.cons.inj met).1]⟩

theorem scan_ended {bytes : Bytes} (scanned : scan codec bytes = ([], none)) : bytes = [] := by
  by_contra nonempty
  cases found : codec.decode bytes with
  | error reason =>
      rw [scan_error codec nonempty found] at scanned
      cases scanned
  | ok pair =>
      rw [scan_ok codec nonempty found] at scanned
      cases scanned

theorem scan_stopped {bytes : Bytes} {reason : ε} (scanned : scan codec bytes = ([], some reason)) :
    bytes ≠ [] ∧ codec.decode bytes = .error reason := by
  have nonempty : bytes ≠ [] := by
    rintro rfl
    rw [scan_nil] at scanned
    cases scanned
  refine ⟨nonempty, ?_⟩
  cases found : codec.decode bytes with
  | error other =>
      rw [scan_error codec nonempty found] at scanned
      cases scanned
      rfl
  | ok pair =>
      rw [scan_ok codec nonempty found] at scanned
      cases scanned

theorem scan_continues {bytes : Bytes} {frame : α} {frames : List α} {stop : Option ε}
    (scanned : scan codec bytes = (frame :: frames, stop)) :
    ∃ size, codec.decode bytes = .ok (frame, size) ∧
      scan codec (bytes.drop size) = (frames, stop) := by
  obtain ⟨size, found⟩ := decode_of_scan codec (congrArg Prod.fst scanned)
  have nonempty : bytes ≠ [] := by
    rintro rfl
    rw [scan_nil] at scanned
    cases scanned
  rw [scan_ok codec nonempty found] at scanned
  obtain ⟨first, last⟩ := Prod.mk.inj scanned
  exact ⟨size, found, Prod.ext (List.cons.inj first).2 last⟩

inductive BeginsWith : Bytes → List α → Bytes → Prop
  | nil {bytes : Bytes} : BeginsWith bytes [] bytes
  | cons {bytes rest : Bytes} {frame : α} {size : Nat} {frames : List α} :
      codec.decode bytes = .ok (frame, size) → BeginsWith (bytes.drop size) frames rest →
        BeginsWith bytes (frame :: frames) rest

variable {codec} in
theorem BeginsWith.scan {bytes rest : Bytes} {frames : List α}
    (begins : BeginsWith codec bytes frames rest) :
    scan codec bytes = (frames ++ (scan codec rest).1, (scan codec rest).2) := by
  induction begins with
  | nil => rfl
  | @cons bytes rest frame size frames found _ ih =>
      have nonempty : bytes ≠ [] := by
        have bound := codec.decode_bound found
        rintro rfl
        rw [List.length_nil] at bound
        omega
      rw [scan_ok codec nonempty found, ih]
      rfl

variable {codec} in
theorem BeginsWith.split {bytes rest : Bytes} {front back : List α}
    (begins : BeginsWith codec bytes (front ++ back) rest) :
    ∃ between, BeginsWith codec bytes front between ∧ BeginsWith codec between back rest := by
  induction front generalizing bytes with
  | nil => exact ⟨bytes, .nil, begins⟩
  | cons frame front ih =>
      cases begins with
      | cons found more =>
          obtain ⟨between, first, second⟩ := ih more
          exact ⟨between, .cons found first, second⟩

theorem beginsWith_scan {bytes : Bytes} {frames : List α} {stop : Option ε}
    (scanned : scan codec bytes = (frames, stop)) :
    ∃ rest, BeginsWith codec bytes frames rest ∧ scan codec rest = ([], stop) := by
  induction frames generalizing bytes with
  | nil => exact ⟨bytes, .nil, scanned⟩
  | cons frame frames ih =>
      obtain ⟨size, found, more⟩ := scan_continues codec scanned
      obtain ⟨rest, begins, stopped⟩ := ih more
      exact ⟨rest, .cons found begins, stopped⟩

variable {codec} in
theorem BeginsWith.length_le {bytes rest : Bytes} {frames : List α}
    (begins : BeginsWith codec bytes frames rest) :
    frames.length + rest.length ≤ bytes.length := by
  induction begins with
  | nil => simp
  | cons found _ ih =>
      have bound := codec.decode_bound found
      rw [List.length_drop] at ih
      rw [List.length_cons]
      omega

theorem scan_length_le {bytes : Bytes} {frames : List α} {stop : Option ε}
    (scanned : scan codec bytes = (frames, stop)) : frames.length ≤ bytes.length := by
  obtain ⟨rest, begins, -⟩ := beginsWith_scan codec scanned
  exact Nat.le_trans (Nat.le_add_right _ _) begins.length_le

def encodeAll (frames : List α) : Bytes := frames.flatMap codec.encode

@[simp] theorem encodeAll_nil : encodeAll codec [] = [] := rfl

@[simp] theorem encodeAll_cons (frame : α) (frames : List α) :
    encodeAll codec (frame :: frames) = codec.encode frame ++ encodeAll codec frames := by
  simp [encodeAll]

@[simp] theorem encodeAll_append (front back : List α) :
    encodeAll codec (front ++ back) = encodeAll codec front ++ encodeAll codec back := by
  simp [encodeAll]

theorem encode_pos {frame : α} (valid : codec.Valid frame) : 0 < (codec.encode frame).length :=
  (codec.decode_bound (codec.decode_encode [] valid)).1

theorem encode_ne_nil {frame : α} (valid : codec.Valid frame) (rest : Bytes) :
    codec.encode frame ++ rest ≠ [] := by
  have positive := encode_pos codec valid
  intro empty
  have lengths := congrArg List.length empty
  simp only [List.length_append, List.length_nil] at lengths
  omega

theorem scan_encodeAll_append {frames : List α} (valid : ∀ frame ∈ frames, codec.Valid frame)
    (rest : Bytes) :
    scan codec (encodeAll codec frames ++ rest) =
      (frames ++ (scan codec rest).1, (scan codec rest).2) := by
  induction frames with
  | nil => simp
  | cons frame frames ih =>
      have first : codec.Valid frame := valid frame (by simp)
      rw [encodeAll_cons, List.append_assoc, scan_ok codec (encode_ne_nil codec first _)
        (codec.decode_encode _ first), List.drop_left, ih (fun other member => valid other (by simp [member]))]
      simp

theorem scan_encodeAll {frames : List α} (valid : ∀ frame ∈ frames, codec.Valid frame) :
    scan codec (encodeAll codec frames) = (frames, none) := by
  simpa using scan_encodeAll_append codec valid []

/-- The frames that lie wholly in the first `count` bytes of the log. -/
def wholeBefore (count : Nat) : List α → List α
  | [] => []
  | frame :: frames =>
      if (codec.encode frame).length ≤ count then
        frame :: wholeBefore (count - (codec.encode frame).length) frames
      else []

def OnBoundary (count : Nat) (frames : List α) : Prop :=
  (encodeAll codec frames).take count = encodeAll codec (wholeBefore codec count frames)

theorem wholeBefore_starts (count : Nat) (frames : List α) :
    wholeBefore codec count frames <+: frames := by
  induction frames generalizing count with
  | nil => exact List.prefix_rfl
  | cons first rest ih =>
      simp only [wholeBefore]
      split
      · exact (List.prefix_cons_inj first).mpr (ih _)
      · exact List.nil_prefix

theorem take_encodeAll (count : Nat) (frames : List α) :
    (encodeAll codec frames).take count = encodeAll codec (wholeBefore codec count frames) ∨
      ∃ frame, wholeBefore codec count frames ++ [frame] <+: frames ∧
        ∃ kept, 0 < kept ∧ kept < (codec.encode frame).length ∧
          (encodeAll codec frames).take count =
            encodeAll codec (wholeBefore codec count frames) ++ (codec.encode frame).take kept := by
  induction frames generalizing count with
  | nil => simp [wholeBefore]
  | cons first rest ih =>
      by_cases whole : (codec.encode first).length ≤ count
      · have cut : (encodeAll codec (first :: rest)).take count = codec.encode first ++
            (encodeAll codec rest).take (count - (codec.encode first).length) := by
          rw [encodeAll_cons, List.take_append, List.take_of_length_le whole]
        simp only [wholeBefore, whole, if_true]
        rw [cut]
        rcases ih (count - (codec.encode first).length) with clean | torn
        · exact .inl (by rw [clean, encodeAll_cons])
        · obtain ⟨frame, next, kept, positive, short, equal⟩ := torn
          exact .inr ⟨frame, (List.prefix_cons_inj first).mpr next, kept, positive, short, by
            rw [equal, encodeAll_cons, List.append_assoc]⟩
      · have cut : (encodeAll codec (first :: rest)).take count =
            (codec.encode first).take count := by
          rw [encodeAll_cons, List.take_append_of_le_length (by omega)]
        simp only [wholeBefore, whole, if_false, encodeAll_nil, List.nil_append]
        rw [cut]
        by_cases empty : count = 0
        · exact .inl (by simp [empty])
        · exact .inr ⟨first, List.prefix_append [first] rest, count, by omega, by omega, rfl⟩

theorem torn_not_onBoundary {count kept : Nat} {frames : List α} {frame : α}
    (positive : 0 < kept) (short : kept < (codec.encode frame).length)
    (equal : (encodeAll codec frames).take count =
      encodeAll codec (wholeBefore codec count frames) ++ (codec.encode frame).take kept) :
    ¬ OnBoundary codec count frames := by
  intro clean
  rw [OnBoundary, equal] at clean
  have lengths := congrArg List.length clean
  simp only [List.length_append, List.length_take] at lengths
  omega

/-- What a reader meets in a log cut at any byte: the frames wholly before the cut, and then
the end of the log or, inside a frame, the torn error. -/
theorem scan_take {frames : List α} (valid : ∀ frame ∈ frames, codec.Valid frame) (count : Nat) :
    (scan codec ((encodeAll codec frames).take count)).1 = wholeBefore codec count frames ∧
      ((OnBoundary codec count frames →
          (scan codec ((encodeAll codec frames).take count)).2 = none) ∧
        (¬ OnBoundary codec count frames →
          (scan codec ((encodeAll codec frames).take count)).2 = some codec.torn)) := by
  have kept : ∀ frame ∈ wholeBefore codec count frames, codec.Valid frame :=
    fun frame member => valid frame ((wholeBefore_starts codec count frames).subset member)
  rcases take_encodeAll codec count frames with clean | ⟨frame, next, cut, positive, short, equal⟩
  · rw [clean, scan_encodeAll codec kept]
    exact ⟨rfl, fun _ => rfl, fun torn => absurd clean torn⟩
  · have torn : scan codec ((codec.encode frame).take cut) = ([], some codec.torn) := by
      have member : frame ∈ frames := next.subset (by simp)
      apply scan_error codec _ (codec.decode_torn (valid frame member) short)
      intro empty
      have lengths := congrArg List.length empty
      simp only [List.length_take, List.length_nil] at lengths
      omega
    rw [equal, scan_encodeAll_append codec kept, torn, List.append_nil]
    exact ⟨rfl, fun clean => absurd clean (torn_not_onBoundary codec positive short equal),
      fun _ => rfl⟩

/-- Frames handed one by one to `visit`, which may stop early; a stopped visit succeeds. -/
def visitAll {σ : Type} (visit : σ → α → σ × Bool) :
    σ → List α × Option ε → Except ε Unit × σ
  | acc, ([], none) => (.ok (), acc)
  | acc, ([], some reason) => (.error reason, acc)
  | acc, (frame :: frames, stop) =>
      if (visit acc frame).2 then visitAll visit (visit acc frame).1 (frames, stop)
      else (.ok (), (visit acc frame).1)
termination_by _ scanned => scanned.1.length

theorem visitAll_cons {σ : Type} (visit : σ → α → σ × Bool) (acc : σ) (frame : α)
    (frames : List α) (stop : Option ε) :
    visitAll visit acc (frame :: frames, stop) =
      if (visit acc frame).2 then visitAll visit (visit acc frame).1 (frames, stop)
      else (.ok (), (visit acc frame).1) := by
  rw [visitAll]

def ended : Option ε → Except ε Unit
  | none => .ok ()
  | some reason => .error reason

theorem visitAll_fold {σ : Type} (step : σ → α → σ) (acc : σ) (frames : List α)
    (stop : Option ε) :
    visitAll (fun acc frame => (step acc frame, true)) acc (frames, stop) =
      (ended stop, frames.foldl step acc) := by
  induction frames generalizing acc with
  | nil => cases stop <;> simp [visitAll, ended]
  | cons frame frames ih => simp [visitAll_cons, ih]

end FrameLog
