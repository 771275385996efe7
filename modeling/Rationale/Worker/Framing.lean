import Mathlib.Algebra.Group.Int.Defs
import Rationale.Library.Frame

namespace Rationale.Worker

open Rationale.Library

/-!
# Frames, as the two languages compute them

`ocaml/worker/framing.ml` and `crates/rationale-protocol`: two writers and three readers of one
format.  A channel is the list of the bytes that are still to be read, or have been written.

* `writeFrame`, `readHeader`, `readFrame` — OCaml's, by shifts and masks of integers;
* `decodeFrame`, `checkedFrameLength`, `exchangeWrites` — Rust's, by conversions of `u32`;
* `framing_agrees` — a stream of frames has one reading, and both languages give it that reading.

`Library.frame` and `Library.reading` say what the format is; all five functions are shown to
compute these.
-/

/-! ### `ocaml/worker/framing.ml` -/

inductive ReadError where
  | cleanEof
  | truncated
  | frameTooLarge (length : Nat)
  deriving DecidableEq, Repr

def byte (value shift : Nat) : UInt8 := .ofNat ((value >>> shift) &&& 0xff)

/-- The channel after the frame, or `none` where the source raises `Invalid_argument`. -/
def writeFrame (channel payload : List UInt8) : Option (List UInt8) :=
  let length := payload.length
  if length > 0x7fffffff then none
  else some (channel ++ [byte length 24, byte length 16, byte length 8, byte length 0] ++ payload)

/-- The end of the file at the first byte is a clean one. -/
def readHeader : List UInt8 → Except ReadError Nat × List UInt8
  | [] => (.error .cleanEof, [])
  | first :: second :: third :: fourth :: rest =>
    (.ok ((first.toNat <<< 24) ||| (second.toNat <<< 16) ||| (third.toNat <<< 8)
      ||| fourth.toNat), rest)
  | _ => (.error .truncated, [])

/-- `really_input_string`: all the bytes, or `none` at the end of the file. -/
def reallyInputString (length : Nat) (channel : List UInt8) : Option (List UInt8) × List UInt8 :=
  if length ≤ channel.length then (some (channel.take length), channel.drop length) else (none, [])

def readFrame (maxLength : Int) (channel : List UInt8) :
    Except ReadError (List UInt8) × List UInt8 :=
  match readHeader channel with
  | (.error error, rest) => (.error error, rest)
  | (.ok length, rest) =>
    if (length : Int) > maxLength then (.error (.frameTooLarge length), rest)
    else match reallyInputString length rest with
      | (some payload, rest) => (.ok payload, rest)
      | (none, rest) => (.error .truncated, rest)

/-! ### `crates/rationale-protocol` -/

inductive FrameDecodeError where
  | incompleteHeader
  | frameTooLarge (length limit : Nat)
  | incompletePayload (declared available : Nat)
  | trailingBytes (trailing : Nat)
  deriving DecidableEq, Repr

/-- `u32::from_be_bytes`. -/
def fromBeBytes (bytes : Vector UInt8 4) : UInt32 :=
  (bytes[0].toUInt32 <<< 24) ||| (bytes[1].toUInt32 <<< 16) ||| (bytes[2].toUInt32 <<< 8)
    ||| bytes[3].toUInt32

/-- `u32::to_be_bytes`. -/
def toBeBytes (value : UInt32) : Vector UInt8 4 :=
  #v[(value >>> 24).toUInt8, (value >>> 16).toUInt8, (value >>> 8).toUInt8, value.toUInt8]

def checkedFrameLength (header : Vector UInt8 4) (maxPayload : Nat) :
    Except FrameDecodeError Nat :=
  let length := (fromBeBytes header).toNat
  if length > maxPayload then .error (.frameTooLarge length maxPayload) else .ok length

def decodeFrame (frame : List UInt8) (maxPayload : Nat) :
    Except FrameDecodeError (List UInt8) :=
  match frame with
  | first :: second :: third :: fourth :: _ => do
    let length ← checkedFrameLength #v[first, second, third, fourth] maxPayload
    let available := frame.length - 4
    if available < length then .error (.incompletePayload length available)
    else if available > length then .error (.trailingBytes (available - length))
    else .ok (frame.drop 4)
  | _ => .error .incompleteHeader

/-- What becomes of a message of `Worker::exchange`. -/
inductive Written where
  | frameTooLarge (length limit : Nat)
  /-- The length is not a `u32`, which the source expects it to be. -/
  | panics
  | stdin (bytes : List UInt8)
  deriving DecidableEq, Repr

/-- `u32::try_from`. -/
def tryU32 (length : Nat) : Option UInt32 :=
  if h : length < UInt32.size then some (.ofNatLT length h) else none

/-- `Worker::exchange`, up to the flush of the request. -/
def exchangeWrites (payload : List UInt8) (maxPayload : Nat) : Written :=
  if payload.length > maxPayload then .frameTooLarge payload.length maxPayload
  else match tryU32 payload.length with
    | none => .panics
    | some length => .stdin ((toBeBytes length).toList ++ payload)

/-! ### The length -/

variable {channel payload rest : List UInt8} {maxLength : Int} {length : Nat}

theorem byte_eq (value shift : Nat) : byte value shift = .ofNat (value / 2 ^ shift) := by
  have hmask : (0xff : Nat) = 2 ^ 8 - 1 := rfl
  rw [byte, hmask, Nat.and_two_pow_sub_one_eq_mod, Nat.shiftRight_eq_div_pow, ← UInt8.toNat_inj]
  simp only [UInt8.toNat_ofNat', Nat.mod_mod]

/-- Bits of lower bytes do not overlap those of higher ones. -/
theorem shifted_or_eq (a b c d : UInt8) :
    (a.toNat <<< 24) ||| (b.toNat <<< 16) ||| (c.toNat <<< 8) ||| d.toNat =
      lengthOf [a, b, c, d] := by
  have hb := b.toNat_lt
  have hc := c.toNat_lt
  have hd := d.toNat_lt
  have hab : (a.toNat <<< 24) ||| (b.toNat <<< 16) = (a.toNat * 256 + b.toNat) <<< 16 := by
    rw [← Nat.shiftLeft_add_eq_or_of_lt (by rw [Nat.shiftLeft_eq]; omega)]
    simp only [Nat.shiftLeft_eq]
    omega
  have habc : ((a.toNat * 256 + b.toNat) <<< 16) ||| (c.toNat <<< 8) =
      ((a.toNat * 256 + b.toNat) * 256 + c.toNat) <<< 8 := by
    rw [← Nat.shiftLeft_add_eq_or_of_lt (by rw [Nat.shiftLeft_eq]; omega)]
    simp only [Nat.shiftLeft_eq]
    omega
  rw [hab, habc, ← Nat.shiftLeft_add_eq_or_of_lt hd]
  simp only [lengthOf, List.foldl_cons, List.foldl_nil, Nat.shiftLeft_eq]
  omega

theorem toNat_fromBeBytes (a b c d : UInt8) :
    (fromBeBytes #v[a, b, c, d]).toNat = lengthOf [a, b, c, d] := by
  have ha := a.toNat_lt
  have hb := b.toNat_lt
  have hc := c.toNat_lt
  have hshift : ∀ (byte : UInt8) (shift : UInt32), shift.toNat ≤ 24 →
      (byte.toUInt32 <<< shift).toNat = byte.toNat <<< shift.toNat := by
    intro byte shift hle
    have hlt := byte.toNat_lt
    have hpow : 2 ^ shift.toNat ≤ 2 ^ 24 := Nat.pow_le_pow_right (by decide) hle
    have hmul := Nat.mul_le_mul (Nat.le_of_lt_succ hlt) hpow
    rw [UInt32.toNat_shiftLeft, UInt8.toNat_toUInt32, Nat.mod_eq_of_lt (a := shift.toNat) (by omega),
      Nat.shiftLeft_eq, Nat.mod_eq_of_lt (by omega)]
  rw [← shifted_or_eq]
  show ((a.toUInt32 <<< 24) ||| (b.toUInt32 <<< 16) ||| (c.toUInt32 <<< 8) ||| d.toUInt32).toNat = _
  rw [UInt32.toNat_or, UInt32.toNat_or, UInt32.toNat_or, hshift a 24 (by decide),
    hshift b 16 (by decide), hshift c 8 (by decide), UInt8.toNat_toUInt32]
  rfl

theorem toList_toBeBytes (value : UInt32) : (toBeBytes value).toList = lengthBytes value.toNat := by
  show [(value >>> 24).toUInt8, (value >>> 16).toUInt8, (value >>> 8).toUInt8, value.toUInt8] = _
  simp only [lengthBytes, List.cons.injEq, and_true, ← UInt8.toNat_inj, UInt32.toNat_toUInt8,
    UInt32.toNat_shiftRight, UInt8.toNat_ofNat', Nat.shiftRight_eq_div_pow]
  exact ⟨rfl, rfl, rfl⟩

/-! ### Frames -/

/-- **OCaml writes frames**, of payloads that are short enough. -/
theorem writeFrame_eq (channel payload : List UInt8) :
    writeFrame channel payload =
      if payload.length < 2 ^ 31 then some (channel ++ frame payload) else none := by
  have hbytes : [byte payload.length 24, byte payload.length 16, byte payload.length 8,
      byte payload.length 0] = lengthBytes payload.length := by
    simp only [byte_eq, lengthBytes, Nat.pow_zero, Nat.div_one]
  show (if payload.length > 0x7fffffff then none else some _) = _
  rw [hbytes, List.append_assoc]
  by_cases hlength : payload.length < 2 ^ 31
  · rw [if_pos hlength, if_neg (by omega)]
    rfl
  · rw [if_neg hlength, if_pos (by omega)]

theorem readHeader_cons (a b c d : UInt8) (rest : List UInt8) :
    readHeader (a :: b :: c :: d :: rest) = (.ok (lengthOf [a, b, c, d]), rest) := by
  rw [readHeader, shifted_or_eq]

/-- A header is read from four bytes, and leaves the bytes behind it. -/
theorem readHeader_append {header : List UInt8} (hheader : header.length = 4)
    (rest : List UInt8) : readHeader (header ++ rest) = (.ok (lengthOf header), rest) := by
  match header, hheader with
  | [a, b, c, d], _ => exact readHeader_cons a b c d rest

theorem length_take_four {bytes : List UInt8} (hfour : ¬ bytes.length < 4) :
    (bytes.take 4).length = 4 := by
  rw [List.length_take]
  omega

theorem readHeader_of_four_le (hfour : ¬ channel.length < 4) :
    readHeader channel = (.ok (lengthOf (channel.take 4)), channel.drop 4) := by
  have hread := readHeader_append (length_take_four hfour) (channel.drop 4)
  rw [List.take_append_drop] at hread
  exact hread

/-- Fewer than four bytes hold no header. -/
theorem readHeader_short (hshort : channel.length < 4) :
    readHeader channel =
      (.error (if channel = [] then .cleanEof else .truncated), []) := by
  match channel, hshort with
  | [], _ => rfl
  | [_], _ => rfl
  | [_, _], _ => rfl
  | [_, _, _], _ => rfl

/-- What a header declares, and the bytes behind it. -/
theorem readHeader_eq_ok_iff :
    readHeader channel = (.ok length, rest) ↔
      4 ≤ channel.length ∧ lengthOf (channel.take 4) = length ∧ channel.drop 4 = rest := by
  by_cases hfour : channel.length < 4
  · rw [readHeader_short hfour]
    exact iff_of_false (fun h => by cases (Prod.mk.inj h).1) (fun h => absurd h.1 (by omega))
  · rw [readHeader_of_four_le hfour, Prod.mk.injEq, Except.ok.injEq]
    exact ⟨fun h => ⟨by omega, h⟩, fun h => h.2⟩

/-- **What OCaml reads**, check by check. -/
theorem readFrame_append {header : List UInt8} (hheader : header.length = 4) (maxLength : Int)
    (rest : List UInt8) :
    readFrame maxLength (header ++ rest) =
      if (lengthOf header : Int) > maxLength then (.error (.frameTooLarge (lengthOf header)), rest)
      else if lengthOf header ≤ rest.length then
        (.ok (rest.take (lengthOf header)), rest.drop (lengthOf header))
      else (.error .truncated, []) := by
  unfold readFrame
  rw [readHeader_append hheader]
  show (if _ then _ else _) = _
  split
  · rfl
  · unfold reallyInputString
    by_cases hall : lengthOf header ≤ rest.length
    · rw [if_pos hall, if_pos hall]
    · rw [if_neg hall, if_neg hall]

theorem readFrame_of_four_le (hfour : ¬ channel.length < 4) (maxLength : Int) :
    readFrame maxLength channel =
      if (lengthOf (channel.take 4) : Int) > maxLength then
        (.error (.frameTooLarge (lengthOf (channel.take 4))), channel.drop 4)
      else if lengthOf (channel.take 4) ≤ (channel.drop 4).length then
        (.ok ((channel.drop 4).take (lengthOf (channel.take 4))),
          (channel.drop 4).drop (lengthOf (channel.take 4)))
      else (.error .truncated, []) := by
  have hread := readFrame_append (length_take_four hfour) maxLength (channel.drop 4)
  rw [List.take_append_drop] at hread
  exact hread

theorem readFrame_short (hshort : channel.length < 4) :
    readFrame maxLength channel =
      (.error (if channel = [] then .cleanEof else .truncated), []) := by
  unfold readFrame
  rw [readHeader_short hshort]

/-- **A frame is read back**, whatever follows it. -/
theorem readFrame_frame (hlength : payload.length < 2 ^ 32) (hmax : (payload.length : Int) ≤ maxLength)
    (rest : List UInt8) : readFrame maxLength (frame payload ++ rest) = (.ok payload, rest) := by
  have happend : frame payload ++ rest = lengthBytes payload.length ++ (payload ++ rest) :=
    List.append_assoc _ _ _
  rw [happend, readFrame_append rfl, lengthOf_lengthBytes hlength, if_neg (by omega),
    if_pos (by rw [List.length_append]; omega), List.take_left, List.drop_left]

/-- **Part of a frame is truncated.** -/
theorem readFrame_inside {inside missing : List UInt8} (hlength : payload.length < 2 ^ 32)
    (hmax : (payload.length : Int) ≤ maxLength) (hframe : inside ++ missing = frame payload)
    (hinside : inside ≠ []) (hmissing : missing ≠ []) :
    readFrame maxLength inside = (.error .truncated, []) := by
  have hpos : 0 < missing.length := List.length_pos_iff.mpr hmissing
  have htotal : inside.length + missing.length = 4 + payload.length := by
    rw [← List.length_append, hframe, length_frame]
  by_cases hfour : inside.length < 4
  · rw [readFrame_short hfour, if_neg hinside]
  · -- The header is complete, and declares more than there is.
    have htake : inside.take 4 = lengthBytes payload.length := by
      rw [← take_frame, ← hframe, List.take_append_of_le_length (by omega)]
    rw [readFrame_of_four_le hfour, htake, lengthOf_lengthBytes hlength, if_neg (by omega),
      if_neg (by rw [List.length_drop]; omega)]

/-- A frame takes bytes from the channel. -/
theorem length_lt_of_readFrame (h : readFrame maxLength channel = (.ok payload, rest)) :
    rest.length < channel.length := by
  by_cases hfour : channel.length < 4
  · rw [readFrame_short hfour] at h
    cases (Prod.mk.inj h).1
  · rw [readFrame_of_four_le hfour] at h
    split at h
    · cases (Prod.mk.inj h).1
    split at h
    · rw [← (Prod.mk.inj h).2, List.length_drop, List.length_drop]
      omega
    · cases (Prod.mk.inj h).1

/-- `Library.reading`, the reader that the worker's loop is made of, is `read_frame`. -/
theorem reading_eq_readFrame (limit : Nat) (got : List UInt8) :
    reading limit got = match readFrame limit got with
      | (.ok payload, rest) => .complete (payload ++ rest)
      | (.error (.frameTooLarge length), _) => .tooLarge length
      | (.error _, _) => .more := by
  unfold reading
  by_cases hfour : got.length < 4
  · rw [if_pos hfour, readFrame_short hfour]
    by_cases hnil : got = []
    · rw [if_pos hnil]
    · rw [if_neg hnil]
  · have hdrop : (got.drop 4).length = got.length - 4 := List.length_drop
    rw [if_neg hfour, readFrame_of_four_le hfour]
    by_cases hlarge : limit < lengthOf (got.take 4)
    · have hlarge' : (lengthOf (got.take 4) : Int) > limit := by omega
      rw [if_pos hlarge, if_pos hlarge']
    · have hlarge' : ¬ (lengthOf (got.take 4) : Int) > limit := by omega
      rw [if_neg hlarge, if_neg hlarge']
      by_cases hall : got.length < 4 + lengthOf (got.take 4)
      · have hall' : ¬ lengthOf (got.take 4) ≤ (got.drop 4).length := by omega
        rw [if_pos hall, if_neg hall']
      · have hall' : lengthOf (got.take 4) ≤ (got.drop 4).length := by omega
        rw [if_neg hall, if_pos hall']
        show _ = Reading.complete _
        rw [List.take_append_drop]

/-! ### Streams of frames -/

/-- Frame after frame, up to the first error. -/
def readFrames (maxLength : Int) (channel : List UInt8) : List (List UInt8) × ReadError :=
  match h : readFrame maxLength channel with
  | (.error error, _) => ([], error)
  | (.ok payload, rest) =>
    have := length_lt_of_readFrame h
    let (payloads, error) := readFrames maxLength rest
    (payload :: payloads, error)
termination_by channel.length

theorem readFrames_error {error : ReadError}
    (h : readFrame maxLength channel = (.error error, rest)) :
    readFrames maxLength channel = ([], error) := by
  rw [readFrames]
  split
  · rename_i heq
    rw [h] at heq
    cases heq
    rfl
  · rename_i heq
    rw [h] at heq
    cases heq

theorem readFrames_ok (h : readFrame maxLength channel = (.ok payload, rest)) :
    readFrames maxLength channel =
      (payload :: (readFrames maxLength rest).1, (readFrames maxLength rest).2) := by
  rw [readFrames]
  split
  · rename_i heq
    rw [h] at heq
    cases heq
  · rename_i heq
    rw [h] at heq
    cases heq
    rfl

/-- The frames at the start of a channel are read first. -/
theorem readFrames_append {payloads : List (List UInt8)} (hmax : maxLength < 2 ^ 31)
    (hpayloads : ∀ payload ∈ payloads, (payload.length : Int) ≤ maxLength) (rest : List UInt8) :
    readFrames maxLength (payloads.flatMap frame ++ rest) =
      (payloads ++ (readFrames maxLength rest).1, (readFrames maxLength rest).2) := by
  induction payloads with
  | nil => rfl
  | cons payload payloads ih =>
    obtain ⟨hpayload, hpayloads⟩ := List.forall_mem_cons.mp hpayloads
    rw [List.flatMap_cons, List.append_assoc,
      readFrames_ok (readFrame_frame (by omega) hpayload _), ih hpayloads]
    rfl

theorem foldlM_writeFrame {payloads : List (List UInt8)} (hmax : maxLength < 2 ^ 31)
    (hpayloads : ∀ payload ∈ payloads, (payload.length : Int) ≤ maxLength) (channel : List UInt8) :
    payloads.foldlM writeFrame channel = some (channel ++ payloads.flatMap frame) := by
  induction payloads generalizing channel with
  | nil => rw [List.flatMap_nil, List.append_nil]; rfl
  | cons payload payloads ih =>
    obtain ⟨hpayload, hpayloads⟩ := List.forall_mem_cons.mp hpayloads
    rw [List.foldlM_cons, writeFrame_eq, if_pos (by omega)]
    show payloads.foldlM writeFrame (channel ++ frame payload) = _
    rw [ih hpayloads, List.flatMap_cons, List.append_assoc]

/-- **The frames that are complete are read**, and the end of the channel is clean at the end of a
    frame and nowhere else. -/
theorem readFrames_cut {payloads : List (List UInt8)} (hmax : maxLength < 2 ^ 31)
    (hpayloads : ∀ payload ∈ payloads, (payload.length : Int) ≤ maxLength) {cut rest : List UInt8}
    (hcut : cut ++ rest = payloads.flatMap frame) :
    ∃ complete, complete <+: payloads ∧
      (cut = complete.flatMap frame ∧ readFrames maxLength cut = (complete, .cleanEof) ∨
      (∃ payload inside missing, complete ++ [payload] <+: payloads ∧
        cut = complete.flatMap frame ++ inside ∧ inside ++ missing = frame payload ∧
        inside ≠ [] ∧ missing ≠ []) ∧ readFrames maxLength cut = (complete, .truncated)) := by
  obtain ⟨complete, hcomplete, hend⟩ := cut_flatMap hcut
  have hread := @readFrames_append maxLength complete hmax
    (fun payload hmem => hpayloads payload (hcomplete.subset hmem))
  refine ⟨complete, hcomplete, ?_⟩
  obtain rfl | ⟨payload, inside, missing, hnext, rfl, hframe, hinside, hmissing⟩ := hend
  · refine Or.inl ⟨rfl, ?_⟩
    have hnil : readFrames maxLength [] = ([], .cleanEof) := readFrames_error rfl
    have hread := hread []
    rw [hnil, List.append_nil, List.append_nil] at hread
    exact hread
  · refine Or.inr ⟨⟨payload, inside, missing, hnext, rfl, hframe, hinside, hmissing⟩, ?_⟩
    have hpayload : (payload.length : Int) ≤ maxLength :=
      hpayloads payload (hnext.subset (List.mem_append_right _ (List.mem_singleton_self payload)))
    have htruncated := readFrame_inside (by omega) hpayload hframe hinside hmissing
    rw [hread, readFrames_error htruncated, List.append_nil]

/-! ### One frame -/

theorem decodeFrame_short {bytes : List UInt8} (hshort : bytes.length < 4) (limit : Nat) :
    decodeFrame bytes limit = .error .incompleteHeader := by
  match bytes, hshort with
  | [], _ => rfl
  | [_], _ => rfl
  | [_, _], _ => rfl
  | [_, _, _], _ => rfl

/-- **What Rust decodes**, check by check. -/
theorem decodeFrame_append {header : List UInt8} (hheader : header.length = 4)
    (rest : List UInt8) (limit : Nat) :
    decodeFrame (header ++ rest) limit =
      if lengthOf header > limit then .error (.frameTooLarge (lengthOf header) limit)
      else if rest.length < lengthOf header then
        .error (.incompletePayload (lengthOf header) rest.length)
      else if rest.length > lengthOf header then
        .error (.trailingBytes (rest.length - lengthOf header))
      else .ok rest := by
  match header, hheader with
  | [a, b, c, d], _ =>
    show (checkedFrameLength #v[a, b, c, d] limit >>= _) = _
    unfold checkedFrameLength
    rw [toNat_fromBeBytes]
    by_cases hlarge : lengthOf [a, b, c, d] > limit
    · rw [if_pos hlarge, if_pos hlarge]
      rfl
    · rw [if_neg hlarge, if_neg hlarge]
      rfl

theorem decodeFrame_of_four_le {bytes : List UInt8} (hfour : ¬ bytes.length < 4) (limit : Nat) :
    decodeFrame bytes limit =
      if lengthOf (bytes.take 4) > limit then
        .error (.frameTooLarge (lengthOf (bytes.take 4)) limit)
      else if (bytes.drop 4).length < lengthOf (bytes.take 4) then
        .error (.incompletePayload (lengthOf (bytes.take 4)) (bytes.drop 4).length)
      else if (bytes.drop 4).length > lengthOf (bytes.take 4) then
        .error (.trailingBytes ((bytes.drop 4).length - lengthOf (bytes.take 4)))
      else .ok (bytes.drop 4) := by
  have hdecode := decodeFrame_append (length_take_four hfour) (bytes.drop 4) limit
  rw [List.take_append_drop] at hdecode
  exact hdecode

/-- The error that describes the first check which fails. -/
inductive FirstFailure (bytes : List UInt8) (limit : Nat) : FrameDecodeError → Prop where
  | incompleteHeader (hshort : bytes.length < 4) : FirstFailure bytes limit .incompleteHeader
  | frameTooLarge {length : Nat} {rest : List UInt8}
      (hheader : readHeader bytes = (.ok length, rest)) (hlarge : limit < length) :
      FirstFailure bytes limit (.frameTooLarge length limit)
  | incompletePayload {declared : Nat} {rest : List UInt8}
      (hheader : readHeader bytes = (.ok declared, rest)) (hlimit : declared ≤ limit)
      (hshort : rest.length < declared) :
      FirstFailure bytes limit (.incompletePayload declared rest.length)
  | trailingBytes {declared : Nat} {rest : List UInt8}
      (hheader : readHeader bytes = (.ok declared, rest)) (hlimit : declared ≤ limit)
      (hlong : declared < rest.length) :
      FirstFailure bytes limit (.trailingBytes (rest.length - declared))

/-- `Library.reading`, which the supervisor makes of the bytes of a reply, is `decode_frame` of these
    bytes: before they are a frame there is more to read. -/
theorem reading_eq_decodeFrame (limit : Nat) (got : List UInt8) :
    reading limit got = match decodeFrame got limit with
      | .ok payload => .complete payload
      | .error (.frameTooLarge length _) => .tooLarge length
      | .error (.trailingBytes _) => .complete (got.drop 4)
      | .error _ => .more := by
  unfold reading
  by_cases hfour : got.length < 4
  · rw [if_pos hfour, decodeFrame_short hfour]
  · have hdrop : (got.drop 4).length = got.length - 4 := List.length_drop
    rw [if_neg hfour, decodeFrame_of_four_le hfour]
    by_cases hlarge : limit < lengthOf (got.take 4)
    · rw [if_pos hlarge, if_pos hlarge]
    · rw [if_neg hlarge, if_neg hlarge]
      by_cases hall : got.length < 4 + lengthOf (got.take 4)
      · have hall' : (got.drop 4).length < lengthOf (got.take 4) := by omega
        rw [if_pos hall, if_pos hall']
      · have hall' : ¬ (got.drop 4).length < lengthOf (got.take 4) := by omega
        rw [if_neg hall, if_neg hall']
        by_cases htrailing : (got.drop 4).length > lengthOf (got.take 4)
        · rw [if_pos htrailing]
        · rw [if_neg htrailing]

theorem decodeFrame_eq_error_iff {bytes : List UInt8} {limit : Nat} {error : FrameDecodeError} :
    decodeFrame bytes limit = .error error ↔ FirstFailure bytes limit error := by
  by_cases hfour : bytes.length < 4
  · rw [decodeFrame_short hfour, Except.error.injEq]
    have hnone : ∀ {length rest}, readHeader bytes ≠ (.ok length, rest) := fun h =>
      absurd (readHeader_eq_ok_iff.mp h).1 (by omega)
    constructor
    · rintro rfl
      exact .incompleteHeader hfour
    · intro h
      cases h with
      | incompleteHeader => rfl
      | frameTooLarge hheader => exact absurd hheader hnone
      | incompletePayload hheader => exact absurd hheader hnone
      | trailingBytes hheader => exact absurd hheader hnone
  · have hread := readHeader_of_four_le hfour
    rw [decodeFrame_of_four_le hfour]
    constructor
    · -- the checks one after the other
      intro h
      split at h
      · obtain rfl := Except.error.inj h
        exact .frameTooLarge hread (by omega)
      split at h
      · obtain rfl := Except.error.inj h
        exact .incompletePayload hread (by omega) (by omega)
      split at h
      · obtain rfl := Except.error.inj h
        exact .trailingBytes hread (by omega) (by omega)
      · cases h
    · intro h
      cases h with
      | incompleteHeader hshort => exact absurd hshort hfour
      | frameTooLarge hheader hlarge =>
        obtain ⟨hlength, rfl⟩ := Prod.mk.inj (hread.symm.trans hheader)
        obtain rfl := Except.ok.inj hlength
        rw [if_pos hlarge]
      | incompletePayload hheader hlimit hshort =>
        obtain ⟨hlength, rfl⟩ := Prod.mk.inj (hread.symm.trans hheader)
        obtain rfl := Except.ok.inj hlength
        rw [if_neg (by omega), if_pos hshort]
      | trailingBytes hheader hlimit hlong =>
        obtain ⟨hlength, rfl⟩ := Prod.mk.inj (hread.symm.trans hheader)
        obtain rfl := Except.ok.inj hlength
        rw [if_neg (by omega), if_neg (by omega), if_pos hlong]

/-- **Rust decodes what OCaml writes**, and nothing else. -/
theorem decodeFrame_eq_ok_iff {bytes : List UInt8} {limit : Nat} (hlimit : limit < 2 ^ 31) :
    decodeFrame bytes limit = .ok payload ↔
      writeFrame [] payload = some bytes ∧ payload.length ≤ limit := by
  rw [writeFrame_eq, List.nil_append]
  constructor
  · intro h
    by_cases hfour : bytes.length < 4
    · rw [decodeFrame_short hfour] at h
      cases h
    · -- every check has passed: what follows the header is as long as it declares
      rw [decodeFrame_of_four_le hfour] at h
      split at h
      · cases h
      split at h
      · cases h
      split at h
      · cases h
      · obtain rfl := Except.ok.inj h
        have hlength : (bytes.drop 4).length = lengthOf (bytes.take 4) := by omega
        refine ⟨?_, by omega⟩
        rw [if_pos (by omega), frame, hlength, lengthBytes_lengthOf (length_take_four hfour),
          List.take_append_drop]
  · rintro ⟨hwrite, hlength⟩
    rw [if_pos (by omega)] at hwrite
    obtain rfl := Option.some.inj hwrite
    rw [frame, decodeFrame_append rfl, lengthOf_lengthBytes (by omega), if_neg (by omega),
      if_neg (by omega), if_neg (by omega)]

/-- The request of an exchange is a frame. -/
theorem exchangeWrites_eq (maxPayload : Nat) (hlength : payload.length < 2 ^ 32) :
    exchangeWrites payload maxPayload =
      if maxPayload < payload.length then .frameTooLarge payload.length maxPayload
      else .stdin (frame payload) := by
  have hu32 : tryU32 payload.length = some (.ofNatLT payload.length hlength) := dif_pos hlength
  unfold exchangeWrites
  rw [hu32]
  show (if _ then _ else Written.stdin ((toBeBytes _).toList ++ payload)) = _
  rw [toList_toBeBytes]
  rfl

/-- Whatever is written begins with a length that OCaml reads as that of the payload. -/
theorem readHeader_of_exchangeWrites {maxPayload : Nat} {bytes : List UInt8}
    (h : exchangeWrites payload maxPayload = .stdin bytes) :
    readHeader bytes = (.ok payload.length, payload) := by
  by_cases hlength : payload.length < 2 ^ 32
  · rw [exchangeWrites_eq maxPayload hlength] at h
    split at h
    · cases h
    · obtain rfl := Written.stdin.inj h
      rw [frame, readHeader_append rfl, lengthOf_lengthBytes hlength]
  · -- the conversion to `u32` fails, and nothing is written
    have hu32 : tryU32 payload.length = none := dif_neg hlength
    unfold exchangeWrites at h
    rw [hu32] at h
    split at h <;> cases h

/-! ### One format in two languages -/

/-- **Framing is uniquely decodable and the two languages agree.**  OCaml reads exactly the payloads
    whose frames were written, and of a cut stream exactly those that are complete; a header above
    the limit leaves the bytes behind it in the channel; Rust decodes exactly the frames that OCaml
    writes, and reports the first check that fails; and OCaml reads the length that Rust writes. -/
theorem framing_agrees {maxLength : Int} {limit : Nat} (hmax : maxLength < 2 ^ 31)
    (hlimit : limit < 2 ^ 31) :
    (∀ payloads : List (List UInt8),
      (∀ payload ∈ payloads, (payload.length : Int) ≤ maxLength) →
      ∃ stream, payloads.foldlM writeFrame [] = some stream ∧
        readFrames maxLength stream = (payloads, .cleanEof) ∧
        ∀ cut rest, cut ++ rest = stream → ∃ complete, complete <+: payloads ∧
          (complete.foldlM writeFrame [] = some cut ∧
              readFrames maxLength cut = (complete, .cleanEof) ∨
            (∃ payload inside missing written, complete ++ [payload] <+: payloads ∧
              complete.foldlM writeFrame [] = some written ∧ cut = written ++ inside ∧
              writeFrame [] payload = some (inside ++ missing) ∧ inside ≠ [] ∧ missing ≠ []) ∧
              readFrames maxLength cut = (complete, .truncated))) ∧
    (∀ channel length rest, readHeader channel = (.ok length, rest) → maxLength < length →
      readFrame maxLength channel = (.error (.frameTooLarge length), rest) ∧
        rest = channel.drop 4) ∧
    (∀ bytes payload, decodeFrame bytes limit = .ok payload ↔
      writeFrame [] payload = some bytes ∧ payload.length ≤ limit) ∧
    (∀ bytes error, decodeFrame bytes limit = .error error ↔ FirstFailure bytes limit error) ∧
    (∀ payload, payload.length ≤ limit → ∃ bytes, exchangeWrites payload limit = .stdin bytes ∧
      writeFrame [] payload = some bytes) ∧
    (∀ payload maxPayload bytes, exchangeWrites payload maxPayload = .stdin bytes →
      readHeader bytes = (.ok payload.length, payload)) := by
  refine ⟨fun payloads hpayloads => ?_, fun channel length rest hheader hlarge => ?_,
    fun bytes payload => decodeFrame_eq_ok_iff hlimit, fun bytes error => decodeFrame_eq_error_iff,
    fun payload hlength => ⟨frame payload, ?_, ?_⟩,
    fun payload maxPayload bytes hwrites => readHeader_of_exchangeWrites hwrites⟩
  · -- the stream of the frames, and its cuts
    have hwrite : ∀ complete, complete <+: payloads →
        complete.foldlM writeFrame [] = some (complete.flatMap frame) := fun complete hcomplete =>
      foldlM_writeFrame hmax (fun payload hmem => hpayloads payload (hcomplete.subset hmem)) []
    have hnil : readFrames maxLength [] = ([], .cleanEof) := readFrames_error rfl
    have hread := readFrames_append hmax hpayloads []
    rw [hnil, List.append_nil, List.append_nil] at hread
    refine ⟨_, hwrite payloads List.prefix_rfl, hread, fun cut rest hcut => ?_⟩
    obtain ⟨complete, hcomplete, hend⟩ := readFrames_cut hmax hpayloads hcut
    refine ⟨complete, hcomplete, ?_⟩
    obtain ⟨rfl, hclean⟩ | ⟨⟨payload, inside, missing, hnext, hinside, hframe, hends⟩, htruncated⟩ :=
      hend
    · exact Or.inl ⟨hwrite complete hcomplete, hclean⟩
    · refine Or.inr ⟨⟨payload, inside, missing, _, hnext, hwrite complete hcomplete, hinside, ?_,
        hends⟩, htruncated⟩
      have hpayload : (payload.length : Int) ≤ maxLength :=
        hpayloads payload (hnext.subset (List.mem_append_right _ (List.mem_singleton_self payload)))
      rw [writeFrame_eq, if_pos (by omega), hframe, List.nil_append]
  · -- a header above the limit
    refine ⟨?_, (readHeader_eq_ok_iff.mp hheader).2.2.symm⟩
    unfold readFrame
    rw [hheader]
    show (if _ then _ else _) = _
    rw [if_pos hlarge]
  · rw [exchangeWrites_eq limit (by omega), if_neg (by omega)]
  · rw [writeFrame_eq, if_pos (by omega), List.nil_append]

/-- A payload of two bytes, written and read by both. -/
theorem framing_agrees_two_bytes :
    readFrames 64 [0, 0, 0, 2, 104, 105] = ([[104, 105]], .cleanEof) ∧
      decodeFrame [0, 0, 0, 2, 104, 105] 64 = .ok [104, 105] := by
  have h := @framing_agrees 64 64 (by decide) (by decide)
  obtain ⟨stream, hwrite, hread, -⟩ := h.1 [[104, 105]] (by decide)
  have hstream : [[104, 105]].foldlM writeFrame [] = some [0, 0, 0, 2, 104, 105] := by decide
  obtain rfl := Option.some.inj (hstream.symm.trans hwrite)
  exact ⟨hread, (h.2.2.1 _ _).mpr ⟨by decide, by decide⟩⟩

end Rationale.Worker
