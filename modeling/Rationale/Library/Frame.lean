import Mathlib.Algebra.Group.Nat.Defs
import Mathlib.Data.List.Basic

namespace Rationale.Library

/-!
# Length-prefixed frames in a byte stream

A frame is the length of its payload in four big-endian bytes, and the payload.  A reader takes the
bytes of a stream one by one, and knows from the bytes of the current frame how to go on.

* `frame` — the bytes of a payload;
* `reading` — what a reader with a length limit makes of the bytes that it has;
* `reading_frame`, `reading_eq_more`, `reading_eq_complete_within` — within a frame, it completes
  that frame, at its end;
* `framesIn` — the payloads that a reader finds in a stream, from the bytes of a started frame;
* `cut_flatMap` — a stream of frames is cut at the end of a frame or inside one.
-/

/-- The length bytes, most significant first. -/
def lengthBytes (length : Nat) : List UInt8 :=
  [.ofNat (length / 2 ^ 24), .ofNat (length / 2 ^ 16), .ofNat (length / 2 ^ 8), .ofNat length]

def lengthOf (bytes : List UInt8) : Nat := bytes.foldl (fun length byte => length * 256 + byte.toNat) 0

def frame (payload : List UInt8) : List UInt8 := lengthBytes payload.length ++ payload

inductive Reading where
  | more
  | tooLarge (length : Nat)
  | complete (payload : List UInt8)
  deriving DecidableEq

/-- The limit is checked as soon as the length bytes are there. -/
def reading (limit : Nat) (got : List UInt8) : Reading :=
  if got.length < 4 then .more
  else if limit < lengthOf (got.take 4) then .tooLarge (lengthOf (got.take 4))
  else if got.length < 4 + lengthOf (got.take 4) then .more
  else .complete (got.drop 4)

variable {limit length : Nat} {got payload payload' : List UInt8}

theorem lengthOf_lengthBytes (h : length < 2 ^ 32) : lengthOf (lengthBytes length) = length := by
  simp only [lengthOf, lengthBytes, List.foldl_cons, List.foldl_nil, UInt8.toNat_ofNat']
  omega

/-- Every four bytes are the length bytes of the number that they spell. -/
theorem lengthBytes_lengthOf {header : List UInt8} (hheader : header.length = 4) :
    lengthBytes (lengthOf header) = header := by
  match header, hheader with
  | [a, b, c, d], _ =>
    have ha := a.toNat_lt
    have hb := b.toNat_lt
    have hc := c.toNat_lt
    have hd := d.toNat_lt
    simp only [lengthBytes, lengthOf, List.foldl_cons, List.foldl_nil, List.cons.injEq, and_true,
      ← UInt8.toNat_inj, UInt8.toNat_ofNat']
    omega

theorem length_frame : (frame payload).length = 4 + payload.length := by
  simp only [frame, lengthBytes, List.length_append, List.length_cons, List.length_nil]

theorem frame_ne_nil : frame payload ≠ [] := by
  simp [frame, lengthBytes]

theorem take_frame : (frame payload).take 4 = lengthBytes payload.length := by
  simp [frame, lengthBytes]

theorem drop_frame : (frame payload).drop 4 = payload := by
  simp [frame, lengthBytes]

theorem reading_frame (hlength : payload.length < 2 ^ 32) (hlimit : payload.length ≤ limit) :
    reading limit (frame payload) = .complete payload := by
  unfold reading
  rw [take_frame, lengthOf_lengthBytes hlength, length_frame, drop_frame, if_neg (by omega),
    if_neg (by omega), if_neg (by omega)]

/-- Within the bytes of a frame, a reader completes that frame and at its end only. -/
theorem reading_eq_complete_within (hlength : payload.length < 2 ^ 32)
    (hwithin : got <+: frame payload) (h : reading limit got = .complete payload') :
    got = frame payload ∧ payload' = payload := by
  unfold reading at h
  split at h
  · exact nomatch h
  · rename_i hfour
    have htake : got.take 4 = lengthBytes payload.length := by
      obtain ⟨rest, hrest⟩ := hwithin
      rw [← take_frame, ← hrest, List.take_append_of_le_length (by omega)]
    rw [htake, lengthOf_lengthBytes hlength] at h
    split at h
    · exact nomatch h
    split at h
    · exact nomatch h
    · rename_i hall
      have heq : got = frame payload := by
        apply hwithin.eq_of_length_le
        rw [length_frame]
        omega
      refine ⟨heq, ?_⟩
      rw [heq, drop_frame] at h
      exact (Reading.complete.inj h).symm

/-- Within the bytes of a frame that is not too large, a reader goes on. -/
theorem reading_eq_more {rest : List UInt8} (hlength : payload.length < 2 ^ 32)
    (hlimit : payload.length ≤ limit) (hframe : got ++ rest = frame payload) (hrest : rest ≠ []) :
    reading limit got = .more := by
  have hshort : got.length + rest.length = 4 + payload.length := by
    rw [← List.length_append, hframe, length_frame]
  have hpos : 0 < rest.length := List.length_pos_iff.mpr hrest
  unfold reading
  split
  · rfl
  · have htake : got.take 4 = lengthBytes payload.length := by
      rw [← take_frame, ← hframe, List.take_append_of_le_length (by omega)]
    rw [htake, lengthOf_lengthBytes hlength, if_neg (by omega), if_pos (by omega)]

/-! ### Streams -/

/-- A cut through a concatenation is at the end of a part, or inside the part after it. -/
theorem cut_flatMap {α β : Type*} {f : α → List β} {items : List α} {cut rest : List β}
    (h : cut ++ rest = items.flatMap f) :
    ∃ complete, complete <+: items ∧ (cut = complete.flatMap f ∨
      ∃ item inside missing, complete ++ [item] <+: items ∧ cut = complete.flatMap f ++ inside ∧
        inside ++ missing = f item ∧ inside ≠ [] ∧ missing ≠ []) := by
  induction items generalizing cut with
  | nil => exact ⟨[], List.nil_prefix, Or.inl (List.append_eq_nil_iff.mp h).1⟩
  | cons item items ih =>
    rw [List.flatMap_cons, List.append_eq_append_iff] at h
    obtain ⟨missing, hitem, -⟩ | ⟨cut', rfl, hcut'⟩ := h
    · -- The cut is inside the first part, or at one of its ends.
      by_cases hcut : cut = []
      · exact ⟨[], List.nil_prefix, Or.inl hcut⟩
      by_cases hmissing : missing = []
      · refine ⟨[item], List.prefix_append [item] items, Or.inl ?_⟩
        rw [List.flatMap_singleton, hitem, hmissing, List.append_nil]
      · exact ⟨[], List.nil_prefix, Or.inr ⟨item, cut, missing, List.prefix_append [item] items,
          rfl, hitem.symm, hcut, hmissing⟩⟩
    · obtain ⟨complete, hcomplete, hend⟩ := ih hcut'.symm
      refine ⟨item :: complete, List.prefix_cons_inj item |>.mpr hcomplete, ?_⟩
      obtain rfl | ⟨next, inside, missing, hnext, rfl, hinside⟩ := hend
      · exact Or.inl List.flatMap_cons.symm
      · refine Or.inr ⟨next, inside, missing, (List.prefix_cons_inj item).mpr hnext, ?_, hinside⟩
        rw [List.flatMap_cons, List.append_assoc]

/-- The payloads of the complete frames in a stream, read after the bytes `got` of a started frame.
    A reader does not go on after a frame that is too large. -/
def framesIn (limit : Nat) : List UInt8 → List UInt8 → List (List UInt8)
  | _, [] => []
  | got, byte :: stream =>
    match reading limit (got ++ [byte]) with
    | .more => framesIn limit (got ++ [byte]) stream
    | .tooLarge _ => []
    | .complete payload => payload :: framesIn limit [] stream

theorem framesIn_more {byte : UInt8} {stream : List UInt8}
    (h : reading limit (got ++ [byte]) = .more) :
    framesIn limit got (byte :: stream) = framesIn limit (got ++ [byte]) stream := by
  rw [framesIn, h]

theorem framesIn_complete {byte : UInt8} {stream : List UInt8}
    (h : reading limit (got ++ [byte]) = .complete payload) :
    framesIn limit got (byte :: stream) = payload :: framesIn limit [] stream := by
  rw [framesIn, h]

/-- Within the bytes of a frame, a reader finds no other frame. -/
theorem framesIn_within {stream : List UInt8} (hlength : payload.length < 2 ^ 32)
    (hwithin : got ++ stream <+: frame payload)
    (h : (framesIn limit got stream)[0]? = some payload') : payload' = payload := by
  induction stream generalizing got with
  | nil => exact nomatch h
  | cons byte stream ih =>
    have hnext : got ++ [byte] ++ stream <+: frame payload := by simpa using hwithin
    rw [framesIn] at h
    split at h
    · exact ih hnext h
    · exact nomatch h
    · rename_i complete hcomplete
      obtain rfl := Option.some.inj h
      have hstarted : got ++ [byte] <+: frame payload := (List.prefix_append _ stream).trans hnext
      exact (reading_eq_complete_within hlength hstarted hcomplete).2

end Rationale.Library
