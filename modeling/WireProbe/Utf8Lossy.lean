import Mathlib.Data.List.Basic
import Mathlib.Tactic.Common

/-!
# Lossy decoding of UTF-8

Bytes are decoded character by character. Where no character begins, the
longest start of one that is there, or else one byte, stands as a replacement
character and the decoding goes on behind it.
-/

set_option autoImplicit false

namespace WireProbe.Utf8Lossy

/-- The character that some bytes begin with. -/
def decodeFirst (bytes : List UInt8) : Option Char := bytes.toByteArray.utf8DecodeChar? 0

def continuation (b : UInt8) : Bool := 0x80 ≤ b ∧ b ≤ 0xBF

/-- Whether a second byte can follow the first one of three or four. -/
def secondOfMany (first second : UInt8) : Bool :=
  if first = 0xE0 then 0xA0 ≤ second ∧ second ≤ 0xBF
  else if 0xE1 ≤ first ∧ first ≤ 0xEC then continuation second
  else if first = 0xED then 0x80 ≤ second ∧ second ≤ 0x9F
  else if 0xEE ≤ first ∧ first ≤ 0xEF then continuation second
  else if first = 0xF0 then 0x90 ≤ second ∧ second ≤ 0xBF
  else if 0xF1 ≤ first ∧ first ≤ 0xF3 then continuation second
  else if first = 0xF4 then 0x80 ≤ second ∧ second ≤ 0x8F
  else false

/-- How many bytes one replacement stands for, where no character begins. -/
def malformed : List UInt8 → ℕ
  | first::second::third::_ =>
    if secondOfMany first second then
      if 0xF0 ≤ first ∧ continuation third then 3 else 2
    else 1
  | [first,second] => if secondOfMany first second then 2 else 1
  | _ => 1

def replacement : Char := Char.ofNat 0xFFFD

/-- The decoding once some more bytes have been passed. -/
def lossyFrom : ℕ → List UInt8 → List Char
  | _, [] => []
  | skipped+1, _::bytes => lossyFrom skipped bytes
  | 0, b::bytes =>
    match decodeFirst (b::bytes) with
    | some c => c::lossyFrom (c.utf8Size-1) bytes
    | none => replacement::lossyFrom (malformed (b::bytes)-1) bytes

def lossy (bytes : List UInt8) : List Char := lossyFrom 0 bytes

theorem lossyFrom_append (skipped bytes : List UInt8) :
    lossyFrom skipped.length (skipped++bytes) = lossy bytes := by
  induction skipped with
  | nil => rfl
  | cons b skipped ih => exact ih

theorem decodeFirst_encode (c : Char) (bytes : List UInt8) :
    decodeFirst (String.utf8EncodeChar c++bytes) = some c := by
  rw [decodeFirst, List.toByteArray_append]
  exact ByteArray.utf8DecodeChar?_utf8EncodeChar_append

/-- What was encoded is read back, up to where something else follows. -/
theorem lossy_encode_append (s : List Char) (bytes : List UInt8) :
    lossy (s.flatMap String.utf8EncodeChar++bytes) = s++lossy bytes := by
  induction s with
  | nil => rfl
  | cons c s ih =>
    rw [List.flatMap_cons, List.append_assoc, List.cons_append, ← ih]
    generalize s.flatMap String.utf8EncodeChar++bytes = rest
    have hsize := String.length_utf8EncodeChar c
    have hpos := c.utf8Size_pos
    have hfirst := decodeFirst_encode c rest
    cases hencode : String.utf8EncodeChar c with
    | nil => simp_all
    | cons b bs =>
      rw [hencode, List.cons_append] at hfirst
      rw [hencode, List.length_cons] at hsize
      have hskip : lossyFrom (c.utf8Size-1) (bs++rest) = lossy rest := by
        rw [← hsize, Nat.add_sub_cancel, lossyFrom_append]
      rw [List.cons_append, lossy, lossyFrom, hfirst]
      exact congrArg _ hskip

theorem lossy_encode (s : List Char) : lossy (s.flatMap String.utf8EncodeChar) = s := by
  have h := lossy_encode_append s []
  rwa [List.append_nil, show lossy [] = [] from rfl, List.append_nil] at h

end WireProbe.Utf8Lossy
