/-!
# Lenient UTF-8 decoding

The self-test turns the bytes it read back into text with the standard library's lenient decoder
(`String::from_utf8_lossy`, src/basedos/src/selftest.rs:96). Decoding bytes that need not be valid
UTF-8 never fails: each maximal prefix of a valid sequence that cannot be completed, and each byte
that cannot start a sequence, becomes one replacement character U+FFFD, and decoding resumes right
after it. A lead byte fixes the number of continuation bytes and the range of the first of them,
which excludes overlong forms, surrogates and code points above U+10FFFF.

* `decodeList_ascii`: a byte below 0x80 decodes to its own character.
-/

namespace KernelFs.Text

/-- The character that stands for undecodable bytes. -/
def replacement : Char := '�'

/-- For a lead byte of a multi-byte sequence: the number of continuation bytes and the range
of the first one. -/
def lead (b : UInt8) : Option (Nat × UInt8 × UInt8) :=
  if 0xC2 ≤ b ∧ b ≤ 0xDF then some (1, 0x80, 0xBF)
  else if b = 0xE0 then some (2, 0xA0, 0xBF)
  else if 0xE1 ≤ b ∧ b ≤ 0xEC then some (2, 0x80, 0xBF)
  else if b = 0xED then some (2, 0x80, 0x9F)
  else if 0xEE ≤ b ∧ b ≤ 0xEF then some (2, 0x80, 0xBF)
  else if b = 0xF0 then some (3, 0x90, 0xBF)
  else if 0xF1 ≤ b ∧ b ≤ 0xF3 then some (3, 0x80, 0xBF)
  else if b = 0xF4 then some (3, 0x80, 0x8F)
  else none

/-- A continuation byte: `10xxxxxx`. -/
def isCont (c : UInt8) : Bool := 0x80 ≤ c && c ≤ 0xBF

/-- The low six bits of a continuation byte. -/
def low (c : UInt8) : Nat := c.toNat % 64

/-- The first character of a byte sequence starting with `b`, and how many bytes it takes:
a whole sequence, or the longest prefix of one that stands for a replacement. -/
def scan (b : UInt8) (rest : List UInt8) : Char × Nat :=
  if b < 0x80 then (Char.ofNat b.toNat, 1)
  else
    match lead b with
    | none => (replacement, 1)
    | some (n, lo, hi) =>
      match rest with
      | [] => (replacement, 1)
      | c1 :: r1 =>
        if !(lo ≤ c1 && c1 ≤ hi) then (replacement, 1)
        else if n = 1 then (Char.ofNat ((b.toNat % 32) * 64 + low c1), 2)
        else
          match r1 with
          | [] => (replacement, 2)
          | c2 :: r2 =>
            if !isCont c2 then (replacement, 2)
            else if n = 2 then (Char.ofNat ((b.toNat % 16) * 4096 + low c1 * 64 + low c2), 3)
            else
              match r2 with
              | [] => (replacement, 3)
              | c3 :: _ =>
                if !isCont c3 then (replacement, 3)
                else
                  (Char.ofNat ((b.toNat % 8) * 262144 + low c1 * 4096 + low c2 * 64 + low c3), 4)

/-- Decodes a byte list, replacing what cannot be decoded. -/
def decodeList : List UInt8 → List Char
  | [] => []
  | b :: rest => (scan b rest).1 :: decodeList (rest.drop ((scan b rest).2 - 1))
termination_by l => l.length
decreasing_by simp only [List.length_drop, List.length_cons]; omega

/-- Decodes bytes into text, replacing what cannot be decoded. -/
def decodeLossy (b : ByteArray) : String := String.ofList (decodeList b.toList)

theorem decodeList_ascii (b : UInt8) (rest : List UInt8) (h : b < 0x80) :
    decodeList (b :: rest) = Char.ofNat b.toNat :: decodeList rest := by
  rw [decodeList]
  simp [scan, h]

end KernelFs.Text
