/-
UTF-8.

`encode` writes a text as bytes; `decode` reads bytes and refuses whatever is not
well formed: stray or missing continuation bytes, overlong forms, surrogates and
code points above U+10FFFF.  The refusals are ranges of the second byte alone, as
in the table of well-formed sequences of the standard.
-/

namespace PromptShelf.Text.Utf8

def encodeChar (c : Char) : List UInt8 :=
  let n := c.toNat
  if n < 0x80 then [n.toUInt8]
  else if n < 0x800 then [(0xC0 + n / 64).toUInt8, (0x80 + n % 64).toUInt8]
  else if n < 0x10000 then
    [(0xE0 + n / 4096).toUInt8, (0x80 + n / 64 % 64).toUInt8, (0x80 + n % 64).toUInt8]
  else
    [(0xF0 + n / 262144).toUInt8, (0x80 + n / 4096 % 64).toUInt8,
      (0x80 + n / 64 % 64).toUInt8, (0x80 + n % 64).toUInt8]

def encode (cs : List Char) : List UInt8 := cs.flatMap encodeChar

def within (low high : Nat) (b : UInt8) : Bool := low ≤ b.toNat && b.toNat ≤ high

def isTail (b : UInt8) : Bool := within 0x80 0xBF b

/-- The second byte of a sequence of three: the first one narrows it where a
shorter form or a surrogate would begin. -/
def isSecondOfThree (a b : UInt8) : Bool :=
  if a.toNat = 0xE0 then within 0xA0 0xBF b
  else if a.toNat = 0xED then within 0x80 0x9F b
  else isTail b

/-- The second byte of a sequence of four: the first one narrows it where a
shorter form or a number past the last code point would begin. -/
def isSecondOfFour (a b : UInt8) : Bool :=
  if a.toNat = 0xF0 then within 0x90 0xBF b
  else if a.toNat = 0xF4 then within 0x80 0x8F b
  else isTail b

def decode : List UInt8 → Option (List Char)
  | [] => some []
  | a :: rest =>
    if within 0x00 0x7F a then (decode rest).map (Char.ofNat a.toNat :: ·)
    else match rest with
      | [] => none
      | b :: rest =>
        if within 0xC2 0xDF a && isTail b then
          (decode rest).map (Char.ofNat (a.toNat % 32 * 64 + b.toNat % 64) :: ·)
        else match rest with
          | [] => none
          | c :: rest =>
            if within 0xE0 0xEF a && isSecondOfThree a b && isTail c then
              (decode rest).map
                (Char.ofNat (a.toNat % 16 * 4096 + b.toNat % 64 * 64 + c.toNat % 64) :: ·)
            else match rest with
              | [] => none
              | d :: rest =>
                if within 0xF0 0xF4 a && isSecondOfFour a b && isTail c && isTail d then
                  (decode rest).map
                    (Char.ofNat (a.toNat % 8 * 262144 + b.toNat % 64 * 4096 +
                      c.toNat % 64 * 64 + d.toNat % 64) :: ·)
                else none

@[simp] theorem encode_nil : encode [] = [] := rfl

@[simp] theorem encode_cons (c : Char) (cs : List Char) :
    encode (c :: cs) = encodeChar c ++ encode cs := rfl

@[simp] theorem decode_nil : decode [] = some [] := rfl

end PromptShelf.Text.Utf8
