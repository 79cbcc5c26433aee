import Mathlib.Data.List.Basic

/-!
# Base64

`base64_encode` appends the encoding of a byte string to a text. A byte is a character below 256; a
negative `char` is promoted with its sign, and the masks take the same bits of it as of the byte.
-/

namespace Beast2.Burl

/-- `tab`. Reference: `base64.cpp:17`. -/
def base64Tab : List Char :=
  "ABCDEFGHIJKLMNOPQRSTUVWXYZabcdefghijklmnopqrstuvwxyz0123456789+/".toList

/-- A character of the table. -/
def base64Char (i : Nat) : Char := base64Tab.getD i '\x00'

/-- What `base64_encode` appends: groups of three bytes, and the one or two that are left.
Reference: `base64.cpp:24-52`. -/
def base64Groups : List Char → List Char
  | a :: b :: c :: rest =>
    [base64Char ((a.toNat &&& 0xfc) >>> 2),
      base64Char (((a.toNat &&& 0x03) <<< 4) + ((b.toNat &&& 0xf0) >>> 4)),
      base64Char (((c.toNat &&& 0xc0) >>> 6) + ((b.toNat &&& 0x0f) <<< 2)),
      base64Char (c.toNat &&& 0x3f)] ++ base64Groups rest
  | [a, b] =>
    [base64Char ((a.toNat &&& 0xfc) >>> 2),
      base64Char (((a.toNat &&& 0x03) <<< 4) + ((b.toNat &&& 0xf0) >>> 4)),
      base64Char ((b.toNat &&& 0x0f) <<< 2), '=']
  | [a] => [base64Char ((a.toNat &&& 0xfc) >>> 2), base64Char ((a.toNat &&& 0x03) <<< 4), '=', '=']
  | [] => []

/-- `base64_encode`. Reference: `base64.cpp:12`. -/
def base64Encode (dest src : List Char) : List Char := dest ++ base64Groups src

end Beast2.Burl
