import ContentVault.Bytes
import ContentVault.Text.Hex

/-!
# Hosts

Which texts name a host: a domain, an IPv4 address in any of its numeric spellings, or an IPv6 address between
brackets. A domain may be percent-encoded. Letters beyond ASCII are taken as they are.
-/

namespace ContentVault.Web

/-! ## Lists of characters -/

/-- Cuts a text at every character that satisfies `isCut`. -/
def splitWhere (isCut : Char → Bool) (cs : List Char) : List (List Char) :=
  cs.foldr (fun c parts =>
    match parts with
    | part :: parts => if isCut c then [] :: part :: parts else (c :: part) :: parts
    | [] => []) [[]]

/-- The value of digits in a base up to sixteen, if they all are. -/
def digits? (base : Nat) (cs : List Char) : Option Nat :=
  cs.foldlM (fun n c => (Text.hexValue? c).bind fun d => if d < base then some (n * base + d) else none) 0

/-- Whether a text is one or more decimal digits. -/
def isDecimal (cs : List Char) : Bool := !cs.isEmpty && cs.all Char.isDigit

/-! ## IPv4 -/

/-- A number in an IPv4 address: decimal, octal after `0`, hexadecimal after `0x`. -/
def ipv4Number? : List Char → Option Nat
  | [] => none
  | '0' :: 'x' :: cs => digits? 16 cs
  | '0' :: 'X' :: cs => digits? 16 cs
  | '0' :: cs => digits? 8 cs
  | cs => digits? 10 cs

/-- The parts of a domain between its points, without the empty one after a last point. -/
def labels (cs : List Char) : List (List Char) :=
  let parts := splitWhere (· == '.') cs
  if parts.length > 1 && parts.getLast? == some [] then parts.dropLast else parts

/-- Whether a domain has to be an IPv4 address, because its last part is a number. -/
def endsInNumber (cs : List Char) : Bool :=
  match (labels cs).getLast? with
  | some part => isDecimal part || (ipv4Number? part).isSome
  | none => false

/-- Whether a text is an IPv4 address: up to four numbers, the last of which fills what the others leave. -/
def isIpv4 (cs : List Char) : Bool :=
  match (labels cs).mapM ipv4Number? with
  | some numbers =>
    numbers.length ≤ 4 && numbers.dropLast.all (· ≤ 255) &&
      (numbers.getLast?.getD 0) < 1 <<< (8 * (5 - numbers.length))
  | none => false

/-! ## IPv6 -/

/-- Whether a text is four numbers up to 255 between points, without leading zeros. -/
def isDottedQuad (cs : List Char) : Bool :=
  let parts := splitWhere (· == '.') cs
  parts.length == 4 && parts.all fun part =>
    isDecimal part && (part.length == 1 || part.head? != some '0') && ((digits? 10 part).getD 256) ≤ 255

/-- Whether a text is a piece of 16 bits: up to four hexadecimal digits. -/
def isPiece (piece : List Char) : Bool := !piece.isEmpty && piece.length ≤ 4 && (digits? 16 piece).isSome

/-- How many 16-bit pieces a list of pieces stands for, the last of which may be an IPv4 address if `last` says so. -/
def pieceCount? (last : Bool) : List (List Char) → Option Nat
  | [] => some 0
  | piece :: rest =>
    if isPiece piece then (pieceCount? last rest).map (· + 1)
    else if rest.isEmpty && last && isDottedQuad piece then some 2
    else none

/-- The pieces between single colons. -/
def pieces (cs : List Char) : List (List Char) := if cs.isEmpty then [] else splitWhere (· == ':') cs

/-- Cuts a text at its first double colon. -/
def cutDoubleColon : List Char → Option (List Char × List Char)
  | ':' :: ':' :: rest => some ([], rest)
  | c :: rest => (cutDoubleColon rest).map fun (before, after) => (c :: before, after)
  | [] => none

/-- Whether a text is an IPv6 address: eight pieces, or fewer and a double colon for the rest. -/
def isIpv6 (cs : List Char) : Bool :=
  match cutDoubleColon cs with
  | none => pieceCount? true (pieces cs) == some 8
  | some (before, after) =>
    match pieceCount? false (pieces before), pieceCount? true (pieces after) with
    | some a, some b => a + b ≤ 7
    | _, _ => false

/-! ## Domains -/

/-- Decodes percent escapes, giving bytes. -/
def percentDecode : List Char → Bytes
  | '%' :: c :: d :: rest =>
    match Text.hexValue? c, Text.hexValue? d with
    | some high, some low => UInt8.ofNat (16 * high + low) :: percentDecode rest
    | _, _ => 37 :: percentDecode (c :: d :: rest)
  | c :: rest => Bytes.ofString (String.singleton c) ++ percentDecode rest
  | [] => []
termination_by cs => cs.length

/-- Characters that no host may have. -/
def isForbidden (c : Char) : Bool :=
  c.toNat ≤ 0x20 || "#/:<>?@[\\]^|".toList.contains c

/-- Characters that no domain may have. -/
def isForbiddenInDomain (c : Char) : Bool := isForbidden c || c == '%' || c.toNat == 0x7f || c.toNat == 0xfffd

/-- Whether a text names a host where names are looked up: a domain or an address. -/
def isHost (cs : List Char) : Bool :=
  match cs with
  | '[' :: rest => rest.getLast? == some ']' && isIpv6 rest.dropLast
  | _ =>
    match Bytes.toString? (percentDecode cs) with
    | none => false
    | some domain =>
      let domain := domain.toList
      !domain.isEmpty && !domain.any isForbiddenInDomain && (!endsInNumber domain || isIpv4 domain)

/-- Whether a text names a host where names mean nothing: an address between brackets, or any text without forbidden
characters. -/
def isOpaqueHost (cs : List Char) : Bool :=
  match cs with
  | '[' :: rest => rest.getLast? == some ']' && isIpv6 rest.dropLast
  | _ => !cs.any isForbidden

end ContentVault.Web
