import IoJournal.Types

/-!
# IoJournal.Redact

The redaction key matcher of `filters/ij_redact.c` and its scalar comparison kernels.
-/

namespace IoJournal

open Wire

/-- The octet of an ASCII character. -/
def byteOf (c : Char) : UInt8 := UInt8.ofNat c.toNat

/-- `tolower` in the C locale. -/
def tolower (c : UInt8) : UInt8 := if byteOf 'A' ≤ c ∧ c ≤ byteOf 'Z' then c + 0x20 else c

/-- The comparison loop, once the lengths are known to agree. -/
def redactCaseEqualLoop : Bytes → Bytes → Bool
  | a :: lhs, b :: rhs => if tolower a ≠ tolower b then false else redactCaseEqualLoop lhs rhs
  | _, _ => true

def redactCaseEqualScalar (lhs rhs : Bytes) : Bool :=
  if lhs.length ≠ rhs.length then false else redactCaseEqualLoop lhs rhs

def redactHasDotScalar : Bytes → Bool
  | [] => false
  | c :: text => if c = byteOf '.' then true else redactHasDotScalar text

/-- `ij_redact_match_known_key`: a switch on the length, then on the first letter. -/
def redactMatchKnownKey (key : Bytes) : Bool :=
  let first := key.getD 0 0 ||| 0x20
  match key.length with
  | 5 => redactCaseEqualScalar key (ascii "token")
  | 6 =>
    if first = byteOf 'a' then redactCaseEqualScalar key (ascii "apikey")
    else if first = byteOf 'c' then redactCaseEqualScalar key (ascii "cookie")
    else if first = byteOf 'p' then redactCaseEqualScalar key (ascii "passwd")
    else if first = byteOf 's' then redactCaseEqualScalar key (ascii "secret")
    else false
  | 7 =>
    if first = byteOf 'a' then redactCaseEqualScalar key (ascii "api_key")
    else if first = byteOf 's' then redactCaseEqualScalar key (ascii "session")
    else false
  | 8 =>
    if first = byteOf 'i' then redactCaseEqualScalar key (ascii "id_token")
    else if first = byteOf 'p' then redactCaseEqualScalar key (ascii "password")
    else false
  | 10 =>
    if first = byteOf 'p' then redactCaseEqualScalar key (ascii "passphrase")
    else if first = byteOf 's' then
      redactCaseEqualScalar key (ascii "session_id") || redactCaseEqualScalar key (ascii "set_cookie") ||
        redactCaseEqualScalar key (ascii "secret_key")
    else false
  | 11 =>
    if first = byteOf 'p' then redactCaseEqualScalar key (ascii "private_key")
    else if first = byteOf 's' then redactCaseEqualScalar key (ascii "signing_key")
    else false
  | 12 => redactCaseEqualScalar key (ascii "access_token")
  | 13 =>
    if first = byteOf 'a' then redactCaseEqualScalar key (ascii "authorization")
    else if first = byteOf 'c' then redactCaseEqualScalar key (ascii "client_secret")
    else if first = byteOf 'r' then redactCaseEqualScalar key (ascii "refresh_token")
    else false
  | _ => false

/-- The last `n` octets of a longer key match. -/
def redactMatchTail (key : Bytes) (n : Nat) : Bool :=
  n < key.length && redactMatchKnownKey (key.drop (key.length - n))

def redactMatchSuffix (key : Bytes) : Bool :=
  redactMatchTail key 13 || redactMatchTail key 12 || redactMatchTail key 11 || redactMatchTail key 10 ||
    redactMatchTail key 8 || redactMatchTail key 7 || redactMatchTail key 6 || redactMatchTail key 5

def keyShouldRedactN (key : Bytes) : Bool :=
  redactMatchKnownKey key || redactHasDotScalar key && redactMatchSuffix key

end IoJournal
