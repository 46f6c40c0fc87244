import Mathlib.Data.List.Forall2
import IoJournal.Wire.Utf8

/-!
# Wire.Json

JSON texts (RFC 8259). `Derives` is the grammar of the RFC, with the value each derivation
denotes; `parse` is a recursive-descent reader. Strings denote octets: an unescaped character
stands for its own UTF-8 octets, an escape for the octets of the character it names. A number
denotes its own literal, so no precision is lost here.

* `Chars`    the inside of a string; `chars` reads it up to the closing quote.
* `Number`   number literals; `number` reads the longest one.
* `Derives`  values, element lists and member lists, with white space where the RFC allows it.

`Wire.JsonParse` proves that whatever `Derives` a value is read by `parse` as exactly that value.
-/

namespace Wire

/-- A JSON value. Members keep their order and may repeat a name. -/
inductive Json where
  | null
  | bool (b : Bool)
  | num (literal : Bytes)
  | str (s : Bytes)
  | arr (elems : List Json)
  | obj (members : List (Bytes × Json))

namespace Json

def isWs (b : UInt8) : Bool := b == 0x20 || b == 0x09 || b == 0x0A || b == 0x0D

def skipWs (l : Bytes) : Bytes := l.dropWhile isWs

/-! ## Strings -/

/-- `unescaped`: one UTF-8 character other than a control, a quote or a backslash. -/
def unescaped (c : Bytes) : Bool :=
  Utf8.isChar c && c.all fun b => 0x20 ≤ b && b != 0x22 && b != 0x5C

/-- The octet a two-character escape stands for. -/
def simpleEscape (e : UInt8) : Option UInt8 :=
  if e = 0x22 then some 0x22
  else if e = 0x5C then some 0x5C
  else if e = 0x2F then some 0x2F
  else if e = 0x62 then some 0x08
  else if e = 0x66 then some 0x0C
  else if e = 0x6E then some 0x0A
  else if e = 0x72 then some 0x0D
  else if e = 0x74 then some 0x09
  else none

def hexVal (h : UInt8) : Option Nat :=
  if 0x30 ≤ h && h ≤ 0x39 then some (h.toNat - 0x30)
  else if 0x61 ≤ h && h ≤ 0x66 then some (h.toNat - 0x61 + 10)
  else if 0x41 ≤ h && h ≤ 0x46 then some (h.toNat - 0x41 + 10)
  else none

/-- `4HEXDIG`. -/
def hex4 (a b c d : UInt8) : Option Nat := do
  let a ← hexVal a
  let b ← hexVal b
  let c ← hexVal c
  let d ← hexVal d
  return ((a * 16 + b) * 16 + c) * 16 + d

/-- The UTF-8 octets of a code point. -/
def utf8Encode (u : Nat) : Bytes :=
  if u < 0x80 then [UInt8.ofNat u]
  else if u < 0x800 then [UInt8.ofNat (0xC0 + u / 0x40), UInt8.ofNat (0x80 + u % 0x40)]
  else if u < 0x10000 then
    [UInt8.ofNat (0xE0 + u / 0x1000), UInt8.ofNat (0x80 + u / 0x40 % 0x40), UInt8.ofNat (0x80 + u % 0x40)]
  else
    [UInt8.ofNat (0xF0 + u / 0x40000), UInt8.ofNat (0x80 + u / 0x1000 % 0x40),
      UInt8.ofNat (0x80 + u / 0x40 % 0x40), UInt8.ofNat (0x80 + u % 0x40)]

/-- `\uXXXX` naming a character of its own, and not half of a surrogate pair. -/
def basicCode (a b c d : UInt8) : Option Nat :=
  (hex4 a b c d).filter fun u => u < 0xD800 || 0xDFFF < u

/-- `\uXXXX\uYYYY` naming a character beyond the basic plane. -/
def pairCode (a b c d e f g h : UInt8) : Option Nat := do
  let hi ← (hex4 a b c d).filter fun u => 0xD800 ≤ u && u ≤ 0xDBFF
  let lo ← (hex4 e f g h).filter fun u => 0xDC00 ≤ u && u ≤ 0xDFFF
  return 0x10000 + (hi - 0xD800) * 0x400 + (lo - 0xDC00)

/-- `Chars t s`: the characters `t` of a string denote the octets `s`. -/
inductive Chars : Bytes → Bytes → Prop where
  | nil : Chars [] []
  | plain {c t s : Bytes} : unescaped c = true → Chars t s → Chars (c ++ t) (c ++ s)
  | simple {e b : UInt8} {t s : Bytes} :
      simpleEscape e = some b → Chars t s → Chars (0x5C :: e :: t) (b :: s)
  | unicode {a b c d : UInt8} {u : Nat} {t s : Bytes} :
      basicCode a b c d = some u → Chars t s →
      Chars (0x5C :: 0x75 :: a :: b :: c :: d :: t) (utf8Encode u ++ s)
  | pair {a b c d e f g h : UInt8} {u : Nat} {t s : Bytes} :
      pairCode a b c d e f g h = some u → Chars t s →
      Chars (0x5C :: 0x75 :: a :: b :: c :: d :: 0x5C :: 0x75 :: e :: f :: g :: h :: t)
        (utf8Encode u ++ s)

/-- The octets of a `\uXXXX` escape, read after the `u`. -/
def unicodeEscape : Bytes → Option (Bytes × Bytes)
  | a :: b :: c :: d :: l =>
    match basicCode a b c d with
    | some u => some (utf8Encode u, l)
    | none =>
      match l with
      | x :: y :: e :: f :: g :: h :: l =>
        if x = 0x5C ∧ y = 0x75 then (pairCode a b c d e f g h).map fun u => (utf8Encode u, l)
        else none
      | _ => none
  | _ => none

/-- The octets of an escape, read after the backslash. -/
def escape : Bytes → Option (Bytes × Bytes)
  | [] => none
  | e :: l =>
    if e = 0x75 then unicodeEscape l
    else (simpleEscape e).map fun b => ([b], l)

/-- Reads a string after its opening quote: what it denotes and what follows the closing quote. -/
def chars : Nat → Bytes → Option (Bytes × Bytes)
  | 0, _ => none
  | _ + 1, [] => none
  | n + 1, b :: l =>
    if b = 0x22 then some ([], l)
    else if b = 0x5C then do
      let (s, l) ← escape l
      let (s', r) ← chars n l
      return (s ++ s', r)
    else if b < 0x20 then none
    else do
      let (c, l) ← Utf8.next (b :: l)
      let (s, r) ← chars n l
      return (c ++ s, r)

/-! ## Numbers -/

/-- `1*DIGIT`. -/
def Digits (t : Bytes) : Prop := t ≠ [] ∧ ∀ b ∈ t, isDigit b = true

/-- `int = zero / ( digit1-9 *DIGIT )`. -/
def IntPart (t : Bytes) : Prop := t = [0x30] ∨ ∃ d ds, t = d :: ds ∧ d ≠ 0x30 ∧ Digits (d :: ds)

theorem take_numeral_intPart {n : Nat} (hn : n ≠ 0) (k : Nat) : IntPart ((numeral n).take (k + 1)) := by
  have hdigits := numeral_isDigit n
  cases hd : numeral n with
  | nil => exact absurd hd (numeral_ne_nil n)
  | cons d ds =>
    rw [hd] at hdigits
    refine .inr ⟨d, ds.take k, rfl, ?_, List.cons_ne_nil _ _, ?_⟩
    · rintro rfl
      exact numeral_head_ne_zero hn hd
    · intro b hb
      rcases List.mem_cons.1 hb with rfl | hb
      · exact hdigits b (List.mem_cons_self ..)
      · exact hdigits b (List.mem_cons_of_mem _ (List.mem_of_mem_take hb))

theorem intPart_numeral (n : Nat) : IntPart (numeral n) := by
  by_cases hzero : n = 0
  · left
    rw [hzero, numeral_of_lt (by decide)]
    rfl
  · have hfront := take_numeral_intPart hzero (numeral n).length
    rwa [List.take_of_length_le (Nat.le_succ _)] at hfront

/-- `[ frac ]`. -/
def FracPart (t : Bytes) : Prop := t = [] ∨ ∃ ds, t = 0x2E :: ds ∧ Digits ds

/-- `[ exp ]`. -/
def ExpPart (t : Bytes) : Prop :=
  t = [] ∨ ∃ e sign ds, t = e :: (sign ++ ds) ∧ (e = 0x65 ∨ e = 0x45) ∧
    (sign = [] ∨ sign = [0x2B] ∨ sign = [0x2D]) ∧ Digits ds

/-- `number = [ minus ] int [ frac ] [ exp ]`. -/
def Number (t : Bytes) : Prop :=
  ∃ minus int frac exp, t = minus ++ (int ++ (frac ++ exp)) ∧ (minus = [] ∨ minus = [0x2D]) ∧
    IntPart int ∧ FracPart frac ∧ ExpPart exp

def spanDigits (l : Bytes) : Option (Bytes × Bytes) :=
  let ds := l.takeWhile isDigit
  if ds = [] then none else some (ds, l.dropWhile isDigit)

def intPart : Bytes → Option (Bytes × Bytes)
  | [] => none
  | b :: l => if b = 0x30 then some ([b], l) else spanDigits (b :: l)

def fracPart : Bytes → Option (Bytes × Bytes)
  | [] => some ([], [])
  | b :: l => if b = 0x2E then (spanDigits l).map fun p => (b :: p.1, p.2) else some ([], b :: l)

def expSign : Bytes → Bytes × Bytes
  | [] => ([], [])
  | b :: l => if b = 0x2B ∨ b = 0x2D then ([b], l) else ([], b :: l)

def expPart : Bytes → Option (Bytes × Bytes)
  | [] => some ([], [])
  | b :: l =>
    if b = 0x65 ∨ b = 0x45 then
      let (sign, l) := expSign l
      (spanDigits l).map fun p => (b :: (sign ++ p.1), p.2)
    else some ([], b :: l)

def minusPart : Bytes → Bytes × Bytes
  | [] => ([], [])
  | b :: l => if b = 0x2D then ([b], l) else ([], b :: l)

/-- Reads the longest number literal. -/
def number (l : Bytes) : Option (Bytes × Bytes) := do
  let (minus, l) := minusPart l
  let (int, l) ← intPart l
  let (frac, l) ← fracPart l
  let (exp, l) ← expPart l
  return (minus ++ (int ++ (frac ++ exp)), l)

/-! ## Values -/

/-- What a derivation stands for: a value, the elements of an array, the members of an object. -/
inductive Node where
  | value (v : Json)
  | elements (vs : List Json)
  | members (ms : List (Bytes × Json))

/-- `ws = *( %x20 / %x09 / %x0A / %x0D )`. -/
def Ws (w : Bytes) : Prop := ∀ b ∈ w, isWs b = true

/-- The grammar of RFC 8259, with what each derivation denotes. An element or a member carries
the white space before and after its tokens. -/
inductive Derives : Node → Bytes → Prop where
  | null : Derives (.value .null) [0x6E, 0x75, 0x6C, 0x6C]
  | true : Derives (.value (.bool true)) [0x74, 0x72, 0x75, 0x65]
  | false : Derives (.value (.bool false)) [0x66, 0x61, 0x6C, 0x73, 0x65]
  | num {t : Bytes} : Number t → Derives (.value (.num t)) t
  | str {t s : Bytes} : Chars t s → Derives (.value (.str s)) (0x22 :: (t ++ [0x22]))
  | arrNil {w : Bytes} : Ws w → Derives (.value (.arr [])) (0x5B :: (w ++ [0x5D]))
  | arr {t : Bytes} {vs : List Json} :
      Derives (.elements vs) t → Derives (.value (.arr vs)) (0x5B :: (t ++ [0x5D]))
  | objNil {w : Bytes} : Ws w → Derives (.value (.obj [])) (0x7B :: (w ++ [0x7D]))
  | obj {t : Bytes} {ms : List (Bytes × Json)} :
      Derives (.members ms) t → Derives (.value (.obj ms)) (0x7B :: (t ++ [0x7D]))
  | elem {w t w' : Bytes} {v : Json} :
      Ws w → Derives (.value v) t → Ws w' → Derives (.elements [v]) (w ++ (t ++ w'))
  | elems {w t w' rest : Bytes} {v : Json} {vs : List Json} :
      Ws w → Derives (.value v) t → Ws w' → Derives (.elements vs) rest →
      Derives (.elements (v :: vs)) (w ++ (t ++ (w' ++ 0x2C :: rest)))
  | member {w k key w₁ w₂ t w' : Bytes} {v : Json} :
      Ws w → Chars k key → Ws w₁ → Ws w₂ → Derives (.value v) t → Ws w' →
      Derives (.members [(key, v)]) (w ++ 0x22 :: (k ++ 0x22 :: (w₁ ++ 0x3A :: (w₂ ++ (t ++ w')))))
  | members {w k key w₁ w₂ t w' rest : Bytes} {v : Json} {ms : List (Bytes × Json)} :
      Ws w → Chars k key → Ws w₁ → Ws w₂ → Derives (.value v) t → Ws w' →
      Derives (.members ms) rest →
      Derives (.members ((key, v) :: ms))
        (w ++ 0x22 :: (k ++ 0x22 :: (w₁ ++ 0x3A :: (w₂ ++ (t ++ (w' ++ 0x2C :: rest))))))

/-- The text of one member, without white space. -/
def MemberText (p : Bytes × Json) (t : Bytes) : Prop :=
  ∃ k u, Chars k p.1 ∧ Derives (.value p.2) u ∧ t = 0x22 :: (k ++ 0x22 :: 0x3A :: u)

theorem ws_nil : Ws [] := fun _ h => (by cases h)

theorem derives_members {ms : List (Bytes × Json)} {ts : List Bytes} (hrest : List.Forall₂ MemberText ms ts) :
    ∀ {p : Bytes × Json} {t : Bytes}, MemberText p t →
      Derives (.members (p :: ms)) (t ++ ts.flatMap fun t => 0x2C :: t) := by
  induction hrest with
  | nil =>
    intro p t ht
    obtain ⟨k, u, hk, hu, rfl⟩ := ht
    have := Derives.member ws_nil hk ws_nil ws_nil hu ws_nil
    simpa using this
  | cons hm _ ih =>
    intro p t ht
    obtain ⟨k, u, hk, hu, rfl⟩ := ht
    have := Derives.members ws_nil hk ws_nil ws_nil hu ws_nil (ih hm)
    simpa using this

/-- `JSON-text = ws value ws`. -/
def Text (v : Json) (l : Bytes) : Prop :=
  ∃ w t w', l = w ++ (t ++ w') ∧ Ws w ∧ Derives (.value v) t ∧ Ws w'

/-- What follows `word`, when the input starts with it. -/
def keyword : Bytes → Bytes → Option Bytes
  | [], l => some l
  | _ :: _, [] => none
  | b :: word, c :: l => if b = c then keyword word l else none

/-- Skips white space and then exactly the octet `b`. -/
def expect (b : UInt8) (l : Bytes) : Option Bytes := keyword [b] (skipWs l)

mutual

/-- Reads one value; the fuel bounds the nesting of the calls. -/
def value : Nat → Bytes → Option (Json × Bytes)
  | 0, _ => none
  | _ + 1, [] => none
  | n + 1, b :: l =>
    if b = 0x22 then (chars (l.length + 1) l).map fun p => (.str p.1, p.2)
    else if b = 0x7B then
      match expect 0x7D l with
      | some l => some (.obj [], l)
      | none => (members n l).map fun p => (.obj p.1, p.2)
    else if b = 0x5B then
      match expect 0x5D l with
      | some l => some (.arr [], l)
      | none => (elements n l).map fun p => (.arr p.1, p.2)
    else if b = 0x6E then (keyword [0x75, 0x6C, 0x6C] l).map fun l => (.null, l)
    else if b = 0x74 then (keyword [0x72, 0x75, 0x65] l).map fun l => (.bool true, l)
    else if b = 0x66 then (keyword [0x61, 0x6C, 0x73, 0x65] l).map fun l => (.bool false, l)
    else (number (b :: l)).map fun p => (.num p.1, p.2)

/-- Reads elements up to and including the closing bracket. -/
def elements : Nat → Bytes → Option (List Json × Bytes)
  | 0, _ => none
  | n + 1, l => do
    let (v, l) ← value n (skipWs l)
    match expect 0x2C l with
    | some l =>
      let (vs, l) ← elements n l
      return (v :: vs, l)
    | none =>
      let l ← expect 0x5D l
      return ([v], l)

/-- Reads members up to and including the closing brace. -/
def members : Nat → Bytes → Option (List (Bytes × Json) × Bytes)
  | 0, _ => none
  | n + 1, l => do
    let l ← expect 0x22 l
    let (key, l) ← chars (l.length + 1) l
    let l ← expect 0x3A l
    let (v, l) ← value n (skipWs l)
    match expect 0x2C l with
    | some l =>
      let (ms, l) ← members n l
      return ((key, v) :: ms, l)
    | none =>
      let l ← expect 0x7D l
      return ([(key, v)], l)

end

/-- Reads a whole JSON text. -/
def parse (l : Bytes) : Option Json :=
  match value l.length (skipWs l) with
  | some (v, r) => if skipWs r = [] then some v else none
  | none => none

end Json
end Wire
