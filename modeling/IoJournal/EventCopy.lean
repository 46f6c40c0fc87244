import IoJournal.EventValid

/-!
# IoJournal.EventCopy

What the owned copy of an event holds.

* `Record` is the abstract event: texts as octets, secrets already replaced. `Event.record` reads it
  off the caller's event.
* `Extends` is what one write of the copy pass does to the arena: it moves the cursor forward and
  leaves everything before it alone.
* `EventCopy.Represents` relates a copy to a record through its arena.
* `eventCopyFromInput_represents`: a copy that succeeds represents the record of its event.
-/

namespace IoJournal

open Wire

/-! ## Records -/

inductive Value where
  | string (bs : Bytes)
  | signed (v : Int64)
  | unsigned (v : UInt64)
  | bool (v : Bool)
  | double (v : Double)
  deriving DecidableEq

structure Record where
  timestamp : Timestamp
  level : Int
  eventName : Bytes
  message : Bytes
  logger : Option Bytes
  attributes : List (Bytes × Value)
  sourceFile : Option Bytes
  sourceFunction : Option Bytes
  deriving DecidableEq

/-- The value of an attribute after redaction. The last line is not reached by a valid event. -/
def Attr.stored (mode : Int) (a : Attr) : Value :=
  match a.value with
  | .string data => .string (if (attrScan mode a).shouldRedact then redactedLiteral else data.getD [])
  | .signed v => .signed v
  | .unsigned v => .unsigned v
  | .bool v => .bool v
  | .double v => .double v
  | .other _ => .bool false

def Event.record (mode : Int) (e : Event) : Record where
  timestamp := e.timestamp
  level := e.level
  eventName := cstrBytes e.eventName
  message := cstrBytes e.message
  logger := e.logger.map (·.bytes)
  attributes := e.attributes.toList.map fun a => (cstrBytes a.key, a.stored mode)
  sourceFile := e.sourceFile.map (·.bytes)
  sourceFunction := e.sourceFunction.map (·.bytes)

/-! ## The arena -/

/-- `s` names the octets `bs` at `lo`, with their terminator, inside `lo .. hi`. -/
structure Stored (m : Buffer) (lo hi : Nat) (s : OwnedString) (bs : Bytes) (needs : Bool) : Prop where
  string : s = ⟨some lo, bs.length, needs⟩
  room : lo + bs.length < hi
  text : m.read lo (bs.length + 1) = bs ++ [0]

/-- The arena grew from one cursor to a later one. -/
structure Extends (st st' : ArenaCursor) : Prop where
  cursor : st.cursor ≤ st'.cursor
  size : st'.arena.size = st.arena.size
  read : ∀ j n, j + n ≤ st.cursor → st'.arena.read j n = st.arena.read j n
  stores : ∀ k ∈ st'.arena.stores, k ∈ st.arena.stores ∨ st.cursor ≤ k ∧ k < st'.cursor

theorem Extends.refl (st : ArenaCursor) : Extends st st := ⟨Nat.le_refl _, rfl, fun _ _ _ => rfl, fun _ h => .inl h⟩

theorem Extends.trans {a b c : ArenaCursor} (h : Extends a b) (h' : Extends b c) : Extends a c where
  cursor := Nat.le_trans h.cursor h'.cursor
  size := h'.size.trans h.size
  read j n hj := (h'.read j n (Nat.le_trans hj h.cursor)).trans (h.read j n hj)
  stores k hk := by
    rcases h'.stores k hk with hk | ⟨hlo, hhi⟩
    · rcases h.stores k hk with hk | ⟨hlo, hhi⟩
      · exact .inl hk
      · exact .inr ⟨hlo, Nat.lt_of_lt_of_le hhi h'.cursor⟩
    · exact .inr ⟨Nat.le_trans h.cursor hlo, hhi⟩

theorem Stored.mono {st st' : ArenaCursor} {lo hi : Nat} {s : OwnedString} {bs : Bytes} {needs : Bool}
    (h : Stored st.arena lo hi s bs needs) (hext : Extends st st') (hhi : hi ≤ st.cursor) :
    Stored st'.arena lo hi s bs needs where
  string := h.string
  room := h.room
  text := by
    have hroom := h.room
    rw [hext.read _ _ (by omega), h.text]

theorem read_copy_store {m : Buffer} {lo : Nat} {bs : Bytes} (h : lo + bs.length < m.size) :
    ((m.copy lo bs).store (lo + bs.length) 0).read lo (bs.length + 1) = bs ++ [0] := by
  have hlt : lo + bs.length < (m.copy lo bs).size := by rw [Buffer.size_copy]; exact h
  rw [Buffer.read_add, Buffer.read_store_before (by omega), Buffer.read_copy (by omega)]
  congr 1
  have hlen : ((m.copy lo bs).bytes.take (lo + bs.length)).length = lo + bs.length := by
    rw [List.length_take]
    exact Nat.min_eq_left (Nat.le_of_lt hlt)
  rw [Buffer.read, Buffer.store_bytes hlt, List.drop_append, hlen, List.drop_of_length_le (by omega), Nat.sub_self]
  rfl

section Strings

variable (st : ArenaCursor) (bs : Bytes) {capacity : Nat} (needs : Bool)

theorem copyOwnedString_extends (hcap : bs.length ≤ capacity) :
    Extends st (copyOwnedStringIntoArena st bs bs.length capacity needs).2 where
  cursor := by simp only [copyOwnedStringIntoArena]; omega
  size := by simp [copyOwnedStringIntoArena]
  read j n hj := by
    simp only [copyOwnedStringIntoArena]
    rw [Buffer.read_store_before (by omega), Buffer.read_copy_before hj]
  stores k hk := by
    simp only [copyOwnedStringIntoArena, List.take_length, Buffer.store, List.mem_cons] at hk ⊢
    rcases hk with rfl | hk
    · right; omega
    · rcases Buffer.mem_stores_copy hk with hk | hk
      · exact .inl hk
      · right; omega

theorem copyOwnedString_stored (hcap : bs.length ≤ capacity) (hroom : st.cursor + (capacity + 1) ≤ st.arena.size) :
    Stored (copyOwnedStringIntoArena st bs bs.length capacity needs).2.arena st.cursor (st.cursor + (capacity + 1))
      (copyOwnedStringIntoArena st bs bs.length capacity needs).1 bs needs where
  string := rfl
  room := by omega
  text := by
    simp only [copyOwnedStringIntoArena, List.take_length]
    exact read_copy_store (by omega)

end Strings

theorem copyField_spec (st : ArenaCursor) (bs : Bytes) (hroom : st.cursor + (bs.length + 1) ≤ st.arena.size) :
    ∃ s st', copyOwnedStringIntoArena st bs bs.length bs.length (bs.any isJsonSpecial) = (s, st') ∧
      Extends st st' ∧ st'.cursor = st.cursor + (bs.length + 1) ∧
      Stored st'.arena st.cursor st'.cursor s bs (bs.any isJsonSpecial) :=
  ⟨_, _, rfl, copyOwnedString_extends st bs (bs.any isJsonSpecial) (Nat.le_refl _), rfl,
    copyOwnedString_stored st bs (bs.any isJsonSpecial) (Nat.le_refl _) hroom⟩

/-- An optional text field in `lo .. hi`. -/
def OptionalStored (m : Buffer) (lo hi : Nat) (s : OwnedString) : Option CString → Prop
  | none => s = .zero
  | some t => Stored m lo hi s t.bytes (t.bytes.any isJsonSpecial)

theorem OptionalStored.mono {st st' : ArenaCursor} {lo hi : Nat} {s : OwnedString} {value : Option CString}
    (h : OptionalStored st.arena lo hi s value) (hext : Extends st st') (hhi : hi ≤ st.cursor) :
    OptionalStored st'.arena lo hi s value := by
  cases value with
  | none => exact h
  | some t => exact Stored.mono h hext hhi

theorem copyOptional_spec (st : ArenaCursor) (value : Option CString)
    (hroom : st.cursor + fieldArena value ≤ st.arena.size) :
    ∃ s st', copyOptionalField st value (fieldScan (cstrBytes value)) = (s, st') ∧ Extends st st' ∧
      st'.cursor = st.cursor + fieldArena value ∧ OptionalStored st'.arena st.cursor st'.cursor s value := by
  cases value with
  | none => exact ⟨_, _, rfl, .refl st, rfl, rfl⟩
  | some t => exact copyField_spec st t.bytes hroom

/-! ## The layout -/

/-- One string of the arena: its text, and the octets set aside for it besides the terminator. -/
structure Slot where
  text : Bytes
  capacity : Nat
  deriving DecidableEq

/-- The string starts at `lo` and reads back as the text of its slot, with a terminator. -/
structure Placed (m : Buffer) (lo : Nat) (s : OwnedString) (slot : Slot) : Prop where
  data : s.data = some lo
  len : s.len = slot.text.length
  fits : slot.text.length ≤ slot.capacity
  text : m.read lo (slot.text.length + 1) = slot.text ++ [0]

/-- The strings fill `lo .. hi` in the order of their slots, without a gap. -/
def Laid (m : Buffer) : Nat → Nat → List OwnedString → List Slot → Prop
  | lo, hi, [], [] => lo = hi
  | lo, hi, s :: ss, slot :: slots => Placed m lo s slot ∧ Laid m (lo + (slot.capacity + 1)) hi ss slots
  | _, _, _, _ => False

def fieldSlot (bs : Bytes) : Slot := ⟨bs, bs.length⟩

def optionalSlots : Option CString → List Slot
  | none => []
  | some t => [fieldSlot t.bytes]

/-- The slot of a string value has room for the redaction literal. -/
def Attr.valueSlots (mode : Int) (a : Attr) : List Slot :=
  match a.value with
  | .string data =>
    [⟨if mode = redactionModeEnabled ∧ keyShouldRedactN (cstrBytes a.key) = true then redactedLiteral else data.getD [],
      max (data.getD []).length redactedLiteral.length⟩]
  | _ => []

def Attr.slots (mode : Int) (a : Attr) : List Slot := fieldSlot (cstrBytes a.key) :: a.valueSlots mode

/-- What the arena of an event's copy is made of. -/
def Event.slots (mode : Int) (e : Event) : List Slot :=
  [fieldSlot (cstrBytes e.eventName)] ++ ([fieldSlot (cstrBytes e.message)] ++ (optionalSlots e.logger ++
    (optionalSlots e.sourceFile ++ (optionalSlots e.sourceFunction ++
      e.attributes.toList.flatMap (Attr.slots mode)))))

def OwnedAttrValue.strings : OwnedAttrValue → List OwnedString
  | .string s => [s]
  | _ => []

def OwnedAttr.strings (a : OwnedAttr) : List OwnedString := a.key :: a.value.strings

def EventCopy.strings (c : EventCopy) : List OwnedString :=
  [c.eventName, c.message, c.loggerName, c.sourceFile, c.sourceFunction] ++ c.attributes.flatMap OwnedAttr.strings

def EventCopy.storedStrings (c : EventCopy) : List OwnedString := c.strings.filter (·.data.isSome)

section Layout

variable {m : Buffer} {lo mid hi : Nat} {ss ss' : List OwnedString} {slots slots' : List Slot}

theorem Laid.le (h : Laid m lo hi ss slots) : lo ≤ hi := by
  induction ss generalizing lo slots with
  | nil =>
    cases slots with
    | nil => exact Nat.le_of_eq h
    | cons slot slots => exact h.elim
  | cons s ss ih =>
    cases slots with
    | nil => exact h.elim
    | cons slot slots =>
      have := ih h.2
      omega

theorem Laid.append (h : Laid m lo mid ss slots) (h' : Laid m mid hi ss' slots') :
    Laid m lo hi (ss ++ ss') (slots ++ slots') := by
  induction ss generalizing lo slots with
  | nil =>
    cases slots with
    | nil => cases h; exact h'
    | cons slot slots => exact h.elim
  | cons s ss ih =>
    cases slots with
    | nil => exact h.elim
    | cons slot slots => exact ⟨h.1, ih h.2⟩

theorem Laid.mono {st st' : ArenaCursor} (h : Laid st.arena lo hi ss slots) (hext : Extends st st')
    (hhi : hi ≤ st.cursor) : Laid st'.arena lo hi ss slots := by
  induction ss generalizing lo slots with
  | nil =>
    cases slots with
    | nil => exact h
    | cons slot slots => exact h.elim
  | cons s ss ih =>
    cases slots with
    | nil => exact h.elim
    | cons slot slots =>
      obtain ⟨hplaced, hrest⟩ := h
      have hle := hrest.le
      have hfits := hplaced.fits
      refine ⟨⟨hplaced.data, hplaced.len, hplaced.fits, ?_⟩, ih hrest⟩
      rw [hext.read _ _ (by omega), hplaced.text]

theorem Laid.isSome (h : Laid m lo hi ss slots) : ∀ s ∈ ss, s.data.isSome = true := by
  induction ss generalizing lo slots with
  | nil => intro s hs; cases hs
  | cons s ss ih =>
    cases slots with
    | nil => exact h.elim
    | cons slot slots =>
      refine List.forall_mem_cons.2 ⟨?_, ih h.2⟩
      rw [h.1.data]
      rfl

theorem Stored.laid {s : OwnedString} {bs : Bytes} {needs : Bool} {capacity : Nat} (h : Stored m lo hi s bs needs)
    (hcap : bs.length ≤ capacity) (hhi : hi = lo + (capacity + 1)) : Laid m lo hi [s] [⟨bs, capacity⟩] := by
  obtain ⟨rfl, -, htext⟩ := h
  exact ⟨⟨rfl, rfl, hcap, htext⟩, hhi.symm⟩

theorem OptionalStored.laid {s : OwnedString} {value : Option CString} (h : OptionalStored m lo hi s value)
    (hhi : hi = lo + fieldArena value) : Laid m lo hi ([s].filter (·.data.isSome)) (optionalSlots value) := by
  cases value with
  | none =>
    have hzero : s = .zero := h
    subst hzero
    exact hhi.symm
  | some t =>
    have hlaid := Stored.laid h (Nat.le_refl _) hhi
    rw [List.filter_eq_self.2 hlaid.isSome]
    exact hlaid

end Layout

/-! ## Attributes -/

/-- An owned value holds `v`; a string lies in `lo .. hi`. -/
def ValueStored (m : Buffer) (lo hi : Nat) (needs : Bool) (o : OwnedAttrValue) : Value → Prop
  | .string bs => ∃ s, o = .string s ∧ Stored m lo hi s bs needs
  | .signed v => o = .signed v
  | .unsigned v => o = .unsigned v
  | .bool v => o = .bool v
  | .double v => o = .double v

theorem ValueStored.mono {st st' : ArenaCursor} {lo hi : Nat} {needs : Bool} {o : OwnedAttrValue} {v : Value}
    (h : ValueStored st.arena lo hi needs o v) (hext : Extends st st') (hhi : hi ≤ st.cursor) :
    ValueStored st'.arena lo hi needs o v := by
  cases v with
  | string bs =>
    obtain ⟨s, hs, h⟩ := h
    exact ⟨s, hs, h.mono hext hhi⟩
  | signed _ | unsigned _ | bool _ | double _ => exact h

theorem ValueStored.laid {mode : Int} {m : Buffer} {lo hi : Nat} {needs : Bool} {o : OwnedAttrValue} {a : Attr}
    (h : ValueStored m lo hi needs o (a.stored mode)) (hhi : hi = lo + attrValueArena a.value) :
    Laid m lo hi o.strings (a.valueSlots mode) := by
  unfold Attr.stored at h
  unfold Attr.valueSlots
  cases hv : a.value with
  | string data =>
    simp only [hv] at h hhi
    obtain ⟨s, rfl, h⟩ := h
    have hredact : (attrScan mode a).shouldRedact = true ↔
        mode = redactionModeEnabled ∧ keyShouldRedactN (cstrBytes a.key) = true := by
      simp [attrScan, hv, AttrValue.isString]
    simp only [hredact] at h
    refine h.laid ?_ hhi
    split
    · exact Nat.le_max_right _ _
    · exact Nat.le_max_left _ _
  | signed _ | unsigned _ | bool _ | double _ | other _ =>
    simp only [hv] at h hhi
    have ho : o = _ := h
    subst ho
    exact hhi.symm

/-- An owned attribute holds `a` in `lo .. hi`, key first. -/
def AttrStored (mode : Int) (m : Buffer) (lo hi : Nat) (o : OwnedAttr) (a : Attr) : Prop :=
  ∃ mid, mid ≤ hi ∧ Stored m lo mid o.key (cstrBytes a.key) ((cstrBytes a.key).any isJsonSpecial) ∧
    ValueStored m mid hi (valueEscape a.value) o.value (a.stored mode)

theorem AttrStored.mono {mode : Int} {st st' : ArenaCursor} {lo hi : Nat} {o : OwnedAttr} {a : Attr}
    (h : AttrStored mode st.arena lo hi o a) (hext : Extends st st') (hhi : hi ≤ st.cursor) :
    AttrStored mode st'.arena lo hi o a := by
  obtain ⟨mid, hmid, hkey, hvalue⟩ := h
  exact ⟨mid, hmid, hkey.mono hext (by omega), hvalue.mono hext hhi⟩

/-- The attributes lie one after the other in `lo .. hi`. -/
def AttrsStored (mode : Int) (m : Buffer) : Nat → Nat → List OwnedAttr → List Attr → Prop
  | lo, hi, [], [] => lo ≤ hi
  | lo, hi, o :: os, a :: as => ∃ mid, AttrStored mode m lo mid o a ∧ AttrsStored mode m mid hi os as
  | _, _, _, _ => False

/-- A copied string that is then redacted: the literal takes its place, and nothing before it
changes. -/
theorem redactInArena_spec {st : ArenaCursor} {bs : Bytes} {needs : Bool}
    (hroom : st.cursor + (max bs.length redactedLiteral.length + 1) ≤ st.arena.size)
    {s : OwnedString} {st' st'' : ArenaCursor} {o : OwnedAttrValue}
    (hcopy : copyOwnedStringIntoArena st bs bs.length (max bs.length redactedLiteral.length) needs = (s, st'))
    (hredact : redactInArena (.string s) st' = (o, st'')) :
    Extends st st'' ∧ st''.cursor = st'.cursor ∧
      ∃ s', o = .string s' ∧ Stored st''.arena st.cursor st''.cursor s' redactedLiteral needs := by
  have hext := copyOwnedString_extends st bs needs (Nat.le_max_left _ redactedLiteral.length)
  rw [hcopy] at hext
  have hcur : st'.cursor = st.cursor + max bs.length redactedLiteral.length + 1 := by
    rw [← congrArg (·.2.cursor) hcopy]; rfl
  obtain rfl : _ = s := congrArg Prod.fst hcopy
  simp only [copyOwnedStringIntoArena, redactInArena, Prod.mk.injEq] at hredact
  obtain ⟨rfl, rfl⟩ := hredact
  have hlen : (redactedLiteral ++ [0]).length = redactedLiteral.length + 1 := List.length_append
  have hmax := Nat.le_max_right bs.length redactedLiteral.length
  refine ⟨⟨hext.cursor, ?_, fun j n hj => ?_, fun k hk => ?_⟩, rfl, _, rfl, rfl, ?_, ?_⟩
  · rw [Buffer.size_copy, hext.size]
  · rw [Buffer.read_copy_before hj, hext.read j n hj]
  · rcases Buffer.mem_stores_copy hk with hk | hk
    · exact hext.stores k hk
    · right; simp only; omega
  · simp only; omega
  · have := Buffer.read_copy (show st.cursor + (redactedLiteral ++ [0]).length ≤ st'.arena.size by
      rw [hlen, hext.size]; omega)
    rwa [hlen] at this

section Attributes

variable (mode : Int) (st : ArenaCursor) {a : Attr}

/-- The value of an attribute after the copy and, where it applies, the overwrite. -/
theorem copyValue_spec (hok : ValueOk a.value) (hroom : st.cursor + attrValueArena a.value ≤ st.arena.size) :
    ∃ o st', (copyAttrValueIntoArena st a.value (valueEscape a.value)).map
        (fun p => if (attrScan mode a).shouldRedact then redactInArena p.1 p.2 else p) = .ok (o, st') ∧
      Extends st st' ∧ st'.cursor = st.cursor + attrValueArena a.value ∧
      ValueStored st'.arena st.cursor st'.cursor (valueEscape a.value) o (a.stored mode) := by
  unfold Attr.stored
  have plain : ∀ o : OwnedAttrValue, (∀ s, o ≠ .string s) →
      (if (attrScan mode a).shouldRedact then redactInArena o st else (o, st)) = (o, st) := by
    intro o ho
    cases o with
    | string s => exact absurd rfl (ho s)
    | signed _ | unsigned _ | bool _ | double _ => simp [redactInArena]
  cases hv : a.value with
  | string data =>
    cases data with
    | none => rw [hv] at hok; exact hok.elim
    | some bs =>
      have harena : attrValueArena a.value = max bs.length redactedLiteral.length + 1 := by rw [hv]; rfl
      rw [harena] at hroom
      rw [← hv, harena]
      simp only [hv, copyAttrValueIntoArena, Option.getD_some, Except.map]
      obtain ⟨s, st', hcopy⟩ : ∃ s st', copyOwnedStringIntoArena st bs bs.length
          (max bs.length redactedLiteral.length) (valueEscape (.string (some bs))) = (s, st') := ⟨_, _, rfl⟩
      have hcur : st'.cursor = st.cursor + (max bs.length redactedLiteral.length + 1) := by
        rw [← congrArg (·.2.cursor) hcopy]; rfl
      have hext := copyOwnedString_extends st bs (valueEscape (.string (some bs)))
        (Nat.le_max_left bs.length redactedLiteral.length)
      have hst := copyOwnedString_stored st bs (valueEscape (.string (some bs)))
        (Nat.le_max_left bs.length redactedLiteral.length) hroom
      rw [hcopy] at hext hst
      rw [hcopy]
      cases (attrScan mode a).shouldRedact with
      | false => exact ⟨_, _, rfl, hext, hcur, s, rfl, by rw [hcur]; exact hst⟩
      | true =>
        obtain ⟨o, st'', hredact⟩ : ∃ o st'', redactInArena (.string s) st' = (o, st'') := ⟨_, _, rfl⟩
        obtain ⟨hext', hcur', s', rfl, hs'⟩ := redactInArena_spec hroom hcopy hredact
        exact ⟨_, _, congrArg Except.ok hredact, hext', hcur'.trans hcur, s', rfl, hs'⟩
  | signed v => exact ⟨.signed v, st, congrArg Except.ok (plain _ (by simp)), .refl st, rfl, rfl⟩
  | unsigned v => exact ⟨.unsigned v, st, congrArg Except.ok (plain _ (by simp)), .refl st, rfl, rfl⟩
  | bool v => exact ⟨.bool v, st, congrArg Except.ok (plain _ (by simp)), .refl st, rfl, rfl⟩
  | double v => exact ⟨.double v, st, congrArg Except.ok (plain _ (by simp)), .refl st, rfl, rfl⟩
  | other _ => rw [hv] at hok; exact hok.elim

theorem copyAttr_eq (scan : AttrScan) :
    copyAttr st a scan =
      let p := copyOwnedStringIntoArena st (cstrBytes a.key) scan.keyLen scan.keyLen scan.keyNeedsJsonEscape
      ((copyAttrValueIntoArena p.2 a.value scan.stringNeedsJsonEscape).map
        (fun q => if scan.shouldRedact then redactInArena q.1 q.2 else q)).map fun q => (⟨p.1, q.1⟩, q.2) := by
  unfold copyAttr
  dsimp only
  cases copyAttrValueIntoArena (copyOwnedStringIntoArena st (cstrBytes a.key) scan.keyLen scan.keyLen
    scan.keyNeedsJsonEscape).2 a.value scan.stringNeedsJsonEscape <;> rfl

theorem copyAttr_spec (hok : AttrOk a) (hroom : st.cursor + attrArena a ≤ st.arena.size) :
    ∃ o st', copyAttr st a (attrScan mode a) = .ok (o, st') ∧ Extends st st' ∧
      st'.cursor = st.cursor + attrArena a ∧ AttrStored mode st'.arena st.cursor st'.cursor o a ∧
      Laid st'.arena st.cursor st'.cursor o.strings (a.slots mode) := by
  rw [copyAttr_eq]
  obtain ⟨key, st₁, hkey, hext₁, hcur₁, hst₁⟩ := copyField_spec st (cstrBytes a.key)
    (by unfold attrArena at hroom; omega)
  obtain ⟨o, st', hval, hext, hcur, hvalue⟩ := copyValue_spec mode st₁ hok.2
    (by rw [hext₁.size, hcur₁]; unfold attrArena at hroom; omega)
  refine ⟨⟨key, o⟩, st', ?_, hext₁.trans hext, ?_, ⟨st₁.cursor, hext.cursor, ?_, hvalue⟩, ?_⟩
  · simp only [attrScan] at hval ⊢
    rw [hkey, hval]
    rfl
  · rw [hcur, hcur₁, attrArena]; omega
  · exact hst₁.mono hext (Nat.le_refl _)
  · exact Laid.append ((hst₁.laid (Nat.le_refl _) hcur₁).mono hext (Nat.le_refl _)) (hvalue.laid hcur)

end Attributes

theorem copyAttrs_spec (mode : Int) (as : List Attr) :
    ∀ st : ArenaCursor, (∀ a ∈ as, AttrOk a) → st.cursor + (as.map attrArena).sum ≤ st.arena.size →
      ∃ os st', copyAttrs st (as.zip (as.map (attrScan mode))) = .ok (os, st') ∧ Extends st st' ∧
        st'.cursor = st.cursor + (as.map attrArena).sum ∧ AttrsStored mode st'.arena st.cursor st'.cursor os as ∧
        Laid st'.arena st.cursor st'.cursor (os.flatMap OwnedAttr.strings) (as.flatMap (Attr.slots mode)) := by
  induction as with
  | nil =>
    intro st _ _
    exact ⟨[], st, rfl, .refl st, rfl, Nat.le_refl _, rfl⟩
  | cons a as ih =>
    intro st hok hroom
    rw [List.forall_mem_cons] at hok
    rw [List.map_cons, List.sum_cons] at hroom
    obtain ⟨o, st₁, hcopy, hext₁, hcur₁, hst₁, hlaid₁⟩ := copyAttr_spec mode st hok.1 (by omega)
    obtain ⟨os, st', hrest, hext, hcur, hst, hlaid⟩ := ih st₁ hok.2 (by rw [hext₁.size]; omega)
    refine ⟨o :: os, st', ?_, hext₁.trans hext, ?_, ⟨st₁.cursor, hst₁.mono hext (Nat.le_refl _), hst⟩, ?_⟩
    · simp only [List.map_cons, List.zip_cons_cons, copyAttrs, hcopy, hrest]
    · rw [hcur, hcur₁, List.map_cons, List.sum_cons]; omega
    · exact (hlaid₁.mono hext (Nat.le_refl _)).append hlaid

/-! ## The copy as a whole -/

/-- An owned string says `bs`: that many octets in the arena, then a terminator, and a clear flag
only where no octet needs an escape. -/
structure Text (m : Buffer) (s : OwnedString) (bs : Bytes) : Prop where
  read : ∃ off, s.data = some off ∧ m.read off (bs.length + 1) = bs ++ [0]
  len : s.len = bs.length
  plain : s.needsJsonEscape = false → ∀ b ∈ bs, isJsonSpecial b = false

def OptionalText (m : Buffer) (s : OwnedString) : Option Bytes → Prop
  | none => s.data = none
  | some bs => Text m s bs

def ValueText (m : Buffer) (o : OwnedAttrValue) : Value → Prop
  | .string bs => ∃ s, o = .string s ∧ Text m s bs
  | .signed v => o = .signed v
  | .unsigned v => o = .unsigned v
  | .bool v => o = .bool v
  | .double v => o = .double v

def AttrText (m : Buffer) (o : OwnedAttr) (p : Bytes × Value) : Prop := Text m o.key p.1 ∧ ValueText m o.value p.2

structure EventCopy.Represents (c : EventCopy) (r : Record) : Prop where
  timestamp : c.timestamp = r.timestamp
  level : c.level = r.level
  eventName : Text c.textArena c.eventName r.eventName
  message : Text c.textArena c.message r.message
  logger : OptionalText c.textArena c.loggerName r.logger
  attributes : List.Forall₂ (AttrText c.textArena) c.attributes r.attributes
  sourceFile : OptionalText c.textArena c.sourceFile r.sourceFile
  sourceFunction : OptionalText c.textArena c.sourceFunction r.sourceFunction

section Represents

variable {m : Buffer} {lo hi : Nat}

theorem Stored.represents {s : OwnedString} {bs : Bytes} {needs : Bool} (h : Stored m lo hi s bs needs)
    (hplain : needs = false → ∀ b ∈ bs, isJsonSpecial b = false) : Text m s bs := by
  obtain ⟨rfl, -, htext⟩ := h
  exact ⟨⟨lo, rfl, htext⟩, rfl, hplain⟩

theorem plain_of_any {bs : Bytes} (h : bs.any isJsonSpecial = false) : ∀ b ∈ bs, isJsonSpecial b = false := by
  simpa using h

theorem OptionalStored.represents {s : OwnedString} {value : Option CString}
    (h : OptionalStored m lo hi s value) : OptionalText m s (value.map (·.bytes)) := by
  cases value with
  | none => exact congrArg (·.data) h
  | some t => exact Stored.represents h plain_of_any

theorem redactedLiteral_plain : ∀ b ∈ redactedLiteral, isJsonSpecial b = false := forall_mem_of_all (by decide)

/-- The flag of a redacted string comes from the secret; the literal is plain whatever it says. -/
theorem stored_plain (mode : Int) {a : Attr} {bs : Bytes} (h : a.stored mode = .string bs)
    (hneeds : valueEscape a.value = false) : ∀ b ∈ bs, isJsonSpecial b = false := by
  unfold Attr.stored at h
  unfold valueEscape at hneeds
  cases hv : a.value with
  | string data =>
    simp only [hv, Value.string.injEq] at h hneeds
    split at h
    · exact h ▸ redactedLiteral_plain
    · exact h ▸ plain_of_any hneeds
  | signed _ | unsigned _ | bool _ | double _ | other _ => simp only [hv] at h; cases h

theorem AttrStored.represents {mode : Int} {o : OwnedAttr} {a : Attr} (h : AttrStored mode m lo hi o a) :
    AttrText m o (cstrBytes a.key, a.stored mode) := by
  obtain ⟨mid, -, hkey, hvalue⟩ := h
  refine ⟨hkey.represents plain_of_any, ?_⟩
  cases hv : a.stored mode with
  | string bs =>
    rw [hv] at hvalue
    obtain ⟨s, hs, h⟩ := hvalue
    exact ⟨s, hs, h.represents (stored_plain mode hv)⟩
  | signed _ | unsigned _ | bool _ | double _ => rw [hv] at hvalue; exact hvalue

theorem AttrsStored.represents {mode : Int} {os : List OwnedAttr} {as : List Attr} :
    ∀ {lo : Nat}, AttrsStored mode m lo hi os as →
      List.Forall₂ (AttrText m) os (as.map fun a => (cstrBytes a.key, a.stored mode)) := by
  induction os generalizing as with
  | nil =>
    intro lo h
    cases as with
    | nil => exact .nil
    | cons a as => exact h.elim
  | cons o os ih =>
    intro lo h
    cases as with
    | nil => exact h.elim
    | cons a as =>
      obtain ⟨mid, ha, hrest⟩ := h
      exact .cons ha.represents (ih hrest)

end Represents

theorem toList_of_count_zero {as : AttrArray} (h : as.count = 0) : as.toList = [] := by
  cases as with
  | null n => rfl
  | array as => exact List.length_eq_zero_iff.1 h

/-- The arena of a copy, and the cursor that its pass ended with. -/
structure EventCopy.LaidOut (c : EventCopy) (slots : List Slot) (st : ArenaCursor) : Prop where
  arena : st.arena = c.textArena
  size : c.textArena.size = c.textArenaSize
  cursor : st.cursor = c.textArenaSize
  stores : ∀ k ∈ c.textArena.stores, k < c.textArenaSize
  strings : Laid c.textArena 0 c.textArenaSize c.storedStrings slots

theorem copyEvent_spec {e : Event} (mode : Int) (h : e.WellFormed) {attributesOk : Bool} {arena : Bytes}
    (hattrs : e.attributes.count = 0 ∨ attributesOk = true) (hsize : arena.length = (e.scan mode).arenaSize) :
    ∃ c st, copyEvent attributesOk arena e (e.scan mode) = .ok c ∧
      copyEventCursor attributesOk arena e (e.scan mode) = .ok st ∧ c.Represents (e.record mode) ∧
      c.LaidOut (e.slots mode) st := by
  have hsize' : (Buffer.fresh arena).size = (cstrBytes e.eventName).length + 1 + ((cstrBytes e.message).length + 1) +
    fieldArena e.logger + fieldArena e.sourceFile + fieldArena e.sourceFunction +
    (e.attributes.toList.map attrArena).sum := hsize
  obtain ⟨name, st₁, h₁, x₁, c₁, s₁⟩ := copyField_spec ⟨.fresh arena, 0⟩ (cstrBytes e.eventName)
    (by simp only [hsize']; omega)
  obtain ⟨message, st₂, h₂, x₂, c₂, s₂⟩ := copyField_spec st₁ (cstrBytes e.message)
    (by rw [x₁.size, hsize', c₁]; simp only; omega)
  obtain ⟨logger, st₃, h₃, x₃, c₃, s₃⟩ := copyOptional_spec st₂ e.logger
    (by rw [x₂.size, x₁.size, hsize', c₂, c₁]; simp only; omega)
  obtain ⟨file, st₄, h₄, x₄, c₄, s₄⟩ := copyOptional_spec st₃ e.sourceFile
    (by rw [x₃.size, x₂.size, x₁.size, hsize', c₃, c₂, c₁]; simp only; omega)
  obtain ⟨function, st₅, h₅, x₅, c₅, s₅⟩ := copyOptional_spec st₄ e.sourceFunction
    (by rw [x₄.size, x₃.size, x₂.size, x₁.size, hsize', c₄, c₃, c₂, c₁]; simp only; omega)
  obtain ⟨os, st₆, h₆, x₆, c₆, s₆, l₆⟩ := copyAttrs_spec mode e.attributes.toList st₅ h.attrs
    (by rw [x₅.size, x₄.size, x₃.size, x₂.size, x₁.size, hsize', c₅, c₄, c₃, c₂, c₁]; simp only; omega)
  have hcopied : (if e.attributes.count = 0 then (.ok ([], st₅) : Except Status (List OwnedAttr × ArenaCursor))
      else if !attributesOk then .error .internalError
      else copyAttrs st₅ (e.attributes.toList.zip (e.scan mode).attributes)) = .ok (os, st₆) := by
    by_cases hzero : e.attributes.count = 0
    · rw [if_pos hzero, ← h₆, toList_of_count_zero hzero]
      rfl
    · have hok := hattrs.resolve_left hzero
      rw [if_neg hzero, hok]
      exact h₆
  have hcursor : (if e.attributes.count = 0 then (.ok st₅ : Except Status ArenaCursor)
      else if !attributesOk then .error .internalError
      else (copyAttrs st₅ (e.attributes.toList.zip (e.scan mode).attributes)).map (·.2)) = .ok st₆ := by
    by_cases hzero : e.attributes.count = 0
    · rw [if_pos hzero] at hcopied ⊢
      cases hcopied
      rfl
    · rw [if_neg hzero, hattrs.resolve_left hzero] at hcopied ⊢
      exact congrArg (Except.map (·.2)) hcopied
  have e₅ := x₆
  have e₄ := x₅.trans e₅
  have e₃ := x₄.trans e₄
  have e₂ := x₃.trans e₃
  have e₁ := x₂.trans e₂
  have hend : st₆.cursor = (e.scan mode).arenaSize := by
    rw [c₆, c₅, c₄, c₃, c₂, c₁, Event.scan]
    simp only
    omega
  have hlaid : Laid st₆.arena 0 st₆.cursor ([name].filter (·.data.isSome) ++ ([message].filter (·.data.isSome) ++
      ([logger].filter (·.data.isSome) ++ ([file].filter (·.data.isSome) ++ ([function].filter (·.data.isSome) ++
        (os.flatMap OwnedAttr.strings).filter (·.data.isSome)))))) (e.slots mode) := by
    have l₁ := (s₁.laid (Nat.le_refl _) c₁).mono e₁ (Nat.le_refl _)
    have l₂ := (s₂.laid (Nat.le_refl _) c₂).mono e₂ (Nat.le_refl _)
    rw [List.filter_eq_self.2 l₁.isSome, List.filter_eq_self.2 l₂.isSome, List.filter_eq_self.2 l₆.isSome]
    exact l₁.append (l₂.append (((s₃.laid c₃).mono e₃ (Nat.le_refl _)).append
      (((s₄.laid c₄).mono e₄ (Nat.le_refl _)).append (((s₅.laid c₅).mono e₅ (Nat.le_refl _)).append l₆))))
  unfold copyEvent copyEventCursor
  simp only [Event.scan, fieldScan] at h₃ h₄ h₅ hcopied hcursor ⊢
  rw [h₁]
  dsimp only
  rw [h₂]
  dsimp only
  rw [h₃]
  dsimp only
  rw [h₄]
  dsimp only
  rw [h₅]
  dsimp only
  rw [hcopied, hcursor]
  refine ⟨_, st₆, rfl, rfl, ?_, ?_⟩
  · exact {
      timestamp := rfl
      level := rfl
      eventName := (s₁.mono e₁ (Nat.le_refl _)).represents plain_of_any
      message := (s₂.mono e₂ (Nat.le_refl _)).represents plain_of_any
      logger := (s₃.mono e₃ (Nat.le_refl _)).represents
      attributes := s₆.represents
      sourceFile := (s₄.mono e₄ (Nat.le_refl _)).represents
      sourceFunction := (s₅.mono e₅ (Nat.le_refl _)).represents }
  · refine ⟨rfl, ((x₁.trans e₁).size.trans hsize), hend, fun k hk => ?_, ?_⟩
    · rcases (x₁.trans e₁).stores k hk with hk | ⟨-, hk⟩
      · cases hk
      · exact Nat.lt_of_lt_of_eq hk hend
    · rw [EventCopy.storedStrings, EventCopy.strings]
      change Laid st₆.arena 0 (e.scan mode).arenaSize (([name] ++ ([message] ++ ([logger] ++ ([file] ++ [function]))) ++
        os.flatMap OwnedAttr.strings).filter (·.data.isSome)) (e.slots mode)
      simp only [List.filter_append, List.append_assoc]
      exact hend ▸ hlaid

theorem eventCopyFromInput_passes {cpu : Cpu} {heap : Heap} {e : Event} {mode : Int} {c : EventCopy}
    (h : eventCopyFromInput cpu heap (some e) mode = .ok c) :
    e.WellFormed ∧ scanEvent cpu e mode = some (e.scan mode) ∧
      ∃ arena st, heap.arena (e.scan mode).arenaSize = some arena ∧
        copyEvent (heap.attributes e.attributes.count) arena e (e.scan mode) = .ok c ∧
        copyEventCursor (heap.attributes e.attributes.count) arena e (e.scan mode) = .ok st ∧
        c.Represents (e.record mode) ∧ c.LaidOut (e.slots mode) st := by
  simp only [eventCopyFromInput] at h
  split at h
  · cases h
  · rename_i scan hscan
    obtain ⟨hwf, rfl⟩ := (scanEvent_iff cpu e mode scan).1 hscan
    refine ⟨hwf, hscan, ?_⟩
    split at h
    · cases h
    · rename_i arena harena
      have hsize := heap.arena_size _ _ harena
      by_cases hattrs : e.attributes.count = 0 ∨ heap.attributes e.attributes.count = true
      · obtain ⟨c', st, hc', hst, hrep, hlaid⟩ := copyEvent_spec mode hwf hattrs hsize
        cases hc'.symm.trans h
        exact ⟨arena, st, harena, h, hst, hrep, hlaid⟩
      · rw [not_or, Bool.not_eq_true] at hattrs
        simp only [copyEvent, if_neg hattrs.1, hattrs.2] at h
        cases h

theorem eventCopyFromInput_represents {cpu : Cpu} {heap : Heap} {e : Event} {mode : Int} {c : EventCopy}
    (h : eventCopyFromInput cpu heap (some e) mode = .ok c) : e.WellFormed ∧ c.Represents (e.record mode) := by
  obtain ⟨hwf, -, -, -, -, -, -, hrep, -⟩ := eventCopyFromInput_passes h
  exact ⟨hwf, hrep⟩

/-- With memory to be had, the copy fails only on an event that is not well formed. -/
theorem eventCopyFromInput_of_wellFormed (cpu : Cpu) {heap : Heap} {e : Event} (mode : Int) (h : e.WellFormed)
    (harena : ∀ n, (heap.arena n).isSome = true) (hattrs : ∀ n, heap.attributes n = true) :
    ∃ c, eventCopyFromInput cpu heap (some e) mode = .ok c := by
  obtain ⟨arena, ha⟩ := Option.isSome_iff_exists.1 (harena (e.scan mode).arenaSize)
  obtain ⟨c, -, hc, -⟩ := copyEvent_spec mode h (.inr (hattrs e.attributes.count)) (heap.arena_size _ _ ha)
  refine ⟨c, ?_⟩
  simp only [eventCopyFromInput, scanEvent_complete cpu e mode h, ha, hc]

theorem eventCopyFromInput_of_not_wellFormed (cpu : Cpu) (heap : Heap) {e : Event} (mode : Int)
    (h : ¬ e.WellFormed) : eventCopyFromInput cpu heap (some e) mode = .error .invalidArgument := by
  have hscan : scanEvent cpu e mode = none := by
    cases hs : scanEvent cpu e mode with
    | none => rfl
    | some scan => exact absurd ((scanEvent_iff cpu e mode scan).1 hs).1 h
  simp only [eventCopyFromInput, hscan]

theorem eventCopyFromInput_error {cpu : Cpu} {heap : Heap} {e : Event} {mode : Int} {status : Status}
    (h : eventCopyFromInput cpu heap (some e) mode = .error status) : status ≠ .ok := by
  simp only [eventCopyFromInput] at h
  split at h
  · cases h
    exact nofun
  · rename_i scan hscan
    obtain ⟨hwf, rfl⟩ := (scanEvent_iff cpu e mode scan).1 hscan
    split at h
    · cases h
      exact nofun
    · rename_i arena harena
      by_cases hattrs : e.attributes.count = 0 ∨ heap.attributes e.attributes.count = true
      · obtain ⟨c, -, hc, -⟩ := copyEvent_spec mode hwf hattrs (heap.arena_size _ _ harena)
        rw [hc] at h
        cases h
      · rw [not_or, Bool.not_eq_true] at hattrs
        simp only [copyEvent, if_neg hattrs.1, hattrs.2] at h
        cases h
        exact nofun

/-! ## Two validators -/

theorem check_cases {failed : Prop} [Decidable failed] {rest : Status} (h : rest = .ok ∨ rest = .invalidArgument) :
    (if failed then .invalidArgument else rest) = Status.ok ∨
      (if failed then .invalidArgument else rest) = Status.invalidArgument := by
  by_cases hfailed : failed
  · rw [if_pos hfailed]
    exact .inr rfl
  · rw [if_neg hfailed]
    exact h

theorem validateEvent_cases (cpu : Cpu) (event : Option Event) :
    validateEvent cpu event = .ok ∨ validateEvent cpu event = .invalidArgument := by
  cases event with
  | none => exact .inr rfl
  | some e =>
    rw [validateEvent]
    repeat apply check_cases
    exact .inl rfl

/-- The fused pass and the reference validator accept the same events, and refuse the others alike. -/
theorem eventCopyFromInput_agrees (cpu : Cpu) (heap : Heap) (harena : ∀ n, (heap.arena n).isSome = true)
    (hattrs : ∀ n, heap.attributes n = true) (event : Option Event) (mode : Int) :
    ((∃ c, eventCopyFromInput cpu heap event mode = .ok c) ↔ validateEvent cpu event = .ok) ∧
      (validateEvent cpu event ≠ .ok →
        eventCopyFromInput cpu heap event mode = .error .invalidArgument ∧
          validateEvent cpu event = .invalidArgument) := by
  cases event with
  | none => exact ⟨⟨fun ⟨_, h⟩ => (by cases h), fun h => (by cases h)⟩, fun _ => ⟨rfl, rfl⟩⟩
  | some e =>
    by_cases hwf : e.WellFormed
    · have hok : validateEvent cpu (some e) = .ok := (validateEvent_iff cpu e).2 hwf
      have hcopy := eventCopyFromInput_of_wellFormed cpu mode hwf harena hattrs
      exact ⟨⟨fun _ => hok, fun _ => hcopy⟩, fun h => absurd hok h⟩
    · have hbad : validateEvent cpu (some e) ≠ .ok := fun h => hwf ((validateEvent_iff cpu e).1 h)
      have hcopy := eventCopyFromInput_of_not_wellFormed cpu heap mode hwf
      refine ⟨⟨fun ⟨c, hc⟩ => ?_, fun h => absurd h hbad⟩, fun _ => ⟨hcopy, ?_⟩⟩
      · rw [hcopy] at hc
        cases hc
      · exact (validateEvent_cases cpu (some e)).resolve_left hbad

def loginEvent : Event where
  timestamp := ⟨1700000000, 123456789⟩
  level := 3
  eventName := some ⟨ascii "login", forall_mem_of_all (by decide)⟩
  message := some ⟨ascii "bad\tpassword", forall_mem_of_all (by decide)⟩
  logger := some ⟨ascii "auth", forall_mem_of_all (by decide)⟩
  attributes := .array
    [⟨some ⟨ascii "password", forall_mem_of_all (by decide)⟩, .string (some [0x68, 0x00, 0x22])⟩,
      ⟨some ⟨ascii "seconds", forall_mem_of_all (by decide)⟩, .double ⟨0x3FE0000000000000⟩⟩,
      ⟨some ⟨ascii "tries", forall_mem_of_all (by decide)⟩, .signed (-3)⟩]
  traceId := none
  spanId := none
  traceFlags := 0
  hasTraceContext := false
  sourceFile := none
  sourceLine := 0
  sourceFunction := none

/-- `loginEvent` with another password. -/
def otherLoginEvent : Event := { loginEvent with
  attributes := .array
    [⟨some ⟨ascii "password", forall_mem_of_all (by decide)⟩, .string (some (ascii "hunter2"))⟩,
      ⟨some ⟨ascii "seconds", forall_mem_of_all (by decide)⟩, .double ⟨0x3FE0000000000000⟩⟩,
      ⟨some ⟨ascii "tries", forall_mem_of_all (by decide)⟩, .signed (-3)⟩] }

/-- An allocator that always has zeroed memory. -/
def zeroHeap : Heap where
  arena n := some (List.replicate n 0)
  arena_size n bs h := by cases h; exact List.length_replicate
  attributes _ := true

def scalarCpu : Cpu := ⟨false, false⟩

theorem eventCopyFromInput_agrees_login :
    ((∃ c, eventCopyFromInput scalarCpu zeroHeap (some loginEvent) redactionModeEnabled = .ok c) ↔
        validateEvent scalarCpu (some loginEvent) = .ok) ∧
      (validateEvent scalarCpu (some loginEvent) ≠ .ok →
        eventCopyFromInput scalarCpu zeroHeap (some loginEvent) redactionModeEnabled = .error .invalidArgument ∧
          validateEvent scalarCpu (some loginEvent) = .invalidArgument) :=
  eventCopyFromInput_agrees scalarCpu zeroHeap (fun _ => rfl) (fun _ => rfl) (some loginEvent) redactionModeEnabled

end IoJournal
