import IoJournal.Wire.Writes
import IoJournal.EncodeText

/-!
# IoJournal.RedactionPaths

Redaction while copying and redaction after the fact.

The copy pass overwrites a secret in the turn of the loop that copied it; the filter
`redactOwnedAttrValueN` overwrites the secrets of a finished copy. Both are block writes to the
arena. `Event.copied` writes the copy pass out as a list of them, and the two lists differ only in
the order of writes that do not meet. The last section says in which buffers the filter stays.
-/

namespace IoJournal

open Wire Buffer

/-- `ij_redact_owned_attr_value_n` on a value that is there; a NULL key is `none`. -/
def redactOwnedAttrValueN (key : Option Bytes) (value : OwnedAttrValue) (valueCapacity : Nat) (m : Buffer) :
    OwnedAttrValue × Buffer :=
  match value with
  | .string ⟨some off, len, needs⟩ =>
    if valueCapacity < redactedLiteral.length then (.string ⟨some off, len, needs⟩, m)
    else if !(key.map keyShouldRedactN).getD false then (.string ⟨some off, len, needs⟩, m)
    else (.string ⟨some off, redactedLiteral.length, needs⟩, m.copy off (redactedLiteral ++ [0]))
  | v => (v, m)

/-- The filter on attribute `i`, under the key that is stored with it. -/
def EventCopy.redactAt (c : EventCopy) (capacity i : Nat) : EventCopy :=
  match c.attributes[i]? with
  | none => c
  | some a =>
    let (value, m) := redactOwnedAttrValueN (some (a.key.bytes c.textArena)) a.value capacity c.textArena
    { c with attributes := c.attributes.set i { a with value := value }, textArena := m }

/-- What the copy pass reserved for the value of attribute `i`. -/
def Event.valueCapacity (e : Event) (i : Nat) : Nat :=
  max ((e.attributes.toList[i]?.map (·.value.stringLen)).getD 0) redactedLiteral.length

/-- The filter on every attribute of `order`, one after the other. -/
def redactAttrs (e : Event) (order : List Nat) (c : EventCopy) : EventCopy :=
  order.foldl (fun c i => c.redactAt (e.valueCapacity i) i) c

/-! ## The copy pass as writes -/

/-- Each attribute with the place where its key is stored. -/
def placedAttrs : Nat → List Attr → List (Nat × Attr)
  | _, [] => []
  | cur, a :: as => (cur, a) :: placedAttrs (cur + attrArena a) as

def Attr.valueStart (cur : Nat) (a : Attr) : Nat := cur + ((cstrBytes a.key).length + 1)

def Attr.valueWrites (cur : Nat) (a : Attr) : List Write :=
  match a.value with
  | .string data => [⟨a.valueStart cur, data.getD [] ++ [0]⟩]
  | _ => []

/-- The key and the value, as they were given. -/
def Attr.copyWrites (cur : Nat) (a : Attr) : List Write := ⟨cur, cstrBytes a.key ++ [0]⟩ :: a.valueWrites cur

def Attr.redactWrites (mode : Int) (cur : Nat) (a : Attr) : List Write :=
  if (attrScan mode a).shouldRedact then [⟨a.valueStart cur, redactedLiteral ++ [0]⟩] else []

/-- The attribute of the copy. The last line is not reached by a valid event. -/
def Attr.owned (mode : Int) (cur : Nat) (a : Attr) : OwnedAttr where
  key := ⟨some cur, (cstrBytes a.key).length, (cstrBytes a.key).any isJsonSpecial⟩
  value :=
    match a.value with
    | .string data =>
      .string ⟨some (a.valueStart cur),
        if (attrScan mode a).shouldRedact then redactedLiteral.length else (data.getD []).length, valueEscape a.value⟩
    | .signed v => .signed v
    | .unsigned v => .unsigned v
    | .bool v => .bool v
    | .double v => .double v
    | .other _ => .bool false

def optionalWrites (cur : Nat) : Option CString → List Write
  | none => []
  | some t => [⟨cur, t.bytes ++ [0]⟩]

def optionalOwned (cur : Nat) : Option CString → OwnedString
  | none => .zero
  | some t => ⟨some cur, t.bytes.length, t.bytes.any isJsonSpecial⟩

def Event.messageStart (e : Event) : Nat := 0 + ((cstrBytes e.eventName).length + 1)

def Event.loggerStart (e : Event) : Nat := e.messageStart + ((cstrBytes e.message).length + 1)

def Event.fileStart (e : Event) : Nat := e.loggerStart + fieldArena e.logger

def Event.functionStart (e : Event) : Nat := e.fileStart + fieldArena e.sourceFile

def Event.attrsStart (e : Event) : Nat := e.functionStart + fieldArena e.sourceFunction

def Event.placed (e : Event) : List (Nat × Attr) := placedAttrs e.attrsStart e.attributes.toList

def Event.fieldWrites (e : Event) : List Write :=
  ⟨0, cstrBytes e.eventName ++ [0]⟩ :: ⟨e.messageStart, cstrBytes e.message ++ [0]⟩ ::
    (optionalWrites e.loggerStart e.logger ++ optionalWrites e.fileStart e.sourceFile ++
      optionalWrites e.functionStart e.sourceFunction)

def Event.copied (mode : Int) (e : Event) (arena : Bytes) : EventCopy where
  timestamp := e.timestamp
  level := e.level
  eventName := ⟨some 0, (cstrBytes e.eventName).length, (cstrBytes e.eventName).any isJsonSpecial⟩
  message := ⟨some e.messageStart, (cstrBytes e.message).length, (cstrBytes e.message).any isJsonSpecial⟩
  loggerName := optionalOwned e.loggerStart e.logger
  attributes := e.placed.map fun p => p.2.owned mode p.1
  traceId := if e.hasTraceContext then e.traceId.getD (.replicate _ 0) else .replicate _ 0
  spanId := if e.hasTraceContext then e.spanId.getD (.replicate _ 0) else .replicate _ 0
  traceFlags := e.traceFlags
  hasTraceContext := e.hasTraceContext
  sourceFile := optionalOwned e.fileStart e.sourceFile
  sourceLine := e.sourceLine
  sourceFunction := optionalOwned e.functionStart e.sourceFunction
  textArena := ((Buffer.fresh arena).writes e.fieldWrites).writes
    (e.placed.flatMap fun p => p.2.copyWrites p.1 ++ p.2.redactWrites mode p.1)
  textArenaSize := (e.scan mode).arenaSize

theorem copyOwnedString_write (st : ArenaCursor) (bs : Bytes) (capacity : Nat) (needs : Bool) :
    copyOwnedStringIntoArena st bs bs.length capacity needs =
      (⟨some st.cursor, bs.length, needs⟩, ⟨st.arena.write ⟨st.cursor, bs ++ [0]⟩, st.cursor + (capacity + 1)⟩) := by
  rw [copyOwnedStringIntoArena, List.take_length, Buffer.write, Buffer.copy_append]
  rfl

theorem copyOptional_write (st : ArenaCursor) (value : Option CString) :
    copyOptionalField st value (fieldScan (cstrBytes value)) =
      (optionalOwned st.cursor value,
        ⟨st.arena.writes (optionalWrites st.cursor value), st.cursor + fieldArena value⟩) := by
  cases value with
  | none => rfl
  | some t => exact copyOwnedString_write st t.bytes t.bytes.length (t.bytes.any isJsonSpecial)

theorem copyAttr_write (mode : Int) (st : ArenaCursor) {a : Attr} (hok : AttrOk a) :
    copyAttr st a (attrScan mode a) = .ok (a.owned mode st.cursor,
      ⟨st.arena.writes (a.copyWrites st.cursor ++ a.redactWrites mode st.cursor), st.cursor + attrArena a⟩) := by
  obtain ⟨-, hvalue⟩ := hok
  obtain ⟨key, value⟩ := a
  have hkey := copyOwnedString_write st (cstrBytes key) (cstrBytes key).length ((cstrBytes key).any isJsonSpecial)
  unfold Attr.owned Attr.redactWrites
  rw [copyAttr_eq]
  cases value with
  | string data =>
    have hcur : st.cursor + attrArena ⟨key, .string data⟩ = st.cursor + ((cstrBytes key).length + 1) +
        (max (data.getD []).length redactedLiteral.length + 1) := by
      rw [Nat.add_assoc]
      rfl
    rw [hcur]
    cases (attrScan mode ⟨key, .string data⟩).shouldRedact
    · simp only [attrScan, hkey, copyAttrValueIntoArena, copyOwnedString_write, Except.map]
      rfl
    · simp only [attrScan, hkey, copyAttrValueIntoArena, copyOwnedString_write, Except.map]
      rfl
  | signed v | unsigned v | bool v | double v =>
    simp only [attrScan, AttrValue.isString, hkey, copyAttrValueIntoArena, Except.map, Bool.and_false, Bool.false_and]
    rfl
  | other _ => exact hvalue.elim

theorem copyAttrs_write (mode : Int) (as : List Attr) :
    ∀ st : ArenaCursor, (∀ a ∈ as, AttrOk a) →
      copyAttrs st (as.zip (as.map (attrScan mode))) =
        .ok ((placedAttrs st.cursor as).map (fun p => p.2.owned mode p.1),
          ⟨st.arena.writes ((placedAttrs st.cursor as).flatMap fun p => p.2.copyWrites p.1 ++ p.2.redactWrites mode p.1),
            st.cursor + (as.map attrArena).sum⟩) := by
  induction as with
  | nil => intro st _; rfl
  | cons a as ih =>
    intro st hok
    rw [List.forall_mem_cons] at hok
    have hrest := ih ⟨st.arena.writes (a.copyWrites st.cursor ++ a.redactWrites mode st.cursor),
      st.cursor + attrArena a⟩ hok.2
    simp only [List.map_cons, List.zip_cons_cons, copyAttrs, copyAttr_write mode st hok.1, hrest]
    simp only [placedAttrs, List.map_cons, List.flatMap_cons, Buffer.writes_append, List.sum_cons, Nat.add_assoc]

theorem copyEvent_copied (mode : Int) {e : Event} (h : e.WellFormed) {attributesOk : Bool} (arena : Bytes)
    (hattrs : e.attributes.count = 0 ∨ attributesOk = true) :
    copyEvent attributesOk arena e (e.scan mode) = .ok (e.copied mode arena) := by
  have hcopied : ∀ st : ArenaCursor,
      (if e.attributes.count = 0 then (.ok ([], st) : Except Status (List OwnedAttr × ArenaCursor))
        else if !attributesOk then .error .internalError
        else copyAttrs st (e.attributes.toList.zip (e.attributes.toList.map (attrScan mode)))) =
      copyAttrs st (e.attributes.toList.zip (e.attributes.toList.map (attrScan mode))) := by
    intro st
    by_cases hzero : e.attributes.count = 0
    · rw [if_pos hzero, toList_of_count_zero hzero]
      rfl
    · rw [if_neg hzero, hattrs.resolve_left hzero]
      rfl
  have hlen : ∀ bs : Bytes, (fieldScan bs).len = bs.length := fun _ => rfl
  have hneeds : ∀ bs : Bytes, (fieldScan bs).needsJsonEscape = bs.any isJsonSpecial := fun _ => rfl
  unfold copyEvent
  simp only [Event.scan, hlen, hneeds, copyOwnedString_write, copyOptional_write, hcopied]
  rw [copyAttrs_write mode _ _ h.attrs]
  simp only [Event.copied, Event.fieldWrites, Buffer.writes_cons, Buffer.writes_append]
  rfl

theorem eventCopyFromInput_copied {cpu : Cpu} {heap : Heap} {e : Event} {mode : Int} {c : EventCopy}
    (h : eventCopyFromInput cpu heap (some e) mode = .ok c) :
    ∃ arena, heap.arena (e.scan mode).arenaSize = some arena ∧ c = e.copied mode arena := by
  obtain ⟨hwf, -, arena, -, harena, hcopy, -⟩ := eventCopyFromInput_passes h
  refine ⟨arena, harena, ?_⟩
  by_cases hattrs : e.attributes.count = 0 ∨ heap.attributes e.attributes.count = true
  · rw [copyEvent_copied mode hwf arena hattrs] at hcopy
    exact (Except.ok.inj hcopy).symm
  · rw [not_or, Bool.not_eq_true] at hattrs
    simp only [copyEvent, if_neg hattrs.1, hattrs.2] at hcopy
    cases hcopy

/-! ## Where the writes go -/

theorem map_snd_placedAttrs (cur : Nat) (as : List Attr) : (placedAttrs cur as).map (·.2) = as := by
  induction as generalizing cur with
  | nil => rfl
  | cons a as ih => rw [placedAttrs, List.map_cons, ih]

theorem placedAttrs_bound (cur : Nat) (as : List Attr) : ∀ p ∈ placedAttrs cur as, cur ≤ p.1 := by
  induction as generalizing cur with
  | nil => intro p hp; cases hp
  | cons a as ih =>
    refine List.forall_mem_cons.2 ⟨Nat.le_refl _, fun p hp => ?_⟩
    exact Nat.le_trans (Nat.le_add_right _ _) (ih _ p hp)

theorem placedAttrs_pairwise (cur : Nat) (as : List Attr) :
    (placedAttrs cur as).Pairwise fun p q => p.1 + attrArena p.2 ≤ q.1 := by
  induction as generalizing cur with
  | nil => exact .nil
  | cons a as ih => exact List.pairwise_cons.2 ⟨placedAttrs_bound _ as, ih _⟩

section Bounds

variable {mode : Int} {cur : Nat} {a : Attr} {w : Write}

theorem Attr.copyWrites_bounds (h : w ∈ a.copyWrites cur) :
    cur ≤ w.start ∧ w.start + w.bytes.length ≤ cur + attrArena a := by
  rw [Attr.copyWrites, List.mem_cons] at h
  rcases h with rfl | h
  · simp only [List.length_append, List.length_singleton, attrArena]
    omega
  · unfold Attr.valueWrites at h
    cases hv : a.value with
    | string data =>
      simp only [hv, List.mem_singleton] at h
      subst h
      simp only [Attr.valueStart, List.length_append, List.length_singleton, attrArena, attrValueArena, hv,
        AttrValue.isString, AttrValue.stringLen, if_true]
      omega
    | signed _ | unsigned _ | bool _ | double _ | other _ => simp [hv] at h

/-- The overwrite stays between the key of its attribute and the next attribute. -/
theorem Attr.redactWrites_bounds (h : w ∈ a.redactWrites mode cur) :
    a.valueStart cur = w.start ∧ w.start + w.bytes.length ≤ cur + attrArena a := by
  rw [Attr.redactWrites] at h
  split at h
  · rename_i hredact
    rw [List.mem_singleton] at h
    subst h
    have hstring : a.value.isString = true := by
      simp only [attrScan, Bool.and_eq_true] at hredact
      exact hredact.1.2
    refine ⟨rfl, ?_⟩
    simp only [Attr.valueStart, List.length_append, List.length_singleton, attrArena, attrValueArena, hstring, if_true]
    omega
  · cases h

end Bounds

theorem redactWrites_apart (e : Event) (mode : Int) :
    e.placed.Pairwise fun p q => ∀ w ∈ p.2.redactWrites mode p.1, ∀ w' ∈ q.2.copyWrites q.1, w.Apart w' := by
  refine (placedAttrs_pairwise _ _).imp ?_
  intro p q hpq w hw w' hw'
  have hend := (Attr.redactWrites_bounds hw).2
  have hstart := (Attr.copyWrites_bounds hw').1
  exact .inl (by omega)

theorem redactWrites_pairwise (e : Event) (mode : Int) :
    (e.placed.flatMap fun p => p.2.redactWrites mode p.1).Pairwise Write.Apart := by
  refine List.pairwise_flatMap.2 ⟨fun p _ => ?_, (placedAttrs_pairwise _ _).imp ?_⟩
  · rw [Attr.redactWrites]
    split
    · exact List.pairwise_singleton _ _
    · exact .nil
  · intro p q hpq w hw w' hw'
    have hend := (Attr.redactWrites_bounds hw).2
    have hstart := (Attr.redactWrites_bounds hw').1
    simp only [Attr.valueStart] at hstart
    exact .inl (by omega)

theorem placed_apart {e : Event} {p q : Nat × Attr} (hp : p ∈ e.placed) (hq : q ∈ e.placed) :
    p = q ∨ p.1 + attrArena p.2 ≤ q.1 ∨ q.1 + attrArena q.2 ≤ p.1 := by
  have hsymm : Std.Symm fun p q : Nat × Attr => p.1 + attrArena p.2 ≤ q.1 ∨ q.1 + attrArena q.2 ≤ p.1 :=
    ⟨fun _ _ h => h.symm⟩
  have hpairwise : e.placed.Pairwise fun p q => p.1 + attrArena p.2 ≤ q.1 ∨ q.1 + attrArena q.2 ≤ p.1 :=
    (placedAttrs_pairwise _ _).imp Or.inl
  by_cases hpq : p = q
  · exact .inl hpq
  · exact .inr (hpairwise.forall hp hq hpq)

theorem redactWrites_key {e : Event} {p q : Nat × Attr} (hp : p ∈ e.placed) (hq : q ∈ e.placed) (mode : Int) :
    ∀ w ∈ p.2.redactWrites mode p.1,
      q.1 + (cstrBytes q.2.key).length ≤ w.start ∨ w.start + w.bytes.length ≤ q.1 := by
  intro w hw
  obtain ⟨hstart, hend⟩ := Attr.redactWrites_bounds hw
  rw [Attr.valueStart] at hstart
  have hkey : (cstrBytes q.2.key).length < attrArena q.2 := by rw [attrArena]; omega
  rcases placed_apart hp hq with rfl | hpq
  · left; omega
  · omega

/-! ## The filter -/

theorem shouldRedact_disabled (a : Attr) : (attrScan redactionModeDisabled a).shouldRedact = false := rfl

/-- The filter does to a plain copied value what the copy pass would have done. -/
theorem redactOwnedAttrValueN_owned (cur : Nat) (a : Attr) {capacity : Nat} (hcap : redactedLiteral.length ≤ capacity)
    (m : Buffer) :
    redactOwnedAttrValueN (some (cstrBytes a.key)) (a.owned redactionModeDisabled cur).value capacity m =
      ((a.owned redactionModeEnabled cur).value, m.writes (a.redactWrites redactionModeEnabled cur)) := by
  obtain ⟨key, value⟩ := a
  cases value with
  | string data =>
    have hredact : (attrScan redactionModeEnabled ⟨key, .string data⟩).shouldRedact = keyShouldRedactN (cstrBytes key) :=
      rfl
    simp only [Attr.owned, Attr.redactWrites, shouldRedact_disabled, hredact, redactOwnedAttrValueN, Option.map_some,
      Option.getD_some, if_neg (Nat.not_lt.2 hcap)]
    by_cases hkey : keyShouldRedactN (cstrBytes key) = true
    · simp only [hkey]
      rfl
    · simp only [Bool.not_eq_true] at hkey
      simp only [hkey]
      rfl
  | signed v | unsigned v | bool v | double v | other _ => rfl

def Event.redactWritesAt (e : Event) (i : Nat) : List Write :=
  ((e.placed[i]?).map fun p => p.2.redactWrites redactionModeEnabled p.1).getD []

/-- The keys of a copy are still in its arena. -/
def Event.KeysIntact (e : Event) (m : Buffer) : Prop :=
  ∀ p ∈ e.placed, m.read p.1 (cstrBytes p.2.key).length = cstrBytes p.2.key

theorem Event.KeysIntact.writes {e : Event} {m : Buffer} (h : e.KeysIntact m) (i : Nat) :
    e.KeysIntact (m.writes (e.redactWritesAt i)) := by
  intro q hq
  rw [Buffer.read_writes, h q hq]
  rw [Event.redactWritesAt]
  cases hi : e.placed[i]? with
  | none => intro w hw; cases hw
  | some p => exact redactWrites_key (List.mem_of_getElem? hi) hq redactionModeEnabled

theorem redactAt_owned {e : Event} {c : EventCopy} (hkeys : e.KeysIntact c.textArena) {i : Nat} {p : Nat × Attr}
    (hp : e.placed[i]? = some p) (hi : c.attributes[i]? = some (p.2.owned redactionModeDisabled p.1)) :
    c.redactAt (e.valueCapacity i) i =
      { c with
        attributes := c.attributes.set i (p.2.owned redactionModeEnabled p.1)
        textArena := c.textArena.writes (e.redactWritesAt i) } := by
  have hkey : (p.2.owned redactionModeDisabled p.1).key.bytes c.textArena = cstrBytes p.2.key :=
    hkeys p (List.mem_of_getElem? hp)
  have hfilter := redactOwnedAttrValueN_owned p.1 p.2 (show redactedLiteral.length ≤ e.valueCapacity i from Nat.le_max_right _ _)
    c.textArena
  rw [EventCopy.redactAt, hi]
  simp only [hkey, hfilter, Event.redactWritesAt, hp, Option.map_some, Option.getD_some]
  rfl

theorem redactAttrs_run {e : Event} (order : List Nat) :
    ∀ c : EventCopy, order.Nodup → e.KeysIntact c.textArena →
      (∀ i ∈ order, ∃ p, e.placed[i]? = some p ∧ c.attributes[i]? = some (p.2.owned redactionModeDisabled p.1)) →
      ∃ attrs, redactAttrs e order c =
          { c with attributes := attrs, textArena := c.textArena.writes (order.flatMap e.redactWritesAt) } ∧
        attrs.length = c.attributes.length ∧
        ∀ j, attrs[j]? = if j ∈ order then (e.placed[j]?).map (fun p => p.2.owned redactionModeEnabled p.1)
          else c.attributes[j]? := by
  induction order with
  | nil =>
    intro c _ _ _
    exact ⟨c.attributes, rfl, rfl, fun j => rfl⟩
  | cons i order ih =>
    intro c hnodup hkeys hplain
    rw [List.nodup_cons] at hnodup
    rw [List.forall_mem_cons] at hplain
    obtain ⟨⟨p, hp, hi⟩, hplain⟩ := hplain
    have hstep := redactAt_owned hkeys hp hi
    obtain ⟨attrs, hrun, hlen, hattrs⟩ := ih (c.redactAt (e.valueCapacity i) i) hnodup.2
      (by rw [hstep]; exact hkeys.writes i) (by
        intro j hj
        obtain ⟨q, hq, hj'⟩ := hplain j hj
        refine ⟨q, hq, ?_⟩
        have hne : i ≠ j := fun h => hnodup.1 (h ▸ hj)
        rw [hstep]
        simp only [List.getElem?_set_ne hne, hj'])
    have hstart : c.textArena.writes (e.redactWritesAt i) = (c.redactAt (e.valueCapacity i) i).textArena := by rw [hstep]
    refine ⟨attrs, ?_, ?_, fun j => ?_⟩
    · rw [redactAttrs, List.foldl_cons]
      refine hrun.trans ?_
      rw [List.flatMap_cons, Buffer.writes_append, hstart, hstep]
    · rw [hlen, hstep, List.length_set]
    · rw [hattrs j]
      by_cases hj : j ∈ order
      · rw [if_pos hj, if_pos (List.mem_cons_of_mem _ hj)]
      · rw [if_neg hj, hstep]
        by_cases hij : i = j
        · subst hij
          have hlt : i < c.attributes.length := (List.getElem?_eq_some_iff.1 hi).1
          rw [if_pos List.mem_cons_self, hp, Option.map_some]
          exact List.getElem?_set_self hlt
        · rw [if_neg (by simp [hj, Ne.symm hij])]
          exact List.getElem?_set_ne hij

theorem flatMap_redactWritesAt (e : Event) :
    (List.range e.placed.length).flatMap e.redactWritesAt =
      e.placed.flatMap fun p => p.2.redactWrites redactionModeEnabled p.1 := by
  have hlist : (List.range e.placed.length).map e.redactWritesAt =
      e.placed.map fun p => p.2.redactWrites redactionModeEnabled p.1 := by
    refine List.ext_getElem (by simp) fun i h h' => ?_
    rw [List.length_map] at h'
    simp only [List.getElem_map, List.getElem_range, Event.redactWritesAt, List.getElem?_eq_getElem h', Option.map_some,
      Option.getD_some]
  rw [List.flatMap_def, List.flatMap_def, hlist]

theorem Event.copied_keysIntact {e : Event} {mode : Int} {arena : Bytes}
    (h : (e.copied mode arena).Represents (e.record mode)) : e.KeysIntact (e.copied mode arena).textArena := by
  have hattrs : List.Forall₂ (AttrText (e.copied mode arena).textArena) (e.placed.map fun p => p.2.owned mode p.1)
      (e.placed.map fun p => (cstrBytes p.2.key, p.2.stored mode)) := by
    have hmap : e.placed.map (fun p => (cstrBytes p.2.key, p.2.stored mode)) =
        e.attributes.toList.map fun a => (cstrBytes a.key, a.stored mode) := by
      rw [← map_snd_placedAttrs e.attrsStart e.attributes.toList, List.map_map]
      rfl
    rw [hmap]
    exact h.attributes
  rw [List.forall₂_map_left_iff, List.forall₂_map_right_iff, List.forall₂_same] at hattrs
  intro p hp
  exact (hattrs p hp).1.bytes_eq

theorem Event.copied_plain (e : Event) (arena : Bytes) :
    (e.copied redactionModeDisabled arena).textArena =
      ((Buffer.fresh arena).writes e.fieldWrites).writes (e.placed.flatMap fun p => p.2.copyWrites p.1) := by
  have hnone : ∀ p : Nat × Attr, p.2.redactWrites redactionModeDisabled p.1 = [] := fun p => by
    rw [Attr.redactWrites, shouldRedact_disabled]
    rfl
  simp only [Event.copied, hnone, List.append_nil]

/-- Copying with redaction on is copying with it off and applying the filter to the attributes of
the copy, in any order. The blocks that the two copies were given may differ in what was in them
before; the octets that were written do not. -/
theorem redaction_paths_agree (cpu cpu' : Cpu) (heap heap' : Heap) (e : Event) (redacted plain : EventCopy)
    (henabled : eventCopyFromInput cpu heap (some e) redactionModeEnabled = .ok redacted)
    (hdisabled : eventCopyFromInput cpu' heap' (some e) redactionModeDisabled = .ok plain) (order : List Nat)
    (horder : order.Perm (List.range plain.attributes.length)) :
    redactAttrs e order plain = { redacted with textArena := (redactAttrs e order plain).textArena } ∧
      (redactAttrs e order plain).textArena.size = redacted.textArena.size ∧
      (∀ k ∈ redacted.textArena.stores,
        (redactAttrs e order plain).textArena.bytes[k]? = redacted.textArena.bytes[k]?) ∧
      (heap.arena redacted.textArenaSize = heap'.arena redacted.textArenaSize →
        (redactAttrs e order plain).textArena.bytes = redacted.textArena.bytes) := by
  obtain ⟨-, hrep⟩ := eventCopyFromInput_represents hdisabled
  obtain ⟨block, hblock, rfl⟩ := eventCopyFromInput_copied henabled
  obtain ⟨block', hblock', rfl⟩ := eventCopyFromInput_copied hdisabled
  have hlen : (e.copied redactionModeDisabled block').attributes.length = e.placed.length := List.length_map _
  rw [hlen] at horder
  have hkeys := Event.copied_keysIntact hrep
  obtain ⟨attrs, hrun, hattrsLen, hattrs⟩ := redactAttrs_run order (e.copied redactionModeDisabled block')
    (horder.nodup_iff.2 List.nodup_range) hkeys fun i hi => by
      have hi' : i < e.placed.length := List.mem_range.1 (horder.mem_iff.1 hi)
      refine ⟨_, List.getElem?_eq_getElem hi', ?_⟩
      simp only [Event.copied, List.getElem?_map, List.getElem?_eq_getElem hi', Option.map_some]
  have hall : attrs = e.placed.map fun p => p.2.owned redactionModeEnabled p.1 := by
    refine List.ext_getElem? fun j => ?_
    rw [hattrs j, List.getElem?_map]
    split
    · rfl
    · rename_i hj
      have hj' : e.placed.length ≤ j := Nat.not_lt.1 fun h => hj (horder.mem_iff.2 (List.mem_range.2 h))
      rw [List.getElem?_eq_none hj', List.getElem?_eq_none (hlen ▸ hj')]
      rfl
  -- the same writes, but for the order of overwrites that do not meet
  have halike : Buffer.Alike (fun k => block[k]? = block'[k]?) (e.copied redactionModeEnabled block).textArena
      ((e.copied redactionModeDisabled block').textArena.writes (order.flatMap e.redactWritesAt)) := by
    have hfresh : Buffer.Alike (fun k => block[k]? = block'[k]?) (.fresh block) (.fresh block') := by
      refine ⟨?_, fun k => .rfl, fun k hk => hk.resolve_right fun h => by cases h⟩
      exact (heap.arena_size _ _ hblock).trans (heap'.arena_size _ _ hblock').symm
    rw [Event.copied_plain]
    refine (Buffer.writes_flatMap_append (redactWrites_apart e redactionModeEnabled)).trans ?_
    refine Buffer.Alike.trans (((hfresh.writes _).writes _).writes _) (Buffer.Alike.symm ?_)
    rw [← flatMap_redactWritesAt]
    refine Buffer.Alike.symm (Buffer.writes_perm (horder.flatMap_right _).symm ?_)
    rw [flatMap_redactWritesAt]
    exact redactWrites_pairwise e redactionModeEnabled
  rw [hrun, hall]
  refine ⟨rfl, halike.size.symm, fun k hk => (halike.bytes k (.inr hk)).symm, fun hheap => ?_⟩
  have hsame : block = block' := by
    have : some block = some block' := by rw [← hblock, ← hblock']; exact hheap
    exact Option.some.inj this
  subst hsame
  exact List.ext_getElem? fun k => (halike.bytes k (.inl rfl)).symm

theorem redaction_paths_agree_login :
    ∃ redacted plain, eventCopyFromInput scalarCpu zeroHeap (some loginEvent) redactionModeEnabled = .ok redacted ∧
      eventCopyFromInput scalarCpu zeroHeap (some loginEvent) redactionModeDisabled = .ok plain ∧
      (redactAttrs loginEvent [2, 0, 1] plain).textArena.bytes = redacted.textArena.bytes := by
  refine ⟨_, _, rfl, rfl, ?_⟩
  have hagree := redaction_paths_agree scalarCpu scalarCpu zeroHeap zeroHeap loginEvent _ _ rfl rfl [2, 0, 1]
    (show [2, 0, 1].Perm (List.range 3) by decide)
  exact hagree.2.2.2 rfl

/-! ## The filter and its buffer -/

/-- The literal and its terminator were written into the `capacity` octets at `off`, and nowhere else. -/
structure RedactedInside (off capacity : Nat) (needs : Bool) (r : OwnedAttrValue × Buffer) : Prop where
  stores : ∀ k ∈ r.2.stores, off ≤ k ∧ k < off + capacity
  value : r.1 = .string ⟨some off, redactedLiteral.length, needs⟩
  text : r.2.read off (redactedLiteral.length + 1) = redactedLiteral ++ [0]
  terminator : redactedLiteral.length < capacity

/-- A value is left alone, or redacted inside its buffer. -/
def RedactsSafely (key : Option Bytes) (s : OwnedString) (capacity : Nat) (memory : Bytes) : Prop :=
  redactOwnedAttrValueN key (.string s) capacity (.fresh memory) = (.string s, .fresh memory) ∨
    ∃ off, s.data = some off ∧ RedactedInside off capacity s.needsJsonEscape
      (redactOwnedAttrValueN key (.string s) capacity (.fresh memory))

theorem redactOwnedAttrValueN_kept {key : Option Bytes} {s : OwnedString} {capacity : Nat}
    (h : s.data = none ∨ capacity < redactedLiteral.length ∨ (key.map keyShouldRedactN).getD false = false) (m : Buffer) :
    redactOwnedAttrValueN key (.string s) capacity m = (.string s, m) := by
  obtain ⟨data, len, needs⟩ := s
  cases data with
  | none => rfl
  | some off =>
    simp only [redactOwnedAttrValueN]
    split
    · rfl
    · rename_i hcap
      rw [(h.resolve_left (by simp)).resolve_left hcap]
      rfl

theorem redactOwnedAttrValueN_overwrites {key : Option Bytes} {capacity : Nat} (off len : Nat) (needs : Bool)
    (hcap : redactedLiteral.length ≤ capacity) (hkey : (key.map keyShouldRedactN).getD false = true) (m : Buffer) :
    redactOwnedAttrValueN key (.string ⟨some off, len, needs⟩) capacity m =
      (.string ⟨some off, redactedLiteral.length, needs⟩, m.copy off (redactedLiteral ++ [0])) := by
  simp only [redactOwnedAttrValueN, if_neg (Nat.not_lt.2 hcap), hkey]
  rfl

/-- In a buffer of exactly the size of the literal the terminator is behind the buffer. -/
theorem not_redactsSafely {key : Option Bytes} (hkey : (key.map keyShouldRedactN).getD false = true) (off len : Nat)
    (needs : Bool) (memory : Bytes) : ¬ RedactsSafely key ⟨some off, len, needs⟩ redactedLiteral.length memory := by
  rw [RedactsSafely, redactOwnedAttrValueN_overwrites off len needs (Nat.le_refl _) hkey]
  rintro (hsame | ⟨off', hoff, hinside⟩)
  · have hstores := congrArg (fun r => r.2.stores) hsame
    rw [Buffer.copy_append] at hstores
    cases hstores
  · exact absurd hinside.terminator (Nat.lt_irrefl _)

/-- The guard asks for room for the literal, but the copy takes the terminator along. -/
theorem redactsSafely_iff (key : Option Bytes) (s : OwnedString) (capacity : Nat) (memory : Bytes)
    (hbuffer : ∀ off, s.data = some off → off + capacity ≤ memory.length) :
    RedactsSafely key s capacity memory ↔
      ¬ (s.data ≠ none ∧ (key.map keyShouldRedactN).getD false = true ∧ capacity = redactedLiteral.length) := by
  by_cases hkept : s.data = none ∨ capacity < redactedLiteral.length ∨ (key.map keyShouldRedactN).getD false = false
  · refine ⟨fun _ hbad => ?_, fun _ => .inl (redactOwnedAttrValueN_kept hkept _)⟩
    obtain ⟨hdata, hkey, hcap⟩ := hbad
    rcases hkept with h | h | h
    · exact hdata h
    · omega
    · rw [hkey] at h
      cases h
  · obtain ⟨data, len, needs⟩ := s
    rw [not_or, not_or, Nat.not_lt, Bool.not_eq_false] at hkept
    obtain ⟨hdata, hcap, hkey⟩ := hkept
    obtain ⟨off, rfl⟩ := Option.ne_none_iff_exists'.1 hdata
    have hroom := hbuffer off rfl
    have hlen : (redactedLiteral ++ [(0 : UInt8)]).length = redactedLiteral.length + 1 := List.length_append
    constructor
    · rintro hsafe ⟨-, -, rfl⟩
      exact not_redactsSafely hkey off len needs memory hsafe
    · intro hgood
      rw [RedactsSafely, redactOwnedAttrValueN_overwrites off len needs hcap hkey]
      have hlt : redactedLiteral.length < capacity :=
        Nat.lt_of_le_of_ne hcap fun heq => hgood ⟨hdata, hkey, heq.symm⟩
      refine .inr ⟨off, rfl, ?_, rfl, ?_, hlt⟩
      · intro k hk
        rcases Buffer.mem_stores_copy hk with hk | hk
        · cases hk
        · rw [hlen] at hk
          omega
      · rw [← hlen]
        exact Buffer.read_copy (by
          rw [hlen]
          show off + (redactedLiteral.length + 1) ≤ memory.length
          omega)

/-- A password in a buffer of ten octets, with other memory behind it. -/
theorem not_redactsSafely_ten :
    ∃ memory : Bytes, memory = ascii "top-secret" ++ ascii "next" ∧
      redactOwnedAttrValueN (some (ascii "password")) (.string ⟨some 0, 10, false⟩) 10 (.fresh memory) =
        (.string ⟨some 0, 10, false⟩, ⟨ascii "[REDACTED]" ++ 0 :: ascii "ext", [10, 9, 8, 7, 6, 5, 4, 3, 2, 1, 0]⟩) ∧
      ¬ RedactsSafely (some (ascii "password")) ⟨some 0, 10, false⟩ 10 memory := by
  refine ⟨_, rfl, rfl, ?_⟩
  exact not_redactsSafely (by decide) 0 10 false _

theorem redactsSafely_iff_eleven :
    RedactsSafely (some (ascii "password")) ⟨some 0, 10, false⟩ 11 (ascii "top-secret" ++ [0]) := by
  refine (redactsSafely_iff _ _ _ _ ?_).2 ?_
  · intro off hoff
    cases hoff
    decide
  · rintro ⟨-, -, hcap⟩
    exact absurd hcap (by decide)

end IoJournal
