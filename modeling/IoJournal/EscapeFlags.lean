import IoJournal.NonInterference

/-!
# IoJournal.EscapeFlags

The escape flag of a stored string only saves work.

`EventCopy.forceEscape` sets every flag of a copy, so that every string goes through the escape
loop. A clear flag promises a plain string; a set flag promises nothing, so the changed copy still
represents the same record (`EventCopy.Represents.forceEscape`), and an encoder's outcome is a
function of the record.
-/

namespace IoJournal

open Wire

def OwnedString.forceEscape (s : OwnedString) : OwnedString := { s with needsJsonEscape := true }

def OwnedAttrValue.forceEscape : OwnedAttrValue → OwnedAttrValue
  | .string s => .string s.forceEscape
  | v => v

def OwnedAttr.forceEscape (a : OwnedAttr) : OwnedAttr := ⟨a.key.forceEscape, a.value.forceEscape⟩

/-- The copy with every `needs_json_escape` set. -/
def EventCopy.forceEscape (c : EventCopy) : EventCopy :=
  { c with
    eventName := c.eventName.forceEscape
    message := c.message.forceEscape
    loggerName := c.loggerName.forceEscape
    attributes := c.attributes.map OwnedAttr.forceEscape
    sourceFile := c.sourceFile.forceEscape
    sourceFunction := c.sourceFunction.forceEscape }

/-! ## A set flag promises nothing -/

section Force

variable {m : Buffer}

theorem Text.forceEscape {s : OwnedString} {bs : Bytes} (h : Text m s bs) : Text m s.forceEscape bs where
  read := h.read
  len := h.len
  plain hflag := by simp [OwnedString.forceEscape] at hflag

theorem OptionalText.forceEscape {s : OwnedString} {bs : Option Bytes} (h : OptionalText m s bs) :
    OptionalText m s.forceEscape bs := by
  cases bs with
  | none => exact h
  | some bs => exact Text.forceEscape h

theorem ValueText.forceEscape {o : OwnedAttrValue} {v : Value} (h : ValueText m o v) : ValueText m o.forceEscape v := by
  cases v with
  | string bs =>
    obtain ⟨s, rfl, h⟩ := h
    exact ⟨s.forceEscape, rfl, h.forceEscape⟩
  | signed _ | unsigned _ | bool _ | double _ => cases h; rfl

theorem EventCopy.Represents.forceEscape {c : EventCopy} {r : Record} (h : c.Represents r) :
    c.forceEscape.Represents r where
  timestamp := h.timestamp
  level := h.level
  eventName := h.eventName.forceEscape
  message := h.message.forceEscape
  logger := h.logger.forceEscape
  attributes := by
    refine List.forall₂_map_left_iff.2 (h.attributes.imp ?_)
    intro o p ho
    exact ⟨ho.1.forceEscape, ho.2.forceEscape⟩
  sourceFile := h.sourceFile.forceEscape
  sourceFunction := h.sourceFunction.forceEscape

end Force

/-! ## A clear flag promises a plain string -/

/-- A clear flag stands for a string without special octets. -/
def OwnedString.FlagSound (m : Buffer) (s : OwnedString) : Prop :=
  s.needsJsonEscape = false → ∀ b ∈ s.bytes m, ¬ (b < 0x20 ∨ b = 0x22 ∨ b = 0x5C)

theorem Text.flagSound {m : Buffer} {s : OwnedString} {bs : Bytes} (h : Text m s bs) : s.FlagSound m := by
  intro hflag b hb
  rw [h.bytes_eq] at hb
  rw [← isJsonSpecial_iff, h.plain hflag b hb]
  exact Bool.false_ne_true

theorem OptionalText.flagSound {m : Buffer} {s : OwnedString} {bs : Option Bytes} (h : OptionalText m s bs) :
    s.FlagSound m := by
  cases bs with
  | none =>
    have hnone : s.data = none := h
    intro _ b hb
    simp [OwnedString.bytes, hnone] at hb
  | some bs => exact Text.flagSound h

theorem AttrText.flagSound {m : Buffer} {o : OwnedAttr} {p : Bytes × Value} (h : AttrText m o p) :
    ∀ s ∈ o.strings, s.FlagSound m := by
  intro s hs
  obtain ⟨hkey, hvalue⟩ := h
  rw [OwnedAttr.strings, List.mem_cons] at hs
  rcases hs with rfl | hs
  · exact hkey.flagSound
  cases hp : p.2 with
  | string bs =>
    rw [hp] at hvalue
    obtain ⟨t, ht, htext⟩ := hvalue
    simp only [ht, OwnedAttrValue.strings, List.mem_singleton] at hs
    exact hs ▸ htext.flagSound
  | signed _ | unsigned _ | bool _ | double _ =>
    rw [hp] at hvalue
    have hvalue : o.value = _ := hvalue
    simp [hvalue, OwnedAttrValue.strings] at hs

theorem attrsText_flagSound {m : Buffer} {os : List OwnedAttr} {ps : List (Bytes × Value)}
    (h : List.Forall₂ (AttrText m) os ps) : ∀ o ∈ os, ∀ s ∈ o.strings, s.FlagSound m := by
  induction h with
  | nil => intro o ho; cases ho
  | cons ha _ ih => exact List.forall_mem_cons.2 ⟨ha.flagSound, ih⟩

theorem EventCopy.Represents.flagSound {c : EventCopy} {r : Record} (h : c.Represents r) :
    ∀ s ∈ c.strings, s.FlagSound c.textArena := by
  intro s hs
  simp only [EventCopy.strings, List.mem_append, List.mem_cons, List.not_mem_nil, or_false, List.mem_flatMap] at hs
  rcases hs with (rfl | rfl | rfl | rfl | rfl) | ⟨o, ho, hs⟩
  · exact h.eventName.flagSound
  · exact h.message.flagSound
  · exact h.logger.flagSound
  · exact h.sourceFile.flagSound
  · exact h.sourceFunction.flagSound
  · exact attrsText_flagSound h.attributes o ho s hs

/-- On the copy of an accepted event, in either mode, clear flags are right, and the encoder does
the same as with every string sent through the escape loop. -/
theorem jsonConsoleEncode_forceEscape (cpu cpu' : Cpu) (g17 : Double → Bytes) (heap : Heap) (event : Option Event)
    (mode : Int) (c : EventCopy) (h : eventCopyFromInput cpu heap event mode = .ok c) :
    (∀ s ∈ c.strings, s.needsJsonEscape = false →
        ∀ b ∈ s.bytes c.textArena, ¬ (b < 0x20 ∨ b = 0x22 ∨ b = 0x5C)) ∧
      ∀ buffer : Option Bytes,
        (jsonConsoleEncode cpu' g17 (some c) buffer).Same (jsonConsoleEncode cpu' g17 (some c.forceEscape) buffer) := by
  cases event with
  | none => cases h
  | some e =>
    obtain ⟨hwf, hrep⟩ := eventCopyFromInput_represents h
    refine ⟨hrep.flagSound, fun buffer => ?_⟩
    cases buffer with
    | none => exact ⟨rfl, fun _ => rfl, fun _ => rfl⟩
    | some bytes =>
      have hn : (e.record mode).timestamp.nanoseconds < 1000000000 := hwf.nanoseconds
      exact (jsonConsoleEncode_encodes cpu' g17 hrep hn bytes).same
        (jsonConsoleEncode_encodes cpu' g17 hrep.forceEscape hn bytes)

theorem jsonConsoleEncode_forceEscape_login :
    ∃ c, eventCopyFromInput scalarCpu zeroHeap (some loginEvent) redactionModeEnabled = .ok c ∧
      (∀ s ∈ c.strings, s.needsJsonEscape = false →
        ∀ b ∈ s.bytes c.textArena, ¬ (b < 0x20 ∨ b = 0x22 ∨ b = 0x5C)) ∧
      ∀ buffer : Option Bytes, (jsonConsoleEncode scalarCpu printHalf (some c) buffer).Same
        (jsonConsoleEncode scalarCpu printHalf (some c.forceEscape) buffer) :=
  ⟨_, rfl, jsonConsoleEncode_forceEscape scalarCpu scalarCpu printHalf zeroHeap (some loginEvent) redactionModeEnabled _
    rfl⟩

end IoJournal
