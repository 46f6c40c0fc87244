import IoJournal.RoundTrip

/-!
# IoJournal.RedactionPolicy

What redaction does to each attribute of a line.

The sizing pass marks an attribute for redaction when its key is on the denylist and its value is a
string; the copy pass overwrites the string. A number or a boolean under a denylisted key is not
marked, and is emitted as it is.
-/

namespace IoJournal

open Wire

/-- The value that the caller gave. The last line is not reached by a valid event. -/
def AttrValue.own : AttrValue → Value
  | .string data => .string (data.getD [])
  | .signed v => .signed v
  | .unsigned v => .unsigned v
  | .bool v => .bool v
  | .double v => .double v
  | .other _ => .bool false

def Attr.isSecret (a : Attr) : Bool := keyShouldRedactN (cstrBytes a.key)

/-- Redaction of strings: a secret string is replaced, everything else is kept. -/
def Attr.stringPolicy (a : Attr) : Value :=
  if a.isSecret && a.value.isString then .string redactedLiteral else a.value.own

/-- Redaction of every kind of value. -/
def Attr.valuePolicy (a : Attr) : Value := if a.isSecret then .string redactedLiteral else a.value.own

/-- A line has the attributes of the event in their order, under their keys, with the values that a
policy gives them. -/
def EmitsAttributes (g17 : Double → Bytes) (policy : Attr → Value) (e : Event) (output : Bytes) : Prop :=
  ∃ json line, Json.parse output = some json ∧ readLine json = some line ∧
    List.Forall₂ (fun a m => a.key.map (·.bytes) = some m.1 ∧ (policy a).Reads g17 m.2) e.attributes.toList
      line.attributes

theorem Attr.stored_enabled (a : Attr) : a.stored redactionModeEnabled = a.stringPolicy := by
  unfold Attr.stored Attr.stringPolicy Attr.isSecret attrScan
  cases hv : a.value with
  | string data => cases keyShouldRedactN (cstrBytes a.key) <;> simp [AttrValue.isString, AttrValue.own]
  | signed _ | unsigned _ | bool _ | double _ | other _ => simp [AttrValue.isString, AttrValue.own]

theorem jsonConsoleEncode_attributes {g17 : Double → Bytes}
    (hg : ∀ d : Double, d.isFinite = true → Json.Number (g17 d)) {cpu : Cpu} {heap : Heap} {e : Event} {mode : Int}
    {c : EventCopy} (hcopy : eventCopyFromInput cpu heap (some e) mode = .ok c) {buffer : Bytes}
    (hok : (jsonConsoleEncode cpu g17 (some c) (some buffer)).status = .ok) :
    EmitsAttributes g17 (·.stored mode) e (jsonConsoleEncode cpu g17 (some c) (some buffer)).output := by
  obtain ⟨hwf, hy, level, attrs, hlevel, hreads, htext⟩ := jsonConsoleEncode_members hg hcopy hok
  exact ⟨_, _, Json.parse_complete htext, Record.readLine_members (hwf.record_valid mode) hy level attrs,
    (Event.record_describes hwf hlevel hreads).attributes⟩

/-- With redaction on, the string under every denylisted key is emitted as the literal, and every
other value as it was given. -/
theorem jsonConsoleEncode_redacts (g17 : Double → Bytes)
    (hg : ∀ d : Double, d.isFinite = true → Json.Number (g17 d)) (cpu : Cpu) (heap : Heap) (e : Event) (c : EventCopy)
    (hcopy : eventCopyFromInput cpu heap (some e) redactionModeEnabled = .ok c) (buffer : Bytes)
    (hok : (jsonConsoleEncode cpu g17 (some c) (some buffer)).status = .ok) :
    EmitsAttributes g17 Attr.stringPolicy e (jsonConsoleEncode cpu g17 (some c) (some buffer)).output := by
  have hemits := jsonConsoleEncode_attributes hg hcopy hok
  simp only [Attr.stored_enabled] at hemits
  exact hemits

theorem jsonConsoleEncode_redacts_login :
    ∃ c, eventCopyFromInput scalarCpu zeroHeap (some loginEvent) redactionModeEnabled = .ok c ∧
      EmitsAttributes printHalf Attr.stringPolicy loginEvent
        (jsonConsoleEncode scalarCpu printHalf (some c) (some (List.replicate 256 0))).output :=
  ⟨_, rfl, jsonConsoleEncode_redacts printHalf (fun d _ => printHalf_number d) scalarCpu zeroHeap loginEvent _ rfl
    (List.replicate 256 0) (by decide +kernel)⟩

/-- A session identifier that is a number. -/
def sessionEvent : Event :=
  { loginEvent with
    attributes := .array [⟨some ⟨ascii "session_id", forall_mem_of_all (by decide)⟩, .unsigned 7219⟩] }

/-- The number is emitted, although its key is on the denylist. -/
theorem sessionEvent_emitted :
    (∀ a ∈ sessionEvent.attributes.toList, a.isSecret = true) ∧
      ∃ c, eventCopyFromInput scalarCpu zeroHeap (some sessionEvent) redactionModeEnabled = .ok c ∧
        (jsonConsoleEncode scalarCpu printHalf (some c) (some (List.replicate 256 0))).status = .ok ∧
        ¬ EmitsAttributes printHalf Attr.valuePolicy sessionEvent
          (jsonConsoleEncode scalarCpu printHalf (some c) (some (List.replicate 256 0))).output := by
  have hok : ∃ c, eventCopyFromInput scalarCpu zeroHeap (some sessionEvent) redactionModeEnabled = .ok c ∧
      (jsonConsoleEncode scalarCpu printHalf (some c) (some (List.replicate 256 0))).status = .ok :=
    ⟨_, rfl, by decide +kernel⟩
  obtain ⟨c, hcopy, hok⟩ := hok
  refine ⟨by decide, c, hcopy, hok, ?_⟩
  rintro ⟨json, line, hparse, hline, hpolicy⟩
  obtain ⟨json', line', hparse', hline', hstored⟩ :=
    jsonConsoleEncode_attributes (fun d _ => printHalf_number d) hcopy hok
  cases hparse.symm.trans hparse'
  cases hline.symm.trans hline'
  -- the one value of the line is a number on one side and the literal on the other
  generalize line.attributes = members at hpolicy hstored
  cases hstored with
  | @cons _ m _ _ hnumber _ =>
    cases hpolicy with
    | cons hliteral _ =>
      obtain ⟨key, value⟩ := m
      cases value with
      | num t => exact hliteral.2.elim
      | _ => exact hnumber.2.elim

end IoJournal
