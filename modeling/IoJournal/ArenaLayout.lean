import IoJournal.Encode
import IoJournal.EventCopy

/-!
# IoJournal.ArenaLayout

How the strings of a copy share one arena.

The sizing pass adds up one slot for each string: its length, or for an attribute value room for
the redaction literal, and a terminator. The copy pass cuts the arena in the same order. `Laid`, the
invariant of that pass, says that the strings lie one after the other without a gap; here it is read
as what a client of the copy relies on: regions that do not meet, and texts that read back.
-/

namespace IoJournal

open Wire

structure Region where
  start : Nat
  size : Nat
  deriving DecidableEq

def Region.Disjoint (r r' : Region) : Prop := r.start + r.size ≤ r'.start ∨ r'.start + r'.size ≤ r.start

/-- The octets set aside for a string, with those for its terminator. -/
def OwnedString.region (s : OwnedString) (slot : Slot) : Region := ⟨s.data.getD 0, slot.capacity + 1⟩

def EventCopy.regions (c : EventCopy) (slots : List Slot) : List Region :=
  List.zipWith OwnedString.region c.storedStrings slots

def OwnedString.ReadsBack (m : Buffer) (s : OwnedString) (text : Bytes) : Prop :=
  s.bytes m = text ∧ ∃ off, s.data = some off ∧ m.bytes[off + s.len]? = some 0

/-- The arena of a copy, against the slots of its event and the cursor at the end of the pass. -/
structure EventCopy.ArenaSound (c : EventCopy) (slots : List Slot) (st : ArenaCursor) : Prop where
  arena : st.arena = c.textArena
  stores : ∀ k ∈ c.textArena.stores, k < c.textArenaSize
  cursor : st.cursor = c.textArenaSize
  inside : ∀ r ∈ c.regions slots, r.start + r.size ≤ c.textArenaSize
  disjoint : (c.regions slots).Pairwise Region.Disjoint
  strings : List.Forall₂ (fun s slot => s.ReadsBack c.textArena slot.text) c.storedStrings slots

section Regions

variable {m : Buffer} {lo hi : Nat} {ss : List OwnedString} {slots : List Slot}

theorem Placed.region {s : OwnedString} {slot : Slot} (h : Placed m lo s slot) :
    s.region slot = ⟨lo, slot.capacity + 1⟩ := by
  rw [OwnedString.region, h.data]
  rfl

theorem Laid.region_bounds (h : Laid m lo hi ss slots) :
    ∀ r ∈ List.zipWith OwnedString.region ss slots, lo ≤ r.start ∧ r.start + r.size ≤ hi := by
  induction ss generalizing lo slots with
  | nil => intro r hr; cases hr
  | cons s ss ih =>
    cases slots with
    | nil => exact h.elim
    | cons slot slots =>
      have hle := h.2.le
      rw [List.zipWith_cons_cons, List.forall_mem_cons, h.1.region]
      refine ⟨⟨Nat.le_refl _, hle⟩, fun r hr => ?_⟩
      obtain ⟨hstart, hend⟩ := ih h.2 r hr
      exact ⟨by omega, hend⟩

theorem Laid.disjoint (h : Laid m lo hi ss slots) :
    (List.zipWith OwnedString.region ss slots).Pairwise Region.Disjoint := by
  induction ss generalizing lo slots with
  | nil => exact .nil
  | cons s ss ih =>
    cases slots with
    | nil => exact h.elim
    | cons slot slots =>
      rw [List.zipWith_cons_cons, List.pairwise_cons, h.1.region]
      exact ⟨fun r hr => .inl (h.2.region_bounds r hr).1, ih h.2⟩

theorem Placed.readsBack {s : OwnedString} {slot : Slot} (h : Placed m lo s slot) : s.ReadsBack m slot.text := by
  refine ⟨?_, lo, h.data, ?_⟩
  · rw [OwnedString.bytes, h.data, h.len]
    exact Buffer.read_of_snoc h.text
  · have hlast := congrArg (·[slot.text.length]?) h.text
    simp only [Buffer.read, List.getElem?_concat_length] at hlast
    rw [List.getElem?_take_of_lt (Nat.lt_succ_self _), List.getElem?_drop] at hlast
    rw [h.len, hlast]

theorem Laid.readsBack (h : Laid m lo hi ss slots) :
    List.Forall₂ (fun s slot => s.ReadsBack m slot.text) ss slots := by
  induction ss generalizing lo slots with
  | nil =>
    cases slots with
    | nil => exact .nil
    | cons slot slots => exact h.elim
  | cons s ss ih =>
    cases slots with
    | nil => exact h.elim
    | cons slot slots => exact .cons h.1.readsBack (ih h.2)

end Regions

theorem EventCopy.LaidOut.arenaSound {c : EventCopy} {slots : List Slot} {st : ArenaCursor}
    (h : c.LaidOut slots st) : c.ArenaSound slots st where
  arena := h.arena
  stores := h.stores
  cursor := h.cursor
  inside r hr := (h.strings.region_bounds r hr).2
  disjoint := h.strings.disjoint
  strings := h.strings.readsBack

theorem copyEvent_arenaSize {attributesOk : Bool} {arena : Bytes} {e : Event} {scan : EventScan} {c : EventCopy}
    (h : copyEvent attributesOk arena e scan = .ok c) : c.textArenaSize = scan.arenaSize := by
  unfold copyEvent at h
  dsimp only at h
  split at h
  · cases h
  · cases h; rfl

/-- The copy pass of an accepted event, in either mode, fills the arena that the sizing pass
measured, to its end; no two strings meet, and each reads back as the caller gave it or, where
redacted, as the literal. -/
theorem eventCopyFromInput_layout (cpu : Cpu) (heap : Heap) (e : Event) (mode : Int) (c : EventCopy)
    (h : eventCopyFromInput cpu heap (some e) mode = .ok c) :
    ∃ scan arena st, scanEvent cpu e mode = some scan ∧ heap.arena scan.arenaSize = some arena ∧
      copyEventCursor (heap.attributes e.attributes.count) arena e scan = .ok st ∧
      c.textArenaSize = scan.arenaSize ∧ c.ArenaSound (e.slots mode) st := by
  obtain ⟨-, hscan, arena, st, harena, hcopy, hst, -, hlaid⟩ := eventCopyFromInput_passes h
  exact ⟨_, arena, st, hscan, harena, hst, copyEvent_arenaSize hcopy, hlaid.arenaSound⟩

theorem eventCopyFromInput_layout_login :
    ∃ c, eventCopyFromInput scalarCpu zeroHeap (some loginEvent) redactionModeEnabled = .ok c ∧
      ∃ scan arena st, scanEvent scalarCpu loginEvent redactionModeEnabled = some scan ∧
        zeroHeap.arena scan.arenaSize = some arena ∧
        copyEventCursor (zeroHeap.attributes loginEvent.attributes.count) arena loginEvent scan = .ok st ∧
        c.textArenaSize = scan.arenaSize ∧ c.ArenaSound (loginEvent.slots redactionModeEnabled) st :=
  ⟨_, rfl, eventCopyFromInput_layout scalarCpu zeroHeap loginEvent redactionModeEnabled _ rfl⟩

end IoJournal
