import IoJournal.RotatingStore

/-!
# IoJournal.SizeLimit

The size limit of a file that already had contents when the sink was opened.

The limit is enforced through `bytes_written`, which `ij_file_sink_open` sets to zero, and the file
is opened for appending. From then on the counter follows the file (`Store.Counted.step`), so that
it is right along a whole run exactly when it was right at the start.
-/

namespace IoJournal

open Wire Posix

/-- One call of `ij_file_sink_write`, with the answers of the system. -/
structure WriteCall where
  os : WriteOs
  payload : Bytes

def Store.write (s : Store) (c : WriteCall) : Store := s.step (.write c.os c.payload)

def Store.WriteOk (s : Store) (c : WriteCall) : Prop := (fileSinkWrite c.os s.world.sink c.payload).status = .ok

instance (s : Store) (c : WriteCall) : Decidable (s.WriteOk c) :=
  inferInstanceAs (Decidable ((fileSinkWrite c.os s.world.sink c.payload).status = .ok))

/-- Before the write the counter is the size of the active file, with what its stream still buffers;
and the write does not make a file that has contents larger than the limit, unless it rotates. -/
def Store.KeepsLimit (path : Bytes) (s : Store) (c : WriteCall) : Prop :=
  s.world.sink.bytesWritten = (s.world.active path).length ∧
    (s.world.active path ≠ [] → s.world.sink.rotateBytes < ((s.write c).world.active path).length →
      (s.write c).world.disk.moved ≠ s.world.disk.moved)

/-- The counter is right, and the limit is set. -/
structure Store.Counted (path : Bytes) (s : Store) : Prop where
  ready : s.world.Ready path
  limit : 0 < s.world.sink.rotateBytes
  count : s.world.sink.bytesWritten = (s.world.active path).length

section Counted

variable {path : Bytes} {s : Store} {c : WriteCall}

theorem Store.WriteOk.nonempty (h : s.WriteOk c) : c.payload ≠ [] := by
  intro hnil
  rw [Store.WriteOk, hnil, fileSinkWrite_empty] at h
  cases h

theorem Wrote.ok_active {payload : Bytes} {w w' : World} (h : Wrote path payload .ok w w') (hready : w.Ready path) :
    w'.active path = w.active path ++ payload := by
  obtain ⟨taken, hactive, -, hok, -⟩ := h.taken hready.settled
  rw [hactive, hok rfl]

theorem Wrote.ok_sink {payload : Bytes} {w w' : World} (h : Wrote path payload .ok w w') :
    w'.sink.rotateBytes = w.sink.rotateBytes ∧
      w'.sink.bytesWritten = (w.sink.bytesWritten + payload.length) % wordSize := by
  have hhandles := h.handles
  rw [if_pos rfl] at hhandles
  rw [hhandles]
  exact ⟨rfl, rfl⟩

theorem Store.Counted.step (h : s.Counted path) (hok : s.WriteOk c)
    (hroom : (s.world.active path).length + c.payload.length < wordSize) :
    (s.write c).Counted path ∧ s.KeepsLimit path c ∧
      ((s.write c).world.active path).length ≤ (s.world.active path).length + c.payload.length := by
  have hworld : (s.write c).world = s.world.after (fileSinkWrite c.os s.world.sink c.payload) := rfl
  have hstatus : (fileSinkWrite c.os s.world.sink c.payload).status = .ok := hok
  rw [Store.KeepsLimit]
  cases fileSinkWrite_result h.ready.toOpen c.os hok.nonempty with
  | kept due wrote =>
    rw [hstatus, ← hworld] at wrote
    have hactive := wrote.ok_active h.ready
    obtain ⟨hlimit, hcount⟩ := wrote.ok_sink
    have hlen : ((s.write c).world.active path).length = (s.world.active path).length + c.payload.length := by
      rw [hactive, List.length_append]
    refine ⟨⟨wrote.ready h.ready rfl, hlimit ▸ h.limit, ?_⟩, ⟨h.count, fun hne hover => ?_⟩, Nat.le_of_eq hlen⟩
    · rw [hcount, h.count, Nat.mod_eq_of_lt hroom, hlen]
    · -- without a rotation the payload fits
      have hpos := List.length_pos_iff.2 hne
      have hfits := fits_of_not_due h.ready.isOpen due h.limit
      rw [h.count, Nat.mod_eq_of_lt hroom] at hfits
      omega
  | failed due status => exact absurd hstatus status
  | @rotated mid due ok rotate wrote =>
    rw [hstatus, ← hworld] at wrote
    obtain ⟨target, hrotated⟩ := rotate.of_ok ok
    have hactive := wrote.ok_active hrotated.ready
    obtain ⟨hlimit, hcount⟩ := wrote.ok_sink
    have hturned : (s.world.after mid).sink.rotateBytes = s.world.sink.rotateBytes ∧
        (s.world.after mid).sink.bytesWritten = 0 := by
      have hhandles : OnlyHandles _ (s.world.after mid).sink := hrotated.turned
      rw [hhandles]
      exact ⟨rfl, rfl⟩
    have hlen : ((s.write c).world.active path).length = c.payload.length := by
      rw [hactive, hrotated.moves.active, List.nil_append]
    refine ⟨⟨wrote.ready hrotated.ready rfl, ?_, ?_⟩, ⟨h.count, fun _ _ => ?_⟩, by omega⟩
    · rw [hlimit, hturned.1]
      exact h.limit
    · rw [hcount, hturned.2, Nat.zero_add, Nat.mod_eq_of_lt (by omega), hlen]
    · rw [wrote.moved, hrotated.moves.moved]
      exact fun hsame => absurd (congrArg List.length hsame) (by simp)

theorem Store.Counted.run (writes : List WriteCall) :
    ∀ s : Store, s.Counted path → Machine.Along Store.write Store.WriteOk s writes →
      (s.world.active path).length + (writes.map (·.payload.length)).sum < wordSize →
      Machine.Along Store.write (Store.KeepsLimit path) s writes := by
  induction writes with
  | nil => intro s _ _ _; trivial
  | cons c writes ih =>
    intro s h hok hroom
    rw [List.map_cons, List.sum_cons] at hroom
    obtain ⟨hcounted, hkeeps, hle⟩ := h.step hok.1 (by omega)
    exact ⟨hkeeps, ih _ hcounted hok.2 (by omega)⟩

end Counted

theorem Store.opened_bytesWritten {path : Bytes} (hne : path ≠ []) {os : OpenOs} {sink : FileSink}
    (hopen : (fileSinkOpen os sink (some path)).status = .ok) (settings : RotationSettings) (d : Disk) :
    (Store.opened os sink path settings d).world.sink.bytesWritten = 0 := by
  rcases fileSinkOpen_result os sink hne d with ⟨-, -, hbytes, -⟩ | ⟨hbad, -⟩
  · exact hbytes
  · exact absurd hopen hbad

theorem Store.opened_counted {path : Bytes} (hne : path ≠ []) {os : OpenOs} {sink : FileSink}
    (hopen : (fileSinkOpen os sink (some path)).status = .ok) {settings : RotationSettings}
    (hlimit : 0 < settings.rotateBytes) {d : Disk} (hempty : d.contents path = []) :
    (Store.opened os sink path settings d).Counted path := by
  refine ⟨Store.opened_ready hne hopen settings d, hlimit, ?_⟩
  rw [Store.opened_active hne hopen, Store.opened_bytesWritten hne hopen, hempty]
  rfl

/-- The counter mirrors the file and the limit is kept, along every sequence of successful writes,
exactly when the file was empty when the sink was opened, or nothing was written. -/
theorem sizeLimit_iff {path : Bytes} (hne : path ≠ []) (os : OpenOs) (sink : FileSink)
    (hopen : (fileSinkOpen os sink (some path)).status = .ok) (settings : RotationSettings)
    (hlimit : 0 < settings.rotateBytes) (d : Disk) (writes : List WriteCall)
    (hok : Machine.Along Store.write Store.WriteOk (Store.opened os sink path settings d) writes)
    (hroom : (writes.map (·.payload.length)).sum < wordSize) :
    Machine.Along Store.write (Store.KeepsLimit path) (Store.opened os sink path settings d) writes ↔
      d.contents path = [] ∨ writes = [] := by
  constructor
  · intro h
    cases writes with
    | nil => exact .inr rfl
    | cons c writes =>
      have hcount := h.1.1
      rw [Store.opened_bytesWritten hne hopen, Store.opened_active hne hopen] at hcount
      exact .inl (List.length_eq_zero_iff.1 hcount.symm)
  · rintro (hempty | rfl)
    · refine (Store.opened_counted hne hopen hlimit hempty).run writes _ hok ?_
      rw [Store.opened_active hne hopen settings d, hempty, List.length_nil, Nat.zero_add]
      exact hroom
    · trivial

theorem sizeLimit_iff_empty :
    Machine.Along Store.write (Store.KeepsLimit (ascii "log"))
      (Store.opened (steadyOpen 0) .zero (ascii "log") ⟨3, 0, 1⟩ emptyDisk)
      [⟨steadyOs 1 2, ascii "ab"⟩, ⟨steadyOs 2 2, ascii "cd"⟩] :=
  (sizeLimit_iff (by decide) (steadyOpen 0) .zero (by decide) ⟨3, 0, 1⟩ (by decide) emptyDisk
    [⟨steadyOs 1 2, ascii "ab"⟩, ⟨steadyOs 2 2, ascii "cd"⟩] ⟨by decide, by decide, trivial⟩ (by decide)).2 (.inl rfl)

def earlierDisk : Disk := ⟨fun p => if p = ascii "log" then some (ascii "12345") else none, []⟩

/-- With a limit of six, four more octets make it nine; the counter was zero before the write. -/
theorem sizeLimit_reopened :
    (fileSinkOpen (steadyOpen 0) .zero (some (ascii "log"))).status = .ok ∧
      Machine.Along Store.write Store.WriteOk
        (Store.opened (steadyOpen 0) .zero (ascii "log") ⟨6, 0, 0⟩ earlierDisk) [⟨steadyOs 1 4, ascii "abcd"⟩] ∧
      (Store.opened (steadyOpen 0) .zero (ascii "log") ⟨6, 0, 0⟩ earlierDisk).world.sink.bytesWritten ≠
        ((Store.opened (steadyOpen 0) .zero (ascii "log") ⟨6, 0, 0⟩ earlierDisk).world.active (ascii "log")).length ∧
      6 < (((Store.opened (steadyOpen 0) .zero (ascii "log") ⟨6, 0, 0⟩ earlierDisk).write
        ⟨steadyOs 1 4, ascii "abcd"⟩).world.active (ascii "log")).length ∧
      ((Store.opened (steadyOpen 0) .zero (ascii "log") ⟨6, 0, 0⟩ earlierDisk).write
        ⟨steadyOs 1 4, ascii "abcd"⟩).world.disk.moved = [] ∧
      ¬ Machine.Along Store.write (Store.KeepsLimit (ascii "log"))
        (Store.opened (steadyOpen 0) .zero (ascii "log") ⟨6, 0, 0⟩ earlierDisk) [⟨steadyOs 1 4, ascii "abcd"⟩] := by
  refine ⟨by decide, ⟨by decide, trivial⟩, by decide, by decide, by decide, ?_⟩
  rintro ⟨⟨hcount, -⟩, -⟩
  exact absurd hcount (by decide)

end IoJournal
