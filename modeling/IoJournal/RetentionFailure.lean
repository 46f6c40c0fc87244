import IoJournal.SizeLimit

/-!
# IoJournal.RetentionFailure

What becomes of a rotated file that cannot be deleted.

The retention loop drops the oldest names from its list and unlinks the files, and does not look at
the answers of `unlink`. A file that stays on disk is then no longer on the list, and no later
rotation tries again. `Tracked` is the invariant of the runs in which that does not happen: every
rotated file on disk is on the list, or its deletion failed in a call that did not return `ok`.
-/

namespace IoJournal

open Wire Posix

/-- The files that the sink rotated and that are on disk. -/
def World.rotatedFiles (w : World) : List Bytes := w.names.filter fun p => (w.disk.files p).isSome

/-- Those of them that are not on the list any more. -/
def World.leftovers (w : World) : List Bytes := w.rotatedFiles.filter fun p => decide (p ∉ w.sink.rotatedPaths)

/-- A sink and its disk, and the files left over by a call that did not return `ok`. -/
structure Retention where
  world : World
  reported : List Bytes

def Retention.step (s : Retention) (c : WriteCall) : Retention :=
  let out := fileSinkWrite c.os s.world.sink c.payload
  ⟨s.world.after out, if out.status = .ok then s.reported else s.reported ++ (s.world.after out).leftovers⟩

def Retention.opened (os : OpenOs) (sink : FileSink) (path : Bytes) (settings : RotationSettings) (d : Disk) : Retention :=
  ⟨(Store.opened os sink path settings d).world, []⟩

/-- After a write that returns `ok` there are at most `limit` rotated files on disk besides the
reported ones, and none of them is forgotten. -/
def Retention.KeepsWithin (limit : Nat) (s : Retention) (c : WriteCall) : Prop :=
  (fileSinkWrite c.os s.world.sink c.payload).status = .ok →
    ((s.step c).world.rotatedFiles.filter fun p => decide (p ∉ (s.step c).reported)).dedup.length ≤ limit ∧
      ∀ p ∈ (s.step c).world.rotatedFiles, p ∈ (s.step c).world.sink.rotatedPaths ∨ p ∈ (s.step c).reported

/-- The call rotates and takes its payload, and a file that the retention drops is not deleted. -/
def World.Forgets (w : World) (c : WriteCall) : Prop :=
  fileSinkRotationDue w.sink c.payload.length c.os.dueNow = true ∧
    (w.sink.usesUring = true ∨ c.os.flush = .ok) ∧ c.os.rename = true ∧ c.os.record = true ∧
    w.sink.Reopens c.os.syncOpen c.os.uringOpen ∧ w.sink.Takes c.os.fwrite c.os.uring c.payload ∧
    ∃ target, fileSinkMakeRotationPath w.sink c.os.nameNow rotationBufferSize = .ok target ∧
      ∃ p ∈ w.sink.dropped target, c.os.unlink p = false

/-- The list has at most `limit` names, and no rotated file has the name of the active one. -/
structure Listed (path : Bytes) (limit : Nat) (w : World) : Prop where
  retention : w.sink.retentionFiles = limit
  bounded : w.sink.rotatedPaths.length ≤ limit
  ne_path : ∀ p ∈ w.names, p ≠ path

/-- Every rotated file on disk is on the list or was reported. -/
def Tracked (reported : List Bytes) (w : World) : Prop :=
  ∀ p ∈ w.names, (w.disk.files p).isSome = true → p ∈ w.sink.rotatedPaths ∨ p ∈ reported

section Steps

variable {path : Bytes} {limit : Nat} {reported : List Bytes} {w w' : World}

theorem Listed.congr (h : Listed path limit w) (hmoved : w'.disk.moved = w.disk.moved)
    (hpaths : w'.sink.rotatedPaths = w.sink.rotatedPaths)
    (hretention : w'.sink.retentionFiles = w.sink.retentionFiles) : Listed path limit w' where
  retention := hretention.trans h.retention
  bounded := by rw [hpaths]; exact h.bounded
  ne_path := by rw [World.names, hmoved]; exact h.ne_path

theorem Tracked.congr (h : Tracked reported w) (hlisted : Listed path limit w)
    (hmoved : w'.disk.moved = w.disk.moved) (hothers : ∀ p, p ≠ path → w'.disk.files p = w.disk.files p)
    (hpaths : w'.sink.rotatedPaths = w.sink.rotatedPaths) : Tracked reported w' := by
  intro p hp hsome
  have hp' : p ∈ w.names := by rwa [World.names, hmoved] at hp
  rw [hothers p (hlisted.ne_path p hp')] at hsome
  rw [hpaths]
  exact h p hp' hsome

section Turn

variable {target : Bytes} {unlink : Bytes → Bool} {now : Int} (hmoves : MovesAway path target (w.sink.dropped target) unlink w w')
  (hturned : OnlyHandles (w.sink.turned target now) w'.sink)
include hmoves hturned

theorem Listed.turn (hpos : 0 < limit) (h : Listed path limit w) (hne : target ≠ path) : Listed path limit w' := by
  refine ⟨?_, ?_, ?_⟩
  · rw [hturned]
    exact h.retention
  · have hpaths : w'.sink.rotatedPaths = (w.sink.rotatedPaths ++ [target]).drop
        (surplus w.sink.retentionFiles (w.sink.rotatedPaths.length + 1)) := by rw [hturned]; rfl
    rw [hpaths, List.length_drop, List.length_append, List.length_singleton, h.retention, surplus, if_pos hpos]
    omega
  · rw [hmoves.names]
    intro p hp
    rcases List.mem_append.1 hp with hp | hp
    · exact h.ne_path p hp
    · rw [List.mem_singleton.1 hp]
      exact hne

theorem Tracked.turn (h : Tracked reported w) (hlisted : Listed path limit w) (hne : target ≠ path)
    (hunlink : ∀ p ∈ w.sink.dropped target, unlink p = true) : Tracked reported w' := by
  have hpaths : w'.sink.rotatedPaths = (w.sink.rotatedPaths ++ [target]).drop
      (surplus w.sink.retentionFiles (w.sink.rotatedPaths.length + 1)) := by rw [hturned]; rfl
  have hstays : ∀ p, p ∈ w.sink.rotatedPaths ++ [target] → p ∉ w.sink.dropped target → p ∈ w'.sink.rotatedPaths := by
    intro p hp hdropped
    rw [← List.take_append_drop (surplus w.sink.retentionFiles (w.sink.rotatedPaths.length + 1))
      (w.sink.rotatedPaths ++ [target])] at hp
    rw [hpaths]
    exact (List.mem_append.1 hp).resolve_left hdropped
  intro p hp hsome
  rw [hmoves.names, List.mem_append, List.mem_singleton] at hp
  have hp_ne : p ≠ path := by
    rcases hp with hp | rfl
    · exact hlisted.ne_path p hp
    · exact hne
  rw [hmoves.files p hp_ne] at hsome
  split at hsome
  · cases hsome
  · rename_i hkept
    have hdropped : p ∉ w.sink.dropped target := fun hmem => hkept ⟨hmem, hunlink p hmem⟩
    by_cases htarget : p = target
    · exact .inl (hstays p (List.mem_append_right _ (List.mem_singleton.2 htarget)) hdropped)
    · rw [if_neg htarget] at hsome
      rcases h p (hp.resolve_right htarget) hsome with hmem | hmem
      · exact .inl (hstays p (List.mem_append_left _ hmem) hdropped)
      · exact .inr hmem

end Turn

end Steps

/-! ## Runs -/

/-- The sink is open and its list is right, or it is closed, and then no write returns `ok`. -/
def Retention.Inv (path : Bytes) (limit : Nat) (s : Retention) : Prop :=
  s.world.Open path ∧ Listed path limit s.world ∧ Tracked s.reported s.world ∨ s.world.sink.IsClosed

section Run

variable {path : Bytes} {limit : Nat} {s : Retention} {c : WriteCall}

theorem tracked_leftovers (reported : List Bytes) (w : World) : Tracked (reported ++ w.leftovers) w := by
  intro p hp hsome
  by_cases hlist : p ∈ w.sink.rotatedPaths
  · exact .inl hlist
  · have hleft : p ∈ w.leftovers := by simp [World.leftovers, World.rotatedFiles, hp, hsome, hlist]
    exact .inr (List.mem_append_right _ hleft)

theorem Wrote.list {payload : Bytes} {status : Status} {w w' : World} (h : Wrote path payload status w w') :
    w'.sink.rotatedPaths = w.sink.rotatedPaths ∧ w'.sink.retentionFiles = w.sink.retentionFiles := by
  rw [h.handles]
  split
  · exact ⟨rfl, rfl⟩
  · exact ⟨rfl, rfl⟩

theorem write_listed {w : World} (hready : w.Open path) (hpos : 0 < limit) (h : Listed path limit w) (c : WriteCall) :
    (w.after (fileSinkWrite c.os w.sink c.payload)).Open path ∧
        Listed path limit (w.after (fileSinkWrite c.os w.sink c.payload)) ∨
      (fileSinkWrite c.os w.sink c.payload).status ≠ .ok ∧
        (w.after (fileSinkWrite c.os w.sink c.payload)).sink.IsClosed := by
  by_cases hne : c.payload = []
  · rw [hne, fileSinkWrite_empty]
    exact .inl ⟨hready, h⟩
  · cases fileSinkWrite_result hready c.os hne with
    | kept due wrote => exact .inl ⟨wrote.opened, h.congr wrote.moved wrote.list.1 wrote.list.2⟩
    | failed due status rotate =>
      cases rotate with
      | unnamed name same =>
        rw [same]
        exact .inl ⟨hready, h⟩
      | unflushed name flush same =>
        rw [same]
        have htouches := opsFlush_touches hready c.os.flush
        exact .inl ⟨htouches.opened, h.congr htouches.moved (by rw [htouches.handles]) (by rw [htouches.handles])⟩
      | stranded name flush fails bad sink => exact .inr ⟨status, sink.isClosed⟩
      | rotated name flush succeeds ok => exact absurd ok status
    | rotated due ok rotate wrote =>
      obtain ⟨target, hrotated⟩ := rotate.of_ok ok
      have hlisted := Listed.turn hrotated.moves hrotated.turned hpos h
        (fileSinkMakeRotationPath_ne hready.isOpen.path hrotated.name)
      exact .inl ⟨wrote.opened, hlisted.congr wrote.moved wrote.list.1 wrote.list.2⟩

theorem write_tracked {w : World} {reported : List Bytes} (hready : w.Open path) (hpos : 0 < limit)
    (h : Listed path limit w) (htracked : Tracked reported w)
    (hok : (fileSinkWrite c.os w.sink c.payload).status = .ok) (hforgets : ¬w.Forgets c) :
    Tracked reported (w.after (fileSinkWrite c.os w.sink c.payload)) := by
  have hne : c.payload ≠ [] := by
    intro hnil
    rw [hnil, fileSinkWrite_empty] at hok
    cases hok
  cases fileSinkWrite_result hready c.os hne with
  | kept due wrote => exact htracked.congr h wrote.moved wrote.others wrote.list.1
  | failed due status => exact absurd hok status
  | @rotated mid due ok rotate wrote status =>
    obtain ⟨target, hrotated⟩ := rotate.of_ok ok
    have htarget := fileSinkMakeRotationPath_ne hready.isOpen.path hrotated.name
    have htakes : w.sink.Takes c.os.fwrite c.os.uring c.payload := by
      have hmid := (opsWrite_ok_iff hrotated.ready.toOpen c.os.fwrite c.os.uring hne).1 (status.symm.trans hok)
      have hbackend : (w.after mid).sink.usesUring = w.sink.usesUring := by
        rw [show (w.after mid).sink = mid.state from rfl, hrotated.turned]
        rfl
      unfold FileSink.Takes at hmid ⊢
      rwa [hbackend] at hmid
    have hunlink : ∀ p ∈ w.sink.dropped target, c.os.unlink p = true := by
      intro p hp
      by_contra hfailed
      exact hforgets ⟨due, (opsFlush_ok_iff hready _).1 hrotated.flush, hrotated.succeeds.1, hrotated.succeeds.2.1,
        hrotated.succeeds.2.2, htakes, target, hrotated.name, p, hp, Bool.eq_false_iff.2 hfailed⟩
    have hturn := htracked.turn hrotated.moves hrotated.turned h htarget hunlink
    have hlisted := Listed.turn hrotated.moves hrotated.turned hpos h htarget
    exact hturn.congr hlisted wrote.moved wrote.others wrote.list.1

theorem Retention.Inv.step (hpos : 0 < limit) (h : s.Inv path limit) (hforgets : ¬s.world.Forgets c) :
    (s.step c).Inv path limit := by
  rcases h with ⟨hready, hlisted, htracked⟩ | hclosed
  · rcases write_listed hready hpos hlisted c with ⟨hready', hlisted'⟩ | ⟨-, hclosed⟩
    · refine .inl ⟨hready', hlisted', ?_⟩
      rw [Retention.step]
      dsimp only
      split
      · rename_i hok
        exact write_tracked hready hpos hlisted htracked hok hforgets
      · exact tracked_leftovers _ _
    · exact .inr hclosed
  · refine .inr ?_
    rw [Retention.step, fileSinkWrite_closed hclosed]
    exact hclosed

theorem Retention.Inv.keepsWithin (hpos : 0 < limit) (h : s.Inv path limit) (hforgets : ¬s.world.Forgets c) :
    s.KeepsWithin limit c := by
  intro hok
  rcases h with ⟨hready, hlisted, htracked⟩ | hclosed
  swap
  · rw [fileSinkWrite_closed hclosed] at hok
    cases hok
  rcases write_listed hready hpos hlisted c with ⟨-, hlisted'⟩ | ⟨hbad, -⟩
  swap
  · exact absurd hok hbad
  have hstep : s.step c = ⟨s.world.after (fileSinkWrite c.os s.world.sink c.payload), s.reported⟩ := by
    rw [Retention.step, if_pos hok]
  have htracked' := write_tracked hready hpos hlisted htracked hok hforgets
  rw [hstep]
  generalize s.world.after (fileSinkWrite c.os s.world.sink c.payload) = w at hlisted' htracked' ⊢
  have hall : ∀ p ∈ w.rotatedFiles, p ∈ w.sink.rotatedPaths ∨ p ∈ s.reported := by
    intro p hp
    obtain ⟨hname, hsome⟩ := List.mem_filter.1 hp
    exact htracked' p hname hsome
  have hsubset : (w.rotatedFiles.filter fun p => decide (p ∉ s.reported)).dedup ⊆ w.sink.rotatedPaths := by
    intro p hp
    obtain ⟨hp, hnew⟩ := List.mem_filter.1 (List.mem_dedup.1 hp)
    exact (hall p hp).resolve_right (of_decide_eq_true hnew)
  exact ⟨Nat.le_trans ((List.nodup_dedup _).subperm hsubset).length_le hlisted'.bounded, hall⟩

end Run

theorem Retention.opened_inv {path : Bytes} (hne : path ≠ []) {os : OpenOs} {sink : FileSink}
    (hopen : (fileSinkOpen os sink (some path)).status = .ok) (settings : RotationSettings) {d : Disk}
    (hmoved : d.moved = []) : (Retention.opened os sink path settings d).Inv path settings.retentionFiles := by
  obtain ⟨hkept, hmoved'⟩ := Store.opened_kept hne hopen settings hmoved
  have hnames : (Store.opened os sink path settings d).world.names = [] := by
    rw [World.names, hmoved']
    rfl
  refine .inl ⟨(Store.opened_ready hne hopen settings d).toOpen, ⟨rfl, ?_, ?_⟩, ?_⟩
  · change (Store.opened os sink path settings d).world.sink.rotatedPaths.length ≤ _
    rw [hkept.rotatedPaths, hnames, List.drop_nil]
    exact Nat.zero_le _
  · change ∀ p ∈ (Store.opened os sink path settings d).world.names, p ≠ path
    rw [hnames]
    exact fun p hp => absurd hp List.not_mem_nil
  · intro p hp
    change p ∈ (Store.opened os sink path settings d).world.names at hp
    rw [hnames] at hp
    exact absurd hp List.not_mem_nil

/-- In every run whose calls forget no file, whenever a write returns `ok` at most `retention_files`
rotated files are on disk besides those whose deletion failed in a call that reported it, and each
of them is still on the list. -/
theorem retention_run {path : Bytes} (hne : path ≠ []) (os : OpenOs) (sink : FileSink)
    (hopen : (fileSinkOpen os sink (some path)).status = .ok) (settings : RotationSettings)
    (hpos : 0 < settings.retentionFiles) (d : Disk) (hmoved : d.moved = []) (calls : List WriteCall)
    (hcalls : Machine.Along Retention.step (fun s c => ¬s.world.Forgets c) (Retention.opened os sink path settings d) calls) :
    Machine.Along Retention.step (Retention.KeepsWithin settings.retentionFiles)
      (Retention.opened os sink path settings d) calls := by
  have hinv : (Retention.opened os sink path settings d).Inv path settings.retentionFiles :=
    Retention.opened_inv hne hopen settings hmoved
  generalize Retention.opened os sink path settings d = s at hinv hcalls ⊢
  induction calls generalizing s with
  | nil => trivial
  | cons c calls ih => exact ⟨hinv.keepsWithin hpos hcalls.1, ih _ (hinv.step hpos hcalls.1) hcalls.2⟩

def threeWrites (unlink : Bytes → Bool) : List WriteCall :=
  [⟨{ steadyOs 1 2 with unlink := unlink }, ascii "ab"⟩, ⟨{ steadyOs 2 2 with unlink := unlink }, ascii "cd"⟩,
    ⟨{ steadyOs 3 2 with unlink := unlink }, ascii "ef"⟩]

theorem retention_run_deleted :
    Machine.Along Retention.step (Retention.KeepsWithin 1)
      (Retention.opened (steadyOpen 0) .zero (ascii "log") ⟨1, 0, 1⟩ emptyDisk) (threeWrites fun _ => true) := by
  refine retention_run (by decide) (steadyOpen 0) .zero (by decide) ⟨1, 0, 1⟩ (by decide) emptyDisk rfl
    (threeWrites fun _ => true) ?_
  have hclean : ∀ (w : World) (now : Int) (payload : Bytes),
      ¬w.Forgets ⟨{ steadyOs now 2 with unlink := fun _ => true }, payload⟩ := by
    rintro w now payload ⟨-, -, -, -, -, -, target, -, p, -, hfailed⟩
    cases hfailed
  exact ⟨hclean _ _ _, hclean _ _ _, hclean _ _ _, trivial⟩

/-- When `unlink` fails, the third write returns `ok` all the same, with two rotated files on disk
where one is allowed, and only the newer of them is on the list. -/
theorem retention_unlink_fails :
    (fileSinkOpen (steadyOpen 0) .zero (some (ascii "log"))).status = .ok ∧
      Machine.Along Retention.step
        (fun s c => (fileSinkWrite c.os s.world.sink c.payload).status = .ok)
        (Retention.opened (steadyOpen 0) .zero (ascii "log") ⟨1, 0, 1⟩ emptyDisk) (threeWrites fun _ => false) ∧
      (Machine.run Retention.step (Retention.opened (steadyOpen 0) .zero (ascii "log") ⟨1, 0, 1⟩ emptyDisk)
        (threeWrites fun _ => false)).world.rotatedFiles.length = 2 ∧
      (Machine.run Retention.step (Retention.opened (steadyOpen 0) .zero (ascii "log") ⟨1, 0, 1⟩ emptyDisk)
        (threeWrites fun _ => false)).world.sink.rotatedPaths.length = 1 ∧
      ¬Machine.Along Retention.step (Retention.KeepsWithin 1)
        (Retention.opened (steadyOpen 0) .zero (ascii "log") ⟨1, 0, 1⟩ emptyDisk) (threeWrites fun _ => false) := by
  refine ⟨by decide, by decide +kernel, by decide +kernel, by decide +kernel, ?_⟩
  rintro ⟨-, -, hthird, -⟩
  have hbound := (hthird (by decide +kernel)).1
  exact absurd hbound (by decide +kernel)

end IoJournal
