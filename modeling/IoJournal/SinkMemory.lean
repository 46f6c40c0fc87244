import IoJournal.FileSinkSpec
import IoJournal.Runs.Allocation

/-!
# IoJournal.SinkMemory

The memory of the file sink: its path, the ring of io_uring, the array of rotated paths and its entries.

`OwnedFileSink` is a sink with these blocks. Each function of `ij_file_sink.c` that allocates or frees is
a program that does what the function without memory does (`Out.plain`), and beside that moves blocks.
The memory of a `FILE` belongs to the C library and is not counted.

* `OwnedFileSink.Sound`: each rotated path has its block, and a stream backend has no ring.
* `fileSinkOpenM_owns`, `fileSinkWriteM_owns`, `fileSinkCloseM_owns`: the sink owns its blocks after each
  call as before it, whatever the allocator answers, and closing frees them all.
-/

namespace IoJournal

open Wire Posix Allocation

/-- The blocks of an `ij_file_sink_t`; `entries` are those of `rotated_paths[i]`. -/
structure SinkBlocks where
  path : Option Block
  uring : Option Block
  rotatedPaths : Option Block
  entries : List (Option Block)

def SinkBlocks.zero : SinkBlocks := ⟨none, none, none, []⟩

def SinkBlocks.held (b : SinkBlocks) : Multiset Block :=
  owned b.path + owned b.uring + owned b.rotatedPaths + ownedAll b.entries

structure OwnedFileSink where
  sink : FileSink
  blocks : SinkBlocks

def OwnedFileSink.zero : OwnedFileSink := ⟨.zero, .zero⟩

def Out.owning (out : Out FileSink) (blocks : SinkBlocks) : Out OwnedFileSink :=
  ⟨out.status, ⟨out.state, blocks⟩, out.effects⟩

def Out.plain (out : Out OwnedFileSink) : Out FileSink := ⟨out.status, out.state.sink, out.effects⟩

@[simp] theorem Out.plain_owning (out : Out FileSink) (blocks : SinkBlocks) : (out.owning blocks).plain = out := rfl

/-! ## The backends -/

/-- `ij_file_sink_uring_open`: `calloc`, and `free` when the ring or the file cannot be had. -/
def fileSinkUringOpenM (answer : UringOpen) (s : OwnedFileSink) : Prog (Out OwnedFileSink) :=
  let out := fileSinkUringOpen answer s.sink
  match s.sink.path with
  | none => return out.owning s.blocks
  | some _ => do
    let ring ← malloc (answer != .noMemory)
    match answer with
    | .opened _ _ => return out.owning { s.blocks with uring := ring }
    | .noMemory | .noRing | .noFile _ =>
      free ring
      return out.owning s.blocks

def opsOpenM (syncOpen : Option Nat) (uringOpen : UringOpen) (s : OwnedFileSink) : Prog (Out OwnedFileSink) :=
  if s.sink.usesUring then fileSinkUringOpenM uringOpen s
  else return (fileSinkSyncOpen syncOpen s.sink).owning s.blocks

/-- `ij_file_sink_uring_close` frees its ring. -/
def opsCloseM (answer : CloseAnswer) (s : OwnedFileSink) : Prog (OwnedFileSink × List Effect) :=
  let out := opsClose answer s.sink
  if s.sink.usesUring then do
    free s.blocks.uring
    return (⟨out.1, { s.blocks with uring := none }⟩, out.2)
  else return (⟨out.1, s.blocks⟩, out.2)

/-! ## Rotation -/

/-- `ij_file_sink_record_rotation`, with the answers of its two allocations. -/
def recordRotationM (strdup realloc : Bool) (b : SinkBlocks) : Prog (Bool × SinkBlocks) := do
  let pathCopy ← malloc strdup
  if pathCopy.isNone then return (false, b)
  else
    let newPaths ← Allocation.realloc realloc b.rotatedPaths
    if newPaths.isNone then
      free pathCopy
      return (false, b)
    else return (true, { b with rotatedPaths := newPaths, entries := b.entries ++ [pathCopy] })

/-- The loop of `ij_file_sink_apply_retention` over the entries. -/
def applyRetentionM (retention : Nat) : List (Option Block) → Prog (List (Option Block))
  | [] => return []
  | e :: es =>
    if 0 < retention ∧ retention < (e :: es).length then do
      free e
      applyRetentionM retention es
    else return e :: es

/-- `ij_file_sink_rotate`. -/
def fileSinkRotateM (os : RotateOs) (strdup realloc : Bool) (s : OwnedFileSink) : Prog (Out OwnedFileSink) :=
  match fileSinkMakeRotationPath s.sink os.nameNow rotationBufferSize with
  | .error _ => return ⟨if s.sink.path.isNone then .invalidArgument else .sinkError, s, []⟩
  | .ok rotated =>
    let flushed := opsFlush os.flush s.sink
    if flushed.status ≠ .ok then return flushed.owning s.blocks
    else do
      let (s, closed) ← opsCloseM os.close ⟨flushed.state, s.blocks⟩
      let effects := flushed.effects ++ closed ++ [.rename s.sink.file rotated os.rename]
      if !os.rename then return ⟨.sinkError, s, effects⟩
      else
        let (recorded, blocks) ← recordRotationM strdup realloc s.blocks
        if !recorded then return ⟨.internalError, ⟨s.sink, blocks⟩, effects⟩
        else
          let (kept, removed) := applyRetention os.unlink s.sink.retentionFiles (s.sink.rotatedPaths ++ [rotated])
          let entries ← applyRetentionM s.sink.retentionFiles blocks.entries
          let sink := { s.sink with
            rotationSequence := (s.sink.rotationSequence + 1) % wordSize
            bytesWritten := 0
            lastRotationEpoch := os.rotatedNow
            rotatedPaths := kept }
          let opened ← opsOpenM os.syncOpen os.uringOpen ⟨sink, { blocks with entries := entries }⟩
          return ⟨opened.status, opened.state, effects ++ removed ++ opened.effects⟩

/-! ## The sink -/

/-- `ij_file_sink_close`. -/
def fileSinkCloseM (answer : CloseAnswer) (s : OwnedFileSink) : Prog (OwnedFileSink × List Effect) := do
  let (s, effects) ← opsCloseM answer s
  freeAll s.blocks.entries
  free s.blocks.rotatedPaths
  free s.blocks.path
  return (⟨{ s.sink with rotatedPaths := [], path := none }, ⟨none, s.blocks.uring, none, []⟩⟩, effects)

/-- The open call of `ij_file_sink_open`, with its fallback from io_uring. -/
def openBackendM (os : OpenOs) (s : OwnedFileSink) : Prog (Out OwnedFileSink) :=
  if FileBackend.ofCode? s.sink.requestedBackend = some .ioUring then do
    let tried ← fileSinkUringOpenM os.uringOpen ⟨{ s.sink with activeBackend := .ioUring }, s.blocks⟩
    if tried.status = .ok then return tried
    else
      let synced := fileSinkSyncOpen os.syncOpen
        { tried.state.sink with activeBackend := .sync, fd := -1, uring := none }
      return ⟨synced.status, ⟨synced.state, { tried.state.blocks with uring := none }⟩, tried.effects ++ synced.effects⟩
  else return (fileSinkSyncOpen os.syncOpen { s.sink with activeBackend := .sync }).owning s.blocks

/-- `ij_file_sink_open`. What the structure held before is forgotten, not freed. -/
def fileSinkOpenM (os : OpenOs) (s : OwnedFileSink) (path : Option Bytes) : Prog (Out OwnedFileSink) :=
  match path with
  | none => return ⟨.invalidArgument, s, []⟩
  | some path =>
    if path = [] then return ⟨.invalidArgument, s, []⟩
    else do
      let stored ← malloc os.storePath
      if stored.isNone then
        return ⟨.internalError, ⟨{ FileSink.zero with fd := -1, requestedBackend := s.sink.requestedBackend }, .zero⟩, []⟩
      else
        let opened ← openBackendM os ⟨.blank s.sink.requestedBackend path, ⟨stored, none, none, []⟩⟩
        if opened.status ≠ .ok then
          let (s, effects) ← fileSinkCloseM .ok opened.state
          return ⟨opened.status, s, opened.effects ++ effects⟩
        else
          return ⟨.ok, ⟨{ opened.state.sink with bytesWritten := 0, rotationSequence := 0, lastRotationEpoch := os.now },
            opened.state.blocks⟩, opened.effects⟩

/-- `ij_file_sink_write`. -/
def fileSinkWriteM (os : WriteOs) (strdup realloc : Bool) (s : OwnedFileSink) (payload : Bytes) :
    Prog (Out OwnedFileSink) :=
  if payload.length = 0 then return ⟨.invalidArgument, s, []⟩
  else if fileSinkRotationDue s.sink payload.length os.dueNow then do
    let rotated ← fileSinkRotateM os.toRotateOs strdup realloc s
    if rotated.status ≠ .ok then return rotated
    else return (writeTail os payload rotated.plain).owning rotated.state.blocks
  else return (writeTail os payload ⟨.ok, s.sink, []⟩).owning s.blocks

/-! ## What the backends leave alone -/

theorem fileSinkSyncOpen_handles (answer : Option Nat) (sink : FileSink) :
    OnlyHandles sink (fileSinkSyncOpen answer sink).state := by
  unfold fileSinkSyncOpen
  split
  · rfl
  · cases answer <;> rfl

theorem opsOpen_handles (syncOpen : Option Nat) (uringOpen : UringOpen) (sink : FileSink) :
    OnlyHandles sink (opsOpen syncOpen uringOpen sink).state := by
  unfold opsOpen
  split
  · unfold fileSinkUringOpen
    split
    · rfl
    · cases uringOpen <;> rfl
  · exact fileSinkSyncOpen_handles syncOpen sink

theorem opsClose_handles (answer : CloseAnswer) (sink : FileSink) : OnlyHandles sink (opsClose answer sink).1 := by
  unfold opsClose
  split
  · rw [fileSinkUringClose_eq]
    rfl
  · unfold fileSinkSyncClose
    split <;> rfl

theorem opsFlush_handles (answer : FlushAnswer) (sink : FileSink) : OnlyHandles sink (opsFlush answer sink).state := by
  unfold opsFlush
  split
  · unfold fileSinkUringFlush
    split <;> rfl
  · unfold fileSinkSyncFlush
    split
    · rfl
    · cases answer <;> rfl

theorem opsWrite_handles (fwrite : FwriteAnswer) (uring : UringWrite) (sink : FileSink) (payload : Bytes) :
    OnlyHandles sink (opsWrite fwrite uring sink payload).state := by
  unfold opsWrite
  split
  · unfold fileSinkUringWrite
    split
    · rfl
    split
    · rfl
    split
    · rfl
    split
    · rfl
    · simp only
      split <;> rfl
  · unfold fileSinkSyncWrite
    split
    · rfl
    · split
      · rfl
      · simp only
        split <;> rfl

/-! ## Ownership -/

/-- Each rotated path has its block, and a stream backend has no ring. -/
structure OwnedFileSink.Sound (s : OwnedFileSink) : Prop where
  entries : s.blocks.entries.length = s.sink.rotatedPaths.length
  uring : s.sink.usesUring = false → s.blocks.uring = none

theorem OwnedFileSink.zero_sound : OwnedFileSink.zero.Sound := ⟨rfl, fun _ => rfl⟩

theorem OnlyHandles.usesUring {sink sink' : FileSink} (h : OnlyHandles sink sink') : sink'.usesUring = sink.usesUring := by
  rw [h]
  rfl

theorem OnlyHandles.rotatedPaths {sink sink' : FileSink} (h : OnlyHandles sink sink') :
    sink'.rotatedPaths = sink.rotatedPaths := by rw [h]

/-- The sink may change its handles, and its ring as long as it is the backend. -/
theorem OwnedFileSink.Sound.of_handles {s : OwnedFileSink} (h : s.Sound) {sink : FileSink} {blocks : SinkBlocks}
    (hhandles : OnlyHandles s.sink sink) (hentries : blocks.entries = s.blocks.entries)
    (huring : s.sink.usesUring = false → blocks.uring = none) : OwnedFileSink.Sound ⟨sink, blocks⟩ where
  entries := by rw [hentries, h.entries, hhandles.rotatedPaths]
  uring hsync := huring (hhandles.usesUring ▸ hsync)

/-- A call ends as it does without memory, and the sink that it leaves owns its blocks. -/
def Returns (held : Multiset Block) (plain : Out FileSink) (out : Out OwnedFileSink) (held' : Multiset Block) : Prop :=
  held' = out.state.blocks.held + held ∧ out.plain = plain ∧ out.state.Sound

section Owns

variable {held : Multiset Block} {s : OwnedFileSink}

theorem fileSinkUringOpenM_owns (answer : UringOpen) (huring : s.blocks.uring = none) :
    Owns (s.blocks.held + held) (fileSinkUringOpenM answer s) fun out held' =>
      held' = out.state.blocks.held + held ∧ out.plain = fileSinkUringOpen answer s.sink ∧
        out.state.blocks.entries = s.blocks.entries ∧ (out.status ≠ .ok → out.state.blocks = s.blocks) := by
  unfold fileSinkUringOpenM
  cases hpath : s.sink.path with
  | none => exact .pure ⟨rfl, rfl, rfl, fun _ => rfl⟩
  | some path =>
    refine (Owns.malloc _).bind fun ring held₁ h₁ => ?_
    rw [h₁.2]
    have hfreed : Owns (owned ring + (s.blocks.held + held))
        (free ring >>= fun _ => pure ((fileSinkUringOpen answer s.sink).owning s.blocks)) fun out held' =>
        held' = out.state.blocks.held + held ∧ out.plain = fileSinkUringOpen answer s.sink ∧
          out.state.blocks.entries = s.blocks.entries ∧ (out.status ≠ .ok → out.state.blocks = s.blocks) := by
      refine Owns.free_bind ?_
      exact .pure ⟨rfl, rfl, rfl, fun _ => rfl⟩
    cases answer with
    | noMemory => exact hfreed
    | noRing => exact hfreed
    | noFile n => exact hfreed
    | opened n fd =>
      have hok : (fileSinkUringOpen (.opened n fd) s.sink).status = .ok := by
        rw [fileSinkUringOpen, hpath]
      refine .pure ⟨?_, rfl, rfl, fun hbad => absurd hok hbad⟩
      simp only [Out.owning, SinkBlocks.held, huring, owned_none]
      abel

theorem opsOpenM_owns (syncOpen : Option Nat) (uringOpen : UringOpen) (huring : s.blocks.uring = none)
    (hs : s.blocks.entries.length = s.sink.rotatedPaths.length) :
    Owns (s.blocks.held + held) (opsOpenM syncOpen uringOpen s) (Returns held (opsOpen syncOpen uringOpen s.sink)) := by
  have hhandles := opsOpen_handles syncOpen uringOpen s.sink
  have hsound : s.Sound := ⟨hs, fun _ => huring⟩
  unfold opsOpenM
  unfold opsOpen at hhandles ⊢
  split
  · rename_i huses
    rw [if_pos huses] at hhandles
    refine (fileSinkUringOpenM_owns uringOpen huring).mono fun out held' hout => ?_
    obtain ⟨hheld, hplain, hentries, -⟩ := hout
    refine ⟨hheld, hplain, hsound.of_handles ?_ hentries fun hsync => absurd huses (by rw [hsync]; decide)⟩
    rw [← hplain] at hhandles
    exact hhandles
  · rename_i huses
    rw [if_neg huses] at hhandles
    exact .pure ⟨rfl, rfl, hsound.of_handles hhandles rfl fun _ => huring⟩

theorem opsCloseM_owns (answer : CloseAnswer) (h : s.Sound) :
    Owns (s.blocks.held + held) (opsCloseM answer s) fun out held' =>
      held' = out.1.blocks.held + held ∧ (out.1.sink, out.2) = opsClose answer s.sink ∧ out.1.Sound ∧
        out.1.blocks.uring = none := by
  have hhandles := opsClose_handles answer s.sink
  unfold opsCloseM
  simp only
  split
  · rename_i huses
    have hheld : s.blocks.held + held = owned s.blocks.uring + (SinkBlocks.held { s.blocks with uring := none } + held) := by
      simp only [SinkBlocks.held, owned_none]
      abel
    rw [hheld]
    refine Owns.free_bind ?_
    exact .pure ⟨rfl, rfl, h.of_handles hhandles rfl fun _ => rfl, rfl⟩
  · rename_i huses
    have hnone := h.uring (Bool.eq_false_iff.2 huses)
    exact .pure ⟨rfl, rfl, h.of_handles hhandles rfl fun _ => hnone, hnone⟩

theorem recordRotationM_owns (strdup realloc : Bool) (b : SinkBlocks) :
    Owns (b.held + held) (recordRotationM strdup realloc b) fun out held' =>
      held' = out.2.held + held ∧ out.1 = (strdup && realloc) ∧ out.2.uring = b.uring ∧
        out.2.entries.length = b.entries.length + (strdup && realloc).toNat := by
  unfold recordRotationM
  refine (Owns.malloc strdup).bind fun pathCopy held₁ h₁ => ?_
  obtain ⟨hstrdup, rfl⟩ := h₁
  cases hcopy : pathCopy with
  | none =>
    rw [hcopy] at hstrdup
    rw [← hstrdup]
    exact .pure ⟨zero_add _, rfl, rfl, rfl⟩
  | some copy =>
    rw [hcopy] at hstrdup
    rw [← hstrdup]
    have hheld : owned (some copy) + (b.held + held) = owned b.rotatedPaths +
        (owned (some copy) + (owned b.path + owned b.uring + ownedAll b.entries + held)) := by
      simp only [SinkBlocks.held]
      abel
    rw [hheld]
    refine (Owns.realloc realloc b.rotatedPaths).bind fun newPaths held₂ h₂ => ?_
    obtain ⟨hrealloc, rfl⟩ := h₂
    cases hnew : newPaths with
    | none =>
      rw [hnew, Option.isSome_none] at hrealloc
      subst hrealloc
      have hback : owned b.rotatedPaths + (owned (some copy) +
          (owned b.path + owned b.uring + ownedAll b.entries + held)) = owned (some copy) + (b.held + held) := hheld.symm
      simp only [Bool.false_eq_true, if_false]
      rw [hback]
      refine Owns.free_bind ?_
      exact .pure ⟨rfl, rfl, rfl, rfl⟩
    | some block =>
      rw [hnew, Option.isSome_some] at hrealloc
      subst hrealloc
      refine .pure ⟨?_, rfl, rfl, ?_⟩
      · simp only [if_true, SinkBlocks.held, ownedAll_append, ownedAll_cons, ownedAll_nil, add_zero]
        abel
      · rw [List.length_append]
        rfl

theorem applyRetentionM_owns (retention : Nat) (es : List (Option Block)) :
    Owns (ownedAll es + held) (applyRetentionM retention es) fun out held' =>
      held' = ownedAll out + held ∧ out.length = es.length - surplus retention es.length := by
  induction es with
  | nil => exact .pure ⟨rfl, (Nat.zero_sub _).symm⟩
  | cons e es ih =>
    rw [applyRetentionM]
    split
    · rename_i hmore
      rw [ownedAll_cons, add_assoc]
      refine Owns.free_bind ?_
      refine ih.mono fun out held' hout => ⟨hout.1, hout.2.trans ?_⟩
      rw [surplus, surplus, if_pos hmore.1, if_pos hmore.1, List.length_cons]
      rw [List.length_cons] at hmore
      omega
    · rename_i hfew
      refine .pure ⟨rfl, ?_⟩
      have hnone : surplus retention (e :: es).length = 0 := by
        unfold surplus
        split
        · omega
        · rfl
      rw [hnone, Nat.sub_zero]

theorem fileSinkRotateM_owns (os : RotateOs) (strdup realloc : Bool) (h : s.Sound) :
    Owns (s.blocks.held + held) (fileSinkRotateM os strdup realloc s)
      (Returns held (fileSinkRotate { os with record := strdup && realloc } s.sink)) := by
  unfold fileSinkRotateM fileSinkRotate
  simp only
  cases fileSinkMakeRotationPath s.sink os.nameNow rotationBufferSize with
  | error status => exact .pure ⟨rfl, rfl, h⟩
  | ok rotated =>
    have hflush := opsFlush_handles os.flush s.sink
    generalize opsFlush os.flush s.sink = flushed at hflush ⊢
    simp only
    have hflushed : OwnedFileSink.Sound ⟨flushed.state, s.blocks⟩ := h.of_handles hflush rfl h.uring
    split
    · exact .pure ⟨rfl, rfl, hflushed⟩
    · refine (opsCloseM_owns os.close hflushed).bind fun closed held₁ hclosed => ?_
      obtain ⟨hheld₁, hplain, hsound, hring⟩ := hclosed
      simp only at hplain
      rw [← hplain, hheld₁]
      split
      · exact .pure ⟨rfl, rfl, hsound⟩
      · refine (recordRotationM_owns strdup realloc closed.1.blocks).bind fun recorded held₂ hrecorded => ?_
        obtain ⟨hheld₂, hrecord, huring, hentries⟩ := hrecorded
        rw [hheld₂, hrecord]
        cases hboth : (strdup && realloc) with
        | false =>
          rw [hboth] at hentries
          exact .pure ⟨rfl, rfl, hentries.trans hsound.entries, fun _ => huring.trans hring⟩
        | true =>
          rw [hboth] at hentries
          have hblocks : recorded.2.held + held = ownedAll recorded.2.entries +
              (owned recorded.2.path + owned recorded.2.uring + owned recorded.2.rotatedPaths + held) := by
            simp only [SinkBlocks.held]
            abel
          simp only [Bool.not_true, Bool.false_eq_true, if_false]
          rw [hblocks]
          refine (applyRetentionM_owns _ _).bind fun entries held₃ hkept => ?_
          obtain ⟨hheld₃, hlength⟩ := hkept
          have hheld₄ : ownedAll entries + (owned recorded.2.path + owned recorded.2.uring +
              owned recorded.2.rotatedPaths + held) = SinkBlocks.held { recorded.2 with entries := entries } + held := by
            simp only [SinkBlocks.held]
            abel
          have hkept : entries.length = (applyRetention os.unlink closed.1.sink.retentionFiles
              (closed.1.sink.rotatedPaths ++ [rotated])).1.length := by
            rw [applyRetention_eq, List.length_drop, List.length_append, List.length_singleton, ← hsound.entries, hlength,
              hentries]
            rfl
          rw [hheld₃, hheld₄]
          refine (opsOpenM_owns os.syncOpen os.uringOpen (huring.trans hring) hkept).bind fun opened held₅ hopened => ?_
          obtain ⟨hheld₅, hopen, hopened⟩ := hopened
          refine .pure ⟨hheld₅, ?_, hopened⟩
          simp only [← hopen]
          rfl

theorem writeTail_handles (os : WriteOs) (payload : Bytes) (rotated : Out FileSink) :
    (writeTail os payload rotated).state.rotatedPaths = rotated.state.rotatedPaths ∧
      (writeTail os payload rotated).state.usesUring = rotated.state.usesUring := by
  have hhandles := opsWrite_handles os.fwrite os.uring rotated.state payload
  simp only [writeTail]
  split
  · exact ⟨hhandles.rotatedPaths, hhandles.usesUring⟩
  · exact ⟨hhandles.rotatedPaths, hhandles.usesUring⟩

theorem OwnedFileSink.Sound.writeTail {sink : FileSink} {blocks : SinkBlocks} (h : OwnedFileSink.Sound ⟨sink, blocks⟩)
    (os : WriteOs) (payload : Bytes) {rotated : Out FileSink} (hsink : rotated.state = sink) :
    OwnedFileSink.Sound ⟨(writeTail os payload rotated).state, blocks⟩ := by
  obtain ⟨hpaths, huses⟩ := writeTail_handles os payload rotated
  rw [hsink] at hpaths huses
  exact ⟨by rw [hpaths]; exact h.entries, fun hsync => h.uring (huses ▸ hsync)⟩

theorem fileSinkWriteM_owns (os : WriteOs) (strdup realloc : Bool) (h : s.Sound) (payload : Bytes) :
    Owns (s.blocks.held + held) (fileSinkWriteM os strdup realloc s payload) (Returns held
      (fileSinkWrite { os with record := strdup && realloc } s.sink payload)) := by
  unfold fileSinkWriteM
  split
  · rename_i hempty
    rw [List.length_eq_zero_iff.1 hempty, fileSinkWrite_empty]
    exact .pure ⟨rfl, rfl, h⟩
  · rename_i hne
    rw [fileSinkWrite_eq _ _ fun hnil => hne (List.length_eq_zero_iff.2 hnil)]
    simp only
    split
    · refine (fileSinkRotateM_owns os.toRotateOs strdup realloc h).bind fun rotated held₁ hrotated => ?_
      obtain ⟨hheld, hplain, hsound⟩ := hrotated
      rw [hheld, ← hplain]
      by_cases hok : rotated.status = .ok
      · rw [if_neg (not_not.2 hok), if_pos (show rotated.plain.status = .ok from hok)]
        exact .pure ⟨rfl, rfl, hsound.writeTail os payload rfl⟩
      · rw [if_pos hok, if_neg (show ¬rotated.plain.status = .ok from hok)]
        exact .pure ⟨rfl, rfl, hsound⟩
    · exact .pure ⟨rfl, rfl, h.writeTail os payload rfl⟩

theorem fileSinkCloseM_owns (answer : CloseAnswer) (h : s.Sound) :
    Owns (s.blocks.held + held) (fileSinkCloseM answer s) fun out held' =>
      held' = held ∧ (out.1.sink, out.2) = fileSinkClose answer s.sink ∧ out.1.blocks = .zero := by
  unfold fileSinkCloseM
  refine (opsCloseM_owns answer h).bind fun closed held₁ hclosed => ?_
  obtain ⟨hheld, hplain, -, huring⟩ := hclosed
  have hblocks : closed.1.blocks.held + held = ownedAll closed.1.blocks.entries +
      (owned closed.1.blocks.rotatedPaths + (owned closed.1.blocks.path + held)) := by
    simp only [SinkBlocks.held, huring, owned_none]
    abel
  rw [hheld, hblocks]
  refine (Owns.freeAll _).bind fun _ held₂ h₂ => ?_
  rw [h₂]
  refine Owns.free_bind ?_
  refine Owns.free_bind ?_
  refine .pure ⟨rfl, ?_, ?_⟩
  · rw [fileSinkClose, ← hplain]
  · simp only [huring]
    rfl

theorem openBackendM_owns (os : OpenOs) {path : Bytes} {blocks : SinkBlocks} (requested : Int)
    (huring : blocks.uring = none) (hentries : blocks.entries = []) :
    Owns (blocks.held + held) (openBackendM os ⟨.blank requested path, blocks⟩)
      (Returns held (openBackend os (.blank requested path))) := by
  unfold openBackendM openBackend
  simp only
  split
  · refine (fileSinkUringOpenM_owns os.uringOpen huring).bind fun tried held₁ htried => ?_
    obtain ⟨hheld, hplain, hpaths, hsame⟩ := htried
    rw [hheld, ← hplain]
    have hhandles := opsOpen_handles none os.uringOpen { FileSink.blank requested path with activeBackend := .ioUring }
    have hops : opsOpen none os.uringOpen { FileSink.blank requested path with activeBackend := .ioUring } = tried.plain :=
      hplain.symm
    rw [hops] at hhandles
    by_cases hok : tried.status = .ok
    · rw [if_pos hok, if_pos (show tried.plain.status = .ok from hok)]
      refine .pure ⟨rfl, rfl, ?_, fun hsync => ?_⟩
      · rw [hpaths, hentries]
        exact (congrArg List.length hhandles.rotatedPaths).symm
      · have huses := hhandles.usesUring
        rw [show tried.plain.state.usesUring = tried.state.sink.usesUring from rfl, hsync] at huses
        cases huses
    · rw [if_neg hok, if_neg (show ¬tried.plain.status = .ok from hok), hsame hok]
      have hsync := fileSinkSyncOpen_handles os.syncOpen
        { tried.plain.state with activeBackend := .sync, fd := -1, uring := none }
      refine .pure ⟨?_, rfl, ?_, fun _ => rfl⟩
      · simp only [SinkBlocks.held, huring]
      · have hnone : (fileSinkSyncOpen os.syncOpen
            { tried.plain.state with activeBackend := .sync, fd := -1, uring := none }).state.rotatedPaths = [] :=
          hsync.rotatedPaths.trans hhandles.rotatedPaths
        rw [hentries]
        exact (congrArg List.length hnone).symm
  · have hsync := fileSinkSyncOpen_handles os.syncOpen { FileSink.blank requested path with activeBackend := .sync }
    refine .pure ⟨rfl, rfl, ?_, fun _ => huring⟩
    simp only [Out.owning]
    rw [hentries, hsync.rotatedPaths]
    rfl

theorem fileSinkOpenM_owns (os : OpenOs) (requested : Int) (path : Option Bytes) :
    Owns held (fileSinkOpenM os ⟨{ FileSink.zero with requestedBackend := requested }, .zero⟩ path) fun out held' =>
      Returns held (fileSinkOpen os { FileSink.zero with requestedBackend := requested } path) out held' ∧
        (out.status ≠ .ok → out.state.blocks = .zero) := by
  have hnothing : held = SinkBlocks.zero.held + held := (zero_add held).symm
  unfold fileSinkOpenM
  cases path with
  | none => exact .pure ⟨⟨hnothing, rfl, rfl, fun _ => rfl⟩, fun _ => rfl⟩
  | some path =>
    simp only
    by_cases hempty : path = []
    · rw [if_pos hempty, fileSinkOpen, if_pos hempty]
      exact .pure ⟨⟨hnothing, rfl, rfl, fun _ => rfl⟩, fun _ => rfl⟩
    · rw [if_neg hempty, fileSinkOpen_eq os _ hempty]
      refine (Owns.malloc _).bind fun stored held₁ hstored => ?_
      obtain ⟨hstore, rfl⟩ := hstored
      cases hpath : stored with
      | none =>
        rw [hpath] at hstore
        rw [← hstore]
        exact .pure ⟨⟨rfl, rfl, rfl, fun _ => rfl⟩, fun _ => rfl⟩
      | some block =>
        rw [hpath] at hstore
        rw [← hstore]
        simp only [Option.isNone_some, Option.isSome_some, Bool.false_eq_true, if_false, if_true]
        have hheld : owned (some block) + held = SinkBlocks.held ⟨some block, none, none, []⟩ + held := by
          simp only [SinkBlocks.held, owned_none, ownedAll_nil, add_zero]
        rw [hheld]
        refine (openBackendM_owns os requested rfl rfl).bind fun opened held₂ hopened => ?_
        obtain ⟨hheld₂, hplain, hsound⟩ := hopened
        rw [hheld₂, ← hplain]
        by_cases hok : opened.status = .ok
        · rw [if_neg (not_not.2 hok), if_pos (show opened.plain.status = .ok from hok)]
          exact .pure ⟨⟨rfl, rfl, hsound.entries, hsound.uring⟩, fun hbad => absurd rfl hbad⟩
        · rw [if_pos hok, if_neg (show ¬opened.plain.status = .ok from hok)]
          refine (fileSinkCloseM_owns .ok hsound).bind fun closed held₃ hclosed => ?_
          obtain ⟨rfl, hclose, hzero⟩ := hclosed
          have hstate : opened.plain.state = opened.state.sink := rfl
          rw [hstate, ← hclose]
          refine .pure ⟨⟨?_, rfl, ?_⟩, fun _ => hzero⟩
          · rw [hzero]
            exact hnothing
          · have hpaths : closed.1.sink.rotatedPaths = [] := congrArg (·.1.rotatedPaths) hclose
            exact ⟨by rw [hzero, hpaths]; rfl, fun _ => by rw [hzero]; rfl⟩

end Owns

end IoJournal
