import IoJournal.BackendAgreement
import IoJournal.Posix.Crash
import IoJournal.Shutdown

/-!
# IoJournal.CrashConsistency

What is in the files when the program stops at some moment, inside a call or between two, and is started
again.

The sink has no recovery: it opens the file and appends. So what counts is what the effects of a call
leave behind when only the first of them happen (`Posix.Cut`). A call in the middle of its work has only
appended to the active file, or it has moved the active file away and put nothing in the new one yet
(`fileSinkRotate_effects`).

* `Survives` says what the files still hold, and is proved for each call (`write_survives`,
  `flush_survives`, `close_survives`).
* `Life` is a run that ends at any moment, `crash_consistent` is about any number of lives.
-/

namespace IoJournal

open Wire Posix

/-! ## The effects of a call -/

/-- The effects only append to the active file, and only a first part of `bound`. -/
structure Within (path bound : Bytes) (es : List Effect) : Prop where
  quiet : ∀ e ∈ es, e.Quiet path
  appended : es.flatMap (Effect.appended path) <+: bound

section Effects

variable {path : Bytes} {w : World}

theorem within_nil (bound : Bytes) : Within path bound [] := ⟨List.forall_mem_nil _, List.nil_prefix⟩

theorem within_append {bound octets : Bytes} (h : octets <+: bound) : Within path bound [.append path octets] := by
  refine ⟨List.forall_mem_singleton.2 rfl, ?_⟩
  rw [List.flatMap_singleton, Effect.appended, if_pos rfl]
  exact h

theorem within_closes {bound : Bytes} {es : List Effect} (h : ∀ e ∈ es, ∃ fd, e = .closeFd fd) :
    Within path bound es := by
  refine ⟨fun e he => ?_, ?_⟩
  · obtain ⟨fd, rfl⟩ := h e he
    trivial
  · rw [List.flatMap_eq_nil_iff.2 fun e he => ?_]
    · exact List.nil_prefix
    · obtain ⟨fd, rfl⟩ := h e he
      rfl

theorem Within.append {bound : Bytes} {es es' : List Effect} (h : Within path bound es) (h' : Within path [] es') :
    Within path bound (es ++ es') := by
  refine ⟨fun e he => (List.mem_append.1 he).elim (h.quiet e) (h'.quiet e), ?_⟩
  rw [List.flatMap_append, List.prefix_nil.1 h'.appended, List.append_nil]
  exact h.appended

theorem opsWrite_within (h : w.Ready path) (fwrite : FwriteAnswer) (uring : UringWrite) (payload : Bytes) :
    Within path (w.sink.pending ++ [payload].flatten) (opsWrite fwrite uring w.sink payload).effects := by
  rw [List.flatten_singleton]
  have hfile : w.sink.file = path := file_eq h.toOpen
  rcases h.isOpen.backend with ⟨hsync, hstream⟩ | ⟨huring, hstream, -, hring⟩
  · obtain ⟨stream, hs⟩ := Option.isSome_iff_exists.1 hstream
    have hpending : w.sink.pending = stream.buffered := by rw [FileSink.pending, hs]; rfl
    rw [opsWrite, if_neg (by simp [FileSink.usesUring, hsync]), fileSinkSyncWrite, hs]
    simp only
    split
    · exact within_nil _
    · have hspill : (stream.buffered ++ payload.take fwrite.count).take fwrite.spill <+: w.sink.pending ++ payload := by
        rw [hpending]
        exact (List.take_prefix _ _).trans ((List.prefix_append_right_inj _).2 (List.take_prefix _ _))
      split <;> exact hfile ▸ within_append hspill
  · have hpending : w.sink.pending = [] := by rw [FileSink.pending, hstream]; rfl
    have huses : w.sink.usesUring = true := by simp [FileSink.usesUring, huring]
    obtain ⟨ring, hr⟩ := Option.isSome_iff_exists.1 hring
    have hdrain := @UringWrite.drain_prefix uring ring (h.settled huses ring hr) payload
    rw [opsWrite, if_pos huses, fileSinkUringWrite, hr, hpending, List.nil_append]
    dsimp only
    split
    · exact within_nil _
    split
    · exact within_nil _
    split
    · exact within_nil _
    · split <;> exact hfile ▸ within_append hdrain

theorem opsFlush_within (h : w.Open path) (answer : FlushAnswer) :
    Within path w.sink.pending (opsFlush answer w.sink).effects := by
  have hfile : w.sink.file = path := file_eq h
  rcases h.isOpen.backend with ⟨hsync, hstream⟩ | ⟨huring, hstream, -, -⟩
  · obtain ⟨stream, hs⟩ := Option.isSome_iff_exists.1 hstream
    have hpending : w.sink.pending = stream.buffered := by rw [FileSink.pending, hs]; rfl
    rw [opsFlush, if_neg (by simp [FileSink.usesUring, hsync]), fileSinkSyncFlush, hs, hpending]
    cases answer with
    | ok => exact hfile ▸ within_append List.prefix_rfl
    | failed written kept => exact hfile ▸ within_append (List.take_prefix _ _)
  · rw [opsFlush, if_pos (by simp [FileSink.usesUring, huring]), fileSinkUringFlush]
    split <;> exact within_nil _

theorem opsClose_within (h : w.Open path) (answer : CloseAnswer) :
    Within path w.sink.pending (opsClose answer w.sink).2 := by
  have hfile : w.sink.file = path := file_eq h
  rcases h.isOpen.backend with ⟨hsync, hstream⟩ | ⟨huring, hstream, -, -⟩
  · obtain ⟨stream, hs⟩ := Option.isSome_iff_exists.1 hstream
    have hpending : w.sink.pending = stream.buffered := by rw [FileSink.pending, hs]; rfl
    have hwrites : answer.writes stream.buffered <+: w.sink.pending := by
      rw [hpending]
      cases answer with
      | ok => exact List.prefix_rfl
      | failed => exact List.take_prefix _ _
    have hops : (opsClose answer w.sink).2 =
        [.append path (answer.writes stream.buffered)] ++ [.closeFd stream.fd] := by
      simp [opsClose, FileSink.usesUring, hsync, fileSinkSyncClose, hs, hfile]
    rw [hops]
    refine (within_append hwrites).append (within_closes ?_)
    exact List.forall_mem_singleton.2 ⟨stream.fd, rfl⟩
  · rw [opsClose, if_pos (by simp [FileSink.usesUring, huring]), fileSinkUringClose_eq]
    refine within_closes fun e he => ?_
    rcases List.mem_append.1 he with he | he
    · split at he
      · exact ⟨_, List.mem_singleton.1 he⟩
      · cases he
    · obtain ⟨ring, -, rfl⟩ := List.mem_map.1 he
      exact ⟨ring.fd, rfl⟩

theorem fileSinkUringOpen_clearing {sink : FileSink} (hpath : sink.path = some path) (answer : UringOpen)
    (gone : List Bytes) : ∀ e ∈ (fileSinkUringOpen answer sink).effects, e.Clearing path gone := by
  rw [fileSinkUringOpen, hpath]
  cases answer with
  | noMemory => exact List.forall_mem_nil _
  | noRing => exact List.forall_mem_nil _
  | noFile ring => exact List.forall_mem_cons.2 ⟨trivial, List.forall_mem_singleton.2 trivial⟩
  | opened ring fd =>
    exact List.forall_mem_cons.2 ⟨trivial, List.forall_mem_cons.2 ⟨trivial, List.forall_mem_singleton.2 rfl⟩⟩

theorem fileSinkSyncOpen_clearing {sink : FileSink} (hpath : sink.path = some path) (answer : Option Nat)
    (gone : List Bytes) : ∀ e ∈ (fileSinkSyncOpen answer sink).effects, e.Clearing path gone := by
  rw [fileSinkSyncOpen, hpath]
  cases answer with
  | none => exact List.forall_mem_nil _
  | some fd => exact List.forall_mem_cons.2 ⟨trivial, List.forall_mem_singleton.2 rfl⟩

theorem opsOpen_clearing {sink : FileSink} (hpath : sink.path = some path) (syncOpen : Option Nat)
    (uringOpen : UringOpen) (gone : List Bytes) :
    ∀ e ∈ (opsOpen syncOpen uringOpen sink).effects, e.Clearing path gone := by
  rw [opsOpen]
  split
  · exact fileSinkUringOpen_clearing hpath _ _
  · exact fileSinkSyncOpen_clearing hpath _ _

/-- A rotation that gets to its rename: what is in the stream goes to the file first, and the new file stays empty. -/
structure Turns (path target : Bytes) (os : RotateOs) (w : World) (closed : FileSink) (before after : List Effect) :
    Prop extends Prepared path target os w closed before where
  quiet : ∀ e ∈ before, e.Quiet path
  clearing : ∀ e ∈ after, e.Clearing path (w.sink.dropped target)
  stays : os.rename = false → after = []

theorem fileSinkRotate_effects (h : w.Open path) (os : RotateOs) :
    Within path w.sink.pending (fileSinkRotate os w.sink).effects ∨
      ∃ target closed before after, Turns path target os w closed before after ∧
        (fileSinkRotate os w.sink).effects = before ++ .rename path target os.rename :: after := by
  cases hname : fileSinkMakeRotationPath w.sink os.nameNow rotationBufferSize with
  | error e =>
    left
    simp only [fileSinkRotate, hname]
    exact within_nil _
  | ok target =>
    by_cases hflush : (opsFlush os.flush w.sink).status = .ok
    swap
    · left
      simp only [fileSinkRotate, hname, if_pos hflush]
      exact opsFlush_within h os.flush
    right
    obtain ⟨⟨closed, es⟩, hclose⟩ : ∃ r, opsClose os.close (opsFlush os.flush w.sink).state = r := ⟨_, rfl⟩
    have hprepared := rotate_prepares h os hname hflush hclose
    have hfile : closed.file = path := by rw [FileSink.file, hprepared.stranded.path, Option.getD_some]
    have hquiet : ∀ e ∈ (opsFlush os.flush w.sink).effects ++ es, e.Quiet path := by
      have happ := ((opsFlush_appends h os.flush).1 hflush).1
      have hes : (opsClose os.close (opsFlush os.flush w.sink).state).2 = es := by rw [hclose]
      intro e he
      rcases List.mem_append.1 he with he | he
      · exact (opsFlush_within h os.flush).quiet e he
      · rw [← hes] at he
        exact (opsClose_within happ.opened os.close).quiet e he
    cases hrename : os.rename with
    | false =>
      refine ⟨target, closed, _, [], ⟨hprepared, hquiet, List.forall_mem_nil _, fun _ => rfl⟩, ?_⟩
      simp [fileSinkRotate, hname, hflush, hclose, hrename, hfile]
    | true =>
      have hrenamed : os.rename ≠ false := by simp [hrename]
      cases hrecord : os.record with
      | false =>
        refine ⟨target, closed, _, [], ⟨hprepared, hquiet, List.forall_mem_nil _, fun _ => rfl⟩, ?_⟩
        simp [fileSinkRotate, hname, hflush, hclose, hrename, hfile, hrecord]
      | true =>
        refine ⟨target, closed, _, (w.sink.dropped target).map (fun p => .unlink p (os.unlink p)) ++
          (opsOpen os.syncOpen os.uringOpen (closed.turned target os.rotatedNow)).effects,
          ⟨hprepared, hquiet, fun e he => ?_, fun hfalse => absurd hfalse hrenamed⟩, ?_⟩
        · have hpath : (closed.turned target os.rotatedNow).path = some path := hprepared.stranded.path
          rcases List.mem_append.1 he with he | he
          · obtain ⟨p, hp, rfl⟩ := List.mem_map.1 he
            exact hp
          · exact opsOpen_clearing hpath _ _ _ e he
        · rw [← hprepared.handles.dropped]
          simp [fileSinkRotate, hname, hflush, hclose, hrename, hfile, hrecord, applyRetention_eq, FileSink.turned,
            FileSink.dropped]

end Effects

/-! ## What is left -/

/-- The records are in the files as in `Complete`, but the active file may lack a last part of them. -/
structure Survives (path : Bytes) (retention : Nat) (records : List Bytes) (d : Disk) : Prop where
  log : ∃ log : SegmentedLog Bytes, log.records = records ∧ d.moved.map Prod.snd = log.closed.map List.flatten ∧
    d.contents path <+: log.active.flatten
  nodup : (d.moved.map Prod.fst).Nodup
  present : ∀ e ∈ d.moved, e.1 ∈ (d.moved.map Prod.fst).drop (surplus retention d.moved.length) →
    d.files e.1 = some e.2

section Survives

variable {path : Bytes} {retention n : Nat} {octets more : List Bytes} {w : World} {cut es : List Effect}

theorem Kept.survives (h : Kept path w) (hretention : w.sink.retentionFiles = retention)
    (hlog : ∃ log : SegmentedLog Bytes, log.records = octets ∧ w.disk.moved.map Prod.snd = log.closed.map List.flatten ∧
      w.disk.contents path <+: log.active.flatten) : Survives path retention octets w.disk := by
  refine ⟨hlog, h.nodup, fun e he hkept => h.present e he ?_⟩
  rw [h.rotatedPaths, hretention, World.names, List.length_map]
  exact hkept

variable (h : Accounted path retention octets n w)
include h

theorem Accounted.cut_within (hes : Within path (w.sink.pending ++ more.flatten) es) (hcut : Cut cut es) :
    Survives path retention (octets ++ more) (w.disk.run cut) ∧
      w.disk.stream path <+: (w.disk.run cut).stream path := by
  obtain ⟨log, hholds, hrecords⟩ := h.holds
  obtain ⟨hself, hothers, hmoved⟩ := Disk.run_quiet (hcut.quiet hes.quiet) h.ready.file
  have hcontents : (w.disk.run cut).contents path = w.disk.contents path ++ cut.flatMap (Effect.appended path) := by
    rw [Disk.contents, hself, Option.getD_some]
  have hactive : w.disk.contents path ++ w.sink.pending = log.active.flatten := by
    have hactive := hholds.active
    rw [List.flatMap_id] at hactive
    exact hactive
  constructor
  · have hkept : Kept path ⟨w.sink, w.disk.run cut⟩ := h.kept.congr hmoved hothers rfl rfl rfl
    refine hkept.survives h.retention ⟨{ log with active := log.active ++ more }, ?_, ?_, ?_⟩
    · rw [← hrecords, SegmentedLog.records, SegmentedLog.records, List.append_assoc]
    · rw [hmoved]
      simpa using hholds.moved
    · rw [hcontents, List.flatten_append, ← hactive, List.append_assoc]
      exact (List.prefix_append_right_inj _).2 (hcut.appended.trans hes.appended)
  · rw [Disk.stream, Disk.stream, hmoved, hcontents, ← List.append_assoc]
    exact List.prefix_append _ _

/-- A rotation that stops after its rename: the old file is whole under its new name. -/
theorem Accounted.cut_turned {os : RotateOs} {target : Bytes} {closed : FileSink} {before after rest : List Effect}
    (hroom : n + 1 < wordSize) (hturns : Turns path target os w closed before after) (hrename : os.rename = true)
    (hcut : Cut rest after) :
    Survives path retention (octets ++ more) (w.disk.run (before ++ .rename path target os.rename :: rest)) ∧
      w.disk.stream path <+: (w.disk.run (before ++ .rename path target os.rename :: rest)).stream path := by
  obtain ⟨log, hholds, hrecords⟩ := h.holds
  have hcount := h.count
  obtain ⟨tm, -, htarget⟩ := fileSinkMakeRotationPath_text h.ready.isOpen.path hturns.name
  rw [h.kept.sequence, Nat.mod_eq_of_lt (by omega)] at htarget
  rw [hrename, Disk.run_append, Disk.run_cons]
  have hgone : path ∉ w.sink.dropped target := by
    intro hmem
    rcases List.mem_append.1 (List.mem_of_mem_take hmem) with hold | hnew
    · exact h.kept.ne_path (h.kept.mem_names hold) rfl
    · exact hturns.target_ne (List.mem_singleton.1 hnew).symm
  have hrenamed : MovesAway path target [] os.unlink w
      ⟨closed, ((w.disk.run before).apply (.rename path target true)).run []⟩ :=
    movesAway_of_rename [] os.unlink hturns.active hturns.others hturns.moved hturns.pending (.inl rfl)
  obtain ⟨hcontents, hmoved, unlinked, hfiles⟩ := ((w.disk.run before).apply (.rename path target true)).run_clearing
    (hcut.clearing hturns.clearing) hgone
  have hcontents := hcontents.trans (List.append_eq_nil_iff.1 hrenamed.active).1
  have hmoved := hmoved.trans hrenamed.moved
  -- as after a whole rotation, with the files not unlinked yet still there
  have hmoves : MovesAway path target (w.sink.dropped target) unlinked w
      ⟨{ w.sink.turned target 0 with stream := none },
        ((w.disk.run before).apply (.rename path target true)).run rest⟩ := by
    refine ⟨?_, hmoved, fun p hp => ?_⟩
    · rw [World.active, hcontents]
      rfl
    · have hfirst := hrenamed.files p hp
      rw [if_neg (fun hmem => List.not_mem_nil hmem.1)] at hfirst
      rw [hfiles p hp]
      exact congrArg _ hfirst
  have hkept := h.kept.turn (by omega) htarget hmoves rfl
  constructor
  · refine hkept.survives h.retention ⟨⟨log.rotate.closed, more⟩, ?_, ?_, ?_⟩
    · have hclosed : log.rotate.closed.flatten = log.records := by simp [SegmentedLog.rotate, SegmentedLog.records]
      rw [SegmentedLog.records, hclosed, hrecords]
    · simpa using (hholds.rotate hmoves).moved
    · rw [hcontents]
      exact List.nil_prefix
  · rw [Disk.stream, Disk.stream, hmoved, hcontents, List.map_append, List.flatten_append, List.append_nil]
    refine (List.prefix_append_right_inj _).2 ?_
    simp [World.active]

theorem Accounted.cut_rotate (hroom : n + 1 < wordSize) (os : RotateOs)
    (hcut : Cut cut (fileSinkRotate os w.sink).effects) :
    Survives path retention (octets ++ more) (w.disk.run cut) ∧
      w.disk.stream path <+: (w.disk.run cut).stream path := by
  rcases fileSinkRotate_effects h.ready.toOpen os with hwithin | ⟨target, closed, before, after, hturns, heffects⟩
  · exact h.cut_within ⟨hwithin.quiet, hwithin.appended.trans (List.prefix_append _ _)⟩ hcut
  have hbefore : Within path (w.sink.pending ++ more.flatten) before := by
    refine ⟨hturns.quiet, ?_⟩
    have hself := (Disk.run_quiet hturns.quiet h.ready.file).1
    rw [hturns.active, Option.some_inj] at hself
    rw [← List.append_cancel_left hself]
    exact List.prefix_append _ _
  rw [heffects] at hcut
  rcases hcut.of_append with hfirst | ⟨rest, rfl, hrest⟩
  · exact h.cut_within hbefore hfirst
  cases hrest with
  | stop => exact h.cut_within hbefore ((List.append_nil before).symm ▸ .refl before)
  | @next rest _ _ hrest =>
    cases hrename : os.rename with
    | true => exact hrename ▸ h.cut_turned hroom hturns hrename hrest
    | false =>
      rw [hturns.stays hrename] at hrest
      have hnothing : w.disk.run (before ++ .rename path target false :: rest) = w.disk.run before := by
        rw [hrest.of_nil, Disk.run_append]
        rfl
      rw [hnothing]
      exact h.cut_within hbefore (.refl before)

theorem Accounted.cut_write (hroom : n + 1 < wordSize) (os : WriteOs) (payload : Bytes)
    (hcut : Cut cut (fileSinkWrite os w.sink payload).effects) :
    Survives path retention (octets ++ [payload]) (w.disk.run cut) ∧
      w.disk.stream path <+: (w.disk.run cut).stream path := by
  by_cases hne : payload = []
  · rw [hne, fileSinkWrite_empty] at hcut
    rw [hcut.of_nil]
    exact h.cut_within (within_nil _) (.refl [])
  rw [fileSinkWrite_eq os w.sink hne] at hcut
  split at hcut
  · split at hcut
    · rename_i hok
      rw [writeTail_effects] at hcut
      rcases hcut.of_append with hfirst | ⟨rest, rfl, hrest⟩
      · exact h.cut_rotate hroom os.toRotateOs hfirst
      · have hmid := h.rotated hroom (fileSinkRotate_result h.ready.toOpen os.toRotateOs) hok
        obtain ⟨hsurvives, hstream⟩ := hmid.cut_within (opsWrite_within hmid.ready os.fwrite os.uring payload) hrest
        obtain ⟨-, hrotated⟩ := @Accounted.cut_rotate path retention n octets [] w _ h hroom os.toRotateOs (.refl _)
        rw [Disk.run_append]
        exact ⟨hsurvives, hrotated.trans hstream⟩
    · exact h.cut_rotate hroom os.toRotateOs hcut
  · rw [writeTail_effects, List.nil_append] at hcut
    exact h.cut_within (opsWrite_within h.ready os.fwrite os.uring payload) hcut

theorem Accounted.cut_flush (answer : FlushAnswer) (hcut : Cut cut (fileSinkFlush answer w.sink).effects) :
    Survives path retention octets (w.disk.run cut) ∧ w.disk.stream path <+: (w.disk.run cut).stream path := by
  have hwithin := opsFlush_within h.ready.toOpen answer
  rw [← List.append_nil octets]
  exact h.cut_within ⟨hwithin.quiet, hwithin.appended.trans (List.prefix_append _ _)⟩ hcut

theorem Accounted.cut_close (answer : CloseAnswer) (hcut : Cut cut (fileSinkClose answer w.sink).2) :
    Survives path retention octets (w.disk.run cut) ∧ w.disk.stream path <+: (w.disk.run cut).stream path := by
  have hwithin := opsClose_within h.ready.toOpen answer
  rw [← List.append_nil octets]
  exact h.cut_within ⟨hwithin.quiet, hwithin.appended.trans (List.prefix_append _ _)⟩ hcut

theorem Accounted.stream : w.disk.stream path ++ w.sink.pending = octets.flatten := by
  obtain ⟨log, hholds, rfl⟩ := h.holds
  have hactive := hholds.active
  have hmoved := hholds.moved
  rw [List.flatMap_id, World.active] at hactive
  simp only [List.flatMap_id] at hmoved
  rw [flatten_records, Disk.stream, hmoved, List.append_assoc, hactive]

theorem Accounted.rotate_logs (hretention : retention = 0) (os : RotateOs) :
    ∀ e ∈ (fileSinkRotate os w.sink).effects, e.Logs path := by
  rcases fileSinkRotate_effects h.ready.toOpen os with hwithin | ⟨target, closed, before, after, hturns, heffects⟩
  · exact fun e he => (hwithin.quiet e he).logs
  have hdropped : w.sink.dropped target = [] := by
    rw [FileSink.dropped, h.retention, hretention, surplus, if_neg (Nat.lt_irrefl 0), List.take_zero]
  rw [heffects]
  intro e he
  rcases List.mem_append.1 he with he | he
  · exact (hturns.quiet e he).logs
  rcases List.mem_cons.1 he with rfl | he
  · exact ⟨rfl, hturns.target_ne⟩
  · have hclearing := hturns.clearing e he
    rw [hdropped] at hclearing
    exact hclearing.logs

theorem Accounted.write_logs (hretention : retention = 0) (os : WriteOs) (payload : Bytes) :
    ∀ e ∈ (fileSinkWrite os w.sink payload).effects, e.Logs path := by
  by_cases hne : payload = []
  · rw [hne, fileSinkWrite_empty]
    exact List.forall_mem_nil _
  have hrotate := h.rotate_logs hretention os.toRotateOs
  rw [fileSinkWrite_eq os w.sink hne]
  split
  · split
    · rename_i hok
      obtain ⟨target, hrotated⟩ := (fileSinkRotate_result h.ready.toOpen os.toRotateOs).of_ok hok
      rw [writeTail_effects, List.forall_mem_append]
      exact ⟨hrotate, fun e he => ((opsWrite_within hrotated.ready os.fwrite os.uring payload).quiet e he).logs⟩
    · exact hrotate
  · rw [writeTail_effects, List.nil_append]
    exact fun e he => ((opsWrite_within h.ready os.fwrite os.uring payload).quiet e he).logs

end Survives

theorem fileSinkOpen_clearing {path : Bytes} (hne : path ≠ []) (os : OpenOs) (sink : FileSink) :
    ∀ e ∈ (fileSinkOpen os sink (some path)).effects, e.Clearing path [] := by
  have hopened : ∀ e ∈ (openBackend os (.blank sink.requestedBackend path)).effects, e.Clearing path [] := by
    simp only [openBackend]
    split
    · split
      · exact fileSinkUringOpen_clearing rfl _ _
      · have hpath : ∀ s : FileSink, (fileSinkUringOpen os.uringOpen s).state.path = s.path := by
          intro s
          rw [fileSinkUringOpen]
          split
          · rfl
          · split <;> rfl
        intro e he
        rcases List.mem_append.1 he with he | he
        · exact fileSinkUringOpen_clearing rfl _ _ e he
        · exact fileSinkSyncOpen_clearing (hpath _) _ _ e he
    · exact fileSinkSyncOpen_clearing rfl _ _
  rw [fileSinkOpen_eq os sink hne]
  split
  · dsimp only
    split
    · exact hopened
    · rename_i hbad
      rcases openBackend_opened (show (FileSink.blank sink.requestedBackend path).path = some path from rfl) rfl
        (show (-1 : Int) < 0 by decide) rfl rfl os ⟨fun _ => none, []⟩ with ⟨hok, -⟩ | ⟨-, hstranded, -⟩
      · exact absurd hok hbad
      · rw [hstranded.isClosed.close, List.append_nil]
        exact hopened
  · exact List.forall_mem_nil _

/-! ## Lives -/

def SinkCall.effects (s : Store) : SinkCall → List Effect
  | .write os payload => (fileSinkWrite os s.world.sink payload).effects
  | .flush answer => (fileSinkFlush answer s.world.sink).effects

/-- When the program stops: in `ij_file_sink_open`, in a call after some others, or in `ij_file_sink_close`. -/
inductive Moment where
  | opening
  | inCall (calls : List SinkCall) (c : SinkCall)
  | closing (calls : List SinkCall) (answer : CloseAnswer)

def Moment.calls : Moment → List SinkCall
  | .opening => []
  | .inCall calls _ => calls
  | .closing calls _ => calls

/-- A sink from its opening to the moment the program stops. Of the effects of the last call `cut` happened. -/
structure Life where
  os : OpenOs
  sink : FileSink
  settings : RotationSettings
  stops : Moment
  cut : List Effect

def SinkCall.isWrite : SinkCall → Bool
  | .write _ _ => true
  | .flush _ => false

/-- The payloads that do not wait in a stream: with io_uring all, else those before the last flush. -/
def durablePayloads (usesUring : Bool) (calls : List SinkCall) : List Bytes :=
  (if usesUring then calls else calls.rdropWhile SinkCall.isWrite).flatMap SinkCall.payloads

namespace Life

def store (path : Bytes) (life : Life) (d : Disk) : Store :=
  Machine.run Store.step (.opened life.os life.sink path life.settings d) life.stops.calls

def reached (path : Bytes) (life : Life) (d : Disk) : Disk :=
  match life.stops with
  | .opening => d
  | _ => (life.store path d).world.disk

def effects (path : Bytes) (life : Life) (d : Disk) : List Effect :=
  match life.stops with
  | .opening => (fileSinkOpen life.os life.sink (some path)).effects
  | .inCall _ c => c.effects (life.store path d)
  | .closing _ answer => (fileSinkClose answer (life.store path d).world.sink).2

def step (path : Bytes) (d : Disk) (life : Life) : Disk := (life.reached path d).run life.cut

/-- The payloads handed to the sink, that of the last call among them. -/
def submitted (life : Life) : List Bytes :=
  match life.stops with
  | .inCall calls c => (calls ++ [c]).flatMap SinkCall.payloads
  | stops => stops.calls.flatMap SinkCall.payloads

def durable (path : Bytes) (life : Life) : List Bytes :=
  durablePayloads (fileSinkOpen life.os life.sink (some path)).state.usesUring life.stops.calls

/-- The sink was opened, the calls before the last one returned `ok`, and the last one may do what was done. -/
structure Lived (path : Bytes) (d : Disk) (life : Life) : Prop where
  opened : life.stops = .opening ∨ (fileSinkOpen life.os life.sink (some path)).status = .ok
  accepted : Machine.Along Store.step Store.CallOk (.opened life.os life.sink path life.settings d) life.stops.calls
  count : life.stops.calls.length + 1 < wordSize
  cut : Cut life.cut (life.effects path d)

/-- What a life that began on `d` leaves: the renames before it stand, the files it wrote hold the old
contents of the active file and the payloads, and at least the durable ones are on disk. -/
structure Leaves (path : Bytes) (life : Life) (d d' : Disk) : Prop where
  moved : d.moved <+: d'.moved
  survives : Survives path life.settings.retentionFiles (d.contents path :: life.submitted) (d.since d')
  durable : d.stream path ++ (life.durable path).flatten <+: d'.stream path

end Life

section Lives

variable {path : Bytes} {retention n : Nat} {octets : List Bytes} {s : Store} {c : SinkCall} {cut : List Effect}

theorem Store.step_disk (s : Store) (c : SinkCall) : (s.step c).world.disk = s.world.disk.run (c.effects s) := by
  cases c <;> rfl

theorem Accounted.cut_call (h : Accounted path retention octets n s.world) (hroom : n + 1 < wordSize)
    (hcut : Cut cut (c.effects s)) :
    Survives path retention (octets ++ c.payloads) (s.world.disk.run cut) ∧
      s.world.disk.stream path <+: (s.world.disk.run cut).stream path := by
  cases c with
  | write os payload => exact h.cut_write hroom os payload hcut
  | flush answer =>
    rw [SinkCall.payloads, List.append_nil]
    exact h.cut_flush answer hcut

theorem Accounted.call_logs (h : Accounted path retention octets n s.world) (hretention : retention = 0) (c : SinkCall) :
    ∀ e ∈ c.effects s, e.Logs path := by
  cases c with
  | write os payload => exact h.write_logs hretention os payload
  | flush answer => exact fun e he => ((opsFlush_within h.ready.toOpen answer).quiet e he).logs

theorem Accounted.step (h : Accounted path retention octets n s.world) (hroom : n + 1 < wordSize) (hok : s.CallOk c) :
    Accounted path retention (octets ++ c.payloads) (n + 1) (s.step c).world := by
  cases c with
  | write os payload => exact h.write hroom (Store.WriteOk.nonempty (show s.WriteOk ⟨os, payload⟩ from hok)) hok
  | flush answer =>
    rw [SinkCall.payloads, List.append_nil]
    exact (h.flush hok).mono (Nat.le_succ n)

theorem Store.step_usesUring (h : s.world.Ready path) (hok : s.CallOk c) :
    (s.step c).world.sink.usesUring = s.world.sink.usesUring := by
  cases c with
  | flush answer =>
    have hhandles := ((opsFlush_appends h.toOpen answer).1 hok).1.handles
    change OnlyHandles s.world.sink (s.step (.flush answer)).world.sink at hhandles
    rw [hhandles]
    rfl
  | write os payload =>
    have hstatus : (fileSinkWrite os s.world.sink payload).status = .ok := hok
    have hne : payload ≠ [] := Store.WriteOk.nonempty (show s.WriteOk ⟨os, payload⟩ from hok)
    have hwrote : ∀ w w' : World, Wrote path payload (fileSinkWrite os s.world.sink payload).status w w' →
        w'.sink.usesUring = w.sink.usesUring := by
      intro w w' hw
      have hhandles := hw.handles
      rw [if_pos hstatus] at hhandles
      rw [hhandles]
      rfl
    cases fileSinkWrite_result h.toOpen os hne with
    | kept due wrote => exact hwrote _ _ wrote
    | failed due status => exact absurd hstatus status
    | rotated due ok rotate wrote =>
      obtain ⟨target, hrotated⟩ := rotate.of_ok ok
      have hturned := hrotated.turned
      refine (hwrote _ _ wrote).trans ?_
      rw [World.after, hturned]
      rfl

theorem World.Ready.pending_uring {w : World} (h : w.Ready path) (huring : w.sink.usesUring = true) :
    w.sink.pending = [] := by
  rcases h.isOpen.backend with ⟨hsync, -⟩ | ⟨-, hstream, -⟩
  · rw [FileSink.usesUring, hsync] at huring
    cases huring
  · rw [FileSink.pending, hstream]
    rfl

theorem durablePayloads_part (usesUring : Bool) (calls : List SinkCall) :
    durablePayloads usesUring calls <+: calls.flatMap SinkCall.payloads := by
  cases usesUring with
  | true => exact List.prefix_rfl
  | false => exact (List.rdropWhile_prefix _ calls).flatMap _

/-- The state before the last call of a life. -/
structure Reached (path : Bytes) (retention : Nat) (before : Bytes) (usesUring : Bool) (calls : List SinkCall)
    (s : Store) : Prop where
  accounted : Accounted path retention (before :: calls.flatMap SinkCall.payloads) calls.length s.world
  backend : s.world.sink.usesUring = usesUring
  durable : before ++ (durablePayloads usesUring calls).flatten <+: s.world.disk.stream path

variable {before : Bytes} {usesUring : Bool} {calls : List SinkCall}

theorem Accounted.durable (h : Accounted path retention (before :: calls.flatMap SinkCall.payloads) n s.world)
    (hpending : s.world.sink.pending = []) (usesUring : Bool) :
    before ++ (durablePayloads usesUring calls).flatten <+: s.world.disk.stream path := by
  have hstream := h.stream
  rw [hpending, List.append_nil, List.flatten_cons] at hstream
  rw [hstream]
  exact (List.prefix_append_right_inj _).2 (durablePayloads_part usesUring calls).flatten

theorem Reached.step (h : Reached path retention before usesUring calls s) (hroom : calls.length + 1 < wordSize)
    (hok : s.CallOk c) : Reached path retention before usesUring (calls ++ [c]) (s.step c) := by
  have hstep := h.accounted.step hroom hok
  have hbackend := (s.step_usesUring h.accounted.ready hok).trans h.backend
  have hpayloads : (calls ++ [c]).flatMap SinkCall.payloads = calls.flatMap SinkCall.payloads ++ c.payloads := by
    rw [List.flatMap_append, List.flatMap_singleton]
  have hlength : (calls ++ [c]).length = calls.length + 1 := List.length_append
  rw [List.cons_append, ← hpayloads, ← hlength] at hstep
  refine ⟨hstep, hbackend, ?_⟩
  cases usesUring with
  | true => exact hstep.durable (hstep.ready.pending_uring hbackend) true
  | false =>
    cases c with
    | flush answer => exact hstep.durable ((opsFlush_appends h.accounted.ready.toOpen answer).1 hok).2 false
    | write os payload =>
      have hsame : durablePayloads false (calls ++ [.write os payload]) = durablePayloads false calls :=
        congrArg (List.flatMap SinkCall.payloads) (List.rdropWhile_concat_pos _ _ _ rfl)
      obtain ⟨-, hgrows⟩ := h.accounted.cut_call hroom (.refl (SinkCall.effects s (.write os payload)))
      rw [hsame, Store.step_disk]
      exact h.durable.trans hgrows

theorem Reached.opened {os : OpenOs} {sink : FileSink} (hne : path ≠ [])
    (hopen : (fileSinkOpen os sink (some path)).status = .ok) (settings : RotationSettings) {d : Disk}
    (hmoved : d.moved = []) :
    Reached path settings.retentionFiles (d.contents path) (fileSinkOpen os sink (some path)).state.usesUring []
      (.opened os sink path settings d) := by
  obtain ⟨hkept, hmoved'⟩ := Store.opened_kept hne hopen settings hmoved
  have hactive := Store.opened_active hne hopen settings d
  have haccounted : Accounted path settings.retentionFiles [d.contents path] 0
      (Store.opened os sink path settings d).world := by
    refine ⟨Store.opened_ready hne hopen settings d, ⟨⟨[], [d.contents path]⟩, ⟨?_, ?_⟩, rfl⟩, hkept, rfl, ?_⟩
    · rw [hactive]
      exact (List.append_nil _).symm
    · rw [hmoved']
      rfl
    · rw [World.names, hmoved']
      exact Nat.le_refl 0
  refine ⟨haccounted, rfl, ?_⟩
  rcases fileSinkOpen_result os sink hne d with ⟨-, hopened, -⟩ | ⟨hbad, -⟩
  · exact @Accounted.durable path settings.retentionFiles 0 _ (d.contents path) [] haccounted hopened.pending _
  · exact absurd hopen hbad

end Lives

namespace Life

variable {path : Bytes} {life : Life} {d d' : Disk}

theorem Lived.reached (h : life.Lived path d) (hne : path ≠ []) (hmoved : d.moved = [])
    (hopen : (fileSinkOpen life.os life.sink (some path)).status = .ok) :
    Reached path life.settings.retentionFiles (d.contents path)
      (fileSinkOpen life.os life.sink (some path)).state.usesUring life.stops.calls (life.store path d) := by
  have hrun := Machine.Along.induction
    (motive := fun calls s => calls.length + 1 < wordSize →
      Reached path life.settings.retentionFiles (d.contents path)
        (fileSinkOpen life.os life.sink (some path)).state.usesUring calls s) ?_ ?_ h.accepted
  · exact hrun h.count
  · exact fun _ => .opened hne hopen life.settings hmoved
  · intro calls c hok ih hlen
    rw [List.length_append, List.length_singleton] at hlen
    exact (ih (by omega)).step (by omega) hok

theorem Lived.leaves_first (h : life.Lived path d) (hne : path ≠ []) (hmoved : d.moved = []) :
    Survives path life.settings.retentionFiles (d.contents path :: life.submitted) (life.step path d) ∧
      d.contents path ++ (life.durable path).flatten <+: (life.step path d).stream path := by
  obtain ⟨os, sink, settings, stops, cut⟩ := life
  have hcut := h.cut
  cases stops with
  | opening =>
    -- nothing was written: the old contents are all there is
    have hclearing := hcut.clearing (fileSinkOpen_clearing hne os sink)
    obtain ⟨hcontents, hmoved', -⟩ := d.run_clearing hclearing List.not_mem_nil
    have hdurable : Life.durable path ⟨os, sink, settings, .opening, cut⟩ = [] := by
      rw [Life.durable, durablePayloads]
      split <;> rfl
    have hafter : Life.step path d ⟨os, sink, settings, .opening, cut⟩ = d.run cut := rfl
    rw [hafter, hdurable, List.flatten_nil, List.append_nil]
    refine ⟨⟨⟨⟨[], [d.contents path]⟩, rfl, ?_, ?_⟩, ?_, ?_⟩, ?_⟩
    · rw [hmoved', hmoved]
      rfl
    · rw [hcontents]
      exact List.prefix_append _ _
    · rw [hmoved', hmoved]
      exact List.nodup_nil
    · intro e he
      rw [hmoved', hmoved] at he
      exact absurd he List.not_mem_nil
    · rw [Disk.stream, hcontents, hmoved', hmoved]
      exact List.prefix_rfl
  | inCall calls c =>
    have hopened := h.opened.resolve_left (fun hopening => by cases hopening)
    have hreached := h.reached hne hmoved hopened
    obtain ⟨hsurvives, hgrows⟩ := hreached.accounted.cut_call h.count hcut
    refine ⟨?_, hreached.durable.trans hgrows⟩
    have hsubmitted : (calls ++ [c]).flatMap SinkCall.payloads = calls.flatMap SinkCall.payloads ++ c.payloads := by
      rw [List.flatMap_append, List.flatMap_singleton]
    change Survives path settings.retentionFiles (d.contents path :: (calls ++ [c]).flatMap SinkCall.payloads) _
    rw [hsubmitted]
    exact hsurvives
  | closing calls answer =>
    have hopened := h.opened.resolve_left (fun hopening => by cases hopening)
    have hreached := h.reached hne hmoved hopened
    obtain ⟨hsurvives, hgrows⟩ := hreached.accounted.cut_close answer hcut
    exact ⟨hsurvives, hreached.durable.trans hgrows⟩

theorem Lived.store_logsTo (h : life.Lived path d) (hne : path ≠ []) (hmoved : d.moved = [])
    (hopen : (fileSinkOpen life.os life.sink (some path)).status = .ok) (hretention : life.settings.retentionFiles = 0) :
    d.LogsTo path (life.store path d).world.disk := by
  have hrun := Machine.Along.induction
    (motive := fun calls s => calls.length + 1 < wordSize →
      Reached path life.settings.retentionFiles (d.contents path)
        (fileSinkOpen life.os life.sink (some path)).state.usesUring calls s ∧ d.LogsTo path s.world.disk)
    ?_ ?_ h.accepted
  · exact (hrun h.count).2
  · refine fun _ => ⟨.opened hne hopen life.settings hmoved, .of_run fun e he => ?_⟩
    exact (fileSinkOpen_clearing hne life.os life.sink e he).logs
  · intro calls c hok ih hlen
    rw [List.length_append, List.length_singleton] at hlen
    obtain ⟨hreached, hlogs⟩ := ih (by omega)
    refine ⟨hreached.step (by omega) hok, hlogs.trans ?_⟩
    rw [Store.step_disk]
    exact .of_run (hreached.accounted.call_logs hretention c)

theorem Lived.first_logsTo (h : life.Lived path d) (hne : path ≠ []) (hmoved : d.moved = [])
    (hretention : life.settings.retentionFiles = 0) : d.LogsTo path (life.step path d) := by
  have hcut := h.cut
  have hlater : (fileSinkOpen life.os life.sink (some path)).status = .ok → (∀ e ∈ life.cut, e.Logs path) →
      d.LogsTo path ((life.store path d).world.disk.run life.cut) :=
    fun hopen hlogs => (h.store_logsTo hne hmoved hopen hretention).trans (.of_run hlogs)
  have hreached := fun hopen => (h.reached hne hmoved hopen).accounted
  cases hstops : life.stops with
  | opening =>
    rw [Life.effects, hstops] at hcut
    rw [Life.step, Life.reached, hstops]
    exact .of_run (hcut.logs fun e he => (fileSinkOpen_clearing hne life.os life.sink e he).logs)
  | inCall calls c =>
    have hopen := h.opened.resolve_left (fun hopening => by rw [hstops] at hopening; cases hopening)
    rw [Life.effects, hstops] at hcut
    rw [Life.step, Life.reached, hstops]
    exact hlater hopen (hcut.logs ((hreached hopen).call_logs hretention c))
  | closing calls answer =>
    have hopen := h.opened.resolve_left (fun hopening => by rw [hstops] at hopening; cases hopening)
    rw [Life.effects, hstops] at hcut
    rw [Life.step, Life.reached, hstops]
    refine hlater hopen (hcut.logs fun e he => ?_)
    exact ((opsClose_within (hreached hopen).ready.toOpen answer).quiet e he).logs

/-- The disks differ in the renames before the life, the sinks not at all. -/
structure Alike (before : List (Bytes × Bytes)) (s t : Store) : Prop where
  sink : t.world.sink = s.world.sink
  disk : Disk.Since before s.world.disk t.world.disk

/-- No call looks at the disk, so what was renamed before the life changes nothing in it. -/
theorem Alike.effects {before : List (Bytes × Bytes)} {s t : Store} (h : Alike before s t) (c : SinkCall) :
    c.effects t = c.effects s := by
  cases c <;> simp only [SinkCall.effects, h.sink]

theorem Alike.step {before : List (Bytes × Bytes)} {s t : Store} (h : Alike before s t) (c : SinkCall) :
    Alike before (s.step c) (t.step c) := by
  refine ⟨?_, ?_⟩
  · cases c <;> simp only [Store.step, World.after, h.sink]
  · rw [Store.step_disk, Store.step_disk, h.effects]
    exact h.disk.run _

theorem alike_run (path : Bytes) (life : Life) (d : Disk) (calls : List SinkCall) :
    Alike d.moved (Machine.run Store.step (.opened life.os life.sink path life.settings d) calls)
      (Machine.run Store.step (.opened life.os life.sink path life.settings { d with moved := [] }) calls) :=
  @Machine.run_relates _ _ Store.step _ Store.step (Alike d.moved) (fun _ _ c h => h.step c)
    (.opened life.os life.sink path life.settings d)
    (.opened life.os life.sink path life.settings { d with moved := [] }) ⟨rfl, d.since_start.run _⟩ calls

theorem effects_start (path : Bytes) (life : Life) (d : Disk) :
    life.effects path { d with moved := [] } = life.effects path d := by
  have halike := alike_run path life d life.stops.calls
  obtain ⟨os, sink, settings, stops, cut⟩ := life
  cases stops with
  | opening => rfl
  | inCall calls c => exact halike.effects c
  | closing calls answer => exact congrArg (fun sink => (fileSinkClose answer sink).2) halike.sink

theorem Lived.start (h : life.Lived path d) : life.Lived path { d with moved := [] } := by
  refine ⟨h.opened, Machine.along_iff.2 fun before c after heq => ?_, h.count, ?_⟩
  · have hok := Machine.along_iff.1 h.accepted before c after heq
    have hsink := (alike_run path life d before).sink
    cases c with
    | write os payload => exact (congrArg (fun sink => (fileSinkWrite os sink payload).status) hsink).trans hok
    | flush answer => exact (congrArg (fun sink => (fileSinkFlush answer sink).status) hsink).trans hok
  · rw [effects_start]
    exact h.cut

theorem step_start (path : Bytes) (life : Life) (d : Disk) :
    Disk.Since d.moved (life.step path d) (life.step path { d with moved := [] }) := by
  have hdisk := (alike_run path life d life.stops.calls).disk
  obtain ⟨os, sink, settings, stops, cut⟩ := life
  cases stops with
  | opening => exact d.since_start.run cut
  | inCall calls c => exact hdisk.run cut
  | closing calls answer => exact hdisk.run cut

theorem Lived.logsTo (h : life.Lived path d) (hne : path ≠ []) (hretention : life.settings.retentionFiles = 0) :
    d.LogsTo path (life.step path d) := by
  obtain ⟨es, hes, hstep⟩ := h.start.first_logsTo hne rfl hretention
  have hsince := step_start path life d
  rw [hstep] at hsince
  exact ⟨es, hes, hsince.unique (d.since_start.run es)⟩

theorem Lived.leaves (h : life.Lived path d) (hne : path ≠ []) : life.Leaves path d (life.step path d) := by
  have hstart := step_start path life d
  obtain ⟨hsurvives, hdurable⟩ := h.start.leaves_first hne rfl
  refine ⟨⟨_, hstart.moved.symm⟩, ?_, ?_⟩
  · rw [hstart.eq]
    exact hsurvives
  · rw [hstart.stream, Disk.stream, List.append_assoc]
    exact (List.prefix_append_right_inj _).2 hdurable

theorem Leaves.stream (h : life.Leaves path d d') :
    ∃ octets, d'.stream path = d.stream path ++ octets ∧ (life.durable path).flatten <+: octets ∧
      octets <+: life.submitted.flatten := by
  obtain ⟨rest, hrest⟩ := h.durable
  refine ⟨(life.durable path).flatten ++ rest, ?_, List.prefix_append _ _, ?_⟩
  · rw [← hrest, List.append_assoc]
  obtain ⟨log, hrecords, hmoved, hactive⟩ := h.survives.log
  have hsince := (Disk.since_since h.moved).stream path
  have hbound : (d.since d').stream path <+: d.contents path ++ life.submitted.flatten := by
    rw [Disk.stream, hmoved, ← List.flatten_cons, ← hrecords, flatten_records]
    exact (List.prefix_append_right_inj _).2 hactive
  rw [hsince, Disk.stream, List.append_assoc, List.append_assoc] at hrest
  rw [← List.append_cancel_left hrest] at hbound
  exact (List.prefix_append_right_inj _).1 hbound

theorem lives_leave (hne : path ≠ []) {lives : List Life}
    (h : Machine.Along (Life.step path) (fun d life => life.Lived path d) d lives) :
    Machine.Along (Life.step path) (fun d life => life.Leaves path d (life.step path d)) d lives ∧
      ∃ survived : List Bytes,
        List.Forall₂ (fun life octets => (Life.durable path life).flatten <+: octets ∧
          octets <+: life.submitted.flatten) lives survived ∧
        (Machine.run (Life.step path) d lives).stream path = d.stream path ++ survived.flatten := by
  induction lives generalizing d with
  | nil => exact ⟨trivial, [], .nil, (List.append_nil _).symm⟩
  | cons life lives ih =>
    have hleaves := h.1.leaves hne
    obtain ⟨hrest, survived, hsurvived, hstream⟩ := ih h.2
    obtain ⟨octets, hoctets, hbounds⟩ := hleaves.stream
    refine ⟨⟨hleaves, hrest⟩, octets :: survived, .cons hbounds hsurvived, ?_⟩
    rw [Machine.run_cons, hstream, hoctets, List.flatten_cons, List.append_assoc]

theorem lives_logsTo (hne : path ≠ []) {lives : List Life}
    (h : Machine.Along (Life.step path) (fun d life => life.Lived path d) d lives)
    (hretention : ∀ life ∈ lives, life.settings.retentionFiles = 0) :
    d.LogsTo path (Machine.run (Life.step path) d lives) := by
  induction lives generalizing d with
  | nil => exact .refl
  | cons life lives ih =>
    rw [List.forall_mem_cons] at hretention
    exact (h.1.logsTo hne hretention.1).trans (ih h.2 hretention.2)

end Life

/-- However often the program stops at some moment and is started again, each life leaves the files it
wrote in order and complete up to a last part that was not flushed. So all that was ever moved away and
then the active file is what was there at first and then of each life a first part of its payloads, the
durable ones included; and that is what is in the files, if retention is off and no two renames, of the same
life or of different ones, have the same target. -/
theorem crash_consistent {path : Bytes} (hne : path ≠ []) (d : Disk) (lives : List Life)
    (h : Machine.Along (Life.step path) (fun d life => life.Lived path d) d lives) :
    Machine.Along (Life.step path) (fun d life => life.Leaves path d (life.step path d)) d lives ∧
      ∃ survived : List Bytes,
        List.Forall₂ (fun life octets => (Life.durable path life).flatten <+: octets ∧
          octets <+: life.submitted.flatten) lives survived ∧
        (Machine.run (Life.step path) d lives).stream path = d.stream path ++ survived.flatten ∧
        (d.Keeps path → (∀ life ∈ lives, life.settings.retentionFiles = 0) →
          ((Machine.run (Life.step path) d lives).moved.map Prod.fst).Nodup →
          (Machine.run (Life.step path) d lives).log path = d.log path ++ survived.flatten) := by
  obtain ⟨hleaves, survived, hsurvived, hstream⟩ := Life.lives_leave hne h
  refine ⟨hleaves, survived, hsurvived, hstream, fun hkeeps hretention hnodup => ?_⟩
  have hlogs := Life.lives_logsTo hne h hretention
  rw [hlogs.log_eq hkeeps hnodup, hkeeps.log_eq, hstream]

/-- Stopped in the middle of a flush, and then started again on io_uring, which rotates once and is closed. -/
def stoppedLives : List Life :=
  [⟨steadyOpen 0, .zero, ⟨3, 0, 0⟩, .inCall [.write (steadyOs 1 2) (ascii "ab")] (.flush .ok),
      [.append (ascii "log") (ascii "a")]⟩,
    ⟨steadyOpen 5, { FileSink.zero with requestedBackend := 2 }, ⟨3, 0, 0⟩,
      .closing [.write (steadyOs 6 2) (ascii "cd"), .write (steadyOs 7 2) (ascii "ef")] .ok,
      [.closeFd 5, .closeFd 4]⟩]

theorem crash_consistent_flush :
    ∃ survived : List Bytes,
      List.Forall₂ (fun life octets => (Life.durable (ascii "log") life).flatten <+: octets ∧
        octets <+: life.submitted.flatten) stoppedLives survived ∧
      (Machine.run (Life.step (ascii "log")) emptyDisk stoppedLives).stream (ascii "log") = survived.flatten ∧
      (Machine.run (Life.step (ascii "log")) emptyDisk stoppedLives).log (ascii "log") = survived.flatten := by
  have hfirst : Cut [.append (ascii "log") (ascii "a")] [.append (ascii "log") (ascii "ab")] := .torn [] (by decide)
  have hsecond : Cut [.closeFd 5, .closeFd 4] [.closeFd 5, .closeFd 4] := .refl _
  obtain ⟨-, survived, hsurvived, hstream, hlog⟩ :=
    crash_consistent (show ascii "log" ≠ [] by decide) emptyDisk stoppedLives
      ⟨⟨.inr (by decide), ⟨by decide, trivial⟩, by decide, hfirst⟩,
        ⟨.inr (by decide), ⟨by decide, by decide, trivial⟩, by decide, hsecond⟩, trivial⟩
  exact ⟨survived, hsurvived, hstream, hlog (List.forall_mem_nil _) (by decide) (by decide)⟩

end IoJournal
