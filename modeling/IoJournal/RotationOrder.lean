import IoJournal.CrashConsistency
import IoJournal.RotationCollision

/-!
# IoJournal.RotationOrder

The rotated files in the order of their names.

A name has the time of the rotation and a number that counts the rotations, both in fields of fixed
width, so later names are larger, octet by octet (`rotationText_lt`), as long as the clock is not set
back, its year has four digits and the number has six. Who lists the directory by name and then reads
the active file therefore reads the log in the order in which it was written (`listing_in_order`).
-/

namespace IoJournal

open Wire Posix

/-! ## Names -/

/-- The part of a name after the path: `.YYYYMMDDTHHMMSSZ.NNNNNN`. -/
def rotationFields : List (Nat × Bytes) :=
  [(4, []), (2, []), (2, ascii "T"), (2, []), (2, []), (2, ascii "Z."), (6, [])]

/-- A second of the years 0000 to 9999. -/
def FourDigitYear (now : Int) : Prop := 0 ≤ (Civil.ofUnix now).year ∧ (Civil.ofUnix now).year ≤ 9999

instance (now : Int) : Decidable (FourDigitYear now) := inferInstanceAs (Decidable (_ ∧ _))

section Names

variable {path : Bytes} {s t : Int} {tm tm' : Tm} {m n : Nat}

theorem rotationText_eq_wideFields (htm : gmtimeR s = some tm) (hs : FourDigitYear s) :
    rotationText path tm n = path ++ (ascii "." ++ wideFields rotationFields ((Civil.ofUnix s).stamp ++ [n])) := by
  have hmonth : (Civil.ofUnix s).month - 1 + 1 = (Civil.ofUnix s).month := by
    have := (Civil.ofUnix_valid s).month_pos
    omega
  have hyear : printfD 4 ((Civil.ofUnix s).year - 1900 + 1900) = padded 4 (Civil.ofUnix s).year.toNat := by
    have := hs.1
    rw [printfD, if_neg (by omega)]
    congr 1
    omega
  rw [(gmtimeR_spec htm).1]
  simp only [rotationText, hmonth, hyear, rotationFields, Civil.stamp, List.cons_append, List.nil_append, wideFields,
    List.append_assoc, List.append_nil]

theorem stamp_fits (hs : FourDigitYear s) (hn : n < 1000000) :
    List.Forall₂ (fun (f : Nat × Bytes) k => 0 < f.1 ∧ k < 10 ^ f.1) rotationFields
      ((Civil.ofUnix s).stamp ++ [n]) := by
  have hvalid := Civil.ofUnix_valid s
  have := hs.2
  have := hvalid.day_le_thirtyOne
  have := hvalid.month_le
  have := hvalid.hour_lt
  have := hvalid.minute_lt
  have := hvalid.second_lt
  simp only [rotationFields, Civil.stamp, List.cons_append, List.nil_append, List.forall₂_cons, List.Forall₂.nil,
    and_true]
  omega

theorem rotationText_lt (hs : gmtimeR s = some tm) (ht : gmtimeR t = some tm') (hs4 : FourDigitYear s)
    (ht4 : FourDigitYear t) (hst : s ≤ t) (hmn : m < n) (hn : n < 1000000) :
    rotationText path tm m < rotationText path tm' n := by
  rw [rotationText_eq_wideFields hs hs4, rotationText_eq_wideFields ht ht4, append_lt_append_iff rfl,
    append_lt_append_iff rfl, wideFields_lt_iff (stamp_fits hs4 (by omega)) (stamp_fits ht4 hn),
    append_lt_append_iff (show (Civil.ofUnix s).stamp.length = (Civil.ofUnix t).stamp.length from rfl)]
  refine .inr ⟨rfl, .inr ⟨rfl, ?_⟩⟩
  rcases Int.lt_or_eq_of_le hst with hlt | rfl
  · left
    rw [(Civil.ofUnix_valid s).stamp_lt_iff (Civil.ofUnix_valid t) hs4.1 ht4.1, Civil.toUnix_ofUnix,
      Civil.toUnix_ofUnix]
    exact hlt
  · right
    refine ⟨rfl, ?_⟩
    rw [List.cons_lt_cons_iff]
    exact .inl hmn

end Names

/-! ## Runs -/

/-- The time that a rotation in the call would put into its name. -/
def SinkCall.clock : SinkCall → List Int
  | .write os _ => [os.nameNow]
  | .flush _ => []

/-- Retention can remove every file. -/
def SinkCall.Unlinks : SinkCall → Prop
  | .write os _ => ∀ p, os.unlink p = true
  | .flush _ => True

/-- The names of the rotated files increase, they are of the given times, and in the directory there is
no file of that kind but those in the list. -/
structure Ordered (path : Bytes) (times : List Int) (w : World) : Prop where
  increasing : w.names.Pairwise (· < ·)
  dated : ∀ p ∈ w.names, ∃ s ∈ times, ∃ tm n, gmtimeR s = some tm ∧ p = rotationText path tm n ∧ n ≤ w.names.length
  only : ∀ p, path ++ ascii "." <+: p → (w.disk.files p).isSome = true → p ∈ w.sink.rotatedPaths

section Ordered

variable {path : Bytes} {times : List Int} {w w' : World}

theorem Ordered.later (h : Ordered path times w) (more : List Int) : Ordered path (times ++ more) w := by
  refine ⟨h.increasing, fun p hp => ?_, h.only⟩
  obtain ⟨s, hs, htext⟩ := h.dated p hp
  exact ⟨s, List.mem_append_left _ hs, htext⟩

theorem Ordered.congr (h : Ordered path times w) (hmoved : w'.disk.moved = w.disk.moved)
    (hothers : ∀ p, p ≠ path → w'.disk.files p = w.disk.files p)
    (hpaths : w'.sink.rotatedPaths = w.sink.rotatedPaths) : Ordered path times w' := by
  have hnames : w'.names = w.names := by rw [World.names, hmoved]; rfl
  refine ⟨?_, ?_, fun p hp hsome => ?_⟩
  · rw [hnames]
    exact h.increasing
  · rw [hnames]
    exact h.dated
  · rw [hothers p (ne_of_dotted hp)] at hsome
    rw [hpaths]
    exact h.only p hp hsome

theorem Ordered.wrote {payload : Bytes} {status : Status} (h : Ordered path times w)
    (hw : Wrote path payload status w w') : Ordered path times w' := by
  refine h.congr hw.moved hw.others ?_
  rw [hw.handles]
  split <;> rfl

theorem Ordered.rotated (h : Ordered path times w) (hready : w.Ready path) (hkept : Kept path w) {os : RotateOs}
    {target : Bytes} {out : Out FileSink} (hrotated : Rotated path target os w out) (hunlink : ∀ p, os.unlink p = true)
    (hroom : w.names.length + 1 < 1000000) (htimes : ∀ s ∈ times, s ≤ os.nameNow ∧ FourDigitYear s)
    (hnow : FourDigitYear os.nameNow) : Ordered path (times ++ [os.nameNow]) (w.after out) := by
  obtain ⟨tm, htm, htarget⟩ := fileSinkMakeRotationPath_text hready.isOpen.path hrotated.name
  rw [hkept.sequence, Nat.mod_eq_of_lt (by unfold wordSize; omega)] at htarget
  have hnames := hrotated.moves.names
  refine ⟨?_, fun p hp => ?_, fun p hp hsome => ?_⟩
  · rw [hnames, List.pairwise_append]
    refine ⟨h.increasing, List.pairwise_singleton _ _, fun p hp q hq => ?_⟩
    obtain ⟨s, hs, tm', n, htm', rfl, hn⟩ := h.dated p hp
    rw [List.mem_singleton.1 hq, htarget]
    exact rotationText_lt htm' htm (htimes s hs).2 hnow (htimes s hs).1 (by omega) hroom
  · rw [hnames] at hp ⊢
    rw [List.length_append, List.length_singleton]
    rcases List.mem_append.1 hp with hold | hnew
    · obtain ⟨s, hs, tm', n, htm', htext, hn⟩ := h.dated p hold
      exact ⟨s, List.mem_append_left _ hs, tm', n, htm', htext, by omega⟩
    · exact ⟨_, List.mem_append_right _ List.mem_cons_self, tm, _, htm, (List.mem_singleton.1 hnew).trans htarget,
        Nat.le_refl _⟩
  · rw [hrotated.moves.files p (ne_of_dotted hp)] at hsome
    rw [hkept.mem_turned htarget hrotated.turned]
    split at hsome
    · cases hsome
    · rename_i hgone
      refine ⟨?_, fun hdropped => hgone ⟨hdropped, hunlink p⟩⟩
      split at hsome
      · rename_i heq
        exact List.mem_append_right _ (List.mem_singleton.2 heq)
      · exact List.mem_append_left _ (h.only p hp hsome)

end Ordered

section Run

variable {path : Bytes} {retention : Nat} {octets : List Bytes} {times : List Int} {s : Store} {c : SinkCall}

theorem Store.step_names (h : s.world.Ready path) (hok : s.CallOk c) : s.world.names <+: (s.step c).world.names := by
  have hsame : ∀ w w' : World, w'.disk.moved = w.disk.moved → w.names = w'.names := by
    intro w w' hmoved
    rw [World.names, World.names, hmoved]
  cases c with
  | flush answer =>
    obtain ⟨happ, -⟩ := (opsFlush_appends h.toOpen answer).1 hok
    exact ⟨[], (List.append_nil _).trans (hsame _ _ happ.moved)⟩
  | write os payload =>
    have hstatus : (fileSinkWrite os s.world.sink payload).status = .ok := hok
    have hne : payload ≠ [] := Store.WriteOk.nonempty (show s.WriteOk ⟨os, payload⟩ from hok)
    cases fileSinkWrite_result h.toOpen os hne with
    | kept due wrote => exact ⟨[], (List.append_nil _).trans (hsame _ _ wrote.moved)⟩
    | failed due status => exact absurd hstatus status
    | rotated due ok rotate wrote =>
      obtain ⟨target, hrotated⟩ := rotate.of_ok ok
      have hnames := hrotated.moves.names.symm.trans (hsame _ _ wrote.moved)
      exact ⟨[target], hnames⟩

theorem Ordered.step (h : Ordered path times s.world)
    (haccounted : Accounted path retention octets s.world.names.length s.world) (hok : s.CallOk c)
    (hunlink : c.Unlinks) (hroom : (s.step c).world.names.length < 1000000)
    (htimes : ∀ now ∈ c.clock, (∀ s ∈ times, s ≤ now ∧ FourDigitYear s) ∧ FourDigitYear now) :
    Ordered path (times ++ c.clock) (s.step c).world := by
  have hready := haccounted.ready
  cases c with
  | flush answer =>
    obtain ⟨happ, -⟩ := (opsFlush_appends hready.toOpen answer).1 hok
    exact (h.congr happ.moved happ.others (by rw [happ.handles])).later []
  | write os payload =>
    have hstatus : (fileSinkWrite os s.world.sink payload).status = .ok := hok
    have hne : payload ≠ [] := Store.WriteOk.nonempty (show s.WriteOk ⟨os, payload⟩ from hok)
    obtain ⟨htimes, hnow⟩ := htimes os.nameNow List.mem_cons_self
    cases fileSinkWrite_result hready.toOpen os hne with
    | kept due wrote => exact (h.wrote wrote).later [os.nameNow]
    | failed due status => exact absurd hstatus status
    | rotated due ok rotate wrote =>
      obtain ⟨target, hrotated⟩ := rotate.of_ok ok
      have hnames : (s.step (.write os payload)).world.names = s.world.names ++ [target] := by
        rw [← hrotated.moves.names, World.names, World.names]
        exact congrArg (List.map Prod.fst) wrote.moved
      rw [hnames, List.length_append, List.length_singleton] at hroom
      exact (h.rotated hready haccounted.kept hrotated hunlink hroom htimes hnow).wrote wrote

/-- What holds after every call of a run. -/
structure InOrder (path : Bytes) (retention : Nat) (before : Bytes) (calls : List SinkCall) (s : Store) : Prop where
  accounted : Accounted path retention (before :: calls.flatMap SinkCall.payloads) s.world.names.length s.world
  ordered : Ordered path (calls.flatMap SinkCall.clock) s.world

variable {before : Bytes} {calls : List SinkCall}

theorem InOrder.step (h : InOrder path retention before calls s) (hok : s.CallOk c) (hunlink : c.Unlinks)
    (hroom : (s.step c).world.names.length < 1000000)
    (hclock : ((calls ++ [c]).flatMap SinkCall.clock).Pairwise (· ≤ ·))
    (hyears : ∀ now ∈ (calls ++ [c]).flatMap SinkCall.clock, FourDigitYear now) :
    InOrder path retention before (calls ++ [c]) (s.step c) := by
  have hle := (s.step_names h.accounted.ready hok).length_le
  have hpayloads : (calls ++ [c]).flatMap SinkCall.payloads = calls.flatMap SinkCall.payloads ++ c.payloads := by
    rw [List.flatMap_append, List.flatMap_singleton]
  have htimes : (calls ++ [c]).flatMap SinkCall.clock = calls.flatMap SinkCall.clock ++ c.clock := by
    rw [List.flatMap_append, List.flatMap_singleton]
  have haccounted := h.accounted.step (by unfold wordSize; omega) hok
  rw [htimes] at hclock hyears
  refine ⟨?_, ?_⟩
  · rw [hpayloads]
    exact ⟨haccounted.ready, haccounted.holds, haccounted.kept, haccounted.retention, Nat.le_refl _⟩
  · rw [htimes]
    refine h.ordered.step h.accounted hok hunlink hroom fun now hnow => ⟨fun t ht => ⟨?_, ?_⟩, ?_⟩
    · exact (List.pairwise_append.1 hclock).2.2 t ht now hnow
    · exact hyears t (List.mem_append_left _ ht)
    · exact hyears now (List.mem_append_right _ hnow)

theorem InOrder.run {os : OpenOs} {sink : FileSink} (hne : path ≠ [])
    (hopen : (fileSinkOpen os sink (some path)).status = .ok) (settings : RotationSettings) {d : Disk}
    (hdir : ∀ p, path ++ ascii "." <+: p → d.files p = none) (hmoved : d.moved = [])
    (hcalls : Machine.Along Store.step (fun s c => s.CallOk c ∧ c.Unlinks) (.opened os sink path settings d) calls)
    (hclock : (calls.flatMap SinkCall.clock).Pairwise (· ≤ ·))
    (hyears : ∀ now ∈ calls.flatMap SinkCall.clock, FourDigitYear now)
    (hroom : (Machine.run Store.step (.opened os sink path settings d) calls).world.names.length < 1000000) :
    InOrder path settings.retentionFiles (d.contents path) calls
      (Machine.run Store.step (.opened os sink path settings d) calls) := by
  have hrun := Machine.Along.induction
    (motive := fun calls s => s.world.Ready path ∧ ((calls.flatMap SinkCall.clock).Pairwise (· ≤ ·) →
      (∀ now ∈ calls.flatMap SinkCall.clock, FourDigitYear now) → s.world.names.length < 1000000 →
        InOrder path settings.retentionFiles (d.contents path) calls s)) ?_ ?_ hcalls
  · exact hrun.2 hclock hyears hroom
  · refine ⟨Store.opened_ready hne hopen settings d, fun _ _ _ => ?_⟩
    have haccounted := (Reached.opened hne hopen settings hmoved).accounted
    obtain ⟨-, hmoved'⟩ := Store.opened_kept hne hopen settings hmoved
    have hnames : (Store.opened os sink path settings d).world.names = [] := by
      rw [World.names, hmoved']
      rfl
    refine ⟨⟨haccounted.ready, haccounted.holds, haccounted.kept, haccounted.retention, Nat.le_refl _⟩, ?_, ?_, ?_⟩
    · rw [hnames]
      exact List.Pairwise.nil
    · rw [hnames]
      exact List.forall_mem_nil _
    · intro p hp hsome
      rcases fileSinkOpen_result os sink hne d with ⟨-, hopened, -⟩ | ⟨hbad, -⟩
      · have hdisk : (Store.opened os sink path settings d).world.disk = d.apply (.create path) := hopened.disk
        rw [hdisk, Disk.apply, Disk.set_files_other _ (ne_of_dotted hp), hdir p hp] at hsome
        cases hsome
      · exact absurd hopen hbad
  · intro calls c hc ih
    obtain ⟨hready, ih⟩ := ih
    refine ⟨(plain_step hready hc.1).1, fun hclock hyears hroom => ?_⟩
    have hle := (Store.step_names hready hc.1).length_le
    have hclock' := hclock
    rw [List.flatMap_append] at hclock'
    have hyears' : ∀ now ∈ calls.flatMap SinkCall.clock, FourDigitYear now := by
      intro now hnow
      refine hyears now ?_
      rw [List.flatMap_append]
      exact List.mem_append_left _ hnow
    exact (ih (List.pairwise_append.1 hclock').1 hyears' (by omega)).step hc.1 hc.2 hroom hclock hyears

end Run

/-! ## Reading the directory -/

/-- The rotated files of `path` in a directory with their contents, by name. -/
structure ListsByName (path : Bytes) (d : Disk) (listing : List (Bytes × Bytes)) : Prop where
  mem_iff : ∀ e, e ∈ listing ↔ path ++ ascii "." <+: e.1 ∧ d.files e.1 = some e.2
  sorted : listing.Pairwise (·.1 < ·.1)

theorem ListsByName.unique {path : Bytes} {d : Disk} {listing listing' : List (Bytes × Bytes)}
    (h : ListsByName path d listing) (h' : ListsByName path d listing') : listing = listing' := by
  have hnodup : ∀ l : List (Bytes × Bytes), l.Pairwise (·.1 < ·.1) → l.Nodup := by
    intro l hl
    refine hl.imp fun {a b} hlt heq => ?_
    rw [heq] at hlt
    exact List.lt_irrefl _ hlt
  refine List.Perm.eq_of_pairwise (fun a b _ _ hab hba => ?_) h.sorted h'.sorted ?_
  · exact absurd (List.lt_trans hab hba) (List.lt_irrefl _)
  · exact (List.perm_ext_iff_of_nodup (hnodup _ h.sorted) (hnodup _ h'.sorted)).2 fun e =>
      (h.mem_iff e).trans (h'.mem_iff e).symm

theorem InOrder.listsByName {path : Bytes} {retention : Nat} {before : Bytes} {calls : List SinkCall} {s : Store}
    (h : InOrder path retention before calls s) :
    ListsByName path s.world.disk (s.world.disk.moved.drop (surplus retention s.world.disk.moved.length)) := by
  have hkept := h.accounted.kept
  have hpaths : s.world.sink.rotatedPaths =
      (s.world.disk.moved.drop (surplus retention s.world.disk.moved.length)).map Prod.fst := by
    rw [hkept.rotatedPaths, h.accounted.retention, World.names, List.length_map, List.map_drop]
  refine ⟨fun e => ⟨fun he => ?_, ?_⟩, ?_⟩
  · have hname := List.mem_map_of_mem (f := Prod.fst) he
    rw [← hpaths] at hname
    refine ⟨?_, hkept.present e (List.mem_of_mem_drop he) hname⟩
    obtain ⟨s, -, tm, n, -, htext, -⟩ := h.ordered.dated e.1 (hkept.mem_names hname)
    rw [htext]
    exact dotted_rotationText path tm n
  · rintro ⟨hdotted, hfile⟩
    have hname := h.ordered.only e.1 hdotted (by rw [hfile]; rfl)
    rw [hpaths] at hname
    obtain ⟨e', he', heq⟩ := List.mem_map.1 hname
    have hcontents := hkept.present e' (List.mem_of_mem_drop he') (by rw [hpaths]; exact List.mem_map_of_mem he')
    rw [heq, hfile, Option.some_inj] at hcontents
    rw [show e = e' from Prod.ext heq.symm hcontents]
    exact he'
  · exact (List.pairwise_map.1 h.ordered.increasing).sublist (List.drop_sublist _ _)

/-- A reader of the files of a closed sink. -/
structure ReadsInOrder (path : Bytes) (retention : Nat) (records : List Bytes) (d : Disk) : Prop where
  listing : ∃ listing, (∀ other, ListsByName path d other ↔ other = listing) ∧
    ∃ log : SegmentedLog Bytes, log.records = records ∧ d.files path = some log.active.flatten ∧
      listing.map Prod.snd = (log.closed.map List.flatten).drop (surplus retention log.closed.length)

theorem ReadsInOrder.suffix {path : Bytes} {retention : Nat} {records : List Bytes} {d : Disk}
    (h : ReadsInOrder path retention records d) {listing : List (Bytes × Bytes)}
    (hlisting : ListsByName path d listing) : (listing.map Prod.snd).flatten ++ d.contents path <:+ records.flatten := by
  obtain ⟨listing', hunique, log, rfl, hfile, hcontents⟩ := h.listing
  rw [(hunique listing).1 hlisting, hcontents, Disk.contents, hfile, Option.getD_some, flatten_records]
  exact List.suffix_append_self_iff.2 (List.drop_suffix _ _).flatten

theorem InOrder.close {path : Bytes} {retention : Nat} {before : Bytes} {calls : List SinkCall} {s : Store}
    (h : InOrder path retention before calls s) :
    ReadsInOrder path retention (before :: calls.flatMap SinkCall.payloads)
      (s.world.disk.run (fileSinkClose .ok s.world.sink).2) := by
  obtain ⟨log, hholds, hrecords⟩ := h.accounted.holds
  have hactive := hholds.active
  have hmoved := hholds.moved
  simp only [List.flatMap_id] at hactive hmoved
  obtain ⟨-, hothers, -⟩ := h.accounted.ready.close .ok
  have hlists := h.listsByName
  have hclosed : ListsByName path (s.world.disk.run (fileSinkClose .ok s.world.sink).2)
      (s.world.disk.moved.drop (surplus retention s.world.disk.moved.length)) := by
    refine ⟨fun e => (hlists.mem_iff e).trans (and_congr_right fun hdotted => ?_), hlists.sorted⟩
    rw [hothers e.1 (ne_of_dotted hdotted)]
  have hlength : s.world.disk.moved.length = log.closed.length := by
    have hlength := congrArg List.length hmoved
    rwa [List.length_map, List.length_map] at hlength
  refine ⟨_, fun other => ⟨fun hother => hother.unique hclosed, fun heq => heq ▸ hclosed⟩, log, hrecords, ?_, ?_⟩
  · rw [h.accounted.ready.close_file .ok, ← hactive]
    rfl
  · rw [List.map_drop, hmoved, hlength]

/-- After a run in which every call returns `ok`, every old file can be removed and the clock is not set
back, the sink is closed. A listing of the directory by name then has the rotated files in the order of
their rotation, so that with the active file after them they are a last part of the log. -/
theorem listing_in_order {path : Bytes} (hne : path ≠ []) {os : OpenOs} {sink : FileSink}
    (hopen : (fileSinkOpen os sink (some path)).status = .ok) (settings : RotationSettings) {d : Disk}
    (hdir : ∀ p, path ++ ascii "." <+: p → d.files p = none) (hmoved : d.moved = []) {calls : List SinkCall}
    (hcalls : Machine.Along Store.step (fun s c => s.CallOk c ∧ c.Unlinks) (.opened os sink path settings d) calls)
    (hclock : (calls.flatMap SinkCall.clock).Pairwise (· ≤ ·))
    (hyears : ∀ now ∈ calls.flatMap SinkCall.clock, FourDigitYear now)
    {w : World} (hw : w = (Machine.run Store.step (.opened os sink path settings d) calls).world)
    (hroom : w.names.length < 1000000) :
    ReadsInOrder path settings.retentionFiles (d.contents path :: calls.flatMap SinkCall.payloads)
        (w.disk.run (fileSinkClose .ok w.sink).2) ∧
      ∀ listing, ListsByName path (w.disk.run (fileSinkClose .ok w.sink).2) listing →
        (listing.map Prod.snd).flatten ++ (w.disk.run (fileSinkClose .ok w.sink).2).contents path <:+
          (d.contents path :: calls.flatMap SinkCall.payloads).flatten := by
  subst hw
  have hreads := (InOrder.run hne hopen settings hdir hmoved hcalls hclock hyears hroom).close
  exact ⟨hreads, fun listing hlisting => hreads.suffix hlisting⟩

/-- Three records in files of three octets, a second apart and all kept. -/
def writesApart : List SinkCall :=
  [.write (steadyOs 1 2) (ascii "ab"), .write (steadyOs 2 2) (ascii "cd"), .flush .ok,
    .write (steadyOs 3 2) (ascii "ef")]

def worldApart : World :=
  (Machine.run Store.step (.opened (steadyOpen 0) .zero (ascii "log") ⟨3, 0, 0⟩ emptyDisk) writesApart).world

theorem listing_in_order_three :
    ReadsInOrder (ascii "log") 0 [[], ascii "ab", ascii "cd", ascii "ef"]
      (worldApart.disk.run (fileSinkClose .ok worldApart.sink).2) := by
  have hunlinks : ∀ now len payload, (SinkCall.write (steadyOs now len) payload).Unlinks := fun _ _ _ _ => rfl
  have hcalls : Machine.Along Store.step (fun s c => s.CallOk c ∧ c.Unlinks)
      (.opened (steadyOpen 0) .zero (ascii "log") ⟨3, 0, 0⟩ emptyDisk) writesApart := by
    refine ⟨⟨?_, hunlinks _ _ _⟩, ⟨?_, hunlinks _ _ _⟩, ⟨?_, trivial⟩, ⟨?_, hunlinks _ _ _⟩, trivial⟩
    all_goals decide
  exact (listing_in_order (by decide) (by decide) ⟨3, 0, 0⟩ (fun _ _ => rfl) rfl hcalls (by decide) (by decide)
    (show worldApart = _ from rfl) (by decide)).1

end IoJournal
