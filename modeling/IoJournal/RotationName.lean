import IoJournal.FileSink

/-!
# IoJournal.RotationName

The names that `ij_file_sink_make_rotation_path` builds.

A name tells its sequence number apart whatever the time (`rotationText_sequence`), and its second
as well when both times are ones that `gmtime_r` can break down (`rotationText_inj`). A path of
less than 4051 octets always leaves room for the rest of the name (`fits_of_length`).
-/

namespace IoJournal

open Wire

theorem padded_inj {w m n : Nat} (h : padded w m = padded w n) : m = n := by
  rw [← decimal_padded w m, h, decimal_padded]

theorem isDigit_minus : isDigit 0x2D = false := by decide

theorem printfD_inj {w : Nat} {m n : Int} (h : printfD w m = printfD w n) : m = n := by
  have hminus : ∀ {w k : Nat} {t : Bytes}, 0x2D :: t ≠ padded w k := by
    intro w k t heq
    have := padded_isDigit w k 0x2D (heq ▸ List.mem_cons_self)
    rw [isDigit_minus] at this
    cases this
  unfold printfD at h
  split at h <;> split at h
  · have := padded_inj (List.cons.inj h).2
    omega
  · exact absurd h hminus
  · exact absurd h.symm hminus
  · have := padded_inj h
    omega

theorem digits_stop_inj {d d' r r' : Bytes} {x : UInt8} (hd : ∀ b ∈ d, isDigit b = true)
    (hd' : ∀ b ∈ d', isDigit b = true) (hx : isDigit x = false) (h : d ++ x :: r = d' ++ x :: r') :
    d = d' ∧ r = r' := by
  induction d generalizing d' with
  | nil =>
    cases d' with
    | nil => exact ⟨rfl, (List.cons.inj h).2⟩
    | cons b d' =>
      have := hd' b List.mem_cons_self
      rw [← (List.cons.inj h).1, hx] at this
      cases this
  | cons a d ih =>
    cases d' with
    | nil =>
      have := hd a List.mem_cons_self
      rw [(List.cons.inj h).1, hx] at this
      cases this
    | cons b d' =>
      obtain ⟨hab, hrest⟩ := List.cons.inj h
      obtain ⟨hdd, hrr⟩ := ih (fun c hc => hd c (List.mem_cons_of_mem _ hc))
        (fun c hc => hd' c (List.mem_cons_of_mem _ hc)) hrest
      exact ⟨by rw [hab, hdd], hrr⟩

/-- The part of the name before the last dot. -/
def rotationStem (path : Bytes) (tm : Tm) : Bytes :=
  path ++ ascii "." ++ printfD 4 (tm.tmYear + 1900) ++ padded 2 (tm.tmMon + 1) ++ padded 2 tm.tmMday ++ ascii "T" ++
    padded 2 tm.tmHour ++ padded 2 tm.tmMin ++ padded 2 tm.tmSec ++ ascii "Z"

theorem rotationText_eq (path : Bytes) (tm : Tm) (sequence : Nat) :
    rotationText path tm sequence = rotationStem path tm ++ 0x2E :: padded 6 sequence := by
  rw [rotationText, show ascii "Z." = ascii "Z" ++ [0x2E] from rfl]
  simp only [rotationStem, List.append_assoc, List.singleton_append]

theorem rotationText_stem {path path' : Bytes} {tm tm' : Tm} {m n : Nat}
    (h : rotationText path tm m = rotationText path' tm' n) : rotationStem path tm = rotationStem path' tm' ∧ m = n := by
  rw [rotationText_eq, rotationText_eq] at h
  have hreverse := congrArg List.reverse h
  simp only [List.reverse_append, List.reverse_cons, List.append_assoc, List.singleton_append] at hreverse
  have hdigits : ∀ k, ∀ b ∈ (padded 6 k).reverse, isDigit b = true :=
    fun k b hb => padded_isDigit 6 k b (List.mem_reverse.1 hb)
  obtain ⟨hseq, hstem⟩ := digits_stop_inj (hdigits m) (hdigits n) (by decide) hreverse
  exact ⟨List.reverse_injective hstem, padded_inj (List.reverse_injective hseq)⟩

theorem rotationText_sequence {path : Bytes} {tm tm' : Tm} {m n : Nat}
    (h : rotationText path tm m = rotationText path tm' n) : m = n := (rotationText_stem h).2

theorem gmtimeR_spec {now : Int} {tm : Tm} (h : gmtimeR now = some tm) :
    tm = ⟨(Civil.ofUnix now).year - 1900, (Civil.ofUnix now).month - 1, (Civil.ofUnix now).day,
      (Civil.ofUnix now).hour, (Civil.ofUnix now).minute, (Civil.ofUnix now).second⟩ ∧
    -2147481748 ≤ (Civil.ofUnix now).year ∧ (Civil.ofUnix now).year ≤ 2147485547 := by
  simp only [gmtimeR] at h
  split at h
  · cases h
    exact ⟨rfl, by omega⟩
  · cases h

theorem gmtimeR_inj {s t : Int} {tm : Tm} (hs : gmtimeR s = some tm) (ht : gmtimeR t = some tm) : s = t := by
  have heq := (gmtimeR_spec hs).1.symm.trans (gmtimeR_spec ht).1
  have hvs := Civil.ofUnix_valid s
  have hvt := Civil.ofUnix_valid t
  simp only [Tm.mk.injEq] at heq
  obtain ⟨hyear, hmonth, hday, hhour, hminute, hsecond⟩ := heq
  have hm : (Civil.ofUnix s).month = (Civil.ofUnix t).month := by
    have := hvs.month_pos
    have := hvt.month_pos
    omega
  apply Civil.ofUnix_inj
  rw [Civil.mk.injEq]
  exact ⟨by omega, hm, hday, hhour, hminute, hsecond⟩

/-- The lengths of the two-digit fields. -/
structure Tm.TwoDigits (tm : Tm) : Prop where
  month : (padded 2 (tm.tmMon + 1)).length = 2
  day : (padded 2 tm.tmMday).length = 2
  hour : (padded 2 tm.tmHour).length = 2
  minute : (padded 2 tm.tmMin).length = 2
  second : (padded 2 tm.tmSec).length = 2

theorem gmtimeR_twoDigits {now : Int} {tm : Tm} (h : gmtimeR now = some tm) : tm.TwoDigits := by
  have hv := Civil.ofUnix_valid now
  have hday := Civil.day_lt_hundred now
  have hmonth := hv.month_le
  have hhour := hv.hour_lt
  have hminute := hv.minute_lt
  have hsecond := hv.second_lt
  rw [(gmtimeR_spec h).1]
  constructor
  all_goals exact length_padded_of_lt (by decide) (show _ < 10 ^ 2 by simp only; omega)

theorem rotationText_inj {path : Bytes} {s t : Int} {tm tm' : Tm} (hs : gmtimeR s = some tm) (ht : gmtimeR t = some tm')
    {m n : Nat} (h : rotationText path tm m = rotationText path tm' n) : s = t ∧ m = n := by
  obtain ⟨hstem, hseq⟩ := rotationText_stem h
  have hl := gmtimeR_twoDigits hs
  have hl' := gmtimeR_twoDigits ht
  refine ⟨?_, hseq⟩
  -- from the right end, every field has a fixed length
  obtain ⟨hstem, -⟩ := List.append_inj' hstem rfl
  obtain ⟨hstem, hsec⟩ := List.append_inj' hstem (hl.second.trans hl'.second.symm)
  obtain ⟨hstem, hmin⟩ := List.append_inj' hstem (hl.minute.trans hl'.minute.symm)
  obtain ⟨hstem, hhour⟩ := List.append_inj' hstem (hl.hour.trans hl'.hour.symm)
  obtain ⟨hstem, -⟩ := List.append_inj' hstem rfl
  obtain ⟨hstem, hday⟩ := List.append_inj' hstem (hl.day.trans hl'.day.symm)
  obtain ⟨hstem, hmonth⟩ := List.append_inj' hstem (hl.month.trans hl'.month.symm)
  have hyear := printfD_inj (List.append_cancel_left hstem)
  have hmonth' := padded_inj hmonth
  have heq : tm = tm' := by
    cases tm
    cases tm'
    simp only [Tm.mk.injEq]
    exact ⟨by simpa using hyear, by simpa using hmonth', padded_inj hday, padded_inj hhour, padded_inj hmin,
      padded_inj hsec⟩
  rw [heq] at hs
  exact gmtimeR_inj hs ht

/-! ## Building a name -/

/-- Every name for a rotation of `path` fits the buffer. -/
def Fits (path : Bytes) : Prop :=
  ∀ now tm, gmtimeR now = some tm → ∀ n, n < wordSize → (rotationText path tm n).length < rotationBufferSize

theorem length_printfD {w k : Nat} (hw : w ≤ k) (hk : 0 < k) {n : Int} (h : n.natAbs < 10 ^ k) :
    (printfD w n).length ≤ k + 1 := by
  have hnumeral := length_numeral_le hk h
  unfold printfD
  split
  · rw [List.length_cons, length_padded]
    omega
  · rw [length_padded]
    omega

theorem length_rotationText (path : Bytes) {now : Int} {tm : Tm} (htm : gmtimeR now = some tm) {n : Nat}
    (hn : n < wordSize) : (rotationText path tm n).length ≤ path.length + 45 := by
  have hl := gmtimeR_twoDigits htm
  obtain ⟨hspec, hlow, hhigh⟩ := gmtimeR_spec htm
  have hyear : (printfD 4 (tm.tmYear + 1900)).length ≤ 10 + 1 :=
    length_printfD (by decide) (by decide) (by rw [hspec]; simp only; omega)
  have hseq : (padded 6 n).length ≤ 20 := by
    have := length_numeral_le (show 0 < 20 by decide) (show n < 10 ^ 20 by unfold wordSize at hn; omega)
    rw [length_padded]
    omega
  have hz : (ascii "Z.").length = 2 := rfl
  have hdot : (ascii ".").length = 1 := rfl
  have ht : (ascii "T").length = 1 := rfl
  simp only [rotationText, List.length_append, hl.month, hl.day, hl.hour, hl.minute, hl.second, hz, hdot, ht]
  omega

theorem fits_of_length {path : Bytes} (h : path.length < 4051) : Fits path := by
  intro now tm htm n hn
  have := length_rotationText path htm hn
  unfold rotationBufferSize
  omega

theorem fileSinkMakeRotationPath_text {sink : FileSink} {path target : Bytes} {now : Int} {size : Nat}
    (hpath : sink.path = some path) (h : fileSinkMakeRotationPath sink now size = .ok target) :
    ∃ tm, gmtimeR now = some tm ∧ target = rotationText path tm ((sink.rotationSequence + 1) % wordSize) := by
  rw [fileSinkMakeRotationPath, hpath] at h
  simp only at h
  split at h
  · cases h
  · rename_i tm htm
    split at h
    · cases h
    · cases h
      exact ⟨tm, htm, rfl⟩

theorem length_lt_rotationText (path : Bytes) (tm : Tm) (n : Nat) : path.length < (rotationText path tm n).length := by
  have hdot : (ascii ".").length = 1 := rfl
  simp only [rotationText, List.length_append, hdot]
  omega

theorem fileSinkMakeRotationPath_fits {sink : FileSink} {path : Bytes} (hpath : sink.path = some path)
    (hfits : Fits path) {now : Int} {tm : Tm} (htm : gmtimeR now = some tm) :
    fileSinkMakeRotationPath sink now rotationBufferSize =
      .ok (rotationText path tm ((sink.rotationSequence + 1) % wordSize)) := by
  have hroom := hfits now tm htm _ (Nat.mod_lt (sink.rotationSequence + 1) (show 0 < wordSize by decide))
  have hlong := length_lt_rotationText path tm ((sink.rotationSequence + 1) % wordSize)
  rw [fileSinkMakeRotationPath, hpath]
  simp only [htm]
  rw [if_neg (by omega)]

end IoJournal
