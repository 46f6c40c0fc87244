import Mathlib.Data.List.Infix
import IoJournal.Posix.Disk

/-!
# Posix.Crash

What a program that stops in the middle of its work leaves on the disk. The system keeps what the program
handed to it; what was still in a buffer of the program is gone.

* `Cut cut es`: of the effects `es` only `cut` happened. The last of them may be a part of an append.
* `Disk.stream` is a log in the order in which it was written: what every rename moved away, then the
  file that is written to.
* `Quiet` effects only append to one file (`Disk.run_quiet`), `Clearing` ones only remove other files
  (`Disk.run_clearing`).
* `Disk.since` leaves the renames before some moment out, which no effect notices (`Since.run`).
* `Disk.Keeps`: the files are there under the names they were moved to, which effects that only log leave so
  when no two of the names are the same (`LogsTo.log_eq`).
-/

namespace Posix

open Wire

inductive Cut : List Effect → List Effect → Prop where
  | stop (es : List Effect) : Cut [] es
  | torn {path part octets : Bytes} (es : List Effect) (h : part <+: octets) :
      Cut [.append path part] (.append path octets :: es)
  | next {cut es : List Effect} (e : Effect) (h : Cut cut es) : Cut (e :: cut) (e :: es)

namespace Cut

variable {cut es es' : List Effect}

theorem refl : (es : List Effect) → Cut es es
  | [] => .stop []
  | e :: es => .next e (refl es)

theorem of_nil (h : Cut cut []) : cut = [] := by
  cases h
  rfl

theorem of_append (h : Cut cut (es ++ es')) : Cut cut es ∨ ∃ rest, cut = es ++ rest ∧ Cut rest es' := by
  induction es generalizing cut with
  | nil => exact .inr ⟨cut, rfl, h⟩
  | cons e es ih =>
    cases h with
    | stop => exact .inl (.stop _)
    | torn _ hpart => exact .inl (.torn es hpart)
    | next _ htail =>
      rcases ih htail with hfirst | ⟨rest, rfl, hrest⟩
      · exact .inl (.next e hfirst)
      · exact .inr ⟨rest, rfl, hrest⟩

end Cut

namespace Effect

/-- The octets that the effect puts into the file. -/
def appended (path : Bytes) : Effect → Bytes
  | .append p octets => if p = path then octets else []
  | _ => []

/-- The effect can only create the file and append to it. -/
def Quiet (path : Bytes) : Effect → Prop
  | .append p _ => p = path
  | .create p => p = path
  | .rename _ _ _ => False
  | .unlink _ _ => False
  | _ => True

/-- The effect can only remove one of the files `gone`, and create the file without putting anything in. -/
def Clearing (path : Bytes) (gone : List Bytes) : Effect → Prop
  | .append p octets => p = path ∧ octets = []
  | .create p => p = path
  | .rename _ _ _ => False
  | .unlink p _ => p ∈ gone
  | _ => True

/-- The effect creates the file, appends to it or moves it away. -/
def Logs (path : Bytes) : Effect → Prop
  | .append p _ => p = path
  | .create p => p = path
  | .rename p target _ => p = path ∧ target ≠ path
  | .unlink _ _ => False
  | _ => True

theorem Quiet.logs {path : Bytes} {e : Effect} (h : e.Quiet path) : e.Logs path := by
  cases e with
  | rename => exact False.elim h
  | append | create | unlink | openFd | closeFd | stdout | send => exact h

theorem Clearing.logs {path : Bytes} {e : Effect} (h : e.Clearing path []) : e.Logs path := by
  cases e with
  | append p octets => exact h.1
  | rename => exact False.elim h
  | unlink p done => exact absurd h List.not_mem_nil
  | create | openFd | closeFd | stdout | send => exact h

end Effect

section Cuts

variable {path : Bytes} {cut es : List Effect}

theorem Cut.appended (h : Cut cut es) :
    cut.flatMap (Effect.appended path) <+: es.flatMap (Effect.appended path) := by
  induction h with
  | stop es => exact List.nil_prefix
  | @torn p part octets es hpart =>
    rw [List.flatMap_singleton, List.flatMap_cons, Effect.appended, Effect.appended]
    split
    · exact hpart.trans (List.prefix_append _ _)
    · exact List.nil_prefix
  | next e _ ih =>
    rw [List.flatMap_cons, List.flatMap_cons]
    exact (List.prefix_append_right_inj _).2 ih

theorem Cut.quiet (h : Cut cut es) (hes : ∀ e ∈ es, e.Quiet path) : ∀ e ∈ cut, e.Quiet path := by
  induction h with
  | stop => exact List.forall_mem_nil _
  | @torn p part octets es _ =>
    rw [List.forall_mem_singleton]
    have hwhole : (Effect.append p octets).Quiet path := hes _ List.mem_cons_self
    exact hwhole
  | next e _ ih =>
    exact List.forall_mem_cons.2 ⟨hes e List.mem_cons_self, ih fun e' he' => hes e' (List.mem_cons_of_mem _ he')⟩

theorem Cut.clearing {gone : List Bytes} (h : Cut cut es) (hes : ∀ e ∈ es, e.Clearing path gone) :
    ∀ e ∈ cut, e.Clearing path gone := by
  induction h with
  | stop => exact List.forall_mem_nil _
  | @torn p part octets es hpart =>
    rw [List.forall_mem_singleton]
    have hwhole : (Effect.append p octets).Clearing path gone := hes _ List.mem_cons_self
    obtain ⟨rfl, rfl⟩ := hwhole
    exact ⟨rfl, List.prefix_nil.1 hpart⟩
  | next e _ ih =>
    exact List.forall_mem_cons.2 ⟨hes e List.mem_cons_self, ih fun e' he' => hes e' (List.mem_cons_of_mem _ he')⟩

theorem Cut.logs {cut es : List Effect} (h : Cut cut es) (hes : ∀ e ∈ es, e.Logs path) : ∀ e ∈ cut, e.Logs path := by
  induction h with
  | stop => exact List.forall_mem_nil _
  | @torn p part octets es _ =>
    rw [List.forall_mem_singleton]
    have hwhole : (Effect.append p octets).Logs path := hes _ List.mem_cons_self
    exact hwhole
  | next e _ ih =>
    rw [List.forall_mem_cons] at hes ⊢
    exact ⟨hes.1, ih hes.2⟩

end Cuts

namespace Disk

variable {path : Bytes} {d d' : Disk} {es : List Effect}

/-- Everything that was written to the file since the disk was there, with the file's contents at that time: what
each rename moved away, then what is in the file. What was moved away may have been replaced or removed since. -/
def stream (path : Bytes) (d : Disk) : Bytes := (d.moved.map Prod.snd).flatten ++ d.contents path

theorem apply_quiet {e : Effect} (h : e.Quiet path) (hfile : (d.files path).isSome = true) :
    (d.apply e).files path = some (d.contents path ++ e.appended path) ∧
      (∀ p, p ≠ path → (d.apply e).files p = d.files p) ∧ (d.apply e).moved = d.moved := by
  obtain ⟨octets, hoctets⟩ := Option.isSome_iff_exists.1 hfile
  have hcontents : d.contents path = octets := by rw [contents, hoctets, Option.getD_some]
  have hsame : d.files path = some (d.contents path ++ []) := by rw [hcontents, hoctets, List.append_nil]
  cases e with
  | append p new =>
    have hp : p = path := h
    subst hp
    refine ⟨?_, fun q hq => set_files_other _ hq _, rfl⟩
    rw [apply, set_files_self, hoctets, Effect.appended, if_pos rfl, hcontents, Option.map_some]
  | create p =>
    have hp : p = path := h
    subst hp
    refine ⟨?_, fun q hq => set_files_other _ hq _, rfl⟩
    rw [apply, set_files_self]
    exact congrArg some (List.append_nil _).symm
  | rename => exact False.elim h
  | unlink => exact False.elim h
  | openFd => exact ⟨hsame, fun _ _ => rfl, rfl⟩
  | closeFd => exact ⟨hsame, fun _ _ => rfl, rfl⟩
  | stdout => exact ⟨hsame, fun _ _ => rfl, rfl⟩
  | send => exact ⟨hsame, fun _ _ => rfl, rfl⟩

theorem run_quiet (h : ∀ e ∈ es, e.Quiet path) (hfile : (d.files path).isSome = true) :
    (d.run es).files path = some (d.contents path ++ es.flatMap (Effect.appended path)) ∧
      (∀ p, p ≠ path → (d.run es).files p = d.files p) ∧ (d.run es).moved = d.moved := by
  induction es generalizing d with
  | nil =>
    obtain ⟨octets, hoctets⟩ := Option.isSome_iff_exists.1 hfile
    refine ⟨?_, fun _ _ => rfl, rfl⟩
    rw [List.flatMap_nil, List.append_nil, contents, run_nil, hoctets, Option.getD_some]
  | cons e es ih =>
    obtain ⟨hself, hothers, hmoved⟩ := apply_quiet (h e List.mem_cons_self) hfile
    obtain ⟨hself', hothers', hmoved'⟩ := ih (fun e' he' => h e' (List.mem_cons_of_mem _ he')) (by rw [hself]; rfl)
    have hcontents : (d.apply e).contents path = d.contents path ++ e.appended path := by
      rw [contents, hself, Option.getD_some]
    refine ⟨?_, fun p hp => (hothers' p hp).trans (hothers p hp), hmoved'.trans hmoved⟩
    rw [run_cons, hself', hcontents, List.flatMap_cons, List.append_assoc]

theorem apply_clearing {gone : List Bytes} {e : Effect} (h : e.Clearing path gone) (hpath : path ∉ gone) :
    (d.apply e).contents path = d.contents path ∧ (d.apply e).moved = d.moved ∧
      ∃ unlinked : Bytes → Bool, ∀ p, p ≠ path →
        (d.apply e).files p = if p ∈ gone ∧ unlinked p = true then none else d.files p := by
  have hkeeps : ∀ d' : Disk, (∀ p, p ≠ path → d'.files p = d.files p) → ∃ unlinked : Bytes → Bool, ∀ p, p ≠ path →
      d'.files p = if p ∈ gone ∧ unlinked p = true then none else d.files p :=
    fun d' hothers => ⟨fun _ => false, fun p hp => by rw [if_neg (fun hall => Bool.false_ne_true hall.2), hothers p hp]⟩
  cases e with
  | append p octets =>
    obtain ⟨rfl, rfl⟩ := h
    rw [apply_append_nil]
    exact ⟨rfl, rfl, hkeeps d fun _ _ => rfl⟩
  | create p =>
    have hp : p = path := h
    subst hp
    refine ⟨?_, rfl, hkeeps _ fun q hq => set_files_other _ hq _⟩
    rw [apply, contents, set_files_self, Option.getD_some]
  | rename => exact False.elim h
  | openFd => exact ⟨rfl, rfl, hkeeps d fun _ _ => rfl⟩
  | closeFd => exact ⟨rfl, rfl, hkeeps d fun _ _ => rfl⟩
  | stdout => exact ⟨rfl, rfl, hkeeps d fun _ _ => rfl⟩
  | send => exact ⟨rfl, rfl, hkeeps d fun _ _ => rfl⟩
  | unlink q done =>
    cases done with
    | false => exact ⟨rfl, rfl, hkeeps d fun _ _ => rfl⟩
    | true =>
      have hq : q ∈ gone := h
      have hne : path ≠ q := fun heq => hpath (heq ▸ hq)
      refine ⟨?_, rfl, fun p => decide (p = q), fun p _ => ?_⟩
      · rw [apply, contents, set_files_other _ hne]
        rfl
      · by_cases hpq : p = q
        · subst hpq
          simp [apply, hq]
        · rw [apply, set_files_other _ hpq]
          simp [hpq]

/-- What was removed are files of `gone`, those that `unlinked` says. -/
theorem run_clearing (d : Disk) {gone : List Bytes} (h : ∀ e ∈ es, e.Clearing path gone) (hpath : path ∉ gone) :
    (d.run es).contents path = d.contents path ∧ (d.run es).moved = d.moved ∧
      ∃ unlinked : Bytes → Bool, ∀ p, p ≠ path →
        (d.run es).files p = if p ∈ gone ∧ unlinked p = true then none else d.files p := by
  induction es generalizing d with
  | nil => exact ⟨rfl, rfl, fun _ => false, fun p _ => (if_neg (fun h => Bool.false_ne_true h.2)).symm⟩
  | cons e es ih =>
    obtain ⟨hcontents, hmoved, first, hfirst⟩ := apply_clearing (h e List.mem_cons_self) hpath
    obtain ⟨hcontents', hmoved', unlinked, hfiles⟩ := ih (d.apply e) fun e' he' => h e' (List.mem_cons_of_mem _ he')
    refine ⟨hcontents'.trans hcontents, hmoved'.trans hmoved, fun p => first p || unlinked p, fun p hp => ?_⟩
    rw [run_cons, hfiles p hp, hfirst p hp, ← ite_or]
    refine if_congr ?_ rfl rfl
    rw [Bool.or_eq_true, and_or_left, or_comm]

/-- The disk without the renames that `d` has seen. -/
def since (d d' : Disk) : Disk := { d' with moved := d'.moved.drop d.moved.length }

/-- The files of `d`, and its renames after the first ones, which are `before`. -/
structure Since (before : List (Bytes × Bytes)) (d d' : Disk) : Prop where
  files : d'.files = d.files
  moved : d.moved = before ++ d'.moved

theorem Since.apply {before : List (Bytes × Bytes)} (h : Since before d d') (e : Effect) :
    Since before (d.apply e) (d'.apply e) := by
  obtain ⟨files, moved⟩ := d
  obtain ⟨files', moved'⟩ := d'
  obtain ⟨rfl, rfl⟩ := h
  cases e with
  | append | create | openFd | closeFd | stdout | send => exact ⟨rfl, rfl⟩
  | rename old new done =>
    cases done with
    | false => exact ⟨rfl, rfl⟩
    | true => exact ⟨rfl, List.append_assoc _ _ _⟩
  | unlink p done => cases done <;> exact ⟨rfl, rfl⟩

theorem Since.run {before : List (Bytes × Bytes)} (h : Since before d d') (es : List Effect) :
    Since before (d.run es) (d'.run es) := by
  induction es generalizing d d' with
  | nil => exact h
  | cons e es ih => exact ih (h.apply e)

theorem since_start (d : Disk) : Since d.moved d { d with moved := [] } := ⟨rfl, (List.append_nil _).symm⟩

theorem Since.eq {start : Disk} (h : Since start.moved d d') : start.since d = d' := by
  obtain ⟨files, moved⟩ := d
  obtain ⟨files', moved'⟩ := d'
  obtain ⟨rfl, rfl⟩ := h
  exact congrArg (Disk.mk files') List.drop_left

theorem since_since {start : Disk} (h : start.moved <+: d.moved) : Since start.moved d (start.since d) := by
  refine ⟨rfl, ?_⟩
  obtain ⟨rest, hrest⟩ := h
  rw [since, ← hrest, List.drop_left]

theorem Since.stream {before : List (Bytes × Bytes)} (h : Since before d d') (path : Bytes) :
    d.stream path = (before.map Prod.snd).flatten ++ d'.stream path := by
  rw [Disk.stream, Disk.stream, h.moved, List.map_append, List.flatten_append, List.append_assoc, contents, contents,
    h.files]

theorem Since.unique {before : List (Bytes × Bytes)} {d d' start : Disk} (h : Since before d start)
    (h' : Since before d' start) : d = d' := by
  obtain ⟨files, moved⟩ := d
  obtain ⟨files', moved'⟩ := d'
  obtain ⟨rfl, rfl⟩ := h
  obtain ⟨hfiles, rfl⟩ := h'
  exact congrArg (Disk.mk · _) hfiles

/-! ## The files that were moved away -/

/-- What was moved away is there under its new name. -/
def Keeps (path : Bytes) (d : Disk) : Prop := ∀ e ∈ d.moved, e.1 ≠ path ∧ d.contents e.1 = e.2

/-- The contents of the files that were moved away, then those of the file, as they are on the disk. -/
def log (path : Bytes) (d : Disk) : Bytes := (d.moved.map fun e => d.contents e.1).flatten ++ d.contents path

theorem Keeps.log_eq (h : d.Keeps path) : d.log path = d.stream path := by
  rw [log, stream, List.map_congr_left fun e he => (h e he).2]

theorem apply_moved (d : Disk) (e : Effect) : d.moved <+: (d.apply e).moved := by
  cases e with
  | rename old new done =>
    cases done with
    | true => exact List.prefix_append _ _
    | false => exact List.prefix_rfl
  | unlink p done => cases done <;> exact List.prefix_rfl
  | append | create | openFd | closeFd | stdout | send => exact List.prefix_rfl

theorem run_moved (d : Disk) (es : List Effect) : d.moved <+: (d.run es).moved := by
  induction es generalizing d with
  | nil => exact List.prefix_rfl
  | cons e es ih => exact (d.apply_moved e).trans (ih (d.apply e))

theorem Keeps.set (h : d.Keeps path) (value : Option Bytes) : (d.set path value).Keeps path := by
  intro e he
  obtain ⟨hne, hcontents⟩ := h e he
  refine ⟨hne, ?_⟩
  rw [contents, set_files_other d hne]
  exact hcontents

theorem Keeps.apply (h : d.Keeps path) {e : Effect} (he : e.Logs path)
    (hnodup : ((d.apply e).moved.map Prod.fst).Nodup) : (d.apply e).Keeps path := by
  cases e with
  | append p octets =>
    obtain rfl : p = path := he
    exact h.set _
  | create p =>
    obtain rfl : p = path := he
    exact h.set _
  | unlink => exact False.elim he
  | openFd | closeFd | stdout | send => exact h
  | rename p target done =>
    obtain ⟨rfl, hne⟩ := he
    cases done with
    | false => exact h
    | true =>
      have hfiles : ∀ q, q ≠ p → (d.apply (.rename p target true)).files q =
          (d.set target (d.files p)).files q := fun q hq => set_files_other _ hq none
      have hmoved : (d.apply (.rename p target true)).moved = d.moved ++ [(target, d.contents p)] := rfl
      rw [hmoved, List.map_append, List.map_singleton, List.nodup_append] at hnodup
      intro e he
      rw [hmoved] at he
      rcases List.mem_append.1 he with he | he
      · obtain ⟨hep, hcontents⟩ := h e he
        have hother : e.1 ≠ target := hnodup.2.2 _ (List.mem_map_of_mem he) _ List.mem_cons_self
        refine ⟨hep, ?_⟩
        rw [contents, hfiles _ hep, set_files_other d hother]
        exact hcontents
      · rw [List.mem_singleton.1 he]
        refine ⟨hne, ?_⟩
        rw [contents, hfiles _ hne, set_files_self]
        rfl

theorem Keeps.run (h : d.Keeps path) (hes : ∀ e ∈ es, e.Logs path)
    (hnodup : ((d.run es).moved.map Prod.fst).Nodup) : (d.run es).Keeps path := by
  induction es generalizing d with
  | nil => exact h
  | cons e es ih =>
    rw [List.forall_mem_cons] at hes
    have hfirst := hnodup.sublist (((d.apply e).run_moved es).sublist.map Prod.fst)
    exact ih (h.apply hes.1 hfirst) hes.2 hnodup

/-- `d'` comes of `d` by effects that log. -/
def LogsTo (path : Bytes) (d d' : Disk) : Prop := ∃ es, (∀ e ∈ es, e.Logs path) ∧ d' = d.run es

theorem LogsTo.refl : d.LogsTo path d := ⟨[], List.forall_mem_nil _, rfl⟩

theorem LogsTo.of_run (hes : ∀ e ∈ es, e.Logs path) : d.LogsTo path (d.run es) := ⟨es, hes, rfl⟩

theorem LogsTo.trans {d'' : Disk} (h : d.LogsTo path d') (h' : d'.LogsTo path d'') : d.LogsTo path d'' := by
  obtain ⟨es, hes, rfl⟩ := h
  obtain ⟨es', hes', rfl⟩ := h'
  exact ⟨es ++ es', List.forall_mem_append.2 ⟨hes, hes'⟩, (run_append d es es').symm⟩

theorem LogsTo.log_eq (h : d.LogsTo path d') (hkeeps : d.Keeps path) (hnodup : (d'.moved.map Prod.fst).Nodup) :
    d'.log path = d'.stream path := by
  obtain ⟨es, hes, rfl⟩ := h
  exact (hkeeps.run hes hnodup).log_eq

end Disk
end Posix
